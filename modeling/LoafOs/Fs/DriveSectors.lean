import LoafOs.Fs.Disk

/-!
# Sectors by cylinder, head and sector

A drive has the sectors with the triples that cylinder, head and sector
registers can address, and reports an error for every other triple.  On such
a drive `read_lba` and `write_lba` transfer every block below `lbaLimit`,
and no two blocks share a sector.
-/

namespace LoafOs

/-- A triple that the drive has a sector for. -/
structure Chs.Valid (chs : Chs) : Prop where
  sector_pos : 1 ≤ chs.sector
  sector_le : chs.sector ≤ 63
  head_lt : chs.head < 16
  cylinder_lt : chs.cylinder < 65536

theorem Chs.valid_iff {chs : Chs} :
    chs.Valid ↔ 1 ≤ chs.sector ∧ chs.sector ≤ 63 ∧ chs.head < 16 ∧
      chs.cylinder < 65536 :=
  ⟨fun ⟨low, high, head, cylinder⟩ => ⟨low, high, head, cylinder⟩,
    fun ⟨low, high, head, cylinder⟩ => ⟨low, high, head, cylinder⟩⟩

instance (chs : Chs) : Decidable chs.Valid :=
  decidable_of_iff _ Chs.valid_iff.symm

/-- The disk is a map from the valid triples to sectors: it answers for
these and for no others, and never runs out of writes. -/
structure Disk.Drive (disk : Disk) : Prop where
  bad : ∀ chs, disk.bad chs = !decide chs.Valid
  writesLeft : disk.writesLeft = none

/-- Every sector number is converted to a valid triple. -/
theorem lbaToChs_valid (lba : Nat) : (lbaToChs lba).Valid where
  sector_pos := by simp only [lbaToChs]; omega
  sector_le := by simp only [lbaToChs, sectorsPerTrack]; omega
  head_lt := by simp only [lbaToChs, headsPerCylinder]; omega
  cylinder_lt := by simp only [lbaToChs, u16]; omega

/-- Every sector of the block can be read. -/
def Disk.Readable (disk : Disk) (lba count : Nat) : Prop :=
  ∀ pass < count, disk.bad (lbaToChs (lba + pass)) = false

instance (disk : Disk) (lba count : Nat) :
    Decidable (disk.Readable lba count) :=
  inferInstanceAs (Decidable (∀ pass < count, _))

/-- The same sectors on a disk that answers for every triple. -/
def Disk.answering (disk : Disk) : Disk :=
  { disk with bad := fun _ => false, writesLeft := none }

theorem Disk.answering_sound (disk : Disk) : disk.answering.Sound :=
  ⟨fun _ => rfl, rfl⟩

section Reads

variable {disk : Disk} {lba : Nat}

theorem readLbaLoop_answering :
    ∀ (count pass : Nat) (buffer : Bytes),
      (∀ later < count,
        disk.bad (lbaToChs (u32 (lba + (pass + later)))) = false) →
      readLbaLoop disk lba count pass buffer =
        readLbaLoop disk.answering lba count pass buffer
  | 0, _, _, _ => rfl
  | count + 1, pass, buffer, readable => by
      have here := readable 0 (by omega)
      have same (buffer : Bytes) :
          ataReadSectors disk (lbaToChs (u32 (lba + pass))) buffer =
            ataReadSectors disk.answering (lbaToChs (u32 (lba + pass)))
              buffer := by
        simp only [Nat.add_zero] at here
        simp only [ataReadSectors, here]
        rfl
      rw [readLbaLoop, readLbaLoop, same]
      congr 1
      funext read
      refine readLbaLoop_answering count (pass + 1) _ fun later bound => ?_
      have next := readable (later + 1) (by omega)
      rwa [Nat.add_comm later 1, ← Nat.add_assoc pass] at next

theorem readLbaLoop_bad :
    ∀ (count pass : Nat) (buffer : Bytes) (later : Nat), later < count →
      disk.bad (lbaToChs (u32 (lba + (pass + later)))) = true →
        readLbaLoop disk lba count pass buffer = none
  | count + 1, pass, buffer, 0, _, bad => by
      rw [Nat.add_zero] at bad
      rw [readLbaLoop, ataReadSectors, if_pos bad]
      rfl
  | count + 1, pass, buffer, later + 1, bound, bad => by
      rw [Nat.add_comm later 1, ← Nat.add_assoc pass] at bad
      rw [readLbaLoop]
      cases ataReadSectors disk (lbaToChs (u32 (lba + pass)))
          (buffer.shift (512 * pass)) with
      | none => rfl
      | some read =>
          exact readLbaLoop_bad count (pass + 1) _ later (by omega) bad

theorem u32_lba {pass count : Nat} (bound : lba + count ≤ lbaLimit)
    (inside : pass < count) : u32 (lba + pass) = lba + pass := by
  simp only [lbaLimit] at bound
  simp only [u32]
  omega

/-- `read_lba` copies the block of the flat memory, if it can be read. -/
theorem Disk.Readable.readLba_eq {count : Nat}
    (readable : disk.Readable lba count) (bound : lba + count ≤ lbaLimit)
    (buffer : Bytes) :
    readLba disk lba count buffer =
      some (buffer.copy 0 (disk.answering.mem.shift (512 * lba))
        (512 * count)) := by
  refine (readLbaLoop_answering count 0 buffer fun later inside => ?_).trans
    (LoafOs.readLba_eq disk.answering_sound bound buffer)
  rw [Nat.zero_add, u32_lba bound inside]
  exact readable later inside

theorem readLba_unreadable {count : Nat}
    (unreadable : ¬ disk.Readable lba count)
    (bound : lba + count ≤ lbaLimit) (buffer : Bytes) :
    readLba disk lba count buffer = none := by
  simp only [Disk.Readable, not_forall, Bool.not_eq_false] at unreadable
  obtain ⟨pass, inside, bad⟩ := unreadable
  refine readLbaLoop_bad count 0 buffer pass inside ?_
  rw [Nat.zero_add, u32_lba bound inside]
  exact bad

end Reads

section Drives

variable {disk : Disk} {lba : Nat} {buffer : Bytes}

theorem Disk.Drive.answers (drive : disk.Drive) (lba : Nat) :
    disk.bad (lbaToChs lba) = false := by
  simp [drive.bad, lbaToChs_valid]

theorem Disk.Drive.readable (drive : disk.Drive) (lba count : Nat) :
    disk.Readable lba count :=
  fun pass _ => drive.answers (lba + pass)

theorem ataWriteSectors_answering (drive : disk.Drive) (lba : Nat)
    (buffer : Bytes) :
    ∃ disk', ataWriteSectors disk (lbaToChs lba) buffer = (0, disk') ∧
      ataWriteSectors disk.answering (lbaToChs lba) buffer =
        (0, disk'.answering) ∧
      disk'.Drive := by
  have good : ¬ (disk.bad (lbaToChs lba) ||
      disk.writesLeft == some 0) = true := by
    simp [drive.answers, drive.writesLeft]
  have good' : ¬ (disk.answering.bad (lbaToChs lba) ||
      disk.answering.writesLeft == some 0) = true := by
    simp [Disk.answering]
  rw [ataWriteSectors, if_neg good, ataWriteSectors, if_neg good']
  exact ⟨_, rfl, rfl, drive.bad, by simp [drive.writesLeft]⟩

theorem writeLbaLoop_answering :
    ∀ (count pass : Nat) {disk disk' : Disk}, disk.Drive →
      writeLbaLoop lba buffer count pass disk.answering = (0, disk') →
        ∃ written, writeLbaLoop lba buffer count pass disk = (0, written) ∧
          written.Drive ∧ written.answering = disk'
  | 0, _, disk, _, drive, done => ⟨disk, rfl, drive, (Prod.ext_iff.mp done).2⟩
  | count + 1, pass, disk, disk', drive, done => by
      obtain ⟨next, writeEq, writeEq', nextDrive⟩ :=
        ataWriteSectors_answering drive (u32 (lba + pass))
          (buffer.shift (512 * pass))
      rw [writeLbaLoop, writeEq'] at done
      rw [writeLbaLoop, writeEq]
      exact writeLbaLoop_answering count (pass + 1) nextDrive done

/-- `write_lba` copies the buffer into the flat memory. -/
theorem Disk.Drive.writeLba_eq (drive : disk.Drive) {count : Nat}
    (bound : lba + count ≤ lbaLimit) (buffer : Bytes) :
    ∃ disk', writeLba disk lba count buffer = (0, disk') ∧
      disk'.Drive ∧
      disk'.answering.mem =
        disk.answering.mem.copy (512 * lba) buffer (512 * count) := by
  obtain ⟨sound, writeEq, _, mem⟩ :=
    LoafOs.writeLba_eq disk.answering_sound bound buffer
  obtain ⟨disk', result, drive', same⟩ :=
    writeLbaLoop_answering count 0 drive writeEq
  exact ⟨disk', result, drive', same ▸ mem⟩

/-- A block that was written reads back, every other sector reads as
before, and all triples on the way are valid. -/
theorem transfers_faithful (drive : disk.Drive) {count : UInt8}
    (bound : lba + count.toNat ≤ 63 * 16 * 65536) (buffer : Bytes) :
    ∃ disk', writeLba disk lba count.toNat buffer = (0, disk') ∧
      disk'.Drive ∧
      (∀ dest, readLba disk' lba count.toNat dest =
        some (dest.copy 0 buffer (512 * count.toNat))) ∧
      (∀ other < 63 * 16 * 65536,
        other < lba ∨ lba + count.toNat ≤ other →
          ∀ dest, readLba disk' other 1 dest = readLba disk other 1 dest) ∧
      ∀ pass < count.toNat, (lbaToChs (u32 (lba + pass))).Valid := by
  have limit : lbaLimit = 63 * 16 * 65536 := by rw [lbaLimit]
  rw [← limit] at bound ⊢
  obtain ⟨disk', result, drive', mem⟩ := drive.writeLba_eq bound buffer
  refine ⟨disk', result, drive', fun dest => ?_,
    fun other below apart dest => ?_, fun pass _ => lbaToChs_valid _⟩
  · rw [(drive'.readable _ _).readLba_eq bound, mem]
    congr 1
    refine Bytes.copy_congr fun index inside => ?_
    rw [Bytes.shift, Bytes.copy_inside (by omega) (by omega),
      Nat.add_sub_cancel_left]
  · rw [(drive'.readable _ _).readLba_eq below,
      (drive.readable _ _).readLba_eq below, mem]
    congr 1
    refine Bytes.copy_congr fun index inside => ?_
    rw [Bytes.shift, Bytes.shift, Bytes.copy_outside (by omega)]

end Drives

/-- A drive whose sectors are zero. -/
def blankDrive : Disk where
  sectors := fun _ _ => 0
  bad := fun chs => !decide chs.Valid
  writesLeft := none

/-- The last sector of the drive. -/
theorem lastSector_faithful :
    ∃ disk', writeLba blankDrive 66060287 1 (fun _ => 0xe5) = (0, disk') ∧
      readLba disk' 66060287 1 (fun _ => 0) =
        some (Bytes.copy (fun _ => 0) 0 (fun _ => 0xe5) 512) ∧
      readLba disk' 0 1 (fun _ => 0) =
        readLba blankDrive 0 1 (fun _ => 0) := by
  have drive : blankDrive.Drive := ⟨fun _ => rfl, rfl⟩
  obtain ⟨disk', result, _, back, others, _⟩ :=
    transfers_faithful drive (by decide : 66060287 + (1 : UInt8).toNat ≤ 63 * 16 * 65536)
      fun _ => 0xe5
  exact ⟨disk', result, back _, others 0 (by decide) (.inl (by decide)) _⟩

end LoafOs
