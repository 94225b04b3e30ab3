import LoafOs.Lib.ByteMemory
import LoafOs.Words

/-!
# The ATA disk

`src/devices/ata.c` addresses the disk by cylinder, head and sector;
`read_lba` and `write_lba` of `src/fs/fat.c` convert every sector number with
`lba_to_chs`.  The disk is a map from those triples to sectors.  Below
`lbaLimit` the conversion is injective, so the disk is one flat byte memory
`Disk.mem`, and the two transfer loops copy a block from and to it.
-/

namespace LoafOs

def sectorsPerTrack : Nat := 63
def headsPerCylinder : Nat := 16

/-- The address that the drive registers hold for one transfer. -/
structure Chs where
  cylinder : Nat
  head : Nat
  sector : Nat
  deriving DecidableEq, Repr

/-- `lba_to_chs`; the results are stored in a `uint16_t` and two
`uint8_t`. -/
def lbaToChs (lba : Nat) : Chs where
  cylinder := u16 ((lba / sectorsPerTrack) / headsPerCylinder)
  head := (lba / sectorsPerTrack) % headsPerCylinder
  sector := (lba % sectorsPerTrack) + 1

/-- One sector; `SECTOR_SIZE` is written 512 throughout. -/
abbrev Sector := Fin 512 → UInt8

/-- The disk behind the ATA ports.  A transfer that touches a `bad` sector
ends with `ATA_SR_ERR`, and so does every write once `writesLeft`, when it
is set, has been used up. -/
structure Disk where
  sectors : Chs → Sector
  bad : Chs → Bool
  writesLeft : Option Nat

/-- `ata_read_sectors`, which every caller calls for one sector; `none` is
its error return. -/
def ataReadSectors (disk : Disk) (chs : Chs) (buffer : Bytes) :
    Option Bytes :=
  if disk.bad chs then
    none
  else
    some fun index =>
      if bound : index < 512 then disk.sectors chs ⟨index, bound⟩
      else buffer index

/-- `ata_write_sectors` for one sector, with its return value. -/
def ataWriteSectors (disk : Disk) (chs : Chs) (buffer : Bytes) :
    Nat × Disk :=
  if disk.bad chs || disk.writesLeft == some 0 then
    (1, disk)
  else
    (0,
      { disk with
        sectors := fun other =>
          if other = chs then fun index => buffer index
          else disk.sectors other
        writesLeft := disk.writesLeft.map Nat.pred })

/-- The loop of `read_lba` with `count` sectors left, at pass `pass`. -/
def readLbaLoop (disk : Disk) (lba : Nat) :
    (count pass : Nat) → Bytes → Option Bytes
  | 0, _, buffer => some buffer
  | count + 1, pass, buffer => do
      let read ← ataReadSectors disk (lbaToChs (u32 (lba + pass)))
        (buffer.shift (512 * pass))
      readLbaLoop disk lba count (pass + 1)
        (buffer.copy (512 * pass) read 512)

/-- `read_lba`: `none` stands for its return value 1. -/
def readLba (disk : Disk) (lba count : Nat) (buffer : Bytes) :
    Option Bytes :=
  readLbaLoop disk lba count 0 buffer

/-- The loop of `write_lba` with `count` sectors left, at pass `pass`. -/
def writeLbaLoop (lba : Nat) (buffer : Bytes) :
    (count pass : Nat) → Disk → Nat × Disk
  | 0, _, disk => (0, disk)
  | count + 1, pass, disk =>
      let (failed, disk) :=
        ataWriteSectors disk (lbaToChs (u32 (lba + pass)))
          (buffer.shift (512 * pass))
      if failed ≠ 0 then (1, disk)
      else writeLbaLoop lba buffer count (pass + 1) disk

/-- `write_lba`, with its return value; an error leaves the sectors before
it written. -/
def writeLba (disk : Disk) (lba count : Nat) (buffer : Bytes) :
    Nat × Disk :=
  writeLbaLoop lba buffer count 0 disk

/-- The number of sectors that cylinder, head and sector can address. -/
@[irreducible]
def lbaLimit : Nat := 63 * 16 * 65536

theorem lbaToChs_injective {left right : Nat}
    (leftBound : left < lbaLimit) (rightBound : right < lbaLimit)
    (same : lbaToChs left = lbaToChs right) : left = right := by
  simp only [lbaToChs, sectorsPerTrack, headsPerCylinder, u16,
    Chs.mk.injEq] at same
  simp only [lbaLimit] at leftBound rightBound
  omega

namespace Disk

/-- No transfer reports an error. -/
structure Sound (disk : Disk) : Prop where
  bad : ∀ chs, disk.bad chs = false
  writesLeft : disk.writesLeft = none

/-- The disk as one flat byte memory. -/
def mem (disk : Disk) : Bytes := fun address =>
  if address < 512 * lbaLimit then
    disk.sectors (lbaToChs (address / 512))
      ⟨address % 512, Nat.mod_lt _ (by decide)⟩
  else
    0

end Disk

section SoundDisk

variable {disk : Disk}

theorem ataReadSectors_eq (sound : disk.Sound) {lba : Nat}
    (bound : lba < lbaLimit) (buffer : Bytes) :
    ataReadSectors disk (lbaToChs lba) buffer =
      some (buffer.copy 0 (disk.mem.shift (512 * lba))
        512) := by
  have good : ¬ disk.bad (lbaToChs lba) = true := by
    simp [sound.bad]
  rw [ataReadSectors, if_neg good]
  congr 1
  funext index
  by_cases inside : index < 512
  · have address : 512 * lba + index < 512 * lbaLimit := by omega
    have sector : (512 * lba + index) / 512 = lba := by omega
    have offset : (512 * lba + index) % 512 = index := by omega
    rw [dif_pos inside, Bytes.copy_inside (by omega) (by omega),
      Bytes.shift, Nat.sub_zero, Disk.mem, if_pos address, sector]
    congr 1
    exact Fin.ext offset.symm
  · rw [dif_neg inside, Bytes.copy_outside (by omega)]

theorem ataWriteSectors_eq (sound : disk.Sound) {lba : Nat}
    (bound : lba < lbaLimit) (buffer : Bytes) :
    ∃ disk', ataWriteSectors disk (lbaToChs lba) buffer = (0, disk') ∧
      disk'.Sound ∧
      disk'.mem = disk.mem.copy (512 * lba) buffer 512 := by
  have good : ¬ (disk.bad (lbaToChs lba) ||
      disk.writesLeft == some 0) = true := by
    simp [sound.bad, sound.writesLeft]
  rw [ataWriteSectors, if_neg good]
  refine ⟨_, rfl, ⟨sound.bad, by simp [sound.writesLeft]⟩, ?_⟩
  funext address
  simp only [Disk.mem]
  by_cases inside :
      512 * lba ≤ address ∧ address < 512 * lba + 512
  · have limit : address < 512 * lbaLimit := by omega
    have sector : address / 512 = lba := by omega
    have offset : address % 512 = address - 512 * lba := by omega
    rw [Bytes.copy_inside inside.1 inside.2]
    simp only [if_pos limit, sector, if_true, offset]
  · rw [Bytes.copy_outside (by omega)]
    by_cases limit : address < 512 * lbaLimit
    · have other : lbaToChs (address / 512) ≠ lbaToChs lba := by
        intro same
        have := lbaToChs_injective (by omega) bound same
        omega
      simp only [Disk.mem, if_pos limit, if_neg other]
    · simp only [Disk.mem, if_neg limit]

theorem readLbaLoop_eq (sound : disk.Sound) {lba : Nat} :
    ∀ (count pass : Nat) (buffer : Bytes),
      lba + pass + count ≤ lbaLimit →
        readLbaLoop disk lba count pass buffer =
          some (buffer.copy (512 * pass)
            (disk.mem.shift (512 * (lba + pass)))
            (512 * count))
  | 0, pass, buffer, _ => by
      simp [readLbaLoop]
  | count + 1, pass, buffer, bound => by
      have small : u32 (lba + pass) = lba + pass := by
        simp only [u32, lbaLimit] at bound ⊢
        omega
      have here : lba + pass < lbaLimit := by omega
      rw [readLbaLoop, small,
        ataReadSectors_eq sound here]
      simp only [Option.bind_eq_bind, Option.bind_some]
      rw [readLbaLoop_eq sound count (pass + 1) _ (by omega)]
      have moved :
          disk.mem.shift (512 * (lba + (pass + 1))) =
            (disk.mem.shift (512 * (lba + pass))).shift 512 := by
        funext index
        have address : 512 * (lba + (pass + 1)) + index =
            512 * (lba + pass) + (512 + index) := by
          omega
        simp only [Bytes.shift, address]
      have step : 512 * (pass + 1) = 512 * pass + 512 := by omega
      have total : 512 * (count + 1) = 512 + 512 * count := by omega
      have inner :
          buffer.copy (512 * pass)
              ((buffer.shift (512 * pass)).copy 0
                (disk.mem.shift (512 * (lba + pass))) 512)
              512 =
            buffer.copy (512 * pass)
              (disk.mem.shift (512 * (lba + pass))) 512 :=
        Bytes.copy_congr fun index inside => by
          rw [Bytes.copy_inside (by omega) (by omega), Nat.sub_zero]
      rw [inner, moved, step, total, Bytes.copy_copy_adjacent]

/-- Without disk errors `read_lba` copies the block of the flat memory. -/
theorem readLba_eq (sound : disk.Sound) {lba count : Nat}
    (bound : lba + count ≤ lbaLimit) (buffer : Bytes) :
    readLba disk lba count buffer =
      some (buffer.copy 0 (disk.mem.shift (512 * lba))
        (512 * count)) := by
  simpa [readLba] using
    readLbaLoop_eq sound count 0 buffer (by omega)

theorem writeLbaLoop_eq (lba : Nat) (buffer : Bytes) :
    ∀ (count pass : Nat) (disk : Disk), disk.Sound →
      lba + pass + count ≤ lbaLimit →
        ∃ disk', writeLbaLoop lba buffer count pass disk = (0, disk') ∧
          disk'.Sound ∧
          disk'.mem = disk.mem.copy (512 * (lba + pass))
            (buffer.shift (512 * pass)) (512 * count)
  | 0, pass, disk, sound, _ => ⟨disk, rfl, sound, by simp⟩
  | count + 1, pass, disk, sound, bound => by
      have small : u32 (lba + pass) = lba + pass := by
        simp only [u32, lbaLimit] at bound ⊢
        omega
      have here : lba + pass < lbaLimit := by omega
      obtain ⟨written, writeEq, writtenSound, writtenMem⟩ :=
        ataWriteSectors_eq sound here
          (buffer.shift (512 * pass))
      obtain ⟨final, loopEq, finalSound, finalMem⟩ :=
        writeLbaLoop_eq lba buffer count (pass + 1) written
          writtenSound (by omega)
      refine ⟨final, ?_, finalSound, ?_⟩
      · rw [writeLbaLoop, small, writeEq]
        simpa using loopEq
      · have moved : buffer.shift (512 * (pass + 1)) =
            (buffer.shift (512 * pass)).shift 512 := by
          funext index
          have address : 512 * (pass + 1) + index =
              512 * pass + (512 + index) := by
            omega
          simp only [Bytes.shift, address]
        have step : 512 * (lba + (pass + 1)) =
            512 * (lba + pass) + 512 := by omega
        have total : 512 * (count + 1) = 512 + 512 * count := by omega
        rw [finalMem, writtenMem, moved, step, total,
          Bytes.copy_copy_adjacent]

/-- Without disk errors `write_lba` copies the buffer into the flat
memory. -/
theorem writeLba_eq (sound : disk.Sound) {lba count : Nat}
    (bound : lba + count ≤ lbaLimit) (buffer : Bytes) :
    ∃ disk', writeLba disk lba count buffer = (0, disk') ∧
      disk'.Sound ∧
      disk'.mem = disk.mem.copy (512 * lba) buffer
        (512 * count) := by
  have shiftZero : buffer.shift 0 = buffer := by
    funext index
    simp [Bytes.shift]
  simpa [writeLba, shiftZero] using
    writeLbaLoop_eq lba buffer count 0 disk sound (by omega)

end SoundDisk

end LoafOs
