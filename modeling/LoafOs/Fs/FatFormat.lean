import LoafOs.Fs.FatTree

/-!
# A formatted volume

A volume whose table, root directory and data sectors are all zero holds
nothing.  It is well formed for every geometry that fits the table, so it
is where runs of the driver start.
-/

namespace LoafOs

/-- A disk of zeros that never fails. -/
def blankDisk : Disk where
  sectors := fun _ _ => 0
  bad := fun _ => false
  writesLeft := none

theorem blankDisk_sound : blankDisk.Sound :=
  ⟨fun _ => rfl, rfl⟩

theorem blankDisk_mem (address : Nat) : blankDisk.mem address = 0 := by
  rw [Disk.mem]
  split <;> rfl

/-- The volume that a format leaves. -/
def formatted (bpb : Bpb) : Volume :=
  ⟨bpb, fun _ => 0, blankDisk⟩

theorem formatted_next (bpb : Bpb) (cluster : Nat) :
    (formatted bpb).next cluster = 0 := by
  rw [Volume.next, formatted, fatNext_eq]
  split <;> simp

theorem formatted_not_live (bpb : Bpb) (slot : Nat) :
    ¬ Live (formatted bpb).mem slot := by
  intro live
  exact live.1.1 (blankDisk_mem slot)

theorem formatted_not_reach (bpb : Bpb) (entry : Nat) :
    ¬ Reach (formatted bpb) entry :=
  fun reach => formatted_not_live bpb entry reach.live

theorem formatted_wellFormed {bpb : Bpb} (geometry : Geometry bpb) :
    WellFormed (formatted bpb) where
  geometry := geometry
  chain := fun entry reach =>
    absurd reach (formatted_not_reach bpb entry)
  disjoint := fun left _ _ reach =>
    absurd reach (formatted_not_reach bpb left)
  used := by
    intro cluster _ _
    constructor
    · intro used
      exact absurd (formatted_next bpb cluster) used
    · rintro ⟨entry, reach, _⟩
      exact absurd reach (formatted_not_reach bpb entry)
  copies := by
    intro copy _ index _
    exact blankDisk_mem _

/-- What a call has left of the volume. -/
def Volume.after (volume : Volume) (result : Option (Nat × Volume)) :
    Volume :=
  (result.map Prod.snd).getD volume

theorem Volume.after_eq {volume : Volume}
    {result : Option (Nat × Volume)} {code : Nat}
    (codeEq : result.map Prod.fst = some code) :
    result = some (code, volume.after result) := by
  cases result with
  | none => cases codeEq
  | some pair =>
      obtain ⟨_, left⟩ := pair
      cases codeEq
      rfl

/-! ## A small geometry -/

/-- A disk of `total` sectors: two copies of a table of one sector, a root
directory of one sector, and clusters of one sector behind them. -/
def smallBpb (total : UInt16) : Bpb where
  bytesPerSector := 512
  sectorsPerCluster := 1
  reservedSectors := 1
  fatCount := 2
  rootEntryCount := 16
  totalSectors16 := total
  sectorsPerFat := 1
  totalSectors32 := 0

theorem smallBpb_dataStart (total : UInt16) :
    (smallBpb total).dataStart = 4 := by
  have same : (smallBpb total).dataStart = (smallBpb 0).dataStart := rfl
  rw [same]
  decide

theorem smallBpb_geometry {total : UInt16} (low : 4 ≤ total.toNat)
    (high : total.toNat ≤ 340) : Geometry (smallBpb total) := by
  have nonzero : total ≠ 0 := by
    rintro rfl
    simp at low
  have sectors : (smallBpb total).totalSectors = total.toNat := by
    rw [Bpb.totalSectors]
    exact if_pos nonzero
  have start := smallBpb_dataStart total
  have one : (smallBpb total).perCluster = 1 := rfl
  have table : (smallBpb total).perFat = 1 := rfl
  have clusters : (smallBpb total).totalClusters = total.toNat - 2 := by
    rw [Bpb.totalClusters, sectors, start]
    simp only [one, Nat.div_one, u32]
    omega
  refine ⟨by omega, ?_, ?_, ?_⟩
  · rw [table]
    decide
  · rw [start, sectors]
    exact low
  · intro cluster inside
    rw [clusters] at inside
    rw [table]
    omega

end LoafOs
