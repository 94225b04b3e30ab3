import LoafOs.Fs.FatTable

/-!
# The mounted volume

The static variables of `src/fs/fat.c`: the BIOS parameter block with the
layout that `fat_init` computes from it, the table in `fat_buf`, and the
disk.  `sector_buf` and `cluster_buf` are overwritten before each use, so
they are local values of the functions below.
-/

namespace LoafOs

/-- The fields of `fat12_bpb_t` that the driver reads. -/
structure Bpb where
  bytesPerSector : UInt16
  sectorsPerCluster : UInt8
  reservedSectors : UInt16
  fatCount : UInt8
  rootEntryCount : UInt16
  totalSectors16 : UInt16
  sectorsPerFat : UInt16
  totalSectors32 : UInt32
  deriving DecidableEq, Repr

namespace Bpb

/-- The packed structure as it lies in the boot sector. -/
def ofSector (sector : Bytes) : Bpb where
  bytesPerSector := UInt16.ofNat (sector.word16 11)
  sectorsPerCluster := sector 13
  reservedSectors := UInt16.ofNat (sector.word16 14)
  fatCount := sector 16
  rootEntryCount := UInt16.ofNat (sector.word16 17)
  totalSectors16 := UInt16.ofNat (sector.word16 19)
  sectorsPerFat := UInt16.ofNat (sector.word16 22)
  totalSectors32 := UInt32.ofNat (sector.word32 32)

/-- `bpb.sectors_per_cluster` as a number. -/
def perCluster (bpb : Bpb) : Nat := bpb.sectorsPerCluster.toNat

/-- `bpb.sectors_per_fat` as a number. -/
def perFat (bpb : Bpb) : Nat := bpb.sectorsPerFat.toNat

/-- `fat_start`, as `fat_init` sets it. -/
def fatStart (bpb : Bpb) : Nat := bpb.reservedSectors.toNat

/-- `root_start`, as `fat_init` sets it. -/
def rootStart (bpb : Bpb) : Nat :=
  bpb.fatStart + bpb.fatCount.toNat * bpb.perFat

/-- `root_sectors`, as `fat_init` sets it. -/
def rootSectors (bpb : Bpb) : Nat :=
  (32 * bpb.rootEntryCount.toNat + 512 - 1) / 512

/-- `data_start`, as `fat_init` sets it. -/
def dataStart (bpb : Bpb) : Nat := bpb.rootStart + bpb.rootSectors

/-- `cluster_size`, as `fat_init` sets it. -/
def clusterSize (bpb : Bpb) : Nat := 512 * bpb.perCluster

/-- `bpb.total_sectors_16 ? bpb.total_sectors_16 :
bpb.total_sectors_32`. -/
def totalSectors (bpb : Bpb) : Nat :=
  if bpb.totalSectors16 ≠ 0 then bpb.totalSectors16.toNat
  else bpb.totalSectors32.toNat

/-- `fat_total_clusters`. -/
def totalClusters (bpb : Bpb) : Nat :=
  u32 (u32 (bpb.totalSectors + 2 ^ 32 - bpb.dataStart) /
    bpb.perCluster + 2)

/-- `data_start + (uint32_t)(cluster - 2) * bpb.sectors_per_cluster`. -/
def clusterLba (bpb : Bpb) (cluster : Nat) : Nat :=
  u32 (bpb.dataStart + u32 (cluster + 2 ^ 32 - 2) * bpb.perCluster)

end Bpb

/-- The mutable state of the driver. -/
structure Volume where
  bpb : Bpb
  fatBuf : Bytes
  disk : Disk

/-- A buffer whose earlier contents are never looked at. -/
def scratch : Bytes := fun _ => 0

/-- `fat_init`: the mounted volume, or the error code.  `kmalloc_ok` tells
whether the cluster buffer could be allocated. -/
def fatInit (disk : Disk) (kmallocOk : Bool) : Except Nat Volume :=
  match readLba disk 0 1 scratch with
  | none => .error 1
  | some sectorBuf =>
      let bpb := Bpb.ofSector sectorBuf
      if bpb.bytesPerSector.toNat ≠ 512 then .error 2
      else if 512 * bpb.perFat > 512 * 9 then .error 3
      else if ¬ kmallocOk then .error 5
      else
        match readLba disk bpb.fatStart (bpb.perFat % 256) scratch with
        | none => .error 4
        | some fatBuf => .ok { bpb, fatBuf, disk }

/-- `fat_alloc_cluster`. -/
def fatAllocCluster (volume : Volume) : Option (Nat × Volume) := do
  let (cluster, fatBuf) ←
    fatAllocLoop volume.bpb.totalClusters volume.fatBuf chainFuel 2
  return (cluster, { volume with fatBuf })

namespace Volume

/-- `fat_set_entry` on the volume. -/
def setEntry (volume : Volume) (cluster value : Nat) : Volume :=
  { volume with fatBuf := fatSetEntry volume.fatBuf cluster value }

/-- `fat_free_chain` on the volume. -/
def freeChain (volume : Volume) (cluster : Nat) : Option Volume := do
  let fatBuf ← fatFreeChain volume.fatBuf cluster
  return { volume with fatBuf }

/-- `write_lba` on the volume, with its return value. -/
def write (volume : Volume) (lba count : Nat) (buffer : Bytes) :
    Nat × Volume :=
  let (failed, disk) := writeLba volume.disk lba count buffer
  (failed, { volume with disk })

/-- The disk of the volume as one flat byte memory. -/
def mem (volume : Volume) : Bytes := volume.disk.mem

/-- The table of the volume as a function. -/
def next (volume : Volume) : Nat → Nat := fatNext volume.fatBuf

end Volume

/-- The loop of `fat_flush` with `count` copies left, at copy `copy`. -/
def fatFlushLoop : (count copy : Nat) → Volume → Nat × Volume
  | 0, _, volume => (0, volume)
  | count + 1, copy, volume =>
      let lba := volume.bpb.fatStart + copy * volume.bpb.perFat
      let (failed, volume) :=
        volume.write lba (volume.bpb.perFat % 256) volume.fatBuf
      if failed ≠ 0 then (1, volume)
      else fatFlushLoop count (copy + 1) volume

/-- `fat_flush`, with its return value. -/
def fatFlush (volume : Volume) : Nat × Volume :=
  fatFlushLoop volume.bpb.fatCount.toNat 0 volume

/-! ## Geometry -/

/-- The layout fits the table: what a boot sector must say for the clusters
to have entries in `fat_buf` and sectors on the disk. -/
structure Geometry (bpb : Bpb) : Prop where
  perCluster_pos : 0 < bpb.perCluster
  perFat_le : bpb.perFat ≤ 9
  dataStart_le : bpb.dataStart ≤ bpb.totalSectors
  entries_fit : ∀ cluster < bpb.totalClusters,
    cluster + cluster / 2 + 1 < 512 * bpb.perFat

/-- The flat address of the first byte of a cluster. -/
def Bpb.clusterAddr (bpb : Bpb) (cluster : Nat) : Nat :=
  512 * (bpb.dataStart + (cluster - 2) * bpb.perCluster)

namespace Geometry

variable {bpb : Bpb}

theorem totalSectors_lt (bpb : Bpb) : bpb.totalSectors < 2 ^ 32 := by
  have narrow := bpb.totalSectors16.toNat_lt
  have wide := bpb.totalSectors32.toNat_lt
  rw [Bpb.totalSectors]
  split <;> omega

theorem totalClusters_eq (geometry : Geometry bpb) :
    bpb.totalClusters =
      u32 ((bpb.totalSectors - bpb.dataStart) / bpb.perCluster + 2) := by
  have bound := totalSectors_lt bpb
  have inside := geometry.dataStart_le
  have wrap : u32 (bpb.totalSectors + 2 ^ 32 - bpb.dataStart) =
      bpb.totalSectors - bpb.dataStart := by
    simp only [u32]
    omega
  rw [Bpb.totalClusters, wrap]

theorem totalClusters_le (geometry : Geometry bpb) :
    bpb.totalClusters ≤ 3072 := by
  by_contra large
  have fits := geometry.entries_fit 3072 (by omega)
  have := geometry.perFat_le
  omega

/-- Every cluster below the total has its own sectors on the disk. -/
theorem clusters_inside (geometry : Geometry bpb) {cluster : Nat}
    (low : 2 ≤ cluster) (high : cluster < bpb.totalClusters) :
    bpb.dataStart + (cluster - 2) * bpb.perCluster + bpb.perCluster ≤
      lbaLimit := by
  have few := geometry.totalClusters_le
  have reserved := bpb.reservedSectors.toNat_lt
  have copies := bpb.fatCount.toNat_lt
  have entries := bpb.rootEntryCount.toNat_lt
  have perCluster : bpb.perCluster < 256 :=
    bpb.sectorsPerCluster.toNat_lt
  have tables : bpb.fatCount.toNat * bpb.perFat ≤ 255 * 9 :=
    Nat.mul_le_mul (by omega) geometry.perFat_le
  have clusters : (cluster - 2) * bpb.perCluster ≤ 3070 * 255 :=
    Nat.mul_le_mul (by omega) (by omega)
  simp only [Bpb.dataStart, Bpb.rootStart, Bpb.fatStart,
    Bpb.rootSectors, lbaLimit]
  omega

theorem rootSectors_inside (geometry : Geometry bpb) :
    bpb.dataStart ≤ lbaLimit := by
  have reserved := bpb.reservedSectors.toNat_lt
  have copies := bpb.fatCount.toNat_lt
  have entries := bpb.rootEntryCount.toNat_lt
  have tables : bpb.fatCount.toNat * bpb.perFat ≤ 255 * 9 :=
    Nat.mul_le_mul (by omega) geometry.perFat_le
  simp only [Bpb.dataStart, Bpb.rootStart, Bpb.fatStart,
    Bpb.rootSectors, lbaLimit]
  omega

theorem clusterLba_eq (geometry : Geometry bpb) {cluster : Nat}
    (low : 2 ≤ cluster) (high : cluster < bpb.totalClusters) :
    bpb.clusterLba cluster =
      bpb.dataStart + (cluster - 2) * bpb.perCluster := by
  have inside := geometry.clusters_inside low high
  have few := geometry.totalClusters_le
  have wrap : u32 (cluster + 2 ^ 32 - 2) = cluster - 2 := by
    simp only [u32]
    omega
  simp only [lbaLimit] at inside
  rw [Bpb.clusterLba, wrap, u32, Nat.mod_eq_of_lt]
  omega

theorem clusterSize_pos (geometry : Geometry bpb) :
    0 < bpb.clusterSize := by
  have := geometry.perCluster_pos
  simp only [Bpb.clusterSize]
  omega

end Geometry

/-! ## Transfers without disk errors -/

section Transfers

variable {volume : Volume}

/-- The copies of the table on the disk equal `fat_buf`. -/
def CopiesEqual (volume : Volume) : Prop :=
  ∀ copy < volume.bpb.fatCount.toNat, ∀ index < 512 * volume.bpb.perFat,
    volume.mem (512 * (volume.bpb.fatStart + copy * volume.bpb.perFat) +
      index) = volume.fatBuf index

theorem Volume.write_eq (sound : volume.disk.Sound) (lba : Nat)
    {count : Nat} (bound : lba + count ≤ lbaLimit) (buffer : Bytes) :
    ∃ volume', volume.write lba count buffer = (0, volume') ∧
      volume'.bpb = volume.bpb ∧ volume'.fatBuf = volume.fatBuf ∧
      volume'.disk.Sound ∧
      volume'.mem = volume.mem.copy (512 * lba) buffer (512 * count) := by
  obtain ⟨disk, written, diskSound, mem⟩ := writeLba_eq sound bound buffer
  refine ⟨{ volume with disk }, ?_, rfl, rfl, diskSound, mem⟩
  rw [Volume.write, written]

theorem Volume.readCluster_eq (geometry : Geometry volume.bpb)
    (sound : volume.disk.Sound) {cluster : Nat} (low : 2 ≤ cluster)
    (high : cluster < volume.bpb.totalClusters) (buffer : Bytes) :
    readLba volume.disk (volume.bpb.clusterLba cluster)
        volume.bpb.perCluster buffer =
      some (buffer.copy 0
        (volume.mem.shift (volume.bpb.clusterAddr cluster))
        volume.bpb.clusterSize) := by
  have inside := geometry.clusters_inside low high
  rw [geometry.clusterLba_eq low high, readLba_eq sound inside]
  rfl

theorem Volume.writeCluster_eq (geometry : Geometry volume.bpb)
    (sound : volume.disk.Sound) {cluster : Nat} (low : 2 ≤ cluster)
    (high : cluster < volume.bpb.totalClusters) (buffer : Bytes) :
    ∃ volume',
      volume.write (volume.bpb.clusterLba cluster)
          volume.bpb.perCluster buffer = (0, volume') ∧
        volume'.bpb = volume.bpb ∧ volume'.fatBuf = volume.fatBuf ∧
        volume'.disk.Sound ∧
        volume'.mem =
          volume.mem.copy (volume.bpb.clusterAddr cluster) buffer
            volume.bpb.clusterSize := by
  have inside := geometry.clusters_inside low high
  rw [geometry.clusterLba_eq low high]
  exact Volume.write_eq sound _ inside buffer

theorem fatAllocCluster_eq (geometry : Geometry volume.bpb) :
    fatAllocCluster volume =
      some
        (match freeClusters volume.bpb.totalClusters volume.next with
          | [] => (0, volume)
          | found :: _ => (found, volume.setEntry found fatEocMark)) := by
  have few := geometry.totalClusters_le
  have small : volume.bpb.totalClusters ≤ 65535 := by omega
  rw [fatAllocCluster, fatAllocLoop_start_eq volume.fatBuf small]
  cases free : freeClusters volume.bpb.totalClusters volume.next with
  | nil =>
      rw [Volume.next] at free
      rw [free]
      rfl
  | cons found rest =>
      rw [Volume.next] at free
      rw [free]
      rfl

private theorem fatFlushLoop_eq :
    ∀ (count copy : Nat) {volume : Volume}, volume.disk.Sound →
      volume.bpb.perFat < 256 →
      volume.bpb.fatStart + (copy + count) * volume.bpb.perFat ≤
        lbaLimit →
        ∃ volume', fatFlushLoop count copy volume = (0, volume') ∧
          volume'.bpb = volume.bpb ∧ volume'.fatBuf = volume.fatBuf ∧
          volume'.disk.Sound ∧
          (∀ address,
            address < 512 * (volume.bpb.fatStart +
                copy * volume.bpb.perFat) ∨
              512 * (volume.bpb.fatStart +
                (copy + count) * volume.bpb.perFat) ≤ address →
            volume'.mem address = volume.mem address) ∧
          ∀ index < count, ∀ offset < 512 * volume.bpb.perFat,
            volume'.mem (512 * (volume.bpb.fatStart +
                (copy + index) * volume.bpb.perFat) + offset) =
              volume.fatBuf offset
  | 0, copy, volume, sound, _, _ =>
      ⟨volume, rfl, rfl, rfl, sound, fun _ _ => rfl, fun _ bound => by
        omega⟩
  | count + 1, copy, volume, sound, narrow, inside => by
      have step : (copy + (count + 1)) * volume.bpb.perFat =
          (copy + 1 + count) * volume.bpb.perFat := by
        rw [show copy + (count + 1) = copy + 1 + count by omega]
      have first : (copy + 1) * volume.bpb.perFat =
          copy * volume.bpb.perFat + volume.bpb.perFat :=
        Nat.succ_mul _ _
      have rest : (copy + 1) * volume.bpb.perFat ≤
          (copy + 1 + count) * volume.bpb.perFat :=
        Nat.mul_le_mul_right _ (by omega)
      rw [step] at inside
      have here : volume.bpb.fatStart + copy * volume.bpb.perFat +
          volume.bpb.perFat ≤ lbaLimit := by
        omega
      obtain ⟨written, writeEq, writtenBpb, writtenBuf, writtenSound,
          writtenMem⟩ :=
        volume.write_eq sound _ here volume.fatBuf
      have writtenNarrow : written.bpb.perFat < 256 := by
        rw [writtenBpb]
        exact narrow
      have writtenInside : written.bpb.fatStart +
          (copy + 1 + count) * written.bpb.perFat ≤ lbaLimit := by
        rw [writtenBpb]
        exact inside
      obtain ⟨final, loopEq, finalBpb, finalBuf, finalSound, outside,
          copies⟩ :=
        fatFlushLoop_eq count (copy + 1) writtenSound writtenNarrow
          writtenInside
      rw [writtenBpb] at outside copies
      rw [writtenBuf] at copies
      refine ⟨final, ?_, finalBpb.trans writtenBpb,
        finalBuf.trans writtenBuf, finalSound, ?_, ?_⟩
      · have small : volume.bpb.perFat % 256 = volume.bpb.perFat :=
          Nat.mod_eq_of_lt narrow
        rw [fatFlushLoop, small, writeEq]
        simpa using loopEq
      · intro address away
        rw [step] at away
        rw [outside address (by omega), writtenMem,
          Bytes.copy_outside (by omega)]
      · intro index bound offset offsetBound
        cases index with
        | zero =>
            rw [outside _ (by simp only [Nat.add_zero]; omega), writtenMem,
              Bytes.copy_inside (by simp only [Nat.add_zero]; omega)
                (by simp only [Nat.add_zero]; omega)]
            exact congrArg volume.fatBuf (by
              simp only [Nat.add_zero]
              omega)
        | succ index =>
            have shifted : copy + (index + 1) = copy + 1 + index := by
              omega
            rw [shifted]
            exact copies index (by omega) offset offsetBound

/-- `fat_flush` makes every copy on the disk equal `fat_buf` and touches
nothing else. -/
theorem fatFlush_eq (geometry : Geometry volume.bpb)
    (sound : volume.disk.Sound) :
    ∃ volume', fatFlush volume = (0, volume') ∧
      volume'.bpb = volume.bpb ∧ volume'.fatBuf = volume.fatBuf ∧
      volume'.disk.Sound ∧ CopiesEqual volume' ∧
      ∀ address, address < 512 * volume.bpb.fatStart ∨
          512 * volume.bpb.rootStart ≤ address →
        volume'.mem address = volume.mem address := by
  have narrow : volume.bpb.perFat < 256 := by
    have := geometry.perFat_le
    omega
  have inside : volume.bpb.fatStart +
      (0 + volume.bpb.fatCount.toNat) * volume.bpb.perFat ≤ lbaLimit := by
    have limit := geometry.rootSectors_inside
    simp only [Bpb.dataStart, Bpb.rootStart] at limit
    rw [Nat.zero_add]
    omega
  obtain ⟨final, loopEq, bpb, fatBuf, finalSound, outside, copies⟩ :=
    fatFlushLoop_eq volume.bpb.fatCount.toNat 0 sound narrow inside
  refine ⟨final, loopEq, bpb, fatBuf, finalSound, ?_, ?_⟩
  · intro copy copyBound index indexBound
    rw [bpb] at copyBound indexBound ⊢
    rw [fatBuf]
    have here := copies copy copyBound index indexBound
    rwa [Nat.zero_add] at here
  · intro address away
    refine outside address ?_
    rw [Bpb.rootStart] at away
    rwa [Nat.zero_mul, Nat.add_zero, Nat.zero_add]

end Transfers

end LoafOs
