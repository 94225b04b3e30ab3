import LoafOs.Boot.Load
import LoafOs.Fs.FatCells

/-!
# The boot loader and the driver read the same chain

The loader decodes the parameter block and the table with 16-bit registers,
the driver with 32-bit values.  Where the numbers fit 16 bits both find the
same sectors, and every step of a chain leads both to the same cluster, as
long as the loader does not load a cluster over itself.
-/

namespace LoafOs

open Links

section Decoders

variable {mem fatBuf : Bytes}

/-- Both decoders of an entry agree. -/
theorem nextCluster_eq {size cluster : Nat} (inside : InTable size cluster)
    (small : size ≤ 512 * 9)
    (same : ∀ index < size, mem (fatBufAddr + index) = fatBuf index) :
    nextCluster mem cluster = fatNext fatBuf cluster := by
  rw [InTable] at inside
  have place : u16 (u16 (cluster / 2 + cluster) + fatBufAddr) =
      fatBufAddr + (cluster + cluster / 2) := by
    simp only [u16, fatBufAddr]
    omega
  have low := same (cluster + cluster / 2) (by omega)
  have high := same (cluster + cluster / 2 + 1) inside
  have mask (word : Nat) : word &&& 0x0fff = word % 4096 :=
    Nat.and_two_pow_sub_one_eq_mod word 12
  rw [← Nat.add_assoc] at high
  rw [nextCluster, place, Bytes.word16, low, high, fatNext_eq]
  simp only [Nat.and_one_is_mod, mask, Nat.shiftRight_eq_div_pow]
  rcases Nat.mod_two_eq_zero_or_one cluster with even | odd
  · rw [if_pos even, if_neg (by omega)]
  · rw [if_neg (by omega), if_pos odd]

/-- The boot sector at `BPB_BASE` is the one that `fat_init` reads. -/
def BootSectorAt (disk : Disk) (mem : Bytes) : Prop :=
  ∀ index < 512, mem (bpbBase + index) = disk.mem index

theorem ofSector_congr {sector sector' : Bytes}
    (same : ∀ index < 512, sector index = sector' index) :
    Bpb.ofSector sector = Bpb.ofSector sector' := by
  have word16 {start : Nat} (inside : start < 500) :
      sector.word16 start = sector'.word16 start :=
    Bytes.word16_congr fun index small => same _ (by omega)
  have word32 : sector.word32 32 = sector'.word32 32 :=
    Bytes.word32_congr fun index small => same _ (by omega)
  simp only [Bpb.ofSector, word16 (by decide : 11 < 500),
    word16 (by decide : 14 < 500), word16 (by decide : 17 < 500),
    word16 (by decide : 19 < 500), word16 (by decide : 22 < 500), word32,
    same 13 (by decide), same 16 (by decide)]

/-- A successful read, without its buffer. -/
theorem readLba_some {disk : Disk} {lba count : Nat} {buffer read : Bytes}
    (done : readLba disk lba count buffer = some read)
    (bound : lba + count ≤ lbaLimit) :
    disk.Readable lba count ∧
      ∀ index < 512 * count, read index = disk.mem (512 * lba + index) := by
  by_cases readable : disk.Readable lba count
  · rw [readable.readLba_eq bound, Option.some.injEq] at done
    refine ⟨readable, fun index inside => ?_⟩
    rw [← done, Bytes.copy_inside (by omega) (by omega), Nat.sub_zero]
    rfl
  · rw [readLba_unreadable readable bound] at done
    cases done

/-- What `fat_init` leaves. -/
theorem fatInit_ok {disk : Disk} {volume : Volume} {kmallocOk : Bool}
    (mounted : fatInit disk kmallocOk = .ok volume) :
    volume.disk = disk ∧ volume.bpb = Bpb.ofSector disk.mem ∧
      volume.bpb.perFat ≤ 9 ∧
      disk.Readable volume.bpb.fatStart volume.bpb.perFat ∧
      ∀ index < 512 * volume.bpb.perFat,
        volume.fatBuf index =
          disk.mem (512 * volume.bpb.fatStart + index) := by
  have limit : lbaLimit = 63 * 16 * 65536 := by rw [lbaLimit]
  rw [fatInit] at mounted
  split at mounted
  · cases mounted
  next sectorBuf first =>
    have sector := (readLba_some first (by omega)).2
    simp only [Nat.mul_zero, Nat.zero_add] at sector
    have isBpb := ofSector_congr sector
    dsimp only at mounted
    split at mounted
    · cases mounted
    split at mounted
    · cases mounted
    next fits =>
      split at mounted
      · cases mounted
      split at mounted
      · cases mounted
      next fatBuf table =>
        have reserved := (Bpb.ofSector sectorBuf).reservedSectors.toNat_lt
        have few : (Bpb.ofSector sectorBuf).perFat ≤ 9 := by omega
        rw [Nat.mod_eq_of_lt (by omega)] at table
        have result := readLba_some table (by
          rw [Bpb.fatStart]
          omega)
        cases mounted
        exact ⟨rfl, isBpb, few, result⟩

/-- `read_bpb` finds what `fat_init` finds, in 16 bits. -/
theorem readBpb_eq {disk : Disk} (sector : BootSectorAt disk mem)
    {bpb : Bpb} (isBpb : bpb = Bpb.ofSector disk.mem)
    (small : bpb.dataStart < 65536) :
    (readBpb mem).reservedSectors = bpb.fatStart ∧
      (readBpb mem).sectorsPerFat = bpb.perFat ∧
      (readBpb mem).sectorsPerCluster = bpb.perCluster ∧
      (readBpb mem).rootStart = bpb.rootStart ∧
      (readBpb mem).rootSectors = bpb.rootSectors ∧
      (readBpb mem).dataStart = bpb.dataStart := by
  have byte {index : Nat} (inside : index < 512) :
      mem (bpbBase + index) = disk.mem index := sector index inside
  have word {index : Nat} (inside : index < 511) :
      mem.word16 (bpbBase + index) = disk.mem.word16 index :=
    Bytes.word16_congr fun more small => by
      rw [Nat.add_assoc]
      exact sector _ (by omega)
  have stored {index : Nat} :
      (UInt16.ofNat (disk.mem.word16 index)).toNat =
        disk.mem.word16 index := by
    rw [UInt16.toNat_ofNat']
    exact Nat.mod_eq_of_lt (disk.mem.word16_lt index)
  have entries := disk.mem.word16_lt 0x11
  subst isBpb
  have fatStart : (readBpb mem).reservedSectors =
      (Bpb.ofSector disk.mem).fatStart :=
    (word (by decide)).trans stored.symm
  have perFat : (readBpb mem).sectorsPerFat =
      (Bpb.ofSector disk.mem).perFat :=
    (word (by decide)).trans stored.symm
  have perCluster : (readBpb mem).sectorsPerCluster =
      (Bpb.ofSector disk.mem).perCluster :=
    congrArg UInt8.toNat (byte (by decide))
  have fatCount : (readBpb mem).fatCount =
      (Bpb.ofSector disk.mem).fatCount.toNat :=
    congrArg UInt8.toNat (byte (by decide))
  have rootSectors : (readBpb mem).rootSectors =
      (Bpb.ofSector disk.mem).rootSectors := by
    simp only [readBpb, Bpb.rootSectors, Bpb.ofSector, stored,
      word (by decide : 0x11 < 511), u16]
    omega
  have rootStart : (readBpb mem).rootStart =
      (Bpb.ofSector disk.mem).rootStart := by
    have product : (readBpb mem).rootStart =
        u16 (u16 ((readBpb mem).sectorsPerFat * (readBpb mem).fatCount) +
          (readBpb mem).reservedSectors) := rfl
    rw [Bpb.dataStart, Bpb.rootStart] at small
    rw [product, fatStart, perFat, fatCount, Nat.mul_comm, Bpb.rootStart]
    simp only [u16]
    omega
  refine ⟨fatStart, perFat, perCluster, rootStart, rootSectors, ?_⟩
  have total : (readBpb mem).dataStart =
      u16 ((readBpb mem).rootStart + (readBpb mem).rootSectors) := rfl
  rw [total, rootStart, rootSectors]
  exact Nat.mod_eq_of_lt small

/-- Both find the same sectors of a cluster. -/
theorem clusterLba_eq16 {bpb : Bpb} {cluster : Nat} (low : 2 ≤ cluster)
    (high : cluster < 65536)
    (fits : bpb.dataStart + (cluster - 2) * bpb.perCluster < 65536) :
    u16 (u16 (u16 (cluster + 65536 - 2) * bpb.perCluster) +
        bpb.dataStart) = bpb.clusterLba cluster ∧
      bpb.clusterLba cluster =
        bpb.dataStart + (cluster - 2) * bpb.perCluster := by
  have word : u16 (cluster + 65536 - 2) = cluster - 2 := by
    simp only [u16]
    omega
  have long : u32 (cluster + 2 ^ 32 - 2) = cluster - 2 := by
    simp only [u32]
    omega
  rw [Bpb.clusterLba, word, long]
  simp only [u16, u32]
  omega

end Decoders

/-! ## The loops in step -/

/-- The loader's values are those of the mounted volume. -/
structure BootAs (boot : BootBpb) (bpb : Bpb) : Prop where
  perFat : bpb.perFat ≤ 9
  perCluster : boot.sectorsPerCluster = bpb.perCluster
  dataStart : boot.dataStart = bpb.dataStart

/-- A cluster of a well-formed chain: it has an entry in the table, and its
sector numbers fit 16 bits. -/
structure ChainCluster (bpb : Bpb) (cluster : Nat) : Prop where
  low : 2 ≤ cluster
  inside : InTable (512 * bpb.perFat) cluster
  first : bpb.dataStart + (cluster - 2) * bpb.perCluster < 65536
  last : ∀ sector < bpb.perCluster,
    bpb.dataStart + (cluster - 2) * bpb.perCluster + sector < 65536

section Loops

variable {volume : Volume} {boot : BootBpb}

/-- The table lies at `FAT_BUF`. -/
def TableAt (volume : Volume) (mem : Bytes) : Prop :=
  ∀ index < 512 * volume.bpb.perFat,
    mem (fatBufAddr + index) = volume.fatBuf index

/-- A cluster loaded above `KERNEL_SEG` leaves the table alone. -/
theorem TableAt.load {mem source : Bytes} {seg count : Nat}
    (table : TableAt volume mem) (few : volume.bpb.perFat ≤ 9)
    (above : kernelSeg ≤ seg) :
    TableAt volume (mem.copy (16 * seg) source count) := by
  intro index inside
  rw [kernelSeg] at above
  rw [Bytes.copy_outside (by rw [fatBufAddr]; omega)]
  exact table index inside

end Loops

/-! ## The chain of the kernel -/

/-- The geometry fits 16 bits, up to the last sector of each cluster. -/
structure Fits16 (bpb : Bpb) (clusters : List Nat) : Prop where
  rootStart : bpb.rootStart < 65536
  rootSectors : bpb.rootSectors < 65536
  dataStart : bpb.dataStart < 65536
  sectors : ∀ cluster ∈ clusters, ∀ sector < bpb.perCluster,
    bpb.dataStart + (cluster - 2) * bpb.perCluster + sector < 65536

/-- A well-formed finite chain: clusters with entries in the table, up to an
end mark. -/
structure BootChain (volume : Volume) (start : Nat) (clusters : List Nat) :
    Prop where
  path : Path volume.next (fun cluster => 0x0ff8 ≤ cluster) start clusters
  low : ∀ cluster ∈ clusters, 2 ≤ cluster
  inside : ∀ cluster ∈ clusters,
    InTable (512 * volume.bpb.perFat) cluster

section Kernel

variable {disk : Disk} {volume : Volume} {kmallocOk : Bool} {mem : Bytes}
  {start : Nat} {clusters : List Nat}

theorem BootChain.length_lt (chain : BootChain volume start clusters) :
    clusters.length < chainFuel := by
  have few := path_length_le chain.path fun cluster member =>
    Nat.lt_of_not_le (chain.path.not_stop cluster member)
  rw [chainFuel]
  omega

theorem BootChain.cluster_of_mem (chain : BootChain volume start clusters)
    (fits : Fits16 volume.bpb clusters) :
    ∀ cluster ∈ clusters, ChainCluster volume.bpb cluster := by
  intro cluster member
  refine ⟨chain.low cluster member, chain.inside cluster member, ?_,
    fits.sectors cluster member⟩
  rcases Nat.eq_zero_or_pos volume.bpb.perCluster with none | some
  · rw [none, Nat.mul_zero]
    exact fits.dataStart
  · exact fits.sectors cluster member 0 some

end Kernel

/-! ## A kernel of sixteen clusters -/

/-- The memory of the loader after a boot sector. -/
def bootMemory (disk : Disk) : Bytes := fun address =>
  if bpbBase ≤ address ∧ address < bpbBase + 512 then
    disk.mem (address - bpbBase)
  else
    0

theorem bootMemory_sector (disk : Disk) :
    BootSectorAt disk (bootMemory disk) := by
  intro index small
  rw [bootMemory, if_pos (by omega), Nat.add_sub_cancel_left]

end LoafOs
