import LoafOs.Fs.FatRun
import LoafOs.Fs.File
import Mathlib.Data.Nat.Bitwise

/-!
# The buffer for a file

`fat_read_file` delivers whole clusters, and `fat_read_alloc_size` rounds a
size up to whole clusters when a cluster has a power of two of sectors, as
the file system prescribes.
-/

namespace LoafOs

variable {volume : Volume} {bpb : Bpb} {path : CString} {st : FatStat}
  {size entry : Nat}

/-- The number of sectors of a cluster is a power of two. -/
def PowerOfTwoClusters (bpb : Bpb) : Prop :=
  ∃ exponent, bpb.perCluster = 2 ^ exponent

/-- The bytes that the clusters for a size hold. -/
def storedSize (bpb : Bpb) (size : Nat) : Nat :=
  clustersFor bpb size * bpb.clusterSize

/-- What `fat_read_file` delivers. -/
def fileContent (volume : Volume) (path : CString) : Bytes :=
  match fatReadFile volume path scratch with
  | some read => read.dest
  | none => scratch

theorem and_not_mask {value exponent : Nat} (word : value < 2 ^ 32)
    (small : exponent ≤ 32) :
    value &&& (2 ^ 32 - 1 - (2 ^ exponent - 1)) =
      value / 2 ^ exponent * 2 ^ exponent := by
  have power := Nat.two_pow_pos exponent
  refine Nat.eq_of_testBit_eq fun bit => ?_
  have mask : 2 ^ 32 - 1 - (2 ^ exponent - 1) =
      2 ^ 32 - (2 ^ exponent - 1 + 1) := by omega
  have below : 2 ^ exponent - 1 < 2 ^ 32 := by
    have bound := Nat.pow_le_pow_right (show 0 < 2 by decide) small
    omega
  rw [mask, Nat.testBit_and, Nat.testBit_two_pow_sub_succ below,
    Nat.testBit_two_pow_sub_one, Nat.testBit_mul_two_pow]
  by_cases low : bit < exponent
  · simp [low]
  · have high : exponent ≤ bit := by omega
    rw [Nat.testBit_div_two_pow]
    have back : bit - exponent + exponent = bit := by omega
    rw [back]
    by_cases inside : bit < 32
    · simp [low, high, inside]
    · have zero : value.testBit bit = false :=
        Nat.testBit_lt_two_pow (Nat.lt_of_lt_of_le word
          (Nat.pow_le_pow_right (by decide) (by omega)))
      simp [zero]

theorem PowerOfTwoClusters.clusterSize (power : PowerOfTwoClusters bpb) :
    ∃ exponent ≤ 16, bpb.clusterSize = 2 ^ exponent := by
  obtain ⟨exponent, equal⟩ := power
  have byte : bpb.perCluster < 2 ^ 8 := bpb.sectorsPerCluster.toNat_lt
  rw [equal] at byte
  have small : exponent < 8 := (Nat.pow_lt_pow_iff_right (by decide)).mp byte
  refine ⟨9 + exponent, by omega, ?_⟩
  rw [Bpb.clusterSize, equal, Nat.pow_add]

/-- The buffer is as large as the clusters. -/
theorem fatReadAllocSize_eq (power : PowerOfTwoClusters bpb)
    (small : size + bpb.clusterSize ≤ 2 ^ 32) :
    (fatReadAllocSize bpb (UInt32.ofNat size)).toNat =
      storedSize bpb size := by
  obtain ⟨exponent, bound, equal⟩ := power.clusterSize
  have positive := Nat.two_pow_pos exponent
  have limit := Nat.pow_le_pow_right (show 0 < 2 by decide) bound
  rw [equal] at small
  have top : (2 : Nat) ^ 16 = 65536 := by decide
  have one : (1 : UInt32).toNat = 1 := rfl
  have cluster : (UInt32.ofNat (2 ^ exponent)).toNat = 2 ^ exponent :=
    UInt32.toNat_ofNat_of_lt' (by
      rw [UInt32.size]
      omega)
  have mask : (UInt32.ofNat (2 ^ exponent) - 1).toNat = 2 ^ exponent - 1 := by
    rw [UInt32.toNat_sub, cluster, one]
    omega
  have sum : (UInt32.ofNat size + UInt32.ofNat (2 ^ exponent) - 1).toNat =
      size + 2 ^ exponent - 1 := by
    rw [UInt32.toNat_sub, UInt32.toNat_add, cluster, one,
      UInt32.toNat_ofNat']
    omega
  rw [fatReadAllocSize, equal, UInt32.toNat_and, UInt32.toNat_not, mask, sum,
    storedSize, clustersFor, equal]
  exact and_not_mask (by omega) (by omega)

/-! ## Regular files -/

/-- A path that `fat_stat` finds to be a regular file. -/
structure RegularFile (volume : Volume) (path : CString) (st : FatStat) :
    Prop where
  stat : fatStat volume path = some (.ok st)
  regular : st.attr &&& attrDirectory = 0

theorem gather_eq_copy {mem : Bytes} (clusters : List Nat)
    (dest : Bytes) (positive : 0 < bpb.clusterSize) :
    gather mem bpb clusters 0 dest =
      dest.copy 0 (gather mem bpb clusters 0 scratch)
        (clusters.length * bpb.clusterSize) := by
  funext index
  by_cases inside : index < clusters.length * bpb.clusterSize
  · rw [Bytes.copy_inside (by omega) (by omega), Nat.sub_zero]
    have number : index / bpb.clusterSize < clusters.length :=
      (Nat.div_lt_iff_lt_mul positive).mpr inside
    have small : index % bpb.clusterSize < bpb.clusterSize :=
      Nat.mod_lt _ positive
    have split : 0 + index / bpb.clusterSize * bpb.clusterSize +
        index % bpb.clusterSize = index := by
      rw [Nat.zero_add, Nat.mul_comm]
      exact Nat.div_add_mod ..
    have inner : ∀ dest, gather mem bpb clusters 0 dest index =
        mem (bpb.clusterAddr clusters[index / bpb.clusterSize] +
          index % bpb.clusterSize) := fun dest =>
      (congrArg _ split.symm).trans
        (gather_inside clusters 0 dest _ number _ small)
    rw [inner, inner]
  · rw [Bytes.copy_outside (by omega),
      gather_outside clusters 0 dest index (by omega)]

theorem RegularFile.names (wellFormed : WellFormed volume)
    (sound : volume.disk.Sound) (file : RegularFile volume path st) :
    ∃ entry, Names volume path entry ∧ st = statOf volume.mem entry ∧
      ¬ IsDir volume.mem entry := by
  rcases fatStat_ok wellFormed sound file.stat with root | ⟨entry, names⟩
  · have stat := file.stat
    have regular := file.regular
    rw [root.fatStat_eq] at stat
    simp only [Option.some.injEq, Except.ok.injEq] at stat
    rw [← stat] at regular
    exact absurd regular (by decide)
  · have stat := file.stat
    have regular := file.regular
    rw [names.fatStat_eq wellFormed sound] at stat
    simp only [Option.some.injEq, Except.ok.injEq] at stat
    refine ⟨entry, names, stat.symm, fun isDir => isDir ?_⟩
    rw [← stat] at regular
    exact regular

/-- A regular file is delivered in whole clusters. -/
theorem RegularFile.read (wellFormed : WellFormed volume)
    (sound : volume.disk.Sound) (file : RegularFile volume path st)
    (dest : Bytes) :
    fatReadFile volume path dest =
      some ⟨0, st.size, storedSize volume.bpb st.size,
        dest.copy 0 (fileContent volume path)
          (storedSize volume.bpb st.size)⟩ := by
  obtain ⟨entry, names, same, notDir⟩ := file.names wellFormed sound
  obtain ⟨clusters, chain⟩ := wellFormed.chain entry names.reach
  have length := (chain.regular notDir).1
  have size : st.size = direntSize volume.mem entry := by
    rw [same]
    rfl
  have stored : clusters.length * volume.bpb.clusterSize =
      storedSize volume.bpb st.size := by
    rw [storedSize, size, length]
  have content : fileContent volume path =
      gather volume.mem volume.bpb clusters 0 scratch := by
    rw [fileContent, names.fatReadFile_eq wellFormed sound chain]
  rw [names.fatReadFile_eq wellFormed sound chain, stored, content, ← stored,
    ← gather_eq_copy clusters dest (wellFormed.geometry.clusterSize_pos),
    ← size]

/-- The clusters of a file hold less than 2 ^ 28 bytes. -/
theorem RegularFile.storedSize_le (wellFormed : WellFormed volume)
    (sound : volume.disk.Sound) (file : RegularFile volume path st)
    (power : PowerOfTwoClusters volume.bpb) :
    storedSize volume.bpb st.size ≤ 2 ^ 28 ∧
      volume.bpb.clusterSize ≤ 2 ^ 16 ∧
      st.size ≤ storedSize volume.bpb st.size := by
  obtain ⟨entry, names, same, notDir⟩ := file.names wellFormed sound
  obtain ⟨clusters, chain⟩ := wellFormed.chain entry names.reach
  have length := (chain.regular notDir).1
  have size : st.size = direntSize volume.mem entry := by
    rw [same]
    rfl
  obtain ⟨exponent, bound, equal⟩ := power.clusterSize
  have limit := Nat.pow_le_pow_right (show 0 < 2 by decide) bound
  have positive := wellFormed.geometry.clusterSize_pos
  have few := chain_length_small chain.path
  rw [length, ← size] at few
  have small : volume.bpb.clusterSize ≤ 2 ^ 16 := by
    rw [equal]
    exact limit
  refine ⟨?_, small, ?_⟩
  · calc storedSize volume.bpb st.size
        ≤ 0x0ff8 * 2 ^ 16 := Nat.mul_le_mul few small
      _ ≤ 2 ^ 28 := by decide
  · rw [storedSize, clustersFor]
    have split := Nat.div_add_mod (st.size + volume.bpb.clusterSize - 1)
      volume.bpb.clusterSize
    have rest := Nat.mod_lt (st.size + volume.bpb.clusterSize - 1) positive
    rw [Nat.mul_comm] at split
    omega

end LoafOs
