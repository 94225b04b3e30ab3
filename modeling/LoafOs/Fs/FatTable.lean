import LoafOs.Lib.ByteMemory
import LoafOs.Lib.Clearing
import LoafOs.Fs.Disk
import Mathlib.Data.List.Perm.Subperm

/-!
# The file allocation table

`fat_buf` of `src/fs/fat.c` packs two 12-bit entries into three bytes.
`fat_next` and `fat_set_entry` are shown to read and write independent
cells; after that the table is a function from clusters to their
successors.  Allocation takes the lowest free cluster, and freeing a chain
clears exactly the entries on it.
-/

namespace LoafOs

/-- `fat_next`, on the contents of `fat_buf`. -/
def fatNext (fatBuf : Bytes) (cluster : Nat) : Nat :=
  let off := cluster + cluster / 2
  let val := (fatBuf off).toNat ||| ((fatBuf (off + 1)).toNat <<< 8)
  if cluster &&& 1 = 1 then val >>> 4 else val &&& 0x0fff

/-- `fat_set_entry`, on the contents of `fat_buf`. -/
def fatSetEntry (fatBuf : Bytes) (cluster value : Nat) : Bytes :=
  let off := cluster + cluster / 2
  let value := value &&& 0x0fff
  if cluster &&& 1 = 1 then
    (fatBuf.put off
        ((fatBuf off &&& (0x0f : UInt8)) |||
          UInt8.ofNat ((value &&& 0x0f) <<< 4))).put
      (off + 1) (UInt8.ofNat ((value >>> 4) &&& 0xff))
  else
    (fatBuf.put off (UInt8.ofNat (value &&& 0xff))).put
      (off + 1)
      ((fatBuf (off + 1) &&& (0xf0 : UInt8)) |||
        UInt8.ofNat ((value >>> 8) &&& 0x0f))

/-- `FAT12_EOC_MARK`. -/
def fatEocMark : Nat := 0x0fff

/-- The values on which every chain loop ends: the negation of
`cluster >= 2 && cluster < FAT12_EOC`. -/
abbrev ChainStop (cluster : Nat) : Prop :=
  cluster < 2 ∨ 0x0ff8 ≤ cluster

/-- The number of passes after which a chain loop over `uint16_t` clusters
has come back to a cluster, and so never ends. -/
def chainFuel : Nat := 65536

/-- The loop of `fat_free_chain`. -/
def fatFreeLoop : (fuel cluster : Nat) → Bytes → Option Bytes
  | 0, _, _ => none
  | fuel + 1, cluster, fatBuf =>
      if ChainStop cluster then
        some fatBuf
      else
        fatFreeLoop fuel (fatNext fatBuf cluster)
          (fatSetEntry fatBuf cluster 0)

/-- `fat_free_chain`. -/
def fatFreeChain (fatBuf : Bytes) (cluster : Nat) : Option Bytes :=
  fatFreeLoop chainFuel cluster fatBuf

/-- The loop of `fat_alloc_cluster` below `max`; the counter is a
`uint16_t`. -/
def fatAllocLoop (max : Nat) (fatBuf : Bytes) :
    (fuel cluster : Nat) → Option (Nat × Bytes)
  | 0, _ => none
  | fuel + 1, cluster =>
      if cluster < max then
        if fatNext fatBuf cluster = 0 then
          some (cluster, fatSetEntry fatBuf cluster fatEocMark)
        else
          fatAllocLoop max fatBuf fuel (u16 (cluster + 1))
      else
        some (0, fatBuf)

/-! ## Packed entries are independent cells -/

theorem fatNext_eq (fatBuf : Bytes) (cluster : Nat) :
    fatNext fatBuf cluster =
      if cluster % 2 = 1 then
        ((fatBuf (cluster + cluster / 2)).toNat +
          256 * (fatBuf (cluster + cluster / 2 + 1)).toNat) / 16
      else
        ((fatBuf (cluster + cluster / 2)).toNat +
          256 * (fatBuf (cluster + cluster / 2 + 1)).toNat) % 4096 := by
  have low := (fatBuf (cluster + cluster / 2)).toNat_lt
  have joined :
      (fatBuf (cluster + cluster / 2)).toNat |||
          ((fatBuf (cluster + cluster / 2 + 1)).toNat <<< 8) =
        (fatBuf (cluster + cluster / 2)).toNat +
          256 * (fatBuf (cluster + cluster / 2 + 1)).toNat := by
    rw [Nat.or_comm, ← Nat.shiftLeft_add_eq_or_of_lt (by omega),
      Nat.shiftLeft_eq]
    omega
  have mask (value : Nat) : value &&& 0x0fff = value % 4096 :=
    Nat.and_two_pow_sub_one_eq_mod value 12
  simp only [fatNext, joined, Nat.and_one_is_mod, mask,
    Nat.shiftRight_eq_div_pow]

theorem fatNext_lt (fatBuf : Bytes) (cluster : Nat) :
    fatNext fatBuf cluster < 4096 := by
  have low := (fatBuf (cluster + cluster / 2)).toNat_lt
  have high := (fatBuf (cluster + cluster / 2 + 1)).toNat_lt
  rw [fatNext_eq]
  split <;> omega

private theorem lowNibble_or (byte : UInt8) (value : Nat) :
    ((byte &&& (0x0f : UInt8)) |||
        UInt8.ofNat ((value &&& 0x0f) <<< 4)).toNat =
      byte.toNat % 16 + 16 * (value % 16) := by
  have mask (word : Nat) : word &&& 15 = word % 16 :=
    Nat.and_two_pow_sub_one_eq_mod word 4
  have small : (value % 16) <<< 4 % 2 ^ 8 = (value % 16) <<< 4 := by
    rw [Nat.shiftLeft_eq]
    omega
  simp only [UInt8.toNat_or, UInt8.toNat_and, UInt8.toNat_ofNat',
    UInt8.reduceToNat, mask, small]
  rw [Nat.or_comm, ← Nat.shiftLeft_add_eq_or_of_lt (by omega),
    Nat.shiftLeft_eq]
  omega

set_option maxRecDepth 4000 in
private theorem highNibble_and (byte : UInt8) :
    (byte &&& (0xf0 : UInt8)).toNat = (byte.toNat / 16) <<< 4 := by
  have all : ∀ value < 256, value &&& 240 = (value / 16) <<< 4 := by
    decide
  simpa using all byte.toNat byte.toNat_lt

private theorem highNibble_or (byte : UInt8) (value : Nat) :
    ((byte &&& (0xf0 : UInt8)) |||
        UInt8.ofNat ((value >>> 8) &&& 0x0f)).toNat =
      16 * (byte.toNat / 16) + value / 256 % 16 := by
  have mask (word : Nat) : word &&& 15 = word % 16 :=
    Nat.and_two_pow_sub_one_eq_mod word 4
  rw [UInt8.toNat_or, highNibble_and]
  simp only [UInt8.toNat_ofNat', mask, Nat.shiftRight_eq_div_pow]
  rw [← Nat.shiftLeft_add_eq_or_of_lt (by omega), Nat.shiftLeft_eq]
  omega

private theorem fatSetEntry_low (fatBuf : Bytes) (cluster value : Nat) :
    (fatSetEntry fatBuf cluster value (cluster + cluster / 2)).toNat =
      if cluster % 2 = 1 then
        (fatBuf (cluster + cluster / 2)).toNat % 16 + 16 * (value % 16)
      else
        value % 256 := by
  have mask (word : Nat) : word &&& 0x0fff = word % 4096 :=
    Nat.and_two_pow_sub_one_eq_mod word 12
  have byteMask (word : Nat) : word &&& 0xff = word % 256 :=
    Nat.and_two_pow_sub_one_eq_mod word 8
  have different : cluster + cluster / 2 ≠ cluster + cluster / 2 + 1 := by
    omega
  simp only [fatSetEntry, mask, Nat.and_one_is_mod]
  split
  · rw [Bytes.put_other different, Bytes.put_same, lowNibble_or]
    omega
  · rw [Bytes.put_other different, Bytes.put_same, byteMask,
      UInt8.toNat_ofNat']
    omega

private theorem fatSetEntry_high (fatBuf : Bytes) (cluster value : Nat) :
    (fatSetEntry fatBuf cluster value
        (cluster + cluster / 2 + 1)).toNat =
      if cluster % 2 = 1 then
        value / 16 % 256
      else
        16 * ((fatBuf (cluster + cluster / 2 + 1)).toNat / 16) +
          value / 256 % 16 := by
  have mask (word : Nat) : word &&& 0x0fff = word % 4096 :=
    Nat.and_two_pow_sub_one_eq_mod word 12
  have byteMask (word : Nat) : word &&& 0xff = word % 256 :=
    Nat.and_two_pow_sub_one_eq_mod word 8
  simp only [fatSetEntry, mask, Nat.and_one_is_mod]
  split
  · rw [Bytes.put_same, byteMask, UInt8.toNat_ofNat',
      Nat.shiftRight_eq_div_pow]
    omega
  · rw [Bytes.put_same, highNibble_or]
    omega

/-- The bytes away from the two addressed by the entry are unchanged. -/
theorem fatSetEntry_other (fatBuf : Bytes) {cluster value index : Nat}
    (outside : index < cluster + cluster / 2 ∨
      cluster + cluster / 2 + 1 < index) :
    fatSetEntry fatBuf cluster value index = fatBuf index := by
  simp only [fatSetEntry]
  split <;>
    rw [Bytes.put_other (by omega), Bytes.put_other (by omega)]

/-- Writing an entry sets that cell to the low twelve bits and no other. -/
theorem fatNext_fatSetEntry (fatBuf : Bytes)
    (cluster value other : Nat) :
    fatNext (fatSetEntry fatBuf cluster value) other =
      if other = cluster then value % 4096
      else fatNext fatBuf other := by
  have first := (fatBuf (other + other / 2)).toNat_lt
  have second := (fatBuf (other + other / 2 + 1)).toNat_lt
  rw [fatNext_eq, fatNext_eq]
  by_cases same : other = cluster
  · subst same
    rw [fatSetEntry_low, fatSetEntry_high, if_pos rfl]
    split <;> omega
  · rw [if_neg same]
    by_cases sharesHigh : other = cluster + 1 ∧ cluster % 2 = 0
    · have shared : other + other / 2 = cluster + cluster / 2 + 1 := by
        omega
      have odd : other % 2 = 1 := by omega
      have secondAway : other + other / 2 + 1 < cluster + cluster / 2 ∨
          cluster + cluster / 2 + 1 < other + other / 2 + 1 := by
        omega
      rw [fatSetEntry_other fatBuf secondAway, shared, fatSetEntry_high, ← shared, if_pos odd,
        if_pos odd, if_neg (by omega)]
      omega
    · by_cases sharesLow : other + 1 = cluster ∧ cluster % 2 = 1
      · have shared : other + other / 2 + 1 = cluster + cluster / 2 := by
          omega
        have even : ¬ other % 2 = 1 := by omega
        have firstAway : other + other / 2 < cluster + cluster / 2 ∨
            cluster + cluster / 2 + 1 < other + other / 2 := by
          omega
        rw [fatSetEntry_other fatBuf firstAway, shared, fatSetEntry_low, ← shared, if_neg even,
          if_neg even, if_pos (by omega)]
        omega
      · rw [fatSetEntry_other fatBuf (by omega),
          fatSetEntry_other fatBuf (by omega)]

/-- The table as a function, after one entry is written. -/
theorem fatNext_fatSetEntry_eq_update (fatBuf : Bytes)
    (cluster value : Nat) :
    fatNext (fatSetEntry fatBuf cluster value) =
      Function.update (fatNext fatBuf) cluster (value % 4096) := by
  funext other
  rw [fatNext_fatSetEntry]
  by_cases same : other = cluster
  · rw [if_pos same, same, Function.update_self]
  · rw [if_neg same, Function.update_of_ne same]

/-- A byte is determined by the entries that have a part in it. -/
theorem byte_eq_of_entries {fatBuf fatBuf' : Bytes} {index : Nat}
    (same : ∀ cluster, cluster + cluster / 2 = index ∨
      cluster + cluster / 2 + 1 = index →
        fatNext fatBuf cluster = fatNext fatBuf' cluster) :
    fatBuf index = fatBuf' index := by
  apply UInt8.toNat.inj
  have bound := (fatBuf index).toNat_lt
  have bound' := (fatBuf' index).toNat_lt
  have position : index = 3 * (index / 3) ∨
      index = 3 * (index / 3) + 1 ∨ index = 3 * (index / 3) + 1 + 1 := by
    omega
  rcases position with first | middle | last
  · have off : 2 * (index / 3) + 2 * (index / 3) / 2 = index := by omega
    have even := same _ (.inl off)
    rw [fatNext_eq, fatNext_eq, if_neg (by omega), if_neg (by omega),
      off] at even
    omega
  · -- The middle byte has a nibble of each of two entries.
    have offEven : 2 * (index / 3) + 2 * (index / 3) / 2 + 1 = index := by
      omega
    have offOdd : 2 * (index / 3) + 1 + (2 * (index / 3) + 1) / 2 =
        index := by
      omega
    have even := same _ (.inr offEven)
    have odd := same _ (.inl offOdd)
    rw [fatNext_eq, fatNext_eq, if_neg (by omega), if_neg (by omega),
      offEven] at even
    rw [fatNext_eq, fatNext_eq, if_pos (by omega), if_pos (by omega),
      offOdd] at odd
    have low := (fatBuf (2 * (index / 3) + 2 * (index / 3) / 2)).toNat_lt
    have low' := (fatBuf' (2 * (index / 3) + 2 * (index / 3) / 2)).toNat_lt
    omega
  · have off : 2 * (index / 3) + 1 + (2 * (index / 3) + 1) / 2 + 1 =
        index := by
      omega
    have odd := same _ (.inr off)
    rw [fatNext_eq, fatNext_eq, if_pos (by omega), if_pos (by omega),
      off] at odd
    have low := (fatBuf (2 * (index / 3) + 1 +
      (2 * (index / 3) + 1) / 2)).toNat_lt
    have low' := (fatBuf' (2 * (index / 3) + 1 +
      (2 * (index / 3) + 1) / 2)).toNat_lt
    omega

/-- The entries determine the table. -/
theorem fatNext_injective {fatBuf fatBuf' : Bytes}
    (same : fatNext fatBuf = fatNext fatBuf') : fatBuf = fatBuf' :=
  funext fun _ => byte_eq_of_entries fun cluster _ => congrFun same cluster

/-! ## Freeing a chain -/

/-- Every cluster of a chain is below `FAT12_EOC`, so chains are short. -/
theorem path_length_le {next : Nat → Nat} {stop : Nat → Prop} {start : Nat}
    {clusters : List Nat} (path : Links.Path next stop start clusters)
    (below : ∀ cluster ∈ clusters, cluster < 0x0ff8) :
    clusters.length ≤ 0x0ff8 := by
  have inside : clusters ⊆ List.range 0x0ff8 := fun cluster member =>
    List.mem_range.mpr (below cluster member)
  have bound := (path.nodup.subperm inside).length_le
  simpa only [List.length_range] using bound

theorem chain_length_small {next : Nat → Nat} {start : Nat}
    {clusters : List Nat}
    (path : Links.Path next ChainStop start clusters) :
    clusters.length ≤ 0x0ff8 := by
  refine path_length_le path fun cluster member => ?_
  have going := path.not_stop cluster member
  simp only [ChainStop, not_or] at going
  omega

theorem chain_length_le {next : Nat → Nat} {start : Nat}
    {clusters : List Nat}
    (path : Links.Path next ChainStop start clusters) :
    clusters.length < chainFuel := by
  have small := chain_length_small path
  rw [chainFuel]
  omega

/-- On the entries the loop of `fat_free_chain` is a walk that clears its
nodes. -/
theorem fatFreeLoop_clearWalk :
    ∀ (fuel start : Nat) (fatBuf : Bytes),
      (fatFreeLoop fuel start fatBuf).map fatNext =
        Links.clearWalk ChainStop 0 fuel start (fatNext fatBuf)
  | 0, _, _ => rfl
  | fuel + 1, start, fatBuf => by
      rw [fatFreeLoop, Links.clearWalk]
      split
      · rfl
      · have cleared := fatNext_fatSetEntry_eq_update fatBuf start 0
        rw [Nat.zero_mod] at cleared
        rw [fatFreeLoop_clearWalk fuel, cleared]

/-- `fat_free_chain` ends on every table and clears the entries that it
reaches. -/
theorem fatFreeChain_clears (fatBuf : Bytes) (start : Nat) :
    ∃ freed, fatFreeChain fatBuf start = some freed ∧
      ∀ cluster,
        (Links.Reached (fatNext fatBuf) ChainStop start cluster →
          fatNext freed cluster = 0) ∧
        (¬ Links.Reached (fatNext fatBuf) ChainStop start cluster →
          fatNext freed cluster = fatNext fatBuf cluster) := by
  -- Only numbers below `FAT12_EOC` are cleared, so there are few of them.
  have complete : ∀ cluster,
      Links.Reached (fatNext fatBuf) ChainStop start cluster →
        fatNext fatBuf cluster ≠ 0 → cluster ∈ List.range 0x0ff8 := by
    intro cluster reached _
    have going := reached.not_stop
    rw [ChainStop, not_or] at going
    exact List.mem_range.mpr (by omega)
  have stopped : ChainStop 0 := .inl (by decide)
  have enough : (List.range 0x0ff8).length + 2 ≤ chainFuel := by
    rw [List.length_range, chainFuel]
    omega
  obtain ⟨cleared, result, spec⟩ :=
    Links.clearWalk_exact stopped complete enough
  rw [← fatFreeLoop_clearWalk, Option.map_eq_some_iff] at result
  obtain ⟨freed, done, rfl⟩ := result
  exact ⟨freed, done, spec⟩

/-- `fat_free_chain` on a finite chain clears exactly its entries. -/
theorem fatFreeChain_eq {clusters : List Nat} {start : Nat}
    {fatBuf : Bytes}
    (path : Links.Path (fatNext fatBuf) ChainStop start clusters) :
    ∃ freed, fatFreeChain fatBuf start = some freed ∧
      ∀ cluster, fatNext freed cluster =
        if cluster ∈ clusters then 0 else fatNext fatBuf cluster := by
  obtain ⟨freed, done, spec⟩ := fatFreeChain_clears fatBuf start
  refine ⟨freed, done, fun cluster => ?_⟩
  split
  case isTrue member =>
    exact (spec cluster).1 ((path.mem_iff_reached cluster).mp member)
  case isFalse absent =>
    rw [path.mem_iff_reached] at absent
    exact (spec cluster).2 absent

/-! ## Allocating the lowest free cluster -/

/-- The free clusters below `max`, lowest first. -/
def freeClusters (max : Nat) (next : Nat → Nat) : List Nat :=
  (List.range' 2 (max - 2)).filter fun cluster => next cluster = 0

theorem mem_freeClusters {max : Nat} {next : Nat → Nat} {cluster : Nat} :
    cluster ∈ freeClusters max next ↔
      2 ≤ cluster ∧ cluster < max ∧ next cluster = 0 := by
  simp only [freeClusters, List.mem_filter, List.mem_range'_1,
    decide_eq_true_eq]
  omega

theorem freeClusters_nodup (max : Nat) (next : Nat → Nat) :
    (freeClusters max next).Nodup :=
  List.Nodup.filter _ List.nodup_range'

/-- Only the entries below `max` decide which clusters are free. -/
theorem freeClusters_congr {max : Nat} {next next' : Nat → Nat}
    (agree : ∀ cluster, 2 ≤ cluster → cluster < max →
      (next cluster = 0 ↔ next' cluster = 0)) :
    freeClusters max next = freeClusters max next' := by
  refine List.filter_congr fun cluster member => ?_
  rw [List.mem_range'_1] at member
  simp only [decide_eq_decide]
  exact agree cluster member.1 (by omega)

/-- Taking the first free cluster leaves the others free, in the same
order. -/
theorem freeClusters_take {max : Nat} {next next' : Nat → Nat}
    {fresh : Nat} {rest : List Nat}
    (free : freeClusters max next = fresh :: rest)
    (used : next' fresh ≠ 0)
    (kept : ∀ cluster, cluster ≠ fresh →
      (next' cluster = 0 ↔ next cluster = 0)) :
    freeClusters max next' = rest := by
  have nodup := freeClusters_nodup max next
  rw [free, List.nodup_cons] at nodup
  have fewer : freeClusters max next' =
      (freeClusters max next).filter (· ≠ fresh) := by
    rw [freeClusters, freeClusters, List.filter_filter]
    refine List.filter_congr fun cluster _ => ?_
    by_cases same : cluster = fresh
    · simp [same, used]
    · simp [same, kept cluster same]
  rw [fewer, free, List.filter_cons_of_neg (by simp),
    List.filter_eq_self]
  intro cluster member
  have different : cluster ≠ fresh := fun same =>
    nodup.1 (same ▸ member)
  simpa using different

private theorem fatAllocLoop_eq (max : Nat) (fatBuf : Bytes)
    (small : max ≤ 65535) :
    ∀ (fuel cluster : Nat), max < fuel + cluster → cluster ≤ max →
      fatAllocLoop max fatBuf fuel cluster =
        some
          (match (List.range' cluster (max - cluster)).filter
              fun other => fatNext fatBuf other = 0 with
            | [] => (0, fatBuf)
            | found :: _ => (found, fatSetEntry fatBuf found fatEocMark))
  | 0, cluster, enough, inside => by omega
  | fuel + 1, cluster, enough, inside => by
      rw [fatAllocLoop]
      by_cases more : cluster < max
      · have split : max - cluster = (max - (cluster + 1)) + 1 := by omega
        rw [if_pos more, split, List.range'_succ]
        by_cases free : fatNext fatBuf cluster = 0
        · rw [if_pos free, List.filter_cons_of_pos (by simpa using free)]
        · have step : u16 (cluster + 1) = cluster + 1 := by
            simp only [u16]
            omega
          rw [if_neg free, List.filter_cons_of_neg (by simpa using free),
            step]
          exact fatAllocLoop_eq max fatBuf small fuel (cluster + 1)
            (by omega) more
      · have none : max - cluster = 0 := by omega
        rw [if_neg more, none]
        rfl

/-- The first fit: the lowest free cluster is marked as the end of a chain;
without one the table is unchanged and the result is 0. -/
theorem fatAllocLoop_start_eq {max : Nat} (fatBuf : Bytes)
    (small : max ≤ 65535) :
    fatAllocLoop max fatBuf chainFuel 2 =
      some
        (match freeClusters max (fatNext fatBuf) with
          | [] => (0, fatBuf)
          | found :: _ => (found, fatSetEntry fatBuf found fatEocMark)) := by
  by_cases low : 2 ≤ max
  · exact fatAllocLoop_eq max fatBuf small chainFuel 2
      (by simp only [chainFuel]; omega) low
  · have empty : max - 2 = 0 := by omega
    have stopped : ¬ 2 < max := by omega
    rw [freeClusters, empty, chainFuel, fatAllocLoop, if_neg stopped]
    rfl

end LoafOs
