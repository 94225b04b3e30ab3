import LoafOs.Fs.FatDirectory

/-!
# The directory tree on a volume

An entry is named by the flat address of its 32 bytes.  The entries
reachable from the root and the clusters that each of them owns say what a
volume stores; `WellFormed` is the separation invariant over all of them.
`wellFormed_of_change` is the one argument behind every operation: one
entry and its chain are replaced, everything else keeps its bytes and its
links.
-/

namespace LoafOs

/-! ## Entries -/

/-- The entries that `dir_lookup` compares with a name. -/
def Listed (mem : Bytes) (slot : Nat) : Prop :=
  mem slot ≠ 0x00 ∧ mem slot ≠ 0xe5 ∧
    direntAttr mem slot ≠ attrLongName ∧
    direntAttr mem slot &&& attrVolumeId = 0

/-- The entries `.` and `..`, as `dir_is_empty` recognises them. -/
def IsDot (mem : Bytes) (slot : Nat) : Prop :=
  mem slot = 0x2e ∧ mem (slot + 1) = 0x20 ∨
    mem slot = 0x2e ∧ mem (slot + 1) = 0x2e ∧ mem (slot + 2) = 0x20

/-- The live entries other than `.`, `..`, labels and long names. -/
def Live (mem : Bytes) (slot : Nat) : Prop :=
  Listed mem slot ∧ ¬ IsDot mem slot

def IsDir (mem : Bytes) (slot : Nat) : Prop :=
  direntAttr mem slot &&& attrDirectory ≠ 0

instance (mem : Bytes) (slot : Nat) : Decidable (Listed mem slot) :=
  inferInstanceAs (Decidable (_ ∧ _ ∧ _ ∧ _))

instance (mem : Bytes) (slot : Nat) : Decidable (IsDot mem slot) :=
  inferInstanceAs (Decidable (_ ∨ _))

instance (mem : Bytes) (slot : Nat) : Decidable (IsDir mem slot) :=
  inferInstanceAs (Decidable (_ ≠ _))

section SameEntry

variable {mem mem' : Bytes} {slot slot' : Nat}

/-- The 32 bytes at the two addresses agree. -/
def SameEntry (mem : Bytes) (slot : Nat) (mem' : Bytes) (slot' : Nat) :
    Prop :=
  ∀ index < 32, mem (slot + index) = mem' (slot' + index)

theorem SameEntry.symm (same : SameEntry mem slot mem' slot') :
    SameEntry mem' slot' mem slot :=
  fun index bound => (same index bound).symm

theorem SameEntry.head (same : SameEntry mem slot mem' slot') :
    mem slot = mem' slot' := by
  simpa using same 0 (by decide)

theorem SameEntry.attr (same : SameEntry mem slot mem' slot') :
    direntAttr mem slot = direntAttr mem' slot' :=
  same 11 (by decide)

theorem SameEntry.name (same : SameEntry mem slot mem' slot') :
    direntName mem slot = direntName mem' slot' :=
  Bytes.slice_congr fun index bound => same index (by omega)

theorem SameEntry.first (same : SameEntry mem slot mem' slot') :
    direntFirst mem slot = direntFirst mem' slot' :=
  Bytes.word16_congr fun index bound => by
    simpa only [Nat.add_assoc] using same (26 + index) (by omega)

theorem SameEntry.size (same : SameEntry mem slot mem' slot') :
    direntSize mem slot = direntSize mem' slot' :=
  Bytes.word32_congr fun index bound => by
    simpa only [Nat.add_assoc] using same (28 + index) (by omega)

theorem SameEntry.listed_iff (same : SameEntry mem slot mem' slot') :
    Listed mem slot ↔ Listed mem' slot' := by
  rw [Listed, Listed, same.head, same.attr]

theorem SameEntry.isDot_iff (same : SameEntry mem slot mem' slot') :
    IsDot mem slot ↔ IsDot mem' slot' := by
  have second := same 1 (by decide)
  have third := same 2 (by decide)
  rw [IsDot, IsDot, same.head, second, third]

theorem SameEntry.live_iff (same : SameEntry mem slot mem' slot') :
    Live mem slot ↔ Live mem' slot' := by
  rw [Live, Live, same.listed_iff, same.isDot_iff]

theorem SameEntry.isDir_iff (same : SameEntry mem slot mem' slot') :
    IsDir mem slot ↔ IsDir mem' slot' := by
  rw [IsDir, IsDir, same.attr]

end SameEntry

/-! ## Slots -/

/-- The addresses of `count` consecutive entries. -/
def slotsFrom (base count : Nat) : List Nat :=
  (List.range count).map fun index => base + 32 * index

def rootSlots (bpb : Bpb) : List Nat :=
  slotsFrom (512 * bpb.rootStart) (16 * bpb.rootSectors)

def clusterSlots (bpb : Bpb) (cluster : Nat) : List Nat :=
  slotsFrom (bpb.clusterAddr cluster) (16 * bpb.perCluster)

theorem mem_slotsFrom {base count slot : Nat} :
    slot ∈ slotsFrom base count ↔
      ∃ index < count, slot = base + 32 * index := by
  simp only [slotsFrom, List.mem_map, List.mem_range]
  constructor
  · rintro ⟨index, bound, rfl⟩
    exact ⟨index, bound, rfl⟩
  · rintro ⟨index, bound, rfl⟩
    exact ⟨index, bound, rfl⟩

theorem slot_bounds {base count slot : Nat}
    (member : slot ∈ slotsFrom base count) :
    base ≤ slot ∧ slot + 32 ≤ base + 32 * count := by
  obtain ⟨index, bound, rfl⟩ := mem_slotsFrom.mp member
  omega

theorem clusterSlot_bounds {bpb : Bpb} {cluster slot : Nat}
    (member : slot ∈ clusterSlots bpb cluster) :
    bpb.clusterAddr cluster ≤ slot ∧
      slot + 32 ≤ bpb.clusterAddr cluster + bpb.clusterSize := by
  have bounds := slot_bounds member
  simp only [Bpb.clusterSize]
  omega

theorem rootSlot_bounds {bpb : Bpb} {slot : Nat}
    (member : slot ∈ rootSlots bpb) :
    512 * bpb.rootStart ≤ slot ∧ slot + 32 ≤ 512 * bpb.dataStart := by
  have bounds := slot_bounds member
  simp only [Bpb.dataStart]
  omega

/-- Clusters lie behind the root directory. -/
theorem dataStart_le_clusterAddr (bpb : Bpb) (cluster : Nat) :
    512 * bpb.dataStart ≤ bpb.clusterAddr cluster := by
  simp only [Bpb.clusterAddr]
  omega

/-- Different clusters occupy disjoint blocks. -/
theorem clusterAddr_apart (bpb : Bpb) {left right : Nat}
    (leftLow : 2 ≤ left) (rightLow : 2 ≤ right)
    (different : left ≠ right) :
    bpb.clusterAddr left + bpb.clusterSize ≤ bpb.clusterAddr right ∨
      bpb.clusterAddr right + bpb.clusterSize ≤ bpb.clusterAddr left := by
  simp only [Bpb.clusterAddr, Bpb.clusterSize]
  rcases Nat.lt_or_gt_of_ne different with before | after
  · left
    have step : (left - 2 + 1) * bpb.perCluster ≤
        (right - 2) * bpb.perCluster :=
      Nat.mul_le_mul_right _ (by omega)
    rw [Nat.succ_mul] at step
    omega
  · right
    have step : (right - 2 + 1) * bpb.perCluster ≤
        (left - 2) * bpb.perCluster :=
      Nat.mul_le_mul_right _ (by omega)
    rw [Nat.succ_mul] at step
    omega

/-- Two entries in one block of slots are equal or do not overlap. -/
theorem slots_apart {base count left right : Nat}
    (leftMember : left ∈ slotsFrom base count)
    (rightMember : right ∈ slotsFrom base count)
    (different : left ≠ right) :
    left + 32 ≤ right ∨ right + 32 ≤ left := by
  obtain ⟨leftIndex, _, rfl⟩ := mem_slotsFrom.mp leftMember
  obtain ⟨rightIndex, _, rfl⟩ := mem_slotsFrom.mp rightMember
  omega

/-! ## Reachable entries and the clusters they own -/

/-- The cluster lies on the chain of the entry. -/
def Owns (volume : Volume) (entry cluster : Nat) : Prop :=
  Links.OnPath volume.next ChainStop (direntFirst volume.mem entry)
    cluster

/-- The live entries that can be reached from the root directory. -/
inductive Reach (volume : Volume) : Nat → Prop
  | root {slot : Nat} (member : slot ∈ rootSlots volume.bpb)
      (live : Live volume.mem slot) : Reach volume slot
  | sub {dir cluster slot : Nat} (parent : Reach volume dir)
      (isDir : IsDir volume.mem dir) (owned : Owns volume dir cluster)
      (member : slot ∈ clusterSlots volume.bpb cluster)
      (live : Live volume.mem slot) : Reach volume slot

/-- The slot belongs to the root directory or to a reachable one. -/
def TreeSlot (volume : Volume) (slot : Nat) : Prop :=
  slot ∈ rootSlots volume.bpb ∨
    ∃ dir cluster, Reach volume dir ∧ IsDir volume.mem dir ∧
      Owns volume dir cluster ∧ slot ∈ clusterSlots volume.bpb cluster

/-- The number of clusters that `size` bytes take. -/
def clustersFor (bpb : Bpb) (size : Nat) : Nat :=
  (size + bpb.clusterSize - 1) / bpb.clusterSize

/-- The chain of an entry: it visits exactly `clusters`, all of them below
the total, and no link on it is 0 or 1, so it ends in a value from 0xff8
on.  A directory has a cluster; a regular file has as many as its size
takes, and first cluster 0 exactly when it is empty. -/
structure Chain (volume : Volume) (entry : Nat) (clusters : List Nat) :
    Prop where
  path : Links.Path volume.next ChainStop
    (direntFirst volume.mem entry) clusters
  inside : ∀ cluster ∈ clusters, cluster < volume.bpb.totalClusters
  linked : ∀ cluster ∈ clusters, 2 ≤ volume.next cluster
  directory : IsDir volume.mem entry → clusters ≠ []
  regular : ¬ IsDir volume.mem entry →
    clusters.length =
        clustersFor volume.bpb (direntSize volume.mem entry) ∧
      (direntFirst volume.mem entry = 0 ↔
        direntSize volume.mem entry = 0)

/-- The volume invariant: chains of reachable entries are finite, inside
the volume and pairwise disjoint, exactly the clusters on them are marked
in the table, and the copies of the table agree with `fat_buf`. -/
structure WellFormed (volume : Volume) : Prop where
  geometry : Geometry volume.bpb
  chain : ∀ entry, Reach volume entry →
    ∃ clusters, Chain volume entry clusters
  disjoint : ∀ left right cluster, Reach volume left →
    Reach volume right → Owns volume left cluster →
    Owns volume right cluster → left = right
  used : ∀ cluster, 2 ≤ cluster → cluster < volume.bpb.totalClusters →
    (volume.next cluster ≠ 0 ↔
      ∃ entry, Reach volume entry ∧ Owns volume entry cluster)
  copies : CopiesEqual volume

/-- What resolving a path needs: the chains of the directories. -/
structure Readable (volume : Volume) : Prop where
  geometry : Geometry volume.bpb
  chain : ∀ dir, Reach volume dir → IsDir volume.mem dir →
    ∃ clusters, Chain volume dir clusters

theorem WellFormed.readable {volume : Volume}
    (wellFormed : WellFormed volume) : Readable volume :=
  ⟨wellFormed.geometry, fun dir reach _ => wellFormed.chain dir reach⟩

instance (volume : Volume) :
    CoeOut (WellFormed volume) (Readable volume) :=
  ⟨WellFormed.readable⟩

section Facts

variable {volume : Volume}

theorem Reach.live {entry : Nat} (reach : Reach volume entry) :
    Live volume.mem entry := by
  cases reach with
  | root _ live => exact live
  | sub _ _ _ _ live => exact live

theorem Reach.treeSlot {entry : Nat} (reach : Reach volume entry) :
    TreeSlot volume entry := by
  cases reach with
  | root member _ => exact Or.inl member
  | sub parent isDir owned member _ =>
      exact Or.inr ⟨_, _, parent, isDir, owned, member⟩

theorem TreeSlot.reach {slot : Nat} (inTree : TreeSlot volume slot)
    (live : Live volume.mem slot) : Reach volume slot := by
  rcases inTree with member | ⟨dir, cluster, parent, isDir, owned, member⟩
  · exact .root member live
  · exact .sub parent isDir owned member live

theorem Owns.going {entry cluster : Nat}
    (owned : Owns volume entry cluster) : ¬ ChainStop cluster := by
  obtain ⟨clusters, path, member⟩ := owned
  exact path.not_stop cluster member

theorem Owns.low {entry cluster : Nat}
    (owned : Owns volume entry cluster) : 2 ≤ cluster := by
  have going := owned.going
  simp only [ChainStop, not_or] at going
  omega

theorem Chain.owns_iff {entry cluster : Nat} {clusters : List Nat}
    (chain : Chain volume entry clusters) :
    Owns volume entry cluster ↔ cluster ∈ clusters := by
  constructor
  · rintro ⟨found, path, member⟩
    rwa [path.unique chain.path] at member
  · intro member
    exact ⟨clusters, chain.path, member⟩

theorem Chain.low {entry : Nat} {clusters : List Nat}
    (chain : Chain volume entry clusters) :
    ∀ cluster ∈ clusters, 2 ≤ cluster :=
  fun _ member => (chain.owns_iff.mpr member).low

theorem Chain.unique {entry : Nat} {clusters clusters' : List Nat}
    (left : Chain volume entry clusters)
    (right : Chain volume entry clusters') : clusters = clusters' :=
  left.path.unique right.path

namespace WellFormed

theorem owns_inside (wellFormed : WellFormed volume)
    {entry cluster : Nat} (reach : Reach volume entry)
    (owned : Owns volume entry cluster) :
    cluster < volume.bpb.totalClusters := by
  obtain ⟨clusters, chain⟩ := wellFormed.chain entry reach
  exact chain.inside cluster (chain.owns_iff.mp owned)

theorem owned_used (wellFormed : WellFormed volume)
    {entry cluster : Nat} (reach : Reach volume entry)
    (owned : Owns volume entry cluster) : volume.next cluster ≠ 0 :=
  (wellFormed.used cluster owned.low
    (wellFormed.owns_inside reach owned)).mpr ⟨entry, reach, owned⟩

/-- A free cluster is on no chain. -/
theorem free_not_owned (wellFormed : WellFormed volume)
    {entry cluster : Nat} (reach : Reach volume entry)
    (free : volume.next cluster = 0) : ¬ Owns volume entry cluster :=
  fun owned => wellFormed.owned_used reach owned free

/-- A directory does not hold its own entry. -/
theorem not_own_slot (wellFormed : WellFormed volume) {entry : Nat}
    (reach : Reach volume entry) :
    ∀ cluster, Owns volume entry cluster →
      entry ∉ clusterSlots volume.bpb cluster := by
  induction reach with
  | @root slot member live =>
      intro cluster owned inCluster
      have rootBounds := rootSlot_bounds member
      have clusterBounds := clusterSlot_bounds inCluster
      have behind := dataStart_le_clusterAddr volume.bpb cluster
      omega
  | @sub dir cluster slot parent isDir owned member live
      inductionHypothesis =>
      intro other ownedOther inOther
      have same : cluster = other := by
        by_contra different
        have bounds := clusterSlot_bounds member
        have otherBounds := clusterSlot_bounds inOther
        have apart :=
          clusterAddr_apart volume.bpb owned.low ownedOther.low different
        omega
      subst same
      have itself : dir = slot :=
        wellFormed.disjoint dir slot cluster parent
          (.sub parent isDir owned member live) owned ownedOther
      subst itself
      exact inductionHypothesis cluster owned member

end WellFormed

end Facts

end LoafOs
