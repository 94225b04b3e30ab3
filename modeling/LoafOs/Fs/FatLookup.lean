import LoafOs.Fs.FatScan
import LoafOs.Fs.FatChange

/-!
# Looking up names in a well-formed tree

`DirSlots` names the slots of a directory by its first cluster.  In a
well-formed volume `dir_lookup` reports the entry with the name, a vacant
slot, or that there is none; the cluster that it may add to a full
directory is one `EntryChange` of that directory.  Resolving a path stays
inside the tree.
-/

namespace LoafOs

/-! ## What a transfer leaves alone -/

/-- The layouts agree, and outside `touched` so do the root directory and
the data area. -/
structure Kept (touched : Nat → Prop) (volume volume' : Volume) :
    Prop where
  bpb : volume'.bpb = volume.bpb
  sound : volume'.disk.Sound
  mem : ∀ address, 512 * volume.bpb.rootStart ≤ address →
    ¬ touched address → volume'.mem address = volume.mem address

/-- The addresses of one entry. -/
def InSlot (entry address : Nat) : Prop :=
  entry ≤ address ∧ address < entry + 32

/-- The addresses of some clusters. -/
def InClusters (bpb : Bpb) (clusters : List Nat) (address : Nat) : Prop :=
  ∃ cluster ∈ clusters, bpb.clusterAddr cluster ≤ address ∧
    address < bpb.clusterAddr cluster + bpb.clusterSize

section Kept

variable {touched touched' : Nat → Prop} {volume volume' volume'' : Volume}

theorem Kept.refl (sound : volume.disk.Sound) :
    Kept touched volume volume :=
  ⟨rfl, sound, fun _ _ _ => rfl⟩

theorem Kept.trans (first : Kept touched volume volume')
    (second : Kept touched volume' volume'') :
    Kept touched volume volume'' where
  bpb := second.bpb.trans first.bpb
  sound := second.sound
  mem address behind outside :=
    (second.mem address (by rwa [first.bpb]) outside).trans
      (first.mem address behind outside)

theorem Kept.mono (kept : Kept touched volume volume')
    (wider : ∀ address, touched address → touched' address) :
    Kept touched' volume volume' :=
  ⟨kept.bpb, kept.sound, fun address behind outside =>
    kept.mem address behind fun inside => outside (wider address inside)⟩

theorem Kept.sameEntry (kept : Kept touched volume volume') {slot : Nat}
    (behind : 512 * volume.bpb.rootStart ≤ slot)
    (outside : ∀ address, InSlot slot address → ¬ touched address) :
    SameEntry volume'.mem slot volume.mem slot :=
  fun index small =>
    kept.mem (slot + index) (by omega)
      (outside _ ⟨by omega, by omega⟩)

end Kept

section Slots

variable {volume : Volume}

theorem rootStart_le_dataStart (bpb : Bpb) :
    bpb.rootStart ≤ bpb.dataStart :=
  Nat.le_add_right _ _

/-- The slots of the tree lie behind the tables. -/
theorem TreeSlot.behind {slot : Nat} (inTree : TreeSlot volume slot) :
    512 * volume.bpb.rootStart ≤ slot := by
  have order := rootStart_le_dataStart volume.bpb
  rcases inTree with member | ⟨_, cluster, _, _, _, member⟩
  · exact (rootSlot_bounds member).1
  · have bounds := clusterSlot_bounds member
    have start := dataStart_le_clusterAddr volume.bpb cluster
    omega

/-- A slot of the tree lies outside every cluster that no directory
owns. -/
theorem TreeSlot.outside_cluster {slot cluster : Nat}
    (inTree : TreeSlot volume slot) (low : 2 ≤ cluster)
    (notDir : ∀ dir, Reach volume dir → IsDir volume.mem dir →
      ¬ Owns volume dir cluster) :
    slot + 32 ≤ volume.bpb.clusterAddr cluster ∨
      volume.bpb.clusterAddr cluster + volume.bpb.clusterSize ≤ slot := by
  rcases inTree with member | ⟨dir, other, reach, isDir, owned, member⟩
  · have bounds := rootSlot_bounds member
    have start := dataStart_le_clusterAddr volume.bpb cluster
    omega
  · have bounds := clusterSlot_bounds member
    have different : other ≠ cluster := by
      rintro rfl
      exact notDir dir reach isDir owned
    have apart :=
      clusterAddr_apart volume.bpb owned.low low different
    omega

/-- Different slots of the tree do not overlap. -/
theorem TreeSlot.apart {left right : Nat}
    (leftInTree : TreeSlot volume left)
    (rightInTree : TreeSlot volume right) (different : left ≠ right) :
    left + 32 ≤ right ∨ right + 32 ≤ left := by
  rcases leftInTree with
    leftMember | ⟨_, leftCluster, _, _, leftOwned, leftMember⟩ <;>
  rcases rightInTree with
    rightMember | ⟨_, rightCluster, _, _, rightOwned, rightMember⟩
  · exact slots_apart leftMember rightMember different
  · have bounds := rootSlot_bounds leftMember
    have bounds' := clusterSlot_bounds rightMember
    have start := dataStart_le_clusterAddr volume.bpb rightCluster
    omega
  · have bounds := rootSlot_bounds rightMember
    have bounds' := clusterSlot_bounds leftMember
    have start := dataStart_le_clusterAddr volume.bpb leftCluster
    omega
  · by_cases same : leftCluster = rightCluster
    · subst same
      exact slots_apart leftMember rightMember different
    · have bounds := clusterSlot_bounds leftMember
      have bounds' := clusterSlot_bounds rightMember
      have apart := clusterAddr_apart volume.bpb leftOwned.low
        rightOwned.low same
      omega

/-! ## Directories by their first cluster -/

/-- `slots` are the slots of the directory with first cluster `cur`; the
root directory has 0. -/
inductive DirSlots (volume : Volume) : Nat → List Nat → Prop
  | root : DirSlots volume 0 (rootSlots volume.bpb)
  | sub {dir : Nat} {clusters : List Nat} (reach : Reach volume dir)
      (isDir : IsDir volume.mem dir)
      (chain : Chain volume dir clusters) :
      DirSlots volume (direntFirst volume.mem dir)
        (clusters.flatMap (clusterSlots volume.bpb))

theorem DirSlots.treeSlot {cur slot : Nat} {slots : List Nat}
    (dirSlots : DirSlots volume cur slots) (member : slot ∈ slots) :
    TreeSlot volume slot := by
  cases dirSlots with
  | root => exact Or.inl member
  | sub reach isDir chain =>
      obtain ⟨cluster, owned, inCluster⟩ := List.mem_flatMap.mp member
      exact Or.inr ⟨_, cluster, reach, isDir, chain.owns_iff.mpr owned,
        inCluster⟩

theorem TreeSlot.dirSlots {slot : Nat} (inTree : TreeSlot volume slot)
    (wellFormed : WellFormed volume) :
    ∃ cur slots, DirSlots volume cur slots ∧ slot ∈ slots := by
  rcases inTree with member | ⟨dir, cluster, reach, isDir, owned, member⟩
  · exact ⟨0, _, .root, member⟩
  · obtain ⟨clusters, chain⟩ := wellFormed.chain dir reach
    exact ⟨_, _, .sub reach isDir chain, List.mem_flatMap.mpr
      ⟨cluster, chain.owns_iff.mp owned, member⟩⟩

/-- The first cluster of a directory that is not the root is one of its
clusters. -/
theorem Chain.first_owned {entry : Nat} {clusters : List Nat}
    (chain : Chain volume entry clusters)
    (isDir : IsDir volume.mem entry) :
    Owns volume entry (direntFirst volume.mem entry) := by
  have nonempty := chain.directory isDir
  refine chain.owns_iff.mpr (chain.path.head_mem fun stopped => ?_)
  exact nonempty (chain.path.eq_nil_of_stop stopped)

/-- The first cluster determines the directory. -/
theorem DirSlots.unique {cur : Nat} {slots slots' : List Nat}
    (left : DirSlots volume cur slots)
    (right : DirSlots volume cur slots') : slots = slots' := by
  have nonzero {dir : Nat} {clusters : List Nat}
      (isDir : IsDir volume.mem dir)
      (chain : Chain volume dir clusters) :
      direntFirst volume.mem dir ≠ 0 := by
    intro zero
    exact chain.directory isDir
      (chain.path.eq_nil_of_stop (Or.inl (by omega)))
  generalize same : cur = cur' at right
  cases left with
  | root =>
      cases right with
      | root => rfl
      | sub _ isDir chain => exact absurd same.symm (nonzero isDir chain)
  | sub _ isDir chain =>
      cases right with
      | root => exact absurd same (nonzero isDir chain)
      | sub _ isDir' chain' =>
          have path := chain.path
          rw [same] at path
          rw [path.unique chain'.path]

/-- The slots of the root lie in no cluster. -/
theorem rootSlot_apart {slot cluster : Nat}
    (inRoot : slot ∈ rootSlots volume.bpb)
    (inCluster : slot ∈ clusterSlots volume.bpb cluster) : False := by
  have bounds := rootSlot_bounds inRoot
  have bounds' := clusterSlot_bounds inCluster
  have start := dataStart_le_clusterAddr volume.bpb cluster
  omega

/-- Directories that share a slot are one. -/
theorem Chain.same_of_slot (wellFormed : WellFormed volume)
    {dir dir' slot : Nat} {clusters clusters' : List Nat}
    (reach : Reach volume dir) (reach' : Reach volume dir')
    (chain : Chain volume dir clusters)
    (chain' : Chain volume dir' clusters')
    (member : slot ∈ clusters.flatMap (clusterSlots volume.bpb))
    (member' : slot ∈ clusters'.flatMap (clusterSlots volume.bpb)) :
    dir = dir' := by
  obtain ⟨cluster, owned, inCluster⟩ := List.mem_flatMap.mp member
  obtain ⟨cluster', owned', inCluster'⟩ := List.mem_flatMap.mp member'
  have bounds := clusterSlot_bounds inCluster
  have bounds' := clusterSlot_bounds inCluster'
  have same : cluster = cluster' := by
    by_contra different
    have apart := clusterAddr_apart volume.bpb
      (chain.low cluster owned) (chain'.low cluster' owned')
      different
    omega
  subst same
  exact wellFormed.disjoint _ _ cluster reach reach'
    (chain.owns_iff.mpr owned) (chain'.owns_iff.mpr owned')

/-- A slot belongs to one directory only. -/
theorem DirSlots.same_of_member (wellFormed : WellFormed volume)
    {cur cur' slot : Nat} {slots slots' : List Nat}
    (left : DirSlots volume cur slots)
    (right : DirSlots volume cur' slots') (leftMember : slot ∈ slots)
    (rightMember : slot ∈ slots') : slots = slots' := by
  cases left with
  | root =>
      cases right with
      | root => rfl
      | sub _ _ _ =>
          obtain ⟨_, _, inCluster⟩ := List.mem_flatMap.mp rightMember
          exact (rootSlot_apart leftMember inCluster).elim
  | sub reach isDir chain =>
      cases right with
      | root =>
          obtain ⟨_, _, inCluster⟩ := List.mem_flatMap.mp leftMember
          exact (rootSlot_apart rightMember inCluster).elim
      | sub reach' isDir' chain' =>
          obtain rfl := chain.same_of_slot wellFormed reach reach' chain'
            leftMember rightMember
          rw [chain.unique chain']

end Slots

/-! ## Steps on the volume -/

section Steps

variable {volume : Volume}

@[simp]
theorem Volume.setEntry_bpb (volume : Volume) (cluster value : Nat) :
    (volume.setEntry cluster value).bpb = volume.bpb := rfl

@[simp]
theorem Volume.setEntry_disk (volume : Volume) (cluster value : Nat) :
    (volume.setEntry cluster value).disk = volume.disk := rfl

@[simp]
theorem Volume.setEntry_mem (volume : Volume) (cluster value : Nat) :
    (volume.setEntry cluster value).mem = volume.mem := rfl

theorem Volume.setEntry_next (volume : Volume) (cluster value : Nat) :
    (volume.setEntry cluster value).next =
      Function.update volume.next cluster (value % 4096) :=
  fatNext_fatSetEntry_eq_update volume.fatBuf cluster value

theorem Volume.next_congr {volume' : Volume}
    (same : volume'.fatBuf = volume.fatBuf) :
    volume'.next = volume.next := by
  rw [Volume.next, Volume.next, same]

/-- The clusters that `fat_alloc_cluster` can still give out, in order. -/
def Volume.free (volume : Volume) : List Nat :=
  freeClusters volume.bpb.totalClusters volume.next

theorem Volume.mem_free {cluster : Nat} :
    cluster ∈ volume.free ↔
      2 ≤ cluster ∧ cluster < volume.bpb.totalClusters ∧
        volume.next cluster = 0 := by
  rw [Volume.free, mem_freeClusters]

theorem fatAllocCluster_none (geometry : Geometry volume.bpb)
    (full : volume.free = []) :
    fatAllocCluster volume = some (0, volume) := by
  rw [Volume.free] at full
  rw [fatAllocCluster_eq geometry, full]

theorem fatAllocCluster_some (geometry : Geometry volume.bpb)
    {found : Nat} {rest : List Nat} (free : volume.free = found :: rest) :
    fatAllocCluster volume =
      some (found, volume.setEntry found fatEocMark) := by
  rw [Volume.free] at free
  rw [fatAllocCluster_eq geometry, free]

/-- A write to a cluster of the volume. -/
theorem Volume.writeCluster_kept (geometry : Geometry volume.bpb)
    (sound : volume.disk.Sound) {cluster : Nat} (low : 2 ≤ cluster)
    (high : cluster < volume.bpb.totalClusters) (buffer : Bytes) :
    ∃ volume',
      volume.write (volume.bpb.clusterLba cluster)
          volume.bpb.perCluster buffer = (0, volume') ∧
        Kept (InClusters volume.bpb [cluster]) volume volume' ∧
        volume'.fatBuf = volume.fatBuf ∧
        volume'.mem =
          volume.mem.copy (volume.bpb.clusterAddr cluster) buffer
            volume.bpb.clusterSize := by
  obtain ⟨volume', written, bpb, fatBuf, sound', mem⟩ :=
    Volume.writeCluster_eq geometry sound low high buffer
  refine ⟨volume', written, ⟨bpb, sound', fun address _ outside => ?_⟩,
    fatBuf, mem⟩
  rw [mem]
  refine Bytes.copy_outside ?_
  by_contra inside
  exact outside
    ⟨cluster, List.mem_singleton_self cluster, by omega, by omega⟩

/-- Flushing the table touches no entry and no cluster. -/
theorem fatFlush_kept (geometry : Geometry volume.bpb)
    (sound : volume.disk.Sound) :
    ∃ volume', fatFlush volume = (0, volume') ∧
      Kept (fun _ => False) volume volume' ∧
      volume'.fatBuf = volume.fatBuf ∧ CopiesEqual volume' := by
  obtain ⟨volume', flushed, bpb, fatBuf, sound', copies, outside⟩ :=
    fatFlush_eq geometry sound
  exact ⟨volume', flushed,
    ⟨bpb, sound', fun address behind _ => outside address (Or.inr behind)⟩,
    fatBuf, copies⟩

theorem Kept.setEntry {touched : Nat → Prop} {volume volume' : Volume}
    (kept : Kept touched volume volume') (cluster value : Nat) :
    Kept touched volume (volume'.setEntry cluster value) :=
  ⟨kept.bpb, kept.sound, kept.mem⟩

/-- `dir_lookup` has linked the cleared cluster `fresh` to the end `last`
of a directory. -/
structure Grown (volume volume' : Volume) (last fresh : Nat) : Prop where
  kept : Kept (InClusters volume.bpb [fresh]) volume volume'
  copies : CopiesEqual volume'
  next : volume'.next =
    Function.update (Function.update volume.next fresh fatEocMark) last
      fresh
  cleared : ∀ index < volume.bpb.clusterSize,
    volume'.mem (volume.bpb.clusterAddr fresh + index) = 0

theorem dirGrow_none (geometry : Geometry volume.bpb)
    (full : volume.free = []) (last : Nat) (slot : DirSlot) :
    dirGrow volume last slot = some (3, slot, volume) := by
  rw [dirGrow, fatAllocCluster_none geometry full]
  rfl

theorem dirGrow_some (geometry : Geometry volume.bpb)
    (sound : volume.disk.Sound) {fresh : Nat} {rest : List Nat}
    (free : volume.free = fresh :: rest) (last : Nat) (slot : DirSlot) :
    ∃ volume', dirGrow volume last slot =
        some (0, slotAt (volume.bpb.clusterAddr fresh) false, volume') ∧
      Grown volume volume' last fresh := by
  have isFree : fresh ∈ volume.free := by
    rw [free]
    exact List.mem_cons_self
  obtain ⟨low, high, _⟩ := Volume.mem_free.mp isFree
  have few := geometry.totalClusters_le
  have nonzero : fresh ≠ 0 := by omega
  let linked :=
    (volume.setEntry fresh fatEocMark).setEntry last fresh
  have linkedKept : Kept (InClusters volume.bpb [fresh]) volume linked :=
    (Kept.refl sound).setEntry _ _ |>.setEntry _ _
  obtain ⟨written, writeEq, writtenKept, writtenBuf, writtenMem⟩ :=
    Volume.writeCluster_kept (show Geometry linked.bpb from geometry)
      linkedKept.sound low high
      (scratch.fill 0 0 volume.bpb.clusterSize)
  have writtenGeometry : Geometry written.bpb := by
    rw [writtenKept.bpb]
    exact geometry
  obtain ⟨flushed, flushEq, flushedKept, flushedBuf, copies⟩ :=
    fatFlush_kept writtenGeometry writtenKept.sound
  have addr : (⟨volume.bpb.clusterLba fresh, 0, false⟩ : DirSlot) =
      slotAt (volume.bpb.clusterAddr fresh) false := by
    rw [geometry.clusterLba_eq low high]
    simp only [slotAt, Bpb.clusterAddr, DirSlot.mk.injEq, and_true]
    omega
  refine ⟨flushed, ?_, ?_⟩
  · rw [dirGrow, fatAllocCluster_some geometry free]
    simp only [Option.bind_eq_bind, Option.bind_some, nonzero, if_false]
    have writeEq' :
        ((volume.setEntry fresh fatEocMark).setEntry last fresh).write
          (((volume.setEntry fresh fatEocMark).setEntry last
            fresh).bpb.clusterLba fresh)
          ((volume.setEntry fresh fatEocMark).setEntry last
            fresh).bpb.perCluster
          (scratch.fill 0 0 ((volume.setEntry fresh fatEocMark).setEntry
            last fresh).bpb.clusterSize) = (0, written) := writeEq
    rw [writeEq']
    simp only [ne_eq, not_true, if_false, flushEq]
    rw [← addr]
    rfl
  · have kept : Kept (InClusters volume.bpb [fresh]) volume flushed :=
      (linkedKept.trans writtenKept).trans
        (flushedKept.mono fun _ impossible => impossible.elim)
    refine ⟨kept, copies, ?_, ?_⟩
    · have small : fresh % 4096 = fresh := Nat.mod_eq_of_lt (by omega)
      have sameNext : flushed.next = linked.next :=
        Volume.next_congr (flushedBuf.trans writtenBuf)
      rw [sameNext, Volume.setEntry_next, Volume.setEntry_next, small]
      rfl
    · intro index small
      have order := rootStart_le_dataStart volume.bpb
      have start := dataStart_le_clusterAddr volume.bpb fresh
      have flushedMem := flushedKept.mem
        (volume.bpb.clusterAddr fresh + index)
        (by
          rw [writtenKept.bpb]
          show 512 * volume.bpb.rootStart ≤ _
          omega) not_false
      rw [flushedMem, writtenMem]
      show linked.mem.copy (volume.bpb.clusterAddr fresh) _
        volume.bpb.clusterSize _ = 0
      rw [Bytes.copy_inside (by omega) (by omega)]
      exact if_pos ⟨by omega, by omega⟩

end Steps

/-! ## Names that stay -/

/-- Every name that a directory showed for an entry in `kept` it still
shows, for the same bytes. -/
def NamesKept (kept : Nat → Prop) (volume volume' : Volume) : Prop :=
  ∀ cur slots, DirSlots volume cur slots →
    ∃ more, DirSlots volume' cur (slots ++ more) ∧
      ∀ target entry, Finds volume.mem target slots entry → kept entry →
        Finds volume'.mem target (slots ++ more) entry ∧
          SameEntry volume'.mem entry volume.mem entry

section NamesKept

variable {volume volume' volume'' : Volume} {kept : Nat → Prop}

theorem NamesKept.refl : NamesKept kept volume volume := by
  intro cur slots dirSlots
  refine ⟨[], by rwa [List.append_nil], fun target entry found _ => ?_⟩
  rw [List.append_nil]
  exact ⟨found, fun _ _ => rfl⟩

theorem NamesKept.trans (first : NamesKept kept volume volume')
    (second : NamesKept kept volume' volume'') :
    NamesKept kept volume volume'' := by
  intro cur slots dirSlots
  obtain ⟨more, dirSlots', found'⟩ := first cur slots dirSlots
  obtain ⟨more', dirSlots'', found''⟩ := second cur _ dirSlots'
  refine ⟨more ++ more', ?_, ?_⟩
  · rwa [← List.append_assoc]
  · intro target entry found keptEntry
    obtain ⟨middle, same⟩ := found' target entry found keptEntry
    obtain ⟨last, same'⟩ := found'' target entry middle keptEntry
    rw [← List.append_assoc]
    exact ⟨last, fun index small =>
      (same' index small).trans (same index small)⟩

/-- Changing an entry keeps the names of the others, if the new entry takes
no name that was found before and a directory only gets longer. -/
theorem EntryChange.namesKept {entry : Nat} {old new : List Nat}
    (change : EntryChange volume volume' entry old new)
    (wellFormed : WellFormed volume) (going : volume'.mem entry ≠ 0x00)
    (noMatch : ∀ cur slots target other, DirSlots volume cur slots →
      entry ∈ slots → Finds volume.mem target slots other →
      Matches volume'.mem target entry → Matches volume.mem target entry)
    (longer : Reach volume entry → IsDir volume.mem entry →
      SameEntry volume'.mem entry volume.mem entry ∧
        ∃ more, new = old ++ more) :
    NamesKept
      (fun other => other ≠ entry ∨
        SameEntry volume'.mem entry volume.mem entry) volume volume' := by
  intro cur slots dirSlots
  have extended : ∃ more, DirSlots volume' cur (slots ++ more) := by
    cases dirSlots with
    | root =>
        refine ⟨[], ?_⟩
        rw [List.append_nil, ← change.bpb]
        exact .root
    | @sub dir clusters reach isDir chain =>
        by_cases atEntry : dir = entry
        · subst atEntry
          obtain ⟨same, more, newEq⟩ := longer reach isDir
          have live := same.live_iff.mpr reach.live
          have oldEq := (change.oldChain reach).unique chain
          have chain' := change.newChain live
          have reach' := (change.reach_iff wellFormed dir).mpr
            (Or.inl ⟨rfl, live⟩)
          refine ⟨more.flatMap (clusterSlots volume.bpb), ?_⟩
          rw [← List.flatMap_append, ← oldEq, ← newEq, ← same.first,
            ← change.bpb]
          exact .sub reach' (same.isDir_iff.mpr isDir) chain'
        · have same := change.entries dir reach.treeSlot atEntry
          have reach' := (change.reach_iff wellFormed dir).mpr
            (Or.inr ⟨atEntry, reach⟩)
          refine ⟨[], ?_⟩
          rw [List.append_nil, ← same.first, ← change.bpb]
          exact .sub reach' (same.isDir_iff.mpr isDir)
            (change.chain wellFormed reach atEntry chain)
  obtain ⟨more, dirSlots'⟩ := extended
  refine ⟨more, dirSlots', fun target other found keptOther => ?_⟩
  have same : ∀ slot ∈ slots, slot ≠ entry ∨ slot = other →
      SameEntry volume'.mem slot volume.mem slot := by
    intro slot member which
    by_cases atEntry : slot = entry
    · subst atEntry
      rcases which with different | rfl
      · exact absurd rfl different
      · rcases keptOther with different | same
        · exact absurd rfl different
        · exact same
    · exact change.entries slot (dirSlots.treeSlot member) atEntry
  refine ⟨found.frame same going fun member matched => ?_,
    same other found.member (Or.inr rfl)⟩
  exact noMatch cur slots target other dirSlots member found matched

end NamesKept

/-! ## Growing a directory -/

section Growing

variable {volume volume' : Volume} {dir : Nat} {clusters : List Nat}

/-- A cluster that no directory owns overlaps no slot of the tree. -/
theorem Kept.entry_of_clusters {touched : List Nat} {slot : Nat}
    (kept : Kept (InClusters volume.bpb touched) volume volume')
    (inTree : TreeSlot volume slot)
    (apart : ∀ cluster ∈ touched, 2 ≤ cluster ∧
      ∀ dir, Reach volume dir → IsDir volume.mem dir →
        ¬ Owns volume dir cluster) :
    SameEntry volume'.mem slot volume.mem slot := by
  refine kept.sameEntry inTree.behind ?_
  rintro address ⟨first, last⟩ ⟨cluster, member, start, finish⟩
  obtain ⟨low, notDir⟩ := apart cluster member
  have outside := inTree.outside_cluster low notDir
  omega

theorem not_live_of_zero {mem : Bytes} {slot : Nat}
    (zero : mem slot = 0) : ¬ Live mem slot :=
  fun live => live.1.1 zero

/-- Slots in a cleared cluster hold no entry. -/
theorem cleared_slot {mem : Bytes} {bpb : Bpb} {cluster slot : Nat}
    (cleared : ∀ index < bpb.clusterSize,
      mem (bpb.clusterAddr cluster + index) = 0)
    (member : slot ∈ clusterSlots bpb cluster) : mem slot = 0 := by
  have bounds := clusterSlot_bounds member
  have here := cleared (slot - bpb.clusterAddr cluster) (by omega)
  rwa [Nat.add_sub_cancel' bounds.1] at here

/-- The step of `dir_lookup` that adds a cluster is a change of the
directory's own entry. -/
theorem Grown.entryChange (wellFormed : WellFormed volume)
    (reach : Reach volume dir) (isDir : IsDir volume.mem dir)
    (chain : Chain volume dir clusters) (nonempty : clusters ≠ [])
    {fresh : Nat} (isFree : fresh ∈ volume.free)
    (grown : Grown volume volume' (clusters.getLast nonempty) fresh) :
    SameEntry volume'.mem dir volume.mem dir ∧
      EntryChange volume volume' dir clusters (clusters ++ [fresh]) := by
  obtain ⟨low, high, unused⟩ := Volume.mem_free.mp isFree
  have few := wellFormed.geometry.totalClusters_le
  have lastMember := List.getLast_mem nonempty
  have notOld : fresh ∉ clusters := fun member =>
    wellFormed.free_not_owned reach unused (chain.owns_iff.mpr member)
  have lastDifferent : clusters.getLast nonempty ≠ fresh :=
    fun same => notOld (same ▸ lastMember)
  have apart : ∀ cluster ∈ [fresh], 2 ≤ cluster ∧
      ∀ other, Reach volume other → IsDir volume.mem other →
        ¬ Owns volume other cluster := by
    intro cluster member
    rw [List.mem_singleton] at member
    subst member
    exact ⟨low, fun other otherReach _ =>
      wellFormed.free_not_owned otherReach unused⟩
  have sameSlot {slot : Nat} (inTree : TreeSlot volume slot) :
      SameEntry volume'.mem slot volume.mem slot :=
    grown.kept.entry_of_clusters inTree apart
  have sameDir := sameSlot reach.treeSlot
  have nextFresh : volume'.next fresh = fatEocMark := by
    rw [grown.next, Function.update_of_ne lastDifferent.symm,
      Function.update_self]
  have nextLast :
      volume'.next (clusters.getLast nonempty) = fresh := by
    rw [grown.next, Function.update_self]
  have nextOther {cluster : Nat} (notLast :
      cluster ≠ clusters.getLast nonempty) (notFresh : cluster ≠ fresh) :
      volume'.next cluster = volume.next cluster := by
    rw [grown.next, Function.update_of_ne notLast,
      Function.update_of_ne notFresh]
  have newChain : Chain volume' dir (clusters ++ [fresh]) :=
    { path := by
        rw [sameDir.first, grown.next]
        refine chain.path.concat nonempty notOld ?_ (Or.inr (by decide))
        simp only [ChainStop]
        omega
      inside := by
        intro cluster member
        rw [grown.kept.bpb]
        rcases List.mem_append.mp member with inOld | atEnd
        · exact chain.inside cluster inOld
        · rw [List.mem_singleton] at atEnd
          rwa [atEnd]
      linked := by
        intro cluster member
        by_cases isFresh : cluster = fresh
        · rw [isFresh, nextFresh]
          decide
        by_cases isLast : cluster = clusters.getLast nonempty
        · rwa [isLast, nextLast]
        · rw [nextOther isLast isFresh]
          refine chain.linked cluster ?_
          simpa [isFresh] using member
      directory := fun _ => by simp
      regular := fun notDir => by
        rw [sameDir.isDir_iff] at notDir
        exact absurd isDir notDir }
  refine ⟨sameDir, ?_⟩
  exact
    { bpb := grown.kept.bpb
      inTree := reach.treeSlot
      oldChain := fun _ => chain
      oldNone := fun unreached => absurd reach unreached
      newChain := fun _ => newChain
      newNone := fun dead =>
        absurd (sameDir.live_iff.mpr reach.live) dead
      entries := fun slot inTree _ => sameSlot inTree
      kept := by
        intro cluster notMember notNew
        rw [List.mem_append, not_or, List.mem_singleton] at notNew
        exact nextOther (fun same => notMember (same ▸ lastMember))
          notNew.2
      freed := fun cluster member notNew =>
        absurd (List.mem_append_left _ member) notNew
      fresh := by
        intro cluster member
        rcases List.mem_append.mp member with inOld | atEnd
        · exact Or.inl inOld
        · rw [List.mem_singleton] at atEnd
          exact Or.inr (atEnd ▸ unused)
      children := by
        intro slot
        rw [sameDir.live_iff, sameDir.isDir_iff]
        constructor
        · rintro ⟨_, _, ⟨cluster, member, inCluster⟩, live⟩
          rcases List.mem_append.mp member with inOld | atEnd
          · have inTree : TreeSlot volume slot :=
              Or.inr ⟨dir, cluster, reach, isDir,
                chain.owns_iff.mpr inOld, inCluster⟩
            exact ⟨reach, isDir, ⟨cluster, inOld, inCluster⟩,
              (sameSlot inTree).live_iff.mp live⟩
          · rw [List.mem_singleton] at atEnd
            subst atEnd
            exact absurd live
              (not_live_of_zero (cleared_slot grown.cleared inCluster))
        · rintro ⟨_, _, ⟨cluster, member, inCluster⟩, live⟩
          have inTree : TreeSlot volume slot :=
            Or.inr ⟨dir, cluster, reach, isDir,
              chain.owns_iff.mpr member, inCluster⟩
          exact ⟨reach.live, isDir,
            ⟨cluster, List.mem_append_left _ member, inCluster⟩,
            (sameSlot inTree).live_iff.mpr live⟩ }

end Growing

end LoafOs
