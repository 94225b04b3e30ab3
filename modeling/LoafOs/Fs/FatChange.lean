import LoafOs.Fs.FatTree

/-!
# Replacing one entry and its chain

Every operation of the driver changes the tree in the same way: one slot of
a directory gets new contents, the clusters of its old chain that are not
taken over are freed, and the new chain uses clusters that were free or its
own.  `EntryChange` states this; the reachable entries afterwards are the
old ones with that slot decided anew, and the invariant is kept.
-/

namespace LoafOs

/-- The slot `entry` and its chain, `old` before and `new` after, are all
that changes between the two volumes.  The live entries inside the slot's
own directory, if it has or had one, stay the same. -/
structure EntryChange (volume volume' : Volume) (entry : Nat)
    (old new : List Nat) : Prop where
  bpb : volume'.bpb = volume.bpb
  inTree : TreeSlot volume entry
  oldChain : Reach volume entry → Chain volume entry old
  oldNone : ¬ Reach volume entry → old = []
  newChain : Live volume'.mem entry → Chain volume' entry new
  newNone : ¬ Live volume'.mem entry → new = []
  entries : ∀ slot, TreeSlot volume slot → slot ≠ entry →
    SameEntry volume'.mem slot volume.mem slot
  kept : ∀ cluster, cluster ∉ old → cluster ∉ new →
    volume'.next cluster = volume.next cluster
  freed : ∀ cluster ∈ old, cluster ∉ new → volume'.next cluster = 0
  fresh : ∀ cluster ∈ new, cluster ∈ old ∨ volume.next cluster = 0
  children : ∀ slot,
    (Live volume'.mem entry ∧ IsDir volume'.mem entry ∧
        (∃ cluster ∈ new, slot ∈ clusterSlots volume.bpb cluster) ∧
        Live volume'.mem slot) ↔
      (Reach volume entry ∧ IsDir volume.mem entry ∧
        (∃ cluster ∈ old, slot ∈ clusterSlots volume.bpb cluster) ∧
        Live volume.mem slot)

namespace EntryChange

variable {volume volume' : Volume} {entry : Nat} {old new : List Nat}

/-- The clusters of the other entries are neither freed nor taken. -/
theorem not_touched (change : EntryChange volume volume' entry old new)
    (wellFormed : WellFormed volume) {other cluster : Nat}
    (reach : Reach volume other) (different : other ≠ entry)
    (owned : Owns volume other cluster) :
    cluster ∉ old ∧ cluster ∉ new := by
  have notOld : cluster ∉ old := by
    intro member
    by_cases reachEntry : Reach volume entry
    · have ownedByEntry : Owns volume entry cluster :=
        (change.oldChain reachEntry).owns_iff.mpr member
      exact different <|
        wellFormed.disjoint other entry cluster reach reachEntry owned
          ownedByEntry
    · rw [change.oldNone reachEntry] at member
      simp at member
  refine ⟨notOld, fun member => ?_⟩
  rcases change.fresh cluster member with inOld | free
  · exact notOld inOld
  · exact wellFormed.free_not_owned reach free owned

/-- The chains of the other entries are the same before and after. -/
theorem chain (change : EntryChange volume volume' entry old new)
    (wellFormed : WellFormed volume) {other : Nat}
    {clusters : List Nat} (reach : Reach volume other)
    (different : other ≠ entry) (chain : Chain volume other clusters) :
    Chain volume' other clusters := by
  have same := change.entries other reach.treeSlot different
  have links : ∀ cluster ∈ clusters,
      volume'.next cluster = volume.next cluster := by
    intro cluster member
    have apart := change.not_touched wellFormed reach different
      (chain.owns_iff.mpr member)
    exact change.kept cluster apart.1 apart.2
  exact
    { path := by
        rw [same.first]
        exact chain.path.congr links
      inside := by
        rw [change.bpb]
        exact chain.inside
      linked := by
        intro cluster member
        rw [links cluster member]
        exact chain.linked cluster member
      directory := by
        rw [same.isDir_iff]
        exact chain.directory
      regular := by
        rw [same.isDir_iff, same.first, same.size, change.bpb]
        exact chain.regular }

theorem owns_iff (change : EntryChange volume volume' entry old new)
    (wellFormed : WellFormed volume) {other : Nat}
    (reach : Reach volume other) (different : other ≠ entry)
    (cluster : Nat) :
    Owns volume' other cluster ↔ Owns volume other cluster := by
  obtain ⟨clusters, before⟩ := wellFormed.chain other reach
  have after := change.chain wellFormed reach different before
  rw [after.owns_iff, before.owns_iff]

/-- What was reachable stays so, apart from the slot itself. -/
private theorem reach_forward
    (change : EntryChange volume volume' entry old new)
    (wellFormed : WellFormed volume) {slot : Nat}
    (reach : Reach volume slot) :
    (slot ≠ entry → Reach volume' slot) ∧
      (slot = entry → Live volume'.mem entry → Reach volume' entry) := by
  induction reach with
  | @root slot member live =>
      have member' : slot ∈ rootSlots volume'.bpb := by
        rwa [change.bpb]
      constructor
      · intro different
        have same := change.entries slot (Or.inl member) different
        exact .root member' (same.live_iff.mpr live)
      · rintro rfl live'
        exact .root member' live'
  | @sub dir cluster slot parent isDir owned member live
      inductionHypothesis =>
      have reach : Reach volume slot :=
        .sub parent isDir owned member live
      have member' : slot ∈ clusterSlots volume'.bpb cluster := by
        rwa [change.bpb]
      by_cases atEntry : dir = entry
      · subst atEntry
        have chain := change.oldChain parent
        have different : slot ≠ dir := by
          rintro rfl
          exact wellFormed.not_own_slot parent cluster owned member
        have inside := (change.children slot).mpr
          ⟨parent, isDir, ⟨cluster, chain.owns_iff.mp owned, member⟩,
            live⟩
        obtain ⟨liveDir, isDir', ⟨found, inNew, inFound⟩, live'⟩ := inside
        have reachDir : Reach volume' dir :=
          inductionHypothesis.2 rfl liveDir
        have owned' : Owns volume' dir found :=
          (change.newChain liveDir).owns_iff.mpr inNew
        constructor
        · intro _
          exact .sub reachDir isDir' owned' (by rwa [change.bpb]) live'
        · intro same
          exact absurd same different
      · have same := change.entries dir parent.treeSlot atEntry
        have reachDir : Reach volume' dir := inductionHypothesis.1 atEntry
        have isDir' : IsDir volume'.mem dir := same.isDir_iff.mpr isDir
        have owned' : Owns volume' dir cluster :=
          (change.owns_iff wellFormed parent atEntry cluster).mpr owned
        constructor
        · intro different
          have sameSlot := change.entries slot reach.treeSlot different
          exact .sub reachDir isDir' owned' member'
            (sameSlot.live_iff.mpr live)
        · rintro rfl live'
          exact .sub reachDir isDir' owned' member' live'

/-- The slot itself is reachable afterwards exactly when it is live. -/
private theorem reach_entry
    (change : EntryChange volume volume' entry old new)
    (wellFormed : WellFormed volume) (live : Live volume'.mem entry) :
    Reach volume' entry := by
  by_cases reach : Reach volume entry
  · exact (change.reach_forward wellFormed reach).2 rfl live
  · rcases change.inTree with
      member | ⟨dir, cluster, parent, isDir, owned, member⟩
    · exact .root (by rwa [change.bpb]) live
    · have different : dir ≠ entry := by
        rintro rfl
        exact reach parent
      have same := change.entries dir parent.treeSlot different
      exact .sub ((change.reach_forward wellFormed parent).1 different)
        (same.isDir_iff.mpr isDir)
        ((change.owns_iff wellFormed parent different cluster).mpr owned)
        (by rwa [change.bpb]) live

private theorem reach_backward
    (change : EntryChange volume volume' entry old new)
    (wellFormed : WellFormed volume) {slot : Nat}
    (reach : Reach volume' slot) (different : slot ≠ entry) :
    Reach volume slot := by
  induction reach with
  | @root slot member live =>
      rw [change.bpb] at member
      have same := change.entries slot (Or.inl member) different
      exact .root member (same.live_iff.mp live)
  | @sub dir cluster slot parent isDir owned member live
      inductionHypothesis =>
      rw [change.bpb] at member
      by_cases atEntry : dir = entry
      · subst atEntry
        have inNew : cluster ∈ new :=
          (change.newChain parent.live).owns_iff.mp owned
        obtain ⟨reachDir, isDir', ⟨found, inOld, inFound⟩, live'⟩ :=
          (change.children slot).mp
            ⟨parent.live, isDir, ⟨cluster, inNew, member⟩, live⟩
        exact .sub reachDir isDir'
          ((change.oldChain reachDir).owns_iff.mpr inOld) inFound live'
      · have reachDir : Reach volume dir := inductionHypothesis atEntry
        have same := change.entries dir reachDir.treeSlot atEntry
        have owned' : Owns volume dir cluster :=
          (change.owns_iff wellFormed reachDir atEntry cluster).mp owned
        have isDir' : IsDir volume.mem dir := same.isDir_iff.mp isDir
        have sameSlot := change.entries slot
          (Or.inr ⟨dir, cluster, reachDir, isDir', owned', member⟩)
          different
        exact .sub reachDir isDir' owned' member
          (sameSlot.live_iff.mp live)

/-- The reachable entries after the change. -/
theorem reach_iff (change : EntryChange volume volume' entry old new)
    (wellFormed : WellFormed volume) (slot : Nat) :
    Reach volume' slot ↔
      slot = entry ∧ Live volume'.mem entry ∨
        slot ≠ entry ∧ Reach volume slot := by
  constructor
  · intro reach
    by_cases same : slot = entry
    · subst same
      exact Or.inl ⟨rfl, reach.live⟩
    · exact Or.inr ⟨same, change.reach_backward wellFormed reach same⟩
  · rintro (⟨rfl, live⟩ | ⟨different, reach⟩)
    · exact change.reach_entry wellFormed live
    · exact (change.reach_forward wellFormed reach).1 different

/-- The invariant is kept by the change of one entry. -/
theorem wellFormed (change : EntryChange volume volume' entry old new)
    (wellFormed : WellFormed volume) (copies : CopiesEqual volume') :
    WellFormed volume' where
  geometry := by
    rw [change.bpb]
    exact wellFormed.geometry
  chain := by
    intro slot reach
    rcases (change.reach_iff wellFormed slot).mp reach with
      ⟨rfl, live⟩ | ⟨different, before⟩
    · exact ⟨new, change.newChain live⟩
    · obtain ⟨clusters, chain⟩ := wellFormed.chain slot before
      exact ⟨clusters, change.chain wellFormed before different chain⟩
  disjoint := by
    intro left right cluster leftReach rightReach leftOwns rightOwns
    rcases (change.reach_iff wellFormed left).mp leftReach with
      ⟨rfl, leftLive⟩ | ⟨leftDifferent, leftBefore⟩
    · have inNew := (change.newChain leftLive).owns_iff.mp leftOwns
      rcases (change.reach_iff wellFormed right).mp rightReach with
        ⟨rfl, _⟩ | ⟨rightDifferent, rightBefore⟩
      · rfl
      · have before := (change.owns_iff wellFormed rightBefore
          rightDifferent cluster).mp rightOwns
        exact absurd inNew (change.not_touched wellFormed rightBefore
          rightDifferent before).2
    · have leftOwned := (change.owns_iff wellFormed leftBefore
        leftDifferent cluster).mp leftOwns
      rcases (change.reach_iff wellFormed right).mp rightReach with
        ⟨rfl, rightLive⟩ | ⟨rightDifferent, rightBefore⟩
      · have inNew := (change.newChain rightLive).owns_iff.mp rightOwns
        exact absurd inNew (change.not_touched wellFormed leftBefore
          leftDifferent leftOwned).2
      · exact wellFormed.disjoint left right cluster leftBefore
          rightBefore leftOwned ((change.owns_iff wellFormed rightBefore
            rightDifferent cluster).mp rightOwns)
  used := by
    intro cluster low high
    rw [change.bpb] at high
    by_cases inNew : cluster ∈ new
    · have live : Live volume'.mem entry := by
        by_contra dead
        rw [change.newNone dead] at inNew
        simp at inNew
      have chain := change.newChain live
      have marked := chain.linked cluster inNew
      refine iff_of_true (by omega) ⟨entry, ?_, ?_⟩
      · exact (change.reach_iff wellFormed entry).mpr
          (Or.inl ⟨rfl, live⟩)
      · exact chain.owns_iff.mpr inNew
    · have otherOwner : ∀ slot, Reach volume' slot →
          Owns volume' slot cluster →
            slot ≠ entry ∧ Reach volume slot ∧
              Owns volume slot cluster := by
        intro slot reach owned
        rcases (change.reach_iff wellFormed slot).mp reach with
          ⟨rfl, live⟩ | ⟨different, before⟩
        · exact absurd ((change.newChain live).owns_iff.mp owned) inNew
        · exact ⟨different, before, (change.owns_iff wellFormed before
            different cluster).mp owned⟩
      by_cases inOld : cluster ∈ old
      · have cleared := change.freed cluster inOld inNew
        refine iff_of_false (by simp [cleared]) ?_
        rintro ⟨slot, reach, owned⟩
        obtain ⟨different, before, ownedBefore⟩ :=
          otherOwner slot reach owned
        exact (change.not_touched wellFormed before different
          ownedBefore).1 inOld
      · rw [change.kept cluster inOld inNew,
          wellFormed.used cluster low high]
        constructor
        · rintro ⟨slot, reach, owned⟩
          have different : slot ≠ entry := by
            rintro rfl
            exact inOld ((change.oldChain reach).owns_iff.mp owned)
          exact ⟨slot, (change.reach_iff wellFormed slot).mpr
              (Or.inr ⟨different, reach⟩),
            (change.owns_iff wellFormed reach different cluster).mpr
              owned⟩
        · rintro ⟨slot, reach, owned⟩
          obtain ⟨_, before, ownedBefore⟩ := otherOwner slot reach owned
          exact ⟨slot, before, ownedBefore⟩
  copies := copies

end EntryChange

end LoafOs
