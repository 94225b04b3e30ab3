import LoafOs.Fs.FatRoundTrip

/-!
# Calls that end anywhere

A call may also fail after it has touched the table and the clusters of its
target.  Whatever it returns, it has changed at most the entry of its
target, the clusters of the target and free clusters.  The directory tree
and every other file are the same afterwards.
-/

namespace LoafOs

/-- At most the entry of the target and clusters that no other entry owns
have changed, on the disk or in the table. -/
structure Disturbed (volume volume' : Volume) (raw : List UInt8)
    (entry : Nat) (touched : List Nat) : Prop where
  kept : Kept (fun address => InSlot entry address ∨
    InClusters volume.bpb touched address) volume volume'
  next : ∀ cluster, cluster ∉ touched →
    volume'.next cluster = volume.next cluster
  low : ∀ cluster ∈ touched, 2 ≤ cluster
  mine : ∀ cluster ∈ touched, ∀ other, Reach volume other →
    other ≠ entry → ¬ Owns volume other cluster
  regular : Reach volume entry → ¬ IsDir volume.mem entry
  entry : SameEntry volume'.mem entry volume.mem entry ∨
    volume'.mem entry ≠ 0x00 ∧ (¬ Listed volume'.mem entry ∨
      direntName volume'.mem entry = raw ∧ ¬ IsDir volume'.mem entry)

namespace Disturbed

variable {volume volume' : Volume} {cur entry other : Nat}
  {raw : List UInt8} {existing : Bool} {touched : List Nat}

theorem not_entry (disturbed : Disturbed volume volume' raw entry touched)
    {dir : Nat} (reach : Reach volume dir) (isDir : IsDir volume.mem dir) :
    dir ≠ entry := by
  rintro rfl
  exact disturbed.regular reach isDir

theorem sameEntry (disturbed : Disturbed volume volume' raw entry touched)
    (atEntry : TreeSlot volume entry) (inTree : TreeSlot volume other)
    (different : other ≠ entry) :
    SameEntry volume'.mem other volume.mem other := by
  refine disturbed.kept.sameEntry inTree.behind ?_
  rintro address ⟨first, last⟩ (⟨start, finish⟩ | ⟨cluster, member,
    start, finish⟩)
  · have apart := inTree.apart atEntry different
    omega
  · have outside := inTree.outside_cluster (disturbed.low cluster member)
      fun dir reach isDir => disturbed.mine cluster member dir reach
        (disturbed.not_entry reach isDir)
    omega

theorem sameDir (disturbed : Disturbed volume volume' raw entry touched)
    (atEntry : TreeSlot volume entry) {dir : Nat}
    (reach : Reach volume dir) (isDir : IsDir volume.mem dir) :
    SameEntry volume'.mem dir volume.mem dir :=
  disturbed.sameEntry atEntry reach.treeSlot
    (disturbed.not_entry reach isDir)

theorem chain (disturbed : Disturbed volume volume' raw entry touched)
    (atEntry : TreeSlot volume entry) (reach : Reach volume other)
    (different : other ≠ entry) {clusters : List Nat}
    (chain : Chain volume other clusters) :
    Chain volume' other clusters := by
  have same := disturbed.sameEntry atEntry reach.treeSlot different
  have next : ∀ cluster ∈ clusters,
      volume'.next cluster = volume.next cluster := by
    intro cluster member
    refine disturbed.next cluster fun inTouched => ?_
    exact disturbed.mine cluster inTouched other reach different
      (chain.owns_iff.mpr member)
  exact
    { path := by
        rw [same.first]
        exact chain.path.congr fun cluster member =>
          next cluster member
      inside := by
        rw [disturbed.kept.bpb]
        exact chain.inside
      linked := by
        intro cluster member
        rw [next cluster member]
        exact chain.linked cluster member
      directory := fun isDir =>
        chain.directory (same.isDir_iff.mp isDir)
      regular := by
        rw [disturbed.kept.bpb, same.first, same.size, same.isDir_iff]
        exact chain.regular }

theorem owns_iff (disturbed : Disturbed volume volume' raw entry touched)
    (opened : Opened volume cur raw entry existing)
    (reach : Reach volume other) (different : other ≠ entry)
    (cluster : Nat) :
    Owns volume' other cluster ↔ Owns volume other cluster := by
  obtain ⟨clusters, chain⟩ := opened.wellFormed.chain other reach
  rw [chain.owns_iff,
    (disturbed.chain opened.treeSlot reach different chain).owns_iff]

theorem reach_forward
    (disturbed : Disturbed volume volume' raw entry touched)
    (opened : Opened volume cur raw entry existing) {slot : Nat}
    (reach : Reach volume slot) : slot ≠ entry → Reach volume' slot := by
  have atEntry := opened.treeSlot
  induction reach with
  | root member live =>
      intro different
      refine .root (by rwa [disturbed.kept.bpb]) ?_
      exact (disturbed.sameEntry atEntry (Or.inl member)
        different).live_iff.mpr live
  | sub parent isDir owned member live inductionHypothesis =>
      intro different
      have notEntry := disturbed.not_entry parent isDir
      have same := disturbed.sameEntry atEntry
        (Or.inr ⟨_, _, parent, isDir, owned, member⟩) different
      exact .sub (inductionHypothesis notEntry)
        ((disturbed.sameDir atEntry parent isDir).isDir_iff.mpr isDir)
        ((disturbed.owns_iff opened parent notEntry _).mpr owned)
        (by rwa [disturbed.kept.bpb]) (same.live_iff.mpr live)

/-- Every slot of the tree was one before; nothing hangs below the entry of
the target. -/
theorem reach_backward
    (disturbed : Disturbed volume volume' raw entry touched)
    (opened : Opened volume cur raw entry existing) {slot : Nat}
    (reach : Reach volume' slot) :
    TreeSlot volume slot ∧ (slot ≠ entry → Reach volume slot) ∧
      (IsDir volume'.mem slot → slot ≠ entry) := by
  have atEntry := opened.treeSlot
  have notEntry {slot : Nat} (live : Live volume'.mem slot) :
      IsDir volume'.mem slot → slot ≠ entry := by
    rintro isDir rfl
    rcases disturbed.entry with same | ⟨_, dead | ⟨_, notDir⟩⟩
    · have before := atEntry.reach (same.live_iff.mp live)
      exact disturbed.regular before (same.isDir_iff.mp isDir)
    · exact dead live.1
    · exact notDir isDir
  induction reach with
  | root member live =>
      rw [disturbed.kept.bpb] at member
      refine ⟨Or.inl member, fun different => ?_, notEntry live⟩
      exact .root member ((disturbed.sameEntry atEntry (Or.inl member)
        different).live_iff.mp live)
  | @sub dir cluster slot parent isDir owned member live
      inductionHypothesis =>
      obtain ⟨inTree, before, isOther⟩ := inductionHypothesis
      have different := isOther isDir
      have reachDir := before different
      have isDir' := (disturbed.sameEntry atEntry inTree
        different).isDir_iff.mp isDir
      have owned' := (disturbed.owns_iff opened reachDir different _).mp
        owned
      rw [disturbed.kept.bpb] at member
      have inTree' : TreeSlot volume slot :=
        Or.inr ⟨dir, cluster, reachDir, isDir', owned', member⟩
      refine ⟨inTree', fun different => ?_, notEntry live⟩
      exact .sub reachDir isDir' owned' member
        ((disturbed.sameEntry atEntry inTree' different).live_iff.mp live)

theorem readable (disturbed : Disturbed volume volume' raw entry touched)
    (opened : Opened volume cur raw entry existing) :
    Readable volume' where
  geometry := by
    rw [disturbed.kept.bpb]
    exact opened.wellFormed.geometry
  chain := by
    intro dir reach isDir
    obtain ⟨_, before, isOther⟩ := disturbed.reach_backward opened reach
    have different := isOther isDir
    obtain ⟨clusters, chain⟩ :=
      opened.wellFormed.chain dir (before different)
    exact ⟨clusters, disturbed.chain opened.treeSlot (before different)
      different chain⟩

theorem namesKept (disturbed : Disturbed volume volume' raw entry touched)
    (opened : Opened volume cur raw entry existing) :
    NamesKept (fun other => other ≠ entry ∨
      SameEntry volume'.mem entry volume.mem entry) volume volume' := by
  have atEntry := opened.treeSlot
  intro cur' slots dirSlots
  refine ⟨[], ?_, ?_⟩
  · rw [List.append_nil]
    cases dirSlots with
    | root =>
        rw [← disturbed.kept.bpb]
        exact .root
    | @sub dir clusters reach isDir chain =>
        have different := disturbed.not_entry reach isDir
        have sameDir := disturbed.sameDir atEntry reach isDir
        rw [← sameDir.first, ← disturbed.kept.bpb]
        exact .sub (disturbed.reach_forward opened reach different)
          (sameDir.isDir_iff.mpr isDir)
          (disturbed.chain atEntry reach different chain)
  · intro target found isFound keptEntry
    have sameOther : ∀ slot ∈ slots, slot ≠ entry ∨ slot = found →
        SameEntry volume'.mem slot volume.mem slot := by
      intro slot member which
      by_cases here : slot = entry
      · rw [here]
        rcases which with different | isFound'
        · exact absurd here different
        · exact keptEntry.resolve_left fun different =>
            different (isFound'.symm.trans here)
      · exact disturbed.sameEntry atEntry (dirSlots.treeSlot member) here
    have sameFound := sameOther found isFound.member (Or.inr rfl)
    refine ⟨?_, sameFound⟩
    rcases disturbed.entry with same | ⟨nonzero, dead | ⟨named, _⟩⟩
    · refine isFound.frame (fun slot member _ => ?_)
        (by rw [sameFound.head]; exact isFound.matches.1.1)
        (fun _ matched => sameFound.matches_iff.mp matched)
      by_cases here : slot = entry
      · rwa [here]
      · exact sameOther slot member (Or.inl here)
    · exact isFound.frame sameOther nonzero fun _ matched =>
        absurd matched.1 dead
    · exact isFound.frame sameOther nonzero fun member matched =>
        opened.noMatch named dirSlots member isFound matched

theorem framed (disturbed : Disturbed volume volume' raw entry touched)
    (opened : Opened volume cur raw entry existing) :
    Framed
      (fun other => ¬ (other ≠ entry ∨
        SameEntry volume'.mem entry volume.mem entry))
      (fun other => other = entry ∨ DirAt volume cur other)
      volume volume' := by
  have readable' := disturbed.readable opened
  have namesKept := disturbed.namesKept opened
  have keptDirs : ∀ dir, Reach volume dir → IsDir volume.mem dir →
      dir ≠ entry ∨ SameEntry volume'.mem entry volume.mem entry :=
    fun dir reach isDir => Or.inl (disturbed.not_entry reach isDir)
  refine ⟨disturbed.kept.bpb, ?_, ?_, ?_⟩
  · intro path resolved result zero
    exact resolvePath_frame opened.wellFormed opened.sound readable'
      disturbed.kept.sound namesKept keptDirs result zero
  · intro path other names isKept
    exact names.frame opened.wellFormed opened.sound readable'
      disturbed.kept.sound namesKept keptDirs (Classical.not_not.mp isKept)
  · intro other reach _ still
    rw [not_or] at still
    obtain ⟨different, notParent⟩ := still
    refine ⟨disturbed.sameEntry opened.treeSlot reach.treeSlot different,
      fun clusters chain =>
        disturbed.chain opened.treeSlot reach different chain, ?_⟩
    intro clusters chain cluster member index bound
    have owned := chain.owns_iff.mpr member
    refine disturbed.kept.mem _ ?_ ?_
    · have behind := dataStart_le_clusterAddr volume.bpb cluster
      have order := rootStart_le_dataStart volume.bpb
      omega
    · have absent : entry ∉ clusterSlots volume.bpb cluster := by
        intro holds
        obtain ⟨slots, dirSlots, inSlots, _⟩ := opened.found
        exact notParent
          (dirSlots.holder opened.wellFormed inSlots reach owned holds)
      have away := opened.treeSlot.outside_of_not_mem owned.low absent
      rintro (⟨first, last⟩ | inTouched)
      · omega
      · exact not_inClusters owned.low disturbed.low
          (fun isTouched => disturbed.mine cluster isTouched other reach
            different owned) bound inTouched

theorem directoriesKept
    (disturbed : Disturbed volume volume' raw entry touched)
    (opened : Opened volume cur raw entry existing) :
    DirectoriesKept volume volume' := by
  intro dir clusters reach isDir chain
  have different := disturbed.not_entry reach isDir
  refine ⟨disturbed.reach_forward opened reach different,
    disturbed.sameDir opened.treeSlot reach isDir, [], ?_⟩
  rw [List.append_nil]
  exact disturbed.chain opened.treeSlot reach different chain

end Disturbed

section Calls

variable {volume released volume' opened : Volume} {path : CString}
  {cur entry : Nat} {raw : List UInt8} {slots old touched : List Nat}
  {slot : DirSlot} {existing : Bool} {data : Bytes}

/-- A cluster of the old chain, or a free one, has no other owner. -/
theorem OldChain.mine (wellFormed : WellFormed volume)
    (oldChain : OldChain volume entry old) {cluster : Nat}
    (touched : cluster ∈ old ∨ volume.next cluster = 0) {other : Nat}
    (reach : Reach volume other) (different : other ≠ entry) :
    ¬ Owns volume other cluster := by
  intro owned
  rcases touched with inOld | free
  · by_cases live : Reach volume entry
    · exact different (wellFormed.disjoint other entry cluster reach live
        owned ((oldChain.chain live).owns_iff.mpr inOld))
    · rw [oldChain.none live] at inOld
      cases inOld
  · exact wellFormed.free_not_owned reach free owned

theorem OldChain.low (oldChain : OldChain volume entry old) :
    ∀ cluster ∈ old, 2 ≤ cluster := by
  intro cluster member
  by_cases reach : Reach volume entry
  · exact (oldChain.chain reach).low cluster member
  · rw [oldChain.none reach] at member
    cases member

/-- `fat_write_file` without enough clusters. -/
theorem Released.disturbed
    (isOpened : Opened opened cur raw entry existing)
    (regular : Reach opened entry → ¬ IsDir opened.mem entry)
    (isReleased : Released opened released entry old)
    (bpb : volume'.bpb = opened.bpb) (sound : volume'.disk.Sound)
    (fatBuf : volume'.fatBuf = released.fatBuf)
    (outside : ∀ address, ¬ InClusters opened.bpb released.free address →
      volume'.mem address = opened.mem address) :
    Disturbed opened volume' raw entry (old ++ released.free) where
  kept := ⟨bpb, sound, fun address _ untouched => outside address
    fun inside => untouched (Or.inr (inside.mono fun cluster member =>
      List.mem_append_right _ member))⟩
  next := by
    intro cluster notTouched
    rw [Volume.next_congr fatBuf, isReleased.next, if_neg]
    exact fun inOld => notTouched (List.mem_append_left _ inOld)
  low := by
    intro cluster member
    rcases List.mem_append.mp member with inOld | isFree
    · exact isReleased.toOldChain.low cluster inOld
    · exact (Volume.mem_free.mp isFree).1
  mine := by
    intro cluster member other reach different
    refine isReleased.toOldChain.mine isOpened.wellFormed ?_ reach
      different
    rcases List.mem_append.mp member with inOld | isFree
    · exact Or.inl inOld
    · exact isReleased.free_cases isFree
  regular := regular
  entry := by
    refine Or.inl fun index bound => outside _ ?_
    rintro ⟨cluster, isFree, first, last⟩
    have apart := isReleased.entry_apart isOpened isFree
    omega

/-- `fat_write_at` without enough clusters. -/
theorem Exhausted.disturbed
    (isOpened : Opened opened cur raw entry existing)
    (regular : Reach opened entry → ¬ IsDir opened.mem entry)
    (oldChain : OldChain opened entry old) {position offset count : Nat}
    (exhausted : Exhausted opened volume' old position)
    (spliced : Spliced opened.bpb opened.mem volume'.mem
      (old ++ opened.free) offset count data) :
    Disturbed opened volume' raw entry (old ++ opened.free) where
  kept := ⟨exhausted.building.bpb, exhausted.building.sound,
    fun address _ untouched => spliced.outside address
      fun inside => untouched (Or.inr inside)⟩
  next := exhausted.building.others
  low := exhausted.building.low
  mine := by
    intro cluster member other reach different
    refine oldChain.mine isOpened.wellFormed ?_ reach different
    rcases List.mem_append.mp member with inOld | isFree
    · exact Or.inl inOld
    · exact Or.inr (Volume.mem_free.mp isFree).2.2
  regular := regular
  entry := by
    refine Or.inl fun index bound => spliced.outside _ ?_
    rintro ⟨cluster, member, first, last⟩
    have apart := oldChain.entry_apart isOpened (List.mem_append.mp member)
    omega

/-- What a call leaves alone, whatever it returns. -/
theorem Aimed.disturbed
    (aimed : Aimed volume path cur raw slots slot opened entry existing)
    (disturbed : Disturbed opened volume' raw entry touched) :
    OthersKept volume volume' path ∧ DirectoriesKept volume volume' := by
  have isOpened := aimed.isOpened
  have readable' := disturbed.readable isOpened
  have first := aimed.created.framed aimed.wellFormed aimed.sound
  have framed := first.trans (disturbed.framed isOpened)
    fun other reach => (aimed.created.reach aimed.wellFormed reach).1
  obtain ⟨name, isName⟩ := aimed.isName
  have same {other : CString} (names : Names volume other entry) :
      SameTarget volume path other :=
    aimed.created.sameTarget aimed.wellFormed isOpened aimed.resolved
      aimed.dirSlots isName names
  refine ⟨⟨?_, ?_⟩,
    (aimed.created.directoriesKept aimed.wellFormed).trans
      (disturbed.directoriesKept isOpened)⟩
  · intro other stat statEq different
    refine framed.fatStat_eq aimed.wellFormed aimed.sound readable'
      disturbed.kept.sound statEq ?_
    intro found names gone
    refine gone (Or.inl ?_)
    rintro rfl
    exact different (same names)
  · intro other stat dest statEq different notParent
    refine framed.fatReadFile_eq aimed.wellFormed aimed.sound readable'
      disturbed.kept.sound statEq ?_ dest
    intro found names
    have notEntry : found ≠ entry := by
      rintro rfl
      exact different (same names)
    refine ⟨fun gone => gone (Or.inl notEntry), ?_⟩
    rintro (isParent | rfl | ⟨isDir, atCur⟩)
    · exact notParent ⟨cur, raw, found, aimed.resolved, names, isParent⟩
    · exact notEntry rfl
    · have sameFound := (aimed.created.reach aimed.wellFormed
        names.reach).2
      exact notParent ⟨cur, raw, found, aimed.resolved, names,
        sameFound.isDir_iff.mp isDir, sameFound.first.symm.trans atCur⟩

end Calls

end LoafOs
