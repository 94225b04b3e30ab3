import LoafOs.Fs.TreeEntries

/-!
# Entries that keep their names

Replacing one entry and its chain moves no other entry to another list of
names, and the contents of other files stay the same.
-/

namespace LoafOs

section Change

variable {volume volume' : Volume} {names parent : List (List UInt8)}
  {raw : List UInt8} {entry other cur : Nat} {slots old new : List Nat}

/-- The directory of a list of names after a change: its live entries and the
changed slot still belong to it. -/
theorem EntryChange.leads
    (change : EntryChange volume volume' entry old new)
    (wellFormed : WellFormed volume) (orderly' : DirectoriesOrderly volume')
    (named : Reach volume entry → Live volume'.mem entry →
      direntName volume'.mem entry = direntName volume.mem entry)
    (leads : Leads volume names cur slots)
    (used : entry ∈ slots ∨ ∃ slot ∈ slots, Live volume.mem slot) :
    ∃ cur' slots', Leads volume' names cur' slots' ∧
      ∀ slot ∈ slots, slot = entry ∨ Live volume.mem slot →
        slot ∈ slots' := by
  induction leads with
  | root =>
      refine ⟨0, rootSlots volume.bpb, ?_, fun _ member _ => member⟩
      rw [← change.bpb]
      exact .root
  | @sub names cur dir slots clusters raw parent plain found isDir chain
      inductionHypothesis =>
      have reach := found.plain_reach parent.dirSlots plain
      obtain ⟨cur', slots', leads', kept⟩ := inductionHypothesis
        (.inr ⟨dir, found.member, reach.live⟩)
      have member' := kept dir found.member (.inr reach.live)
      have find (live : Live volume'.mem dir)
          (same : direntName volume'.mem dir =
            direntName volume.mem dir) :
          Finds volume'.mem raw slots' dir :=
        (orderly' cur' slots' leads'.dirSlots).finds_iff.mpr
          ⟨member', live.1, same.trans found.matches.2⟩
      by_cases atEntry : dir = entry
      · subst atEntry
        have notOwn : dir ∉ clusters.flatMap (clusterSlots volume.bpb) := by
          intro member
          obtain ⟨cluster, owned, inCluster⟩ := List.mem_flatMap.mp member
          exact wellFormed.not_own_slot reach cluster
            (chain.owns_iff.mpr owned) inCluster
        have inside : ∀ slot ∈ clusters.flatMap (clusterSlots volume.bpb),
            Live volume.mem slot → Live volume'.mem dir ∧
              IsDir volume'.mem dir ∧
              ∃ cluster ∈ new, slot ∈ clusterSlots volume.bpb cluster := by
          intro slot member live
          have owned := List.mem_flatMap.mp member
          rw [chain.unique (change.oldChain reach)] at owned
          obtain ⟨live', isDir', inNew, _⟩ :=
            (change.children slot).mpr ⟨reach, isDir, owned, live⟩
          exact ⟨live', isDir', inNew⟩
        obtain ⟨slot, member, live⟩ :=
          used.resolve_left notOwn
        obtain ⟨live', isDir', _⟩ := inside slot member live
        refine ⟨_, _, .sub leads' plain (find live' (named reach live'))
          isDir' (change.newChain live'), ?_⟩
        rintro slot member (rfl | live)
        · exact absurd member notOwn
        · obtain ⟨_, _, inNew⟩ := inside slot member live
          rw [change.bpb]
          exact List.mem_flatMap.mpr inNew
      · have same := change.entries dir reach.treeSlot atEntry
        refine ⟨_, _, .sub leads' plain
          (find (same.live_iff.mpr reach.live) same.name)
          (same.isDir_iff.mpr isDir)
          (change.chain wellFormed reach atEntry chain), ?_⟩
        rw [change.bpb]
        exact fun _ member _ => member

/-- An entry that survives the change keeps its names. -/
theorem EntryChange.entryAt
    (change : EntryChange volume volume' entry old new)
    (wellFormed : WellFormed volume) (orderly' : DirectoriesOrderly volume')
    (named : Reach volume entry → Live volume'.mem entry →
      direntName volume'.mem entry = direntName volume.mem entry)
    (live' : Live volume'.mem other) (place : EntryAt volume names other) :
    EntryAt volume' names other := by
  have reach := place.reach
  obtain ⟨parent, raw, cur, slots, rfl, leads, plain, found⟩ := place.path
  obtain ⟨cur', slots', leads', kept⟩ := change.leads wellFormed orderly'
    named leads (.inr ⟨other, found.member, reach.live⟩)
  have member := kept other found.member (.inr reach.live)
  have same : direntName volume'.mem other = raw := by
    rw [← found.matches.2]
    by_cases atEntry : other = entry
    · subst atEntry
      exact named reach live'
    · exact (change.entries other reach.treeSlot atEntry).name
  exact leads'.entryAt plain
    ((orderly' cur' slots' leads'.dirSlots).finds_iff.mpr
      ⟨member, live'.1, same⟩)

/-- An entry of both volumes has the same names in both. -/
theorem EntryChange.entryAt_iff
    (change : EntryChange volume volume' entry old new)
    (wellFormed : WellFormed volume) (wellFormed' : WellFormed volume')
    (orderly : DirectoriesOrderly volume)
    (orderly' : DirectoriesOrderly volume')
    (named : Reach volume entry → Live volume'.mem entry →
      direntName volume'.mem entry = direntName volume.mem entry)
    (reach : Reach volume other) (reach' : Reach volume' other) :
    EntryAt volume' names other ↔ EntryAt volume names other := by
  obtain ⟨names', place⟩ := reach.entryAt wellFormed orderly
  have place' := change.entryAt wellFormed orderly' named reach'.live place
  constructor
  · intro given
    rwa [given.names_unique wellFormed' place']
  · intro given
    rwa [given.names_unique wellFormed place]

end Change

section Edit

variable {volume volume' opened : Volume} {names parent : List (List UInt8)}
  {raw : List UInt8} {entry other cur : Nat} {slots old new : List Nat}
  {existing : Bool} {slot : DirSlot}

/-- The lookup of a call leaves all entries where they were. -/
theorem CreateResult.entryAt_iff (wellFormed : WellFormed volume)
    (orderly : DirectoriesOrderly volume)
    (created : CreateResult volume cur raw slots slot 0
      (slotAt entry existing) opened)
    (dirSlots : DirSlots volume cur slots) :
    EntryAt opened names other ↔ EntryAt volume names other := by
  have orderly' := created.orderly wellFormed dirSlots orderly
  generalize slotAt entry existing = slot' at created
  cases created with
  | found _ => exact Iff.rfl
  | vacant _ _ => exact Iff.rfl
  | @grown opened dir fresh clusters rest absent full reach isDir chain
      nonempty first free grown =>
      have isFree : fresh ∈ volume.free := by
        rw [free]
        exact List.mem_cons_self
      obtain ⟨same, change⟩ :=
        grown.entryChange wellFormed reach isDir chain nonempty isFree
      have wellFormed' :=
        grown.wellFormed wellFormed reach isDir chain nonempty isFree
      have reaches : Reach opened other ↔ Reach volume other := by
        rw [change.reach_iff wellFormed, same.live_iff]
        constructor
        · rintro (⟨rfl, _⟩ | ⟨_, reachOther⟩)
          · exact reach
          · exact reachOther
        · intro reachOther
          by_cases itself : other = dir
          · exact .inl ⟨itself, reach.live⟩
          · exact .inr ⟨itself, reachOther⟩
      have kept {names : List (List UInt8)} (reachOther : Reach volume other) :
          EntryAt opened names other ↔ EntryAt volume names other :=
        change.entryAt_iff wellFormed wellFormed' orderly orderly'
          (fun _ _ => same.name) reachOther (reaches.mpr reachOther)
      exact ⟨fun place => (kept (reaches.mp place.reach)).mp place,
        fun place => (kept place.reach).mpr place⟩

/-- The entry of an edit has its place under the name of the call, before
the edit if it was there and afterwards if it is live. -/
theorem Opened.entryAt (isOpened : Opened volume cur raw entry existing)
    (plain : ¬ DotName raw) (leads : Leads volume parent cur slots) :
    EntryAt volume (parent ++ [raw]) other ↔
      existing = true ∧ other = entry := by
  obtain ⟨slots', dirSlots', _, whenFound, whenVacant⟩ := isOpened.found
  obtain rfl := dirSlots'.unique leads.dirSlots
  constructor
  · intro place
    obtain ⟨_, _, _, _, same, leads', _, found⟩ := place.path
    obtain ⟨rfl, sameLast⟩ := List.append_inj' same rfl
    cases sameLast
    obtain ⟨rfl, rfl⟩ := leads.directory_unique leads'
    cases existing with
    | true => exact ⟨rfl, found.unique (whenFound rfl)⟩
    | false => exact absurd found ((whenVacant rfl).2 other)
  · rintro ⟨rfl, rfl⟩
    exact leads.entryAt plain (whenFound rfl)

theorem Opened.member (isOpened : Opened volume cur raw entry existing)
    (dirSlots : DirSlots volume cur slots) : entry ∈ slots := by
  obtain ⟨slots', dirSlots', member, _⟩ := isOpened.found
  rwa [dirSlots.unique dirSlots']

theorem Opened.keepsName (isOpened : Opened volume cur raw entry existing)
    (named : Live volume'.mem entry → direntName volume'.mem entry = raw)
    (reach : Reach volume entry) (live : Live volume'.mem entry) :
    direntName volume'.mem entry = direntName volume.mem entry := by
  cases existing with
  | true => rw [named live, isOpened.matches.2]
  | false => exact absurd reach isOpened.not_reach

section Edited

variable (edited : Edited volume volume' entry old new)
  (isOpened : Opened volume cur raw entry existing)
  (plain : ¬ DotName raw) (leads : Leads volume parent cur slots)
  (orderly : DirectoriesOrderly volume)
  (orderly' : DirectoriesOrderly volume')
  (named : Live volume'.mem entry → direntName volume'.mem entry = raw)

include edited isOpened plain leads orderly' named

/-- Where the edited entry is afterwards. -/
theorem Edited.entryAt_entry :
    EntryAt volume' (parent ++ [raw]) entry ↔ Live volume'.mem entry := by
  refine ⟨fun place => place.reach.live, fun live => ?_⟩
  have member := isOpened.member leads.dirSlots
  obtain ⟨cur', slots', leads', kept⟩ :=
    (edited.entryChange isOpened.wellFormed isOpened.treeSlot).leads
      isOpened.wellFormed orderly'
      (isOpened.keepsName named) leads (.inl member)
  exact leads'.entryAt plain
    ((orderly' cur' slots' leads'.dirSlots).finds_iff.mpr
      ⟨kept entry member (.inl rfl), live.1, named live⟩)

include orderly

/-- The other entries keep their names. -/
theorem Edited.entryAt_other (different : names ≠ parent ++ [raw]) :
    EntryAt volume' names other ↔ EntryAt volume names other := by
  have wellFormed := isOpened.wellFormed
  have change := edited.entryChange wellFormed isOpened.treeSlot
  have wellFormed' := edited.wellFormed wellFormed isOpened.treeSlot
  have keepsName := isOpened.keepsName named
  have kept {names : List (List UInt8)} (apart : other ≠ entry)
      (reach : Reach volume other) :
      EntryAt volume' names other ↔ EntryAt volume names other :=
    change.entryAt_iff wellFormed wellFormed' orderly orderly' keepsName
      reach ((change.reach_iff wellFormed other).mpr (.inr ⟨apart, reach⟩))
  constructor
  · intro place
    have apart : other ≠ entry := by
      rintro rfl
      exact different (place.names_unique wellFormed'
        ((edited.entryAt_entry isOpened plain leads orderly' named).mpr
          place.reach.live))
    have reach := ((change.reach_iff wellFormed other).mp
      place.reach).resolve_left fun same => apart same.1
    exact (kept apart reach.2).mp place
  · intro place
    have apart : other ≠ entry := by
      rintro rfl
      cases existing with
      | false => exact isOpened.not_reach place.reach
      | true =>
          exact different (place.names_unique wellFormed
            ((isOpened.entryAt plain leads).mpr ⟨rfl, rfl⟩))
    exact (kept apart place.reach).mpr place

/-- Under the name of the call only the edited entry is found. -/
theorem Edited.entryAt_target :
    EntryAt volume' (parent ++ [raw]) other ↔
      other = entry ∧ Live volume'.mem entry := by
  constructor
  · intro place
    have change := edited.entryChange isOpened.wellFormed isOpened.treeSlot
    have same : other = entry := by
      by_contra apart
      have reach := ((change.reach_iff isOpened.wellFormed other).mp
        place.reach).resolve_left fun same => apart same.1
      have before := (change.entryAt_iff isOpened.wellFormed
        (edited.wellFormed isOpened.wellFormed isOpened.treeSlot) orderly
        orderly' (isOpened.keepsName named) reach.2
        place.reach).mp place
      exact apart ((isOpened.entryAt plain leads).mp before).2
    subst same
    exact ⟨rfl, place.reach.live⟩
  · rintro ⟨rfl, live⟩
    exact (edited.entryAt_entry isOpened plain leads orderly' named).mpr
      live

end Edited

/-- The contents of the other files. -/
theorem Edited.sameFile (edited : Edited volume volume' entry old new)
    (isOpened : Opened volume cur raw entry existing)
    (reach : Reach volume other) (different : other ≠ entry)
    (regular : ¬ IsDir volume.mem other) :
    SameFile volume volume' other := by
  have wellFormed := isOpened.wellFormed
  have change := edited.entryChange wellFormed isOpened.treeSlot
  refine change.sameFile wellFormed reach different ?_
  intro cluster owned absent index bound
  refine edited.kept.mem _ ?_ ?_
  · have behind := dataStart_le_clusterAddr volume.bpb cluster
    have order := rootStart_le_dataStart volume.bpb
    omega
  · have away := isOpened.treeSlot.outside_cluster owned.low
      fun dir reachDir isDir ownedDir => regular
        (wellFormed.disjoint dir other cluster reachDir reach ownedDir
          owned ▸ isDir)
    rintro (⟨first, last⟩ | inNew)
    · omega
    · exact not_inClusters owned.low
        (fun cluster member => (edited.fresh cluster member).1) absent
        bound inNew

theorem CreateResult.sameFile (wellFormed : WellFormed volume)
    (sound : volume.disk.Sound) {slot' : DirSlot}
    (created : CreateResult volume cur raw slots slot 0 slot' opened)
    (reach : Reach volume other) (regular : ¬ IsDir volume.mem other) :
    SameFile volume opened other :=
  (created.framed wellFormed sound).files other reach not_false
    fun atCur => regular atCur.1

end Edit

end LoafOs
