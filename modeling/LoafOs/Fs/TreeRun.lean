import LoafOs.Fs.TreeCalls

/-!
# Runs on the tree

What `fat_stat` and `fat_read_file` say after a run of calls is what the
tree holds on which the successful ones of these calls were carried out.
-/

namespace LoafOs

open FileTrees

/-- `fat_stat` reports a file, and `fat_read_file` delivers its content. -/
def ReadsAs (volume : Volume) (path : CString) (content : List UInt8) :
    Prop :=
  (∃ stat, fatStat volume path = some (.ok stat) ∧
    stat.attr &&& attrDirectory = 0 ∧ stat.size = content.length) ∧
  ∀ dest, ∃ read, fatReadFile volume path dest = some read ∧
    read.code = 0 ∧ read.size = content.length ∧
      read.dest.slice 0 read.size = content

/-- The driver reports for every path what the tree holds under its
names. -/
structure ReportsTree (volume : Volume) (tree : Tree (List UInt8) UInt8) :
    Prop where
  absent : ∀ path, fatStat volume path = some (.error 1) ↔
    tree (rawNames path) = none
  directory : ∀ path, DirectoryPath volume path ↔
    tree (rawNames path) = some .directory
  file : ∀ path content, ReadsAs volume path content ↔
    tree (rawNames path) = some (.file content)

section ReportsTree

variable {volume volume' : Volume} {path : CString} {entry : Nat}

theorem fatStat_error {code : Nat}
    (result : fatStat volume path = some (.error code)) : code = 1 := by
  rw [fatStat] at result
  cases resolvedEq : resolvePath volume path with
  | none =>
      rw [resolvedEq] at result
      cases result
  | some resolved =>
      simp only [resolvedEq, Option.bind_eq_bind, Option.bind_some] at result
      split at result
      case isTrue =>
        cases result
        rfl
      split at result
      case isTrue => cases result
      cases lookup : dirLookup volume resolved.dirCluster
          resolved.finalName .unset false with
      | none =>
          rw [lookup] at result
          cases result
      | some found =>
          rw [lookup, Option.bind_some] at result
          split at result
          · cases result
            rfl
          · split at result <;> cases result
            rfl

/-- A path without names is the root. -/
theorem rootPath_of_nil (readable : Readable volume)
    (sound : volume.disk.Sound) (none : rawNames path = []) :
    RootPath volume path := by
  rcases resolvePath_leads readable sound path with
    ⟨_, resolved⟩ | ⟨parent, name, isRaw, _⟩
  · exact ⟨_, resolved, rfl, rfl⟩
  · simp [none] at isRaw

theorem fatStat_absent (readable : Readable volume)
    (sound : volume.disk.Sound) (inner : rawNames path ≠ [])
    (absent : ∀ entry, ¬ EntryAt volume (rawNames path) entry) :
    fatStat volume path = some (.error 1) := by
  obtain ⟨result, statEq⟩ := fatStat_ends readable sound path
  cases result with
  | error code => rw [statEq, fatStat_error statEq]
  | ok stat =>
      exfalso
      rcases fatStat_ok readable sound statEq with
        ⟨resolved, resolvedEq, _, isRoot⟩ | ⟨entry, names⟩
      · rcases resolvePath_leads readable sound path with
          ⟨none, _⟩ | ⟨parent, name, _, resolves⟩
        · exact inner none
        · by_cases leads : ∃ cur slots, Leads volume parent cur slots
          · obtain ⟨cur, slots, leads⟩ := leads
            rw [resolves.leads cur slots leads] at resolvedEq
            cases resolvedEq
            cases isRoot
          · obtain ⟨code, _, stopped⟩ := resolves.stops leads
            rw [stopped] at resolvedEq
            cases resolvedEq
            cases isRoot
      · exact absent entry
          ((names_iff_entryAt readable sound path).mp names)

/-- A file is read as the content of its clusters. -/
theorem EntryAt.readsAs (wellFormed : WellFormed volume)
    (sound : volume.disk.Sound)
    (place : EntryAt volume (rawNames path) entry)
    (regular : ¬ IsDir volume.mem entry) {clusters : List Nat}
    (chain : Chain volume entry clusters) :
    ReadsAs volume path
      (chainContent volume clusters (direntSize volume.mem entry)) := by
  have names := (names_iff_entryAt wellFormed sound path).mpr place
  have positive := wellFormed.geometry.clusterSize_pos
  have enough := (clustersFor_le_iff positive _ _).mp
    (Nat.le_of_eq (chain.regular regular).1.symm)
  have holds := names.holds wellFormed sound chain rfl enough
    fun number bound index small _ =>
      (chainByte_cluster bound small).symm
  refine ⟨⟨_, names.fatStat_eq wellFormed sound, not_not.mp regular, ?_⟩,
    fun dest => ?_⟩
  · rw [length_chainContent]
    rfl
  · obtain ⟨read, readEq, code, isSize, _, bytes⟩ := holds dest
    refine ⟨read, readEq, code, ?_, ?_⟩
    · rw [isSize, length_chainContent]
    · rw [isSize]
      refine List.map_congr_left fun index inside => ?_
      rw [Nat.zero_add]
      exact bytes index (List.mem_range.mp inside)

/-- One content is read. -/
theorem ReadsAs.unique {content content' : List UInt8}
    (left : ReadsAs volume path content)
    (right : ReadsAs volume path content') : content = content' := by
  obtain ⟨_, readEq, _, _, same⟩ := left.2 scratch
  obtain ⟨_, readEq', _, _, same'⟩ := right.2 scratch
  cases readEq.symm.trans readEq'
  exact same.symm.trans same'

/-- A well-formed volume reports its tree. -/
theorem reports_treeOf (wellFormed : WellFormed volume)
    (sound : volume.disk.Sound) : ReportsTree volume (treeOf volume) := by
  have cases (path : CString) :
      treeOf volume (rawNames path) = none ∧
          fatStat volume path = some (.error 1) ∨
        treeOf volume (rawNames path) = some .directory ∧
          DirectoryPath volume path ∨
        ∃ content, treeOf volume (rawNames path) = some (.file content) ∧
          ReadsAs volume path content := by
    by_cases inner : rawNames path = []
    · refine .inr (.inl ⟨?_, ?_⟩)
      · rw [inner]
        exact treeOf_rooted.root
      · exact ⟨_, (rootPath_of_nil wellFormed sound inner).fatStat_eq,
          by decide⟩
    by_cases present : ∃ entry, EntryAt volume (rawNames path) entry
    swap
    · have absent := not_exists.mp present
      exact .inl ⟨(treeOf_eq_none wellFormed).mpr ⟨inner, absent⟩,
        fatStat_absent wellFormed sound inner absent⟩
    obtain ⟨entry, place⟩ := present
    right
    by_cases isDir : IsDir volume.mem entry
    · have names := (names_iff_entryAt wellFormed sound path).mpr place
      exact .inl ⟨place.treeOf_eq (.directory isDir), _,
        names.fatStat_eq wellFormed sound, isDir⟩
    · obtain ⟨clusters, chain⟩ := wellFormed.chain entry place.reach
      exact .inr ⟨_, place.treeOf_eq (.file isDir chain),
        place.readsAs wellFormed sound isDir chain⟩
  refine ⟨fun path => ?_, fun path => ?_, fun path content => ?_⟩
  · rcases cases path with
      ⟨shown, stat⟩ | ⟨shown, stat, statEq, _⟩ |
        ⟨content, shown, ⟨stat, statEq, _⟩, _⟩
    · exact iff_of_true stat shown
    · rw [shown, statEq]
      simp
    · rw [shown, statEq]
      simp
  · rcases cases path with
      ⟨shown, statEq⟩ | ⟨shown, directory⟩ |
        ⟨content, shown, ⟨stat, statEq, regular, _⟩, _⟩
    · rw [shown]
      refine iff_of_false ?_ (by simp)
      rintro ⟨stat, statEq', _⟩
      rw [statEq] at statEq'
      cases statEq'
    · exact iff_of_true directory shown
    · rw [shown]
      refine iff_of_false ?_ (by simp)
      rintro ⟨stat', statEq', isDir⟩
      rw [statEq] at statEq'
      cases statEq'
      exact isDir regular
  · rcases cases path with
      ⟨shown, statEq⟩ | ⟨shown, stat, statEq, isDir⟩ |
        ⟨content', shown, reads⟩
    · rw [shown]
      refine iff_of_false ?_ (by simp)
      rintro ⟨⟨stat, statEq', _⟩, _⟩
      rw [statEq] at statEq'
      cases statEq'
    · rw [shown]
      refine iff_of_false ?_ (by simp)
      rintro ⟨⟨stat', statEq', regular, _⟩, _⟩
      rw [statEq] at statEq'
      cases statEq'
      exact isDir regular
    · rw [shown]
      constructor
      · intro given
        rw [given.unique reads]
      · intro same
        cases same
        exact reads

end ReportsTree

/-! ## Runs -/

/-- A call of a run, with its return value: a successful one, or one that
removes or makes a directory or deletes a file and is refused. -/
inductive FatMove (volume : Volume) :
    (DirSlot × FatCall) × Nat → Volume → Prop
  | done {label : DirSlot × FatCall} {volume' : Volume}
      (step : FatStep volume label volume') :
      FatMove volume (label, 0) volume'
  | refused {label : DirSlot × FatCall} {code : Nat} {volume' : Volume}
      (result : label.2.run volume label.1 = some (code, volume'))
      (failed : code ≠ 0) (ascii : Ascii label.2.path)
      (reads : ¬ label.2.Writes) :
      FatMove volume (label, code) volume'

/-- The operations that the calls of a run have carried out. -/
def editsOf (labels : List ((DirSlot × FatCall) × Nat)) :
    List (Edit (List UInt8) UInt8) :=
  labels.filterMap fun label =>
    if label.2 = 0 then some label.1.2.edit else none

section Runs

variable {volume volume' : Volume} {label : (DirSlot × FatCall) × Nat}

/-- The state of a volume in a run. -/
structure SettledVolume (volume : Volume) : Prop where
  wellFormed : WellFormed volume
  sound : volume.disk.Sound
  orderly : DirectoriesOrderly volume

/-- A refused call leaves the tree. -/
theorem fatMkdir_refused (settled : SettledVolume volume) {path : CString}
    {code : Nat} (nameable : Nameable path) (failed : code ≠ 0)
    (result : fatMkdir volume path = some (code, volume')) :
    SettledVolume volume' ∧ treeOf volume' = treeOf volume := by
  obtain ⟨wellFormed, sound, orderly⟩ := settled
  obtain ⟨_, _, result', outcome⟩ :=
    fatMkdir_outcome wellFormed sound nameable
  cases result.symm.trans result'
  cases outcome with
  | refused _ => exact ⟨⟨wellFormed, sound, orderly⟩, rfl⟩
  | looked _ located created isOpened =>
      exact ⟨⟨isOpened.wellFormed, isOpened.sound,
          created.orderly wellFormed located.dirSlots orderly⟩,
        created.treeOf_eq wellFormed sound orderly located.dirSlots⟩
  | made _ _ _ _ _ _ => exact absurd rfl failed

theorem FatCall.refused {call : FatCall} {slot : DirSlot} {code : Nat}
    (settled : SettledVolume volume) (ascii : Ascii call.path)
    (reads : ¬ call.Writes) (failed : code ≠ 0)
    (result : call.run volume slot = some (code, volume')) :
    SettledVolume volume' ∧ treeOf volume' = treeOf volume := by
  obtain ⟨wellFormed, sound, orderly⟩ := settled
  cases call with
  | writeFile path data size => exact absurd trivial reads
  | writeAt path offset data len => exact absurd trivial reads
  | deleteFile path =>
      obtain ⟨_, _, result', outcome⟩ :=
        fatDeleteFile_outcome wellFormed sound path
      cases result.symm.trans result'
      rcases outcome with ⟨_, rfl⟩ | ⟨zero, _⟩
      · exact ⟨⟨wellFormed, sound, orderly⟩, rfl⟩
      · exact absurd zero failed
  | mkdir path =>
      exact fatMkdir_refused ⟨wellFormed, sound, orderly⟩ ascii.nameable
        failed result
  | rmdir path =>
      obtain ⟨_, _, result', outcome⟩ :=
        fatRmdir_outcome wellFormed sound path
      cases result.symm.trans result'
      rcases outcome with ⟨_, rfl⟩ | ⟨zero, _⟩
      · exact ⟨⟨wellFormed, sound, orderly⟩, rfl⟩
      · exact absurd zero failed

theorem FatMove.settled (move : FatMove volume label volume')
    (settled : SettledVolume volume) : SettledVolume volume' := by
  cases move with
  | done step =>
      obtain ⟨wellFormed', sound'⟩ :=
        step.wellFormed settled.wellFormed settled.sound
      exact ⟨wellFormed', sound',
        (step.done settled.wellFormed settled.sound).orderly
          settled.wellFormed settled.sound settled.orderly⟩
  | refused result failed ascii reads =>
      exact (FatCall.refused settled ascii reads failed result).1

/-- A run of calls carries its operations out on the tree. -/
theorem fatRun_tree {labels : List ((DirSlot × FatCall) × Nat)}
    (run : Runs.Run FatMove volume labels volume')
    (settled : SettledVolume volume) :
    SettledVolume volume' ∧ Runs.Run Step (treeOf volume) (editsOf labels)
      (treeOf volume') := by
  induction run with
  | nil => exact ⟨settled, .nil⟩
  | cons first rest inductionHypothesis =>
      obtain ⟨settled', later⟩ :=
        inductionHypothesis (first.settled settled)
      refine ⟨settled', ?_⟩
      cases first with
      | @done label _ step =>
          have now := step.tree settled.wellFormed settled.sound
            settled.orderly
          simp only [editsOf, List.filterMap_cons, if_true]
          exact .cons now later
      | @refused label code _ result failed ascii reads =>
          have same :=
            (FatCall.refused settled ascii reads failed result).2
          simp only [editsOf, List.filterMap_cons, failed, if_false]
          rw [← same]
          exact later

end Runs

/-- After a run of calls on a volume, the driver reports the tree that the
successful calls make of the one it reported before; every entry of it lies
in a directory. -/
theorem fatRun_reports {volume volume' : Volume}
    {labels : List ((DirSlot × FatCall) × Nat)}
    (wellFormed : WellFormed volume) (sound : volume.disk.Sound)
    (orderly : DirectoriesOrderly volume)
    (run : Runs.Run FatMove volume labels volume') :
    ∃ tree tree', ReportsTree volume tree ∧
      Runs.Run Step tree (editsOf labels) tree' ∧ ReportsTree volume' tree' ∧
      Rooted tree' := by
  obtain ⟨settled', operations⟩ := fatRun_tree run
    ⟨wellFormed, sound, orderly⟩
  exact ⟨treeOf volume, treeOf volume', reports_treeOf wellFormed sound,
    operations, reports_treeOf settled'.wellFormed settled'.sound,
    operations.invariant Rooted (fun _ _ _ rooted step => step.rooted rooted)
      treeOf_rooted⟩

/-- The tree with nothing but its root. -/
def emptyTree : Tree (List UInt8) UInt8 := fun names =>
  if names = [] then some .directory else none

theorem treeOf_formatted {bpb : Bpb} (geometry : Geometry bpb) :
    treeOf (formatted bpb) = emptyTree := by
  funext names
  by_cases inner : names = []
  · rw [inner, treeOf_rooted.root]
    rfl
  · rw [emptyTree, if_neg inner]
    refine (treeOf_eq_none (formatted_wellFormed geometry)).mpr
      ⟨inner, fun entry place => ?_⟩
    exact formatted_not_reach bpb entry place.reach

/-- A freshly formatted volume reports, after every run of calls, the tree
that the successful calls make of the empty one. -/
theorem formattedRun_reports {bpb : Bpb} {volume' : Volume}
    {labels : List ((DirSlot × FatCall) × Nat)} (geometry : Geometry bpb)
    (run : Runs.Run FatMove (formatted bpb) labels volume') :
    ∃ tree, Runs.Run Step emptyTree (editsOf labels) tree ∧
      ReportsTree volume' tree := by
  obtain ⟨settled', operations⟩ := fatRun_tree run
    ⟨formatted_wellFormed geometry, blankDisk_sound,
      formatted_orderly bpb⟩
  rw [treeOf_formatted geometry] at operations
  exact ⟨_, operations,
    reports_treeOf settled'.wellFormed settled'.sound⟩

/-! A directory, a file in it, and the directory that is not empty. -/

def sampleMoves : List ((DirSlot × FatCall) × Nat) :=
  [((.unset, .mkdir samplePath), 0),
    ((.unset, .writeFile sampleFile (fun _ => 7) 600), 0),
    ((.unset, .rmdir samplePath), 5)]

def sampleRefused : Volume :=
  sampleStored.after (fatRmdir sampleStored samplePath)

theorem sampleMoves_run :
    Runs.Run FatMove sampleVolume sampleMoves sampleRefused := by
  refine .cons (.done sampleDirectory_step)
    (.cons (.done sampleStored_step) (.cons ?_ .nil))
  refine .refused (Volume.after_eq (by decide +kernel)) (by decide) ?_
    not_false
  change Ascii samplePath
  decide +kernel

theorem sampleMoves_reports :
    ∃ tree tree', ReportsTree sampleVolume tree ∧
      Runs.Run Step tree (editsOf sampleMoves) tree' ∧
      ReportsTree sampleRefused tree' ∧ Rooted tree' :=
  fatRun_reports sampleVolume_wellFormed blankDisk_sound
    (formatted_orderly _) sampleMoves_run

theorem sampleMoves_formatted :
    ∃ tree, Runs.Run Step emptyTree (editsOf sampleMoves) tree ∧
      ReportsTree sampleRefused tree :=
  formattedRun_reports (smallBpb_geometry (by decide) (by decide))
    sampleMoves_run

end LoafOs
