import LoafOs.Fs.TreeView

/-!
# Calls as operations on the tree

A successful call of the driver changes the tree of the volume under the
names of its path, and nowhere else: `FatStep.tree` for one call,
`fatRun_tree` for runs.
-/

namespace LoafOs

open FileTrees

section Content

variable {volume volume' : Volume} {clusters : List Nat} {entry size : Nat}

@[simp]
theorem length_chainContent :
    (chainContent volume clusters size).length = size := by
  rw [chainContent, List.length_map, List.length_range]

theorem getElem?_chainContent {index : Nat} (inside : index < size) :
    (chainContent volume clusters size)[index]? =
      some (chainByte volume clusters index) := by
  simp [chainContent, inside]

/-- The content that `fat_write_file` has stored. -/
theorem Stored.content {data : Bytes}
    (stored : Stored volume.mem volume.bpb clusters data size)
    (positive : 0 < volume.bpb.clusterSize)
    (enough : size ≤ clusters.length * volume.bpb.clusterSize) :
    chainContent volume clusters size = data.slice 0 size := by
  refine List.map_congr_left fun index inside => ?_
  rw [List.mem_range] at inside
  have number : index / volume.bpb.clusterSize < clusters.length := by
    rw [Nat.div_lt_iff_lt_mul positive]
    omega
  have small := Nat.mod_lt index positive
  have split : index / volume.bpb.clusterSize * volume.bpb.clusterSize +
      index % volume.bpb.clusterSize = index := by
    rw [Nat.mul_comm]
    exact Nat.div_add_mod index _
  have there := (chainByte_cluster number small).trans
    (stored (index / volume.bpb.clusterSize) number _ small)
  rw [split, if_pos inside] at there
  rw [there, Nat.zero_add]

end Content

section Places

variable {volume volume' opened : Volume} {path : CString}
  {names parent : List (List UInt8)} {raw : List UInt8} {name : CString}
  {entry cur : Nat} {slots slotsOf old new : List Nat} {existing : Bool}
  {slot : DirSlot}

theorem Located.leads (readable : Readable volume)
    (sound : volume.disk.Sound) (located : Located volume path cur slots name) :
    ∃ parent, rawNames path = parent ++ [toFatName name] ∧
      Leads volume parent cur slots := by
  obtain ⟨parent, slots', descends, isRaw⟩ :=
    resolvePath_descends readable sound located.resolved
  obtain rfl := descends.dirSlots.unique located.dirSlots
  exact ⟨parent, isRaw, descends.leads⟩

/-- The lookup of a call leaves the tree as it is. -/
theorem CreateResult.treeOf_eq (wellFormed : WellFormed volume)
    (sound : volume.disk.Sound) (orderly : DirectoriesOrderly volume)
    (created : CreateResult volume cur raw slots slot 0
      (slotAt entry existing) opened)
    (dirSlots : DirSlots volume cur slots) :
    treeOf opened = treeOf volume := by
  funext names
  refine treeOf_congr
    (fun _ => created.entryAt_iff wellFormed orderly dirSlots)
    fun other node place => ?_
  exact nodeOf_iff wellFormed (created.framed wellFormed sound).bpb
    (created.reach wellFormed place.reach).2
    (created.sameFile wellFormed sound place.reach) place.reach node

/-- The directory of a call is where it was after the lookup. -/
theorem CreateResult.leads (wellFormed : WellFormed volume)
    (orderly : DirectoriesOrderly volume)
    (created : CreateResult volume cur raw slots slot 0
      (slotAt entry existing) opened)
    (leads : Leads volume parent cur slots) :
    ∃ slots', Leads opened parent cur slots' := by
  rcases leads.cases_entry with
    ⟨rfl, rfl, _⟩ | ⟨dir, clusters, place, isDir, chain, rfl, _⟩
  · exact ⟨_, .root⟩
  · obtain ⟨_, same, more, chain'⟩ :=
      created.directoriesKept wellFormed dir clusters place.reach isDir chain
    have place' :=
      (created.entryAt_iff wellFormed orderly leads.dirSlots).mpr place
    have isLed := place'.leads (same.isDir_iff.mpr isDir) chain'
    rw [same.first] at isLed
    exact ⟨_, isLed⟩

/-- An edit changes the tree under the name of its entry only. -/
theorem Edited.changed (edited : Edited volume volume' entry old new)
    (isOpened : Opened volume cur raw entry existing)
    (plain : ¬ DotName raw) (leads : Leads volume parent cur slots)
    (orderly : DirectoriesOrderly volume)
    (orderly' : DirectoriesOrderly volume')
    (named : Live volume'.mem entry →
      direntName volume'.mem entry = raw) {node : Option (Node UInt8)}
    (whenLive : Live volume'.mem entry →
      ∃ shown, node = some shown ∧ NodeOf volume' entry shown)
    (whenDead : ¬ Live volume'.mem entry → node = none) :
    Changed (treeOf volume) (treeOf volume') (parent ++ [raw]) node where
  here := by
    by_cases live : Live volume'.mem entry
    · obtain ⟨shown, rfl, isNode⟩ := whenLive live
      exact ((edited.entryAt_entry isOpened plain leads orderly'
        named).mpr live).treeOf_eq isNode
    · rw [whenDead live]
      refine (treeOf_eq_none (edited.wellFormed isOpened.wellFormed
        isOpened.treeSlot)).mpr ⟨by simp, fun other place => live ?_⟩
      exact ((edited.entryAt_target isOpened plain leads orderly orderly'
        named).mp place).2
  others := by
    intro names different
    have wellFormed := isOpened.wellFormed
    have change := edited.entryChange wellFormed isOpened.treeSlot
    refine treeOf_congr
      (fun _ => edited.entryAt_other isOpened plain leads orderly orderly'
        named different)
      fun other node place => ?_
    have apart : other ≠ entry := by
      rintro rfl
      cases existing with
      | false => exact isOpened.not_reach place.reach
      | true =>
          exact different (place.names_unique wellFormed
            ((isOpened.entryAt plain leads).mpr ⟨rfl, rfl⟩))
    exact nodeOf_iff wellFormed edited.kept.bpb
      (change.entries other place.reach.treeSlot apart)
      (edited.sameFile isOpened place.reach apart) place.reach node

end Places

/-! ## The calls -/

/-- The operation on the tree that a call stands for. -/
def FatCall.edit : FatCall → Edit (List UInt8) UInt8
  | .writeFile path data size =>
      .replace (rawNames path) (data.slice 0 size.toNat)
  | .writeAt path offset data len =>
      .patch (rawNames path) offset.toNat (data.slice 0 len.toNat)
  | .deleteFile path => .remove (rawNames path)
  | .mkdir path => .makeDirectory (rawNames path)
  | .rmdir path => .removeDirectory (rawNames path)

section Calls

variable {volume volume' : Volume} {path : CString}
  {entry cur : Nat} {slots old new : List Nat} {existing : Bool}

theorem Replaced.content {released : Volume} {raw : List UInt8}
    {data : Bytes} {size : Nat} (bpb : volume'.bpb = volume.bpb)
    (positive : 0 < volume.bpb.clusterSize)
    (replaced : Replaced volume released volume' entry raw data size
      new) :
    chainContent volume' new (direntSize volume'.mem entry) =
      data.slice 0 size := by
  rw [replaced.entryIs.size]
  refine Stored.content ?_ ?_ ?_
  · rw [bpb]
    exact replaced.stored
  · rwa [bpb]
  · rw [bpb]
    exact (clustersFor_le_iff positive _ _).mp
      (Nat.le_of_eq replaced.length.symm)

/-- A path that leads to no directory does so in the tree. -/
theorem not_treeDirectory (wellFormed : WellFormed volume)
    (sound : volume.disk.Sound)
    (notDirectory : ¬ DirectoryPath volume path)
    (inner : rawNames path ≠ []) :
    treeOf volume (rawNames path) ≠ some .directory := by
  intro isDirectory
  obtain ⟨entry, place, isNode⟩ := (treeOf_iff inner).mp isDirectory
  cases isNode with
  | directory isDir =>
      exact not_namesDirectory wellFormed sound notDirectory
        ⟨entry, (names_iff_entryAt wellFormed sound path).mpr place, isDir⟩

/-- `fat_write_file` stores the data as the content of the file. -/
theorem fatWriteFile_tree (wellFormed : WellFormed volume)
    (sound : volume.disk.Sound) (orderly : DirectoriesOrderly volume)
    (orderly' : DirectoriesOrderly volume') (nameable : Nameable path)
    (lookup : ¬ LookupFull volume path)
    (notDirectory : ¬ DirectoryPath volume path) {slot : DirSlot}
    {data : Bytes} {size : Nat} (sizeBound : size < 2 ^ 32)
    (result : fatWriteFile volume slot path data size =
      some (0, volume')) :
    Step (treeOf volume) (.replace (rawNames path) (data.slice 0 size))
      (treeOf volume') := by
  rcases openTarget_opened wellFormed sound lookup 4 slot with
    ⟨code, which, stopped⟩ | ⟨cur, name, slot', full⟩ |
      ⟨cur, slots, name, entry, existing, opened, located, created, ok,
        isOpened, _⟩
  · rw [fatWriteFile, stopped] at result
    rcases which with rfl | rfl <;> cases result
  · rw [fatWriteFile_opened full] at result
    simp at result
  rw [fatWriteFile_opened ok, if_neg (by decide), if_neg (by decide)]
    at result
  have storable := located.storable nameable
  have regular := created.regular wellFormed sound notDirectory located
    isOpened
  obtain ⟨parent, isRaw, leads⟩ := located.leads wellFormed.readable sound
  have sameTree := created.treeOf_eq wellFormed sound orderly
    located.dirSlots
  obtain ⟨slots', leads'⟩ := created.leads wellFormed orderly leads
  have apart := not_treeDirectory wellFormed sound notDirectory
    (by rw [isRaw]; simp)
  obtain ⟨released, old, isReleased, outcome⟩ :=
    replaceFile_eq isOpened (length_toFatName name) sizeBound data
  rw [result] at outcome
  cases outcome with
  | stored _ replaced =>
      have edited := replaced.edited isOpened isReleased regular storable
      have chain := replaced.chain isReleased isOpened.wellFormed.geometry
      have bpb := replaced.kept.bpb
      have positive := isOpened.wellFormed.geometry.clusterSize_pos
      have content := replaced.content bpb positive
      rw [isRaw] at apart ⊢
      refine .replace (treeOf_directory leads) apart ?_
      rw [← sameTree]
      refine edited.changed isOpened (toFatName_plain_dot name) leads'
        (created.orderly wellFormed located.dirSlots orderly) orderly'
        (fun _ => replaced.entryIs.name) (fun _ => ⟨_, rfl, ?_⟩)
        (fun dead => absurd (replaced.live isOpened storable) dead)
      rw [← content]
      exact .file replaced.not_dir chain

/-- The bytes of a file that `fat_write_at` has written to. -/
theorem SplicedFile.byte {raw : List UInt8} {attr : UInt8}
    {size offset len : Nat} {taken : List Nat} {data : Bytes}
    (spliced : SplicedFile volume volume' entry raw attr size old taken
      offset len data)
    (positive : 0 < volume.bpb.clusterSize) {pos : Nat}
    (inside : pos < (old ++ taken).length * volume.bpb.clusterSize) :
    chainByte volume' (old ++ taken) pos =
      if offset ≤ pos ∧ pos < offset + len then data (pos - offset)
      else chainByte volume (old ++ taken) pos := by
  have number : pos / volume.bpb.clusterSize < (old ++ taken).length := by
    rwa [Nat.div_lt_iff_lt_mul positive]
  have small := Nat.mod_lt pos positive
  have split : pos / volume.bpb.clusterSize * volume.bpb.clusterSize +
      pos % volume.bpb.clusterSize = pos := by
    rw [Nat.mul_comm]
    exact Nat.div_add_mod pos _
  have bpb := spliced.kept.bpb
  have written := spliced.bytes _ number _ small
  have before := chainByte_cluster number small
  have after : chainByte volume' (old ++ taken)
      (pos / volume.bpb.clusterSize * volume'.bpb.clusterSize +
        pos % volume.bpb.clusterSize) = _ :=
    chainByte_cluster number (bpb ▸ small)
  rw [bpb] at after
  rw [split] at before after written
  rw [after, before, written]

/-- The content after `fat_write_at`. -/
theorem SplicedFile.patched {raw : List UInt8} {attr : UInt8}
    {size offset len : Nat} {taken : List Nat} {data : Bytes}
    (spliced : SplicedFile volume volume' entry raw attr size old taken
      offset len data)
    (positive : 0 < volume.bpb.clusterSize)
    (holdsOld : size ≤ old.length * volume.bpb.clusterSize)
    (holdsNew : max (offset + len) size ≤
      (old ++ taken).length * volume.bpb.clusterSize) :
    Patched (chainContent volume old size) offset (data.slice 0 len)
      (chainContent volume' (old ++ taken)
        (direntSize volume'.mem entry)) := by
  rw [spliced.entryIs.size]
  refine ⟨?_, ?_, ?_⟩
  · rw [length_chainContent, length_chainContent, Bytes.length_slice,
      Nat.max_comm]
  · intro index inside
    rw [Bytes.length_slice] at inside
    rw [getElem?_chainContent (by omega),
      spliced.byte positive (by omega), if_pos (by omega),
      Nat.add_sub_cancel_left]
    simp [Bytes.slice, inside]
  · intro index inside outside
    rw [length_chainContent] at inside
    rw [Bytes.length_slice] at outside
    rw [getElem?_chainContent (by omega), getElem?_chainContent inside,
      spliced.byte positive (by omega), if_neg (by omega),
      chainByte_append (by omega)]

theorem fatWriteAt_tree (wellFormed : WellFormed volume)
    (sound : volume.disk.Sound) (orderly : DirectoriesOrderly volume)
    (orderly' : DirectoriesOrderly volume') (nameable : Nameable path)
    (lookup : ¬ LookupFull volume path)
    (notDirectory : ¬ DirectoryPath volume path) {slot : DirSlot}
    {data : Bytes} {offset len : Nat} (range : offset + len < 2 ^ 32)
    (result : fatWriteAt volume slot path offset data len =
      some (0, volume')) :
    Step (treeOf volume) (.patch (rawNames path) offset (data.slice 0 len))
      (treeOf volume') := by
  by_cases nothing : len = 0
  · rw [fatWriteAt, if_pos nothing] at result
    cases result
    subst nothing
    exact .nothing
  have positive : 1 ≤ len := Nat.one_le_iff_ne_zero.mpr nothing
  rcases openTarget_opened wellFormed sound lookup 4 slot with
    ⟨code, which, stopped⟩ | ⟨cur, name, slot', full⟩ |
      ⟨cur, slots, name, entry, existing, opened, located, created, ok,
        isOpened, _⟩
  · rw [fatWriteAt, if_neg nothing, stopped] at result
    rcases which with rfl | rfl <;> cases result
  · rw [fatWriteAt_opened full positive] at result
    simp at result
  rw [fatWriteAt_opened ok positive, if_neg (by decide),
    if_neg (by decide)] at result
  have storable := located.storable nameable
  have regular := created.regular wellFormed sound notDirectory located
    isOpened
  obtain ⟨parent, isRaw, leads⟩ := located.leads wellFormed.readable sound
  have sameTree := created.treeOf_eq wellFormed sound orderly
    located.dirSlots
  obtain ⟨slots', leads'⟩ := created.leads wellFormed orderly leads
  obtain ⟨old, oldChain⟩ := isOpened.oldChain
  obtain ⟨ent, attr, first, size, loaded, outcome⟩ :=
    spliceFile_eq isOpened oldChain (length_toFatName name) positive
      range data
  rw [result] at outcome
  cases outcome with
  | spliced spliced =>
      have clusterPos := isOpened.wellFormed.geometry.clusterSize_pos
      have edited := spliced.edited isOpened regular storable oldChain
        positive loaded
      have chain := spliced.chain isOpened regular oldChain positive loaded
      have isFile := spliced.not_dir isOpened regular loaded
      have plain := toFatName_plain_dot name
      have holdsOld := (clustersFor_le_iff clusterPos _ _).mp
        (Nat.le_of_eq (loaded.old_length isOpened regular oldChain).symm)
      have holdsNew := (clustersFor_le_iff clusterPos _ _).mp
        (Nat.le_of_eq (spliced.kept.bpb ▸ (chain.regular isFile).1.symm))
      rw [spliced.entryIs.size] at holdsNew
      have place : EntryAt opened (parent ++ [toFatName name]) entry ↔
          existing = true ∧ entry = entry :=
        isOpened.entryAt plain leads'
      have before : treeOf volume (parent ++ [toFatName name]) =
            some (.file (chainContent opened old size)) ∨
          treeOf volume (parent ++ [toFatName name]) = none ∧
            chainContent opened old size = [] := by
        rw [← sameTree]
        cases existing with
        | true =>
            have isSize := (loaded.whenOld rfl).size
            rw [loaded.entryIs.size] at isSize
            rw [isSize]
            exact .inl ((place.mpr ⟨rfl, rfl⟩).treeOf_eq
              (.file (regular isOpened.reach)
                (oldChain.chain isOpened.reach)))
        | false =>
            refine .inr ⟨(treeOf_eq_none isOpened.wellFormed).mpr
              ⟨by simp, fun other there => ?_⟩, ?_⟩
            · cases ((isOpened.entryAt plain leads').mp there).1
            · rw [(loaded.whenNew rfl).2.2]
              rfl
      rw [isRaw]
      refine .patch (treeOf_directory leads) before
        (spliced.patched clusterPos holdsOld holdsNew) ?_
      rw [← sameTree]
      exact edited.changed isOpened plain leads'
        (created.orderly wellFormed located.dirSlots orderly) orderly'
        (fun _ => spliced.entryIs.name)
        (fun _ => ⟨_, rfl, .file isFile chain⟩)
        (fun dead => absurd (spliced.live isOpened regular storable loaded)
          dead)

/-- A call that removes an entry. -/
theorem Unlinked.changed (wellFormed : WellFormed volume)
    (sound : volume.disk.Sound) (orderly : DirectoriesOrderly volume)
    (orderly' : DirectoriesOrderly volume')
    (unlinked : Unlinked volume path entry volume') :
    EntryAt volume (rawNames path) entry ∧
      Changed (treeOf volume) (treeOf volume') (rawNames path) none := by
  have place := (names_iff_entryAt wellFormed sound path).mp unlinked.names
  refine ⟨place, ?_⟩
  obtain ⟨cur, name, slots, resolved, dirSlots, found⟩ := unlinked.names
  obtain ⟨old, edited⟩ := unlinked.edited
  have isOpened : Opened volume cur (toFatName name) entry true :=
    ⟨wellFormed, sound, toFatName_head name, slots, dirSlots, found.member,
      fun _ => found, by simp⟩
  have dead : ¬ Live volume'.mem entry :=
    fun live => live.1.2.1 unlinked.marked
  obtain ⟨parent, slots', descends, isRaw⟩ :=
    resolvePath_descends wellFormed.readable sound resolved
  rw [isRaw]
  exact edited.changed isOpened (toFatName_plain_dot name) descends.leads
    orderly orderly' (fun live => absurd live dead)
    (fun live => absurd live dead) fun _ => rfl

/-- Nothing lies below a directory that an edit removes. -/
theorem Edited.empty (edited : Edited volume volume' entry old new)
    (wellFormed : WellFormed volume) {names : List (List UInt8)}
    (place : EntryAt volume names entry) (isDir : IsDir volume.mem entry)
    (name : List UInt8) : treeOf volume (names ++ [name]) = none := by
  have chain := edited.oldChain.chain place.reach
  refine (treeOf_eq_none wellFormed).mpr ⟨by simp, fun other below => ?_⟩
  obtain ⟨_, _, _, _, same, leads, plain, found⟩ := below.path
  obtain ⟨rfl, _⟩ := List.append_inj' same rfl
  obtain ⟨_, rfl⟩ := leads.directory_unique (place.leads isDir chain)
  obtain ⟨cluster, owned, inCluster⟩ := List.mem_flatMap.mp found.member
  exact (edited.oldLeaf place.reach isDir).2 cluster owned other inCluster
    below.reach.live

theorem fatMkdir_tree (wellFormed : WellFormed volume)
    (sound : volume.disk.Sound) (orderly : DirectoriesOrderly volume)
    (orderly' : DirectoriesOrderly volume') (nameable : Nameable path)
    (result : fatMkdir volume path = some (0, volume')) :
    Step (treeOf volume) (.makeDirectory (rawNames path))
      (treeOf volume') := by
  obtain ⟨_, _, result', outcome⟩ :=
    fatMkdir_outcome wellFormed sound nameable
  cases result.symm.trans result'
  cases outcome with
  | refused failed => exact absurd rfl failed
  | looked failed _ _ _ => exact absurd rfl failed
  | @made cur entry newc slots name opened _ located created isOpened
      sound' edited isNew =>
      obtain ⟨parent, isRaw, leads⟩ :=
        located.leads wellFormed.readable sound
      have sameTree := created.treeOf_eq wellFormed sound orderly
        located.dirSlots
      obtain ⟨slots', leads'⟩ := created.leads wellFormed orderly leads
      have plain := toFatName_plain_dot name
      have isDir : IsDir volume'.mem entry := by
        rw [IsDir, isNew.entryIs.attr]
        decide
      have live : Live volume'.mem entry :=
        isNew.entryIs.live (located.storable nameable) isOpened.dotless
          (by decide) (by decide)
      rw [isRaw]
      refine .makeDirectory (treeOf_directory leads) ?_ ?_
      · rw [← sameTree]
        refine (treeOf_eq_none isOpened.wellFormed).mpr
          ⟨by simp, fun other there => ?_⟩
        cases ((isOpened.entryAt plain leads').mp there).1
      · rw [← sameTree]
        exact edited.changed isOpened plain leads'
          (created.orderly wellFormed located.dirSlots orderly) orderly'
          (fun _ => isNew.entryIs.name)
          (fun _ => ⟨_, rfl, .directory isDir⟩)
          fun dead => absurd live dead

/-- Every successful call is an operation on the tree. -/
theorem FatStep.tree {label : DirSlot × FatCall}
    (step : FatStep volume label volume') (wellFormed : WellFormed volume)
    (sound : volume.disk.Sound) (orderly : DirectoriesOrderly volume) :
    Step (treeOf volume) label.2.edit (treeOf volume') := by
  have orderly' := (step.done wellFormed sound).orderly wellFormed sound
    orderly
  obtain ⟨slot, call⟩ := label
  obtain ⟨result, ascii, inRange, lookup, notDirectory⟩ := step
  cases call with
  | writeFile path data size =>
      exact fatWriteFile_tree wellFormed sound orderly orderly'
        ascii.nameable lookup (notDirectory trivial) size.toNat_lt result
  | writeAt path offset data len =>
      exact fatWriteAt_tree wellFormed sound orderly orderly'
        ascii.nameable lookup (notDirectory trivial) inRange result
  | deleteFile path =>
      obtain ⟨_, _, result', outcome⟩ :=
        fatDeleteFile_outcome wellFormed sound path
      cases result.symm.trans result'
      rcases outcome with ⟨failed, _⟩ | ⟨_, entry, regular, unlinked⟩
      · exact absurd rfl failed
      · obtain ⟨place, changed⟩ :=
          unlinked.changed wellFormed sound orderly orderly'
        obtain ⟨clusters, chain⟩ := wellFormed.chain entry place.reach
        exact .remove (place.treeOf_eq (.file regular chain)) changed
  | mkdir path =>
      exact fatMkdir_tree wellFormed sound orderly orderly' ascii.nameable
        result
  | rmdir path =>
      obtain ⟨_, _, result', outcome⟩ :=
        fatRmdir_outcome wellFormed sound path
      cases result.symm.trans result'
      rcases outcome with ⟨failed, _⟩ | ⟨_, entry, isDir, unlinked⟩
      · exact absurd rfl failed
      · obtain ⟨place, changed⟩ :=
          unlinked.changed wellFormed sound orderly orderly'
        obtain ⟨old, edited⟩ := unlinked.edited
        exact .removeDirectory place.names_ne_nil
          (place.treeOf_eq (.directory isDir))
          (edited.empty wellFormed place isDir) changed

end Calls

end LoafOs
