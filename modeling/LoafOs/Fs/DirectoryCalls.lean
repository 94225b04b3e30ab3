import LoafOs.Fs.FatEditing
import LoafOs.Fs.FatReaddir

/-!
# Calls on a volume with room

A call that stores under a path that leads to no directory, with enough
free clusters, keeps the volume well formed and every directory, whatever
it returns; so do `fat_mkdir` and `fat_delete_file`.  `fat_rmdir` keeps
every directory but the one that it removes.
-/

namespace LoafOs

/-- Every directory but one keeps its entry and its first cluster. -/
def DirectoriesKeptBut (entry : Nat) (volume volume' : Volume) : Prop :=
  ∀ dir, Reach volume dir → IsDir volume.mem dir → dir ≠ entry →
    Reach volume' dir ∧ SameEntry volume'.mem dir volume.mem dir

/-- The clusters that `size` bytes under the path take are free, and so is
one more if the directory is full; the root directory does not grow. -/
def StoreFits (volume : Volume) (path : CString) (size : Nat) : Prop :=
  ∀ cur raw slots, resolvePath volume path = some ⟨0, false, cur, raw⟩ →
    DirSlots volume cur slots → cur = 0 ∧
        (∀ entry, ¬ Finds volume.mem raw slots entry) ∧
        (∀ slot ∈ slots, ¬ Vacant volume.mem slot) ∨
      Room volume cur raw slots size

/-- The path leads to a directory without live entries. -/
structure Removes (volume : Volume) (path : CString) (entry : Nat) :
    Prop where
  names : Names volume path entry
  isDir : IsDir volume.mem entry
  empty : ∀ cluster, Owns volume entry cluster →
    ∀ slot ∈ clusterSlots volume.bpb cluster, ¬ Live volume.mem slot

section Calls

variable {volume : Volume} {path : CString}

theorem StoreFits.not_lookupFull {size : Nat}
    (wellFormed : WellFormed volume) (sound : volume.disk.Sound)
    (fits : StoreFits volume path size) : ¬ LookupFull volume path := by
  rintro ⟨resolved, slot, slot', volume', resolvedEq, ok, notRoot, lookup⟩
  obtain ⟨_, resolvedEq', ends⟩ := resolvePath_ends wellFormed sound path
  rw [resolvedEq] at resolvedEq'
  cases resolvedEq'
  obtain ⟨slots, name, dirSlots, nameEq, _⟩ := ends ok notRoot
  obtain ⟨code, found, opened, lookup', created⟩ :=
    dirLookup_create wellFormed sound dirSlots resolved.finalName slot
  rw [lookup] at lookup'
  cases lookup'
  have here : resolvePath volume path =
      some ⟨0, false, resolved.dirCluster, resolved.finalName⟩ := by
    rw [resolvedEq, ← ok, ← notRoot]
  rcases fits _ _ _ here dirSlots with ⟨root, _⟩ | room
  · cases created with
    | noCluster chained _ _ _ => exact chained root
  · have := room.lookup created
    omega

/-- With enough room the clusters are there after the lookup. -/
theorem Room.enough {opened : Volume} {cur entry size : Nat}
    {raw : List UInt8} {slots old : List Nat} {slot : DirSlot}
    {existing : Bool} (room : Room volume cur raw slots size)
    (created : CreateResult volume cur raw slots slot 0
      (slotAt entry existing) opened)
    (isOpened : Opened opened cur raw entry existing)
    (oldChain : OldChain opened entry old) :
    clustersFor opened.bpb size ≤ (old ++ opened.free).length := by
  rw [List.length_append]
  generalize slotEq : slotAt entry existing = slot' at created
  have address := congrArg DirSlot.address slotEq
  have flag := congrArg DirSlot.existing slotEq
  rw [slotAt_address] at address
  rw [slotAt_existing] at flag
  cases created with
  | @found other found =>
      rw [slotAt_address] at address
      rw [slotAt_existing] at flag
      subst address flag
      have enough := room.replacing entry old found
        (oldChain.chain isOpened.reach)
      omega
  | vacant absent first =>
      have enough := room.adding absent
        ⟨_, first.member, first.vacant⟩
      omega
  | @grown opened dir fresh clusters rest absent full reach isDir chain
      nonempty first free grown =>
      have enough := (room.extending absent full).2
      rw [free, List.length_cons] at enough
      rw [grown.kept.bpb, grown.free_eq chain nonempty free]
      omega

/-- The beginning of a call that stores with enough room. -/
theorem StoreFits.aimed {size : Nat} (wellFormed : WellFormed volume)
    (sound : volume.disk.Sound)
    (notDirectory : ¬ NamesDirectory volume path)
    (fits : StoreFits volume path size) (slot : DirSlot) :
    (∃ code, openTarget volume path 4 slot true =
      some (.error code)) ∨
    (∃ cur raw slot', openTarget volume path 4 slot true =
      some (.ok (raw, cur, 2, slot', volume))) ∨
    ∃ cur raw slots entry existing opened,
      Aimed volume path cur raw slots slot opened entry existing ∧
        Room volume cur raw slots size ∧
        openTarget volume path 4 slot true =
          some (.ok (raw, cur, 0, slotAt entry existing, opened)) := by
  rcases openTarget_aimed wellFormed sound notDirectory
      (fits.not_lookupFull wellFormed sound) slot with
    stopped | full |
      ⟨cur, raw, slots, entry, existing, opened, aimed, _, ok⟩
  · exact .inl stopped
  · exact .inr (.inl full)
  · refine .inr (.inr ⟨cur, raw, slots, entry, existing, opened, aimed, ?_,
      ok⟩)
    rcases fits cur raw slots aimed.resolved aimed.dirSlots with
      ⟨root, absent, full⟩ | room
    · have created := aimed.created
      generalize slotAt entry existing = slot' at created
      cases created with
      | found found => exact absurd found (absent _)
      | vacant _ first => exact absurd first.vacant (full _ first.member)
      | grown _ _ reach isDir chain nonempty first _ _ =>
          have low := (chain.first_owned isDir).low
          omega
    · exact room

theorem not_directoryPath (wellFormed : WellFormed volume)
    (sound : volume.disk.Sound)
    (notDirectory : ¬ NamesDirectory volume path)
    (notRoot : ¬ RootPath volume path) : ¬ DirectoryPath volume path := by
  rintro ⟨stat, found, isDir⟩
  rcases fatStat_ok wellFormed.readable sound found with
    root | ⟨entry, names⟩
  · exact notRoot root
  · rw [names.fatStat_eq wellFormed sound] at found
    injection found with found
    injection found with same
    refine notDirectory ⟨entry, names, ?_⟩
    rw [← same] at isDir
    exact isDir

theorem Aimed.not_root {cur entry : Nat} {raw : List UInt8}
    {slots : List Nat} {slot : DirSlot} {opened : Volume} {existing : Bool}
    (aimed : Aimed volume path cur raw slots slot opened entry existing) :
    ¬ RootPath volume path := by
  rintro ⟨resolved, result, _, isRoot⟩
  rw [aimed.resolved] at result
  cases result
  cases isRoot

/-- `fat_write_file` with enough room stores, or changes nothing. -/
theorem fatWriteFile_fits (wellFormed : WellFormed volume)
    (sound : volume.disk.Sound)
    (notDirectory : ¬ NamesDirectory volume path) {slot : DirSlot}
    {data : Bytes} {size code : Nat} {volume' : Volume}
    (bound : size < 2 ^ 32) (fits : StoreFits volume path size)
    (result : fatWriteFile volume slot path data size =
      some (code, volume')) :
    code = 0 ∧ ¬ RootPath volume path ∨ volume' = volume := by
  rcases fits.aimed wellFormed sound notDirectory slot with
    ⟨code', stopped⟩ | ⟨cur, raw, slot', full⟩ |
      ⟨cur, raw, slots, entry, existing, opened, aimed, room, ok⟩
  · rw [fatWriteFile, stopped] at result
    cases result
    exact .inr rfl
  · rw [fatWriteFile_opened full, if_neg (by decide), if_pos rfl] at result
    cases result
    exact .inr rfl
  · rw [fatWriteFile_opened ok, if_neg (by decide), if_neg (by decide)]
      at result
    obtain ⟨released, old, isReleased, outcome⟩ :=
      replaceFile_eq aimed.isOpened aimed.width bound data
    have enough := room.fits aimed.created aimed.isOpened isReleased
    rw [result] at outcome
    cases outcome with
    | stored _ _ => exact .inl ⟨rfl, aimed.not_root⟩
    | full short _ _ _ _ => exact absurd enough (Nat.not_le.mpr short)

/-- `fat_write_at` with enough room stores, or changes nothing. -/
theorem fatWriteAt_fits (wellFormed : WellFormed volume)
    (sound : volume.disk.Sound)
    (notDirectory : ¬ NamesDirectory volume path) {slot : DirSlot}
    {data : Bytes} {offset len code : Nat} {volume' : Volume}
    (range : offset + len < 2 ^ 32)
    (fits : StoreFits volume path (offset + len))
    (result : fatWriteAt volume slot path offset data len =
      some (code, volume')) :
    code = 0 ∧ ¬ RootPath volume path ∨ volume' = volume := by
  by_cases nothing : len = 0
  · rw [fatWriteAt, if_pos nothing] at result
    cases result
    exact .inr rfl
  have positive : 1 ≤ len := Nat.one_le_iff_ne_zero.mpr nothing
  rcases fits.aimed wellFormed sound notDirectory slot with
    ⟨code', stopped⟩ | ⟨cur, raw, slot', full⟩ |
      ⟨cur, raw, slots, entry, existing, opened, aimed, room, ok⟩
  · rw [fatWriteAt, if_neg nothing, stopped] at result
    cases result
    exact .inr rfl
  · rw [fatWriteAt_opened full positive, if_neg (by decide), if_pos rfl]
      at result
    cases result
    exact .inr rfl
  · rw [fatWriteAt_opened ok positive, if_neg (by decide),
      if_neg (by decide)] at result
    obtain ⟨old, oldChain⟩ := aimed.isOpened.oldChain
    have enough := room.enough aimed.created aimed.isOpened oldChain
    have clusterPos := aimed.isOpened.wellFormed.geometry.clusterSize_pos
    obtain ⟨ent, attr, first, size, _, outcome⟩ :=
      spliceFile_eq aimed.isOpened oldChain aimed.width positive range data
    rw [result] at outcome
    cases outcome with
    | spliced _ => exact .inl ⟨rfl, aimed.not_root⟩
    | full exhausted _ =>
        have short := exhausted.short
        have count := clustersFor_eq clusterPos
          (show 0 < offset + len by omega)
        omega

/-- `size` bytes can be stored under the path: it leads to no directory, and
the clusters are there. -/
structure CanStore (volume : Volume) (path : CString) (size : Nat) :
    Prop where
  nameable : Nameable path
  notDirectory : ¬ NamesDirectory volume path
  bound : size < 2 ^ 32
  fits : StoreFits volume path size

theorem CanStore.fatWriteFile {size code : Nat} {slot : DirSlot}
    {data : Bytes} {volume' : Volume} (can : CanStore volume path size)
    (wellFormed : WellFormed volume) (sound : volume.disk.Sound)
    (result : fatWriteFile volume slot path data size =
      some (code, volume')) :
    WellFormed volume' ∧ volume'.disk.Sound ∧
      DirectoriesKept volume volume' := by
  have lookup := can.fits.not_lookupFull wellFormed sound
  obtain ⟨code', volume'', result', _, kept⟩ :=
    fatWriteFile_kept wellFormed sound
      (fun byte member => (can.nameable byte member).1) can.notDirectory
      lookup slot data can.bound
  rw [result] at result'
  cases result'
  rcases fatWriteFile_fits wellFormed sound can.notDirectory can.bound
      can.fits result with ⟨rfl, notRoot⟩ | rfl
  · have wellFormed' := fatWriteFile_wellFormed wellFormed sound
      can.nameable lookup
      (not_directoryPath wellFormed sound can.notDirectory notRoot)
      can.bound result
    exact ⟨wellFormed'.1, wellFormed'.2, kept⟩
  · exact ⟨wellFormed, sound, kept⟩

theorem CanStore.fatWriteAt {offset len code : Nat} {slot : DirSlot}
    {data : Bytes} {volume' : Volume}
    (can : CanStore volume path (offset + len)) (positive : 1 ≤ len)
    (wellFormed : WellFormed volume) (sound : volume.disk.Sound)
    (result : fatWriteAt volume slot path offset data len =
      some (code, volume')) :
    WellFormed volume' ∧ volume'.disk.Sound ∧
      DirectoriesKept volume volume' := by
  have lookup := can.fits.not_lookupFull wellFormed sound
  obtain ⟨code', volume'', result', _, kept⟩ :=
    fatWriteAt_kept wellFormed sound
      (fun byte member => (can.nameable byte member).1) can.notDirectory
      lookup slot data offset positive
  rw [result] at result'
  cases result'
  rcases fatWriteAt_fits wellFormed sound can.notDirectory can.bound
      can.fits result with ⟨rfl, notRoot⟩ | rfl
  · have wellFormed' := fatWriteAt_wellFormed wellFormed sound
      can.nameable lookup
      (not_directoryPath wellFormed sound can.notDirectory notRoot)
      can.bound result
    exact ⟨wellFormed'.1, wellFormed'.2, kept⟩
  · exact ⟨wellFormed, sound, kept⟩

/-- `fat_mkdir` keeps every directory, whatever it returns. -/
theorem fatMkdir_kept (wellFormed : WellFormed volume)
    (sound : volume.disk.Sound) (nameable : Nameable path) :
    ∃ code volume', fatMkdir volume path = some (code, volume') ∧
      WellFormed volume' ∧ volume'.disk.Sound ∧
      DirectoriesKept volume volume' := by
  obtain ⟨code, volume', result, outcome⟩ :=
    fatMkdir_outcome wellFormed sound nameable
  obtain ⟨wellFormed', sound'⟩ :=
    fatMkdir_wellFormed wellFormed sound nameable result
  refine ⟨code, volume', result, wellFormed', sound', ?_⟩
  cases outcome with
  | refused _ => exact .refl volume
  | looked _ _ created _ => exact created.directoriesKept wellFormed
  | made _ created isOpened _ edited _ =>
      exact (created.directoriesKept wellFormed).trans
        (edited.directoriesKept isOpened fun reach =>
          absurd reach isOpened.not_reach)

/-- Removing an entry keeps every directory but the one of the entry. -/
theorem Edited.directoriesKeptBut {entry : Nat} {volume' : Volume}
    {old new : List Nat} (edited : Edited volume volume' entry old new)
    (wellFormed : WellFormed volume) (inTree : TreeSlot volume entry) :
    DirectoriesKeptBut entry volume volume' := by
  intro dir reach isDir different
  have change := edited.entryChange wellFormed inTree
  exact ⟨(change.reach_iff wellFormed dir).mpr (.inr ⟨different, reach⟩),
    change.entries dir reach.treeSlot different⟩

/-- A directory that has been removed held no live entry. -/
theorem Unlinked.removes {entry : Nat} {volume' : Volume}
    (unlinked : Unlinked volume path entry volume')
    (isDir : IsDir volume.mem entry) : Removes volume path entry := by
  obtain ⟨old, edited⟩ := unlinked.edited
  have reach := unlinked.names.reach
  have noLive := (edited.oldLeaf reach isDir).2
  have chain := edited.oldChain.chain reach
  exact ⟨unlinked.names, isDir, fun cluster owned =>
    noLive cluster (chain.owns_iff.mp owned)⟩

/-- `fat_rmdir` changes nothing, or removes the directory that the path
leads to and keeps the others. -/
theorem fatRmdir_kept (wellFormed : WellFormed volume)
    (sound : volume.disk.Sound) (path : CString) :
    ∃ code volume', fatRmdir volume path = some (code, volume') ∧
      WellFormed volume' ∧ volume'.disk.Sound ∧
      (volume' = volume ∨ ∃ entry, Removes volume path entry ∧
        DirectoriesKeptBut entry volume volume') := by
  obtain ⟨code, volume', result, outcome⟩ :=
    fatRmdir_outcome wellFormed sound path
  obtain ⟨wellFormed', sound'⟩ := fatRmdir_wellFormed wellFormed sound result
  refine ⟨code, volume', result, wellFormed', sound', ?_⟩
  rcases outcome with ⟨_, unchanged⟩ | ⟨_, entry, isDir, unlinked⟩
  · exact .inl unchanged
  · obtain ⟨old, edited⟩ := unlinked.edited
    exact .inr ⟨entry, unlinked.removes isDir,
      edited.directoriesKeptBut wellFormed unlinked.names.reach.treeSlot⟩

end Calls

end LoafOs
