import LoafOs.Fs.FatFormat
import LoafOs.Fs.FatRemove
import LoafOs.Lib.Runs

/-!
# Runs of the driver

Every sequence of successful calls keeps a volume well formed.  The calls
of a run name ASCII paths, the two write calls are not aimed at a
directory, and `dir_lookup` does not run out of clusters for a full
directory.
-/

namespace LoafOs

/-- The calls that change a volume. -/
inductive FatCall where
  | writeFile (path : CString) (data : Bytes) (size : UInt32)
  | writeAt (path : CString) (offset : UInt32) (data : Bytes)
      (len : UInt32)
  | deleteFile (path : CString)
  | mkdir (path : CString)
  | rmdir (path : CString)

namespace FatCall

def path : FatCall → CString
  | writeFile path _ _ => path
  | writeAt path _ _ _ => path
  | deleteFile path => path
  | mkdir path => path
  | rmdir path => path

/-- The return value and the volume after a call; `slot` is what the slot
variable of the call holds at first. -/
def run (volume : Volume) (slot : DirSlot) :
    FatCall → Option (Nat × Volume)
  | writeFile path data size =>
      fatWriteFile volume slot path data size.toNat
  | writeAt path offset data len =>
      fatWriteAt volume slot path offset.toNat data len.toNat
  | deleteFile path => fatDeleteFile volume path
  | mkdir path => fatMkdir volume path
  | rmdir path => fatRmdir volume path

/-- The two write calls. -/
def Writes : FatCall → Prop
  | writeFile _ _ _ | writeAt _ _ _ _ => True
  | _ => False

/-- `offset` and `len` of `fat_write_at` do not wrap. -/
def InRange : FatCall → Prop
  | writeAt _ offset _ len => offset.toNat + len.toNat < 2 ^ 32
  | _ => True

instance : (call : FatCall) → Decidable call.InRange
  | writeAt _ offset _ len =>
      inferInstanceAs (Decidable (offset.toNat + len.toNat < 2 ^ 32))
  | writeFile _ _ _ | deleteFile _ | mkdir _ | rmdir _ =>
      inferInstanceAs (Decidable True)

end FatCall

/-- `dir_lookup` returns 3 for the path: its directory is full and no
cluster is free. -/
def LookupFull (volume : Volume) (path : CString) : Prop :=
  ∃ resolved slot slot' volume',
    resolvePath volume path = some resolved ∧ resolved.code = 0 ∧
      resolved.isRoot = false ∧
      dirLookup volume resolved.dirCluster resolved.finalName slot true =
        some (3, slot', volume')

/-- `fat_stat` reports a directory. -/
def DirectoryPath (volume : Volume) (path : CString) : Prop :=
  ∃ stat, fatStat volume path = some (.ok stat) ∧
    stat.attr &&& attrDirectory ≠ 0

/-- A call that returns 0. -/
structure FatStep (volume : Volume) (label : DirSlot × FatCall)
    (volume' : Volume) : Prop where
  result : label.2.run volume label.1 = some (0, volume')
  ascii : Ascii label.2.path
  inRange : label.2.InRange
  lookup : ¬ LookupFull volume label.2.path
  notDirectory : label.2.Writes → ¬ DirectoryPath volume label.2.path

/-- No byte ends the string, and none makes a name read as deleted. -/
def Nameable (string : CString) : Prop :=
  ∀ byte ∈ string, byte ≠ 0 ∧ byte ≠ 0xe5

instance (string : CString) : Decidable (Nameable string) :=
  inferInstanceAs (Decidable (∀ byte ∈ string, _))

theorem Ascii.nameable {string : CString} (ascii : Ascii string) :
    Nameable string := by
  intro byte member
  obtain ⟨nonzero, small⟩ := ascii byte member
  refine ⟨nonzero, ?_⟩
  rintro rfl
  exact absurd small (by decide)

theorem Nameable.storable {name : CString} (nameable : Nameable name) :
    Storable (toFatName name) := by
  refine ⟨toFatName_nonzero fun byte member => (nameable byte member).1, ?_⟩
  rw [toFatName]
  cases name with
  | nil => simp [padName]
  | cons first rest =>
      have upper : toUpper first ≠ 0xe5 := by
        rw [toUpper]
        split
        case isTrue lower =>
          intro same
          have value := congrArg UInt8.toNat same
          simp only [UInt8.le_iff_toNat_le, UInt8.reduceToNat] at lower
          simp only [UInt8.toNat_sub, UInt8.reduceToNat] at value
          omega
        case isFalse => exact (nameable first List.mem_cons_self).2
      by_cases dot : first = 0x2e
      · simp [dot, padName]
      · simpa [dot, padName] using upper

section Calls

variable {volume volume' : Volume} {path : CString}

/-- The beginning of a call that creates, when the lookup does not run out
of clusters. -/
theorem openTarget_opened (wellFormed : WellFormed volume)
    (sound : volume.disk.Sound) (lookup : ¬ LookupFull volume path)
    (rootCode : Nat) (slot : DirSlot) :
    (∃ code, (code = 1 ∨ code = rootCode) ∧
      openTarget volume path rootCode slot true = some (.error code)) ∨
    (∃ cur name slot', openTarget volume path rootCode slot true =
      some (.ok (toFatName name, cur, 2, slot', volume))) ∨
    ∃ cur slots name entry existing opened,
      Located volume path cur slots name ∧
        CreateResult volume cur (toFatName name) slots slot 0
          (slotAt entry existing) opened ∧
        openTarget volume path rootCode slot true =
          some (.ok (toFatName name, cur, 0, slotAt entry existing,
            opened)) ∧
        Opened opened cur (toFatName name) entry existing ∧
        NamesKept (fun _ => True) volume opened := by
  rcases openTarget_create wellFormed sound path rootCode slot with
    stopped | ⟨cur, slots, name, code, slot', opened, located, created,
      lookupEq, result⟩
  · exact Or.inl stopped
  right
  cases code with
  | zero =>
      obtain ⟨entry, existing, slotEq, isOpened, names⟩ :=
        created.opened wellFormed sound located.dirSlots
          (toFatName_head name)
      subst slotEq
      exact Or.inr ⟨cur, slots, name, entry, existing, opened, located,
        created, result, isOpened, names⟩
  | succ code =>
      cases created with
      | rootFull _ _ _ => exact Or.inl ⟨cur, name, slot, result⟩
      | noCluster _ _ _ _ =>
          exact absurd ⟨_, slot, slot, volume, located.resolved, rfl, rfl,
            lookupEq⟩ lookup

/-- A free cluster is enough for every lookup. -/
theorem not_lookupFull (wellFormed : WellFormed volume)
    (sound : volume.disk.Sound) (room : volume.free ≠ []) :
    ¬ LookupFull volume path := by
  rintro ⟨resolved, slot, slot', volume', resolvedEq, ok, notRoot,
    lookup⟩
  obtain ⟨_, resolvedEq', ends⟩ :=
    resolvePath_ends wellFormed sound path
  rw [resolvedEq] at resolvedEq'
  cases resolvedEq'
  obtain ⟨slots, name, dirSlots, nameEq, _⟩ := ends ok notRoot
  obtain ⟨code, found, opened, lookup', created⟩ :=
    dirLookup_create wellFormed sound dirSlots resolved.finalName slot
  rw [lookup] at lookup'
  cases lookup'
  cases created with
  | noCluster _ _ _ exhausted => exact room exhausted

/-- A path that leads to a directory entry is reported as one. -/
theorem Located.not_directory (wellFormed : WellFormed volume)
    (sound : volume.disk.Sound)
    (notDirectory : ¬ DirectoryPath volume path) {cur entry : Nat}
    {slots : List Nat} {name : CString}
    (located : Located volume path cur slots name)
    (found : Finds volume.mem (toFatName name) slots entry) :
    ¬ IsDir volume.mem entry := by
  intro isDir
  have names : Names volume path entry :=
    ⟨cur, name, slots, located.resolved, located.dirSlots, found⟩
  exact notDirectory ⟨_, names.fatStat_eq wellFormed sound, isDir⟩

/-- The slot of a write call holds no directory. -/
theorem CreateResult.regular (wellFormed : WellFormed volume)
    (sound : volume.disk.Sound)
    (notDirectory : ¬ DirectoryPath volume path) {cur entry : Nat}
    {slots : List Nat} {name : CString} {slot : DirSlot}
    {existing : Bool} {opened : Volume}
    (located : Located volume path cur slots name)
    (created : CreateResult volume cur (toFatName name) slots slot 0
      (slotAt entry existing) opened)
    (isOpened : Opened opened cur (toFatName name) entry existing) :
    Reach opened entry → ¬ IsDir opened.mem entry := by
  intro reach
  cases existing with
  | false => exact absurd reach isOpened.not_reach
  | true =>
      generalize slotEq : slotAt entry true = slot' at created
      cases created with
      | @found other found =>
          have same : entry = other := by
            have address := congrArg DirSlot.address slotEq
            rwa [slotAt_address, slotAt_address] at address
          subst same
          exact located.not_directory wellFormed sound notDirectory found
      | vacant _ _ =>
          have := congrArg DirSlot.existing slotEq
          cases this
      | grown _ _ _ _ _ _ _ _ _ =>
          have := congrArg DirSlot.existing slotEq
          cases this

theorem Located.storable {cur : Nat} {slots : List Nat} {name : CString}
    (located : Located volume path cur slots name)
    (nameable : Nameable path) : Storable (toFatName name) :=
  Nameable.storable fun byte member =>
    nameable byte (located.bytes byte member)

/-- A call has stored an entry under the name: a file, or a directory with
nothing in it. -/
structure StoredEntry (volume : Volume) (path : CString) (entry : Nat)
    (opened volume' : Volume) : Prop where
  edited : ∃ cur slots name slot existing old new,
    Located volume path cur slots name ∧
      CreateResult volume cur (toFatName name) slots slot 0
        (slotAt entry existing) opened ∧
      Opened opened cur (toFatName name) entry existing ∧
      Edited opened volume' entry old new ∧ Storable (toFatName name) ∧
      direntName volume'.mem entry = toFatName name ∧
      (IsDir volume'.mem entry → ∃ newc, new = [newc] ∧
        NewDirectory volume' entry (toFatName name) newc)
  sound : volume'.disk.Sound

theorem StoredEntry.wellFormed {entry : Nat} {opened : Volume}
    (stored : StoredEntry volume path entry opened volume') :
    WellFormed volume' := by
  obtain ⟨cur, slots, name, slot, existing, old, new, _, _, isOpened,
    edited, _⟩ := stored.edited
  exact edited.wellFormed isOpened.wellFormed isOpened.treeSlot

theorem fatWriteFile_stored (wellFormed : WellFormed volume)
    (sound : volume.disk.Sound) (nameable : Nameable path)
    (lookup : ¬ LookupFull volume path)
    (notDirectory : ¬ DirectoryPath volume path) {slot : DirSlot}
    {data : Bytes} {size : Nat} (sizeBound : size < 2 ^ 32)
    (result : fatWriteFile volume slot path data size =
      some (0, volume')) :
    ∃ entry opened, StoredEntry volume path entry opened volume' := by
  rcases openTarget_opened wellFormed sound lookup 4 slot with
    ⟨code, which, stopped⟩ | ⟨cur, name, slot', full⟩ |
      ⟨cur, slots, name, entry, existing, opened, located, created, ok,
        isOpened, _⟩
  · rw [fatWriteFile, stopped] at result
    rcases which with rfl | rfl <;> cases result
  · rw [fatWriteFile_opened full] at result
    simp at result
  · rw [fatWriteFile_opened ok, if_neg (by decide), if_neg (by decide)]
      at result
    have storable := located.storable nameable
    have regular := created.regular wellFormed sound notDirectory located
      isOpened
    obtain ⟨released, old, isReleased, outcome⟩ :=
      replaceFile_eq isOpened (length_toFatName name) sizeBound data
    rw [result] at outcome
    cases outcome with
    | stored _ replaced =>
        have isFile : ¬ IsDir volume'.mem entry := by
          rw [IsDir, replaced.entryIs.attr]
          decide
        exact ⟨entry, opened,
          ⟨cur, slots, name, slot, existing, old, _, located, created,
            isOpened,
            replaced.edited isOpened isReleased regular storable,
            storable, replaced.entryIs.name, fun isDir => absurd isDir isFile⟩,
          replaced.kept.sound⟩

theorem fatWriteFile_wellFormed (wellFormed : WellFormed volume)
    (sound : volume.disk.Sound) (nameable : Nameable path)
    (lookup : ¬ LookupFull volume path)
    (notDirectory : ¬ DirectoryPath volume path) {slot : DirSlot}
    {data : Bytes} {size : Nat} (sizeBound : size < 2 ^ 32)
    (result : fatWriteFile volume slot path data size =
      some (0, volume')) :
    WellFormed volume' ∧ volume'.disk.Sound := by
  obtain ⟨entry, opened, stored⟩ :=
    fatWriteFile_stored wellFormed sound nameable lookup notDirectory
      sizeBound result
  exact ⟨stored.wellFormed, stored.sound⟩

theorem fatWriteAt_stored (wellFormed : WellFormed volume)
    (sound : volume.disk.Sound) (nameable : Nameable path)
    (lookup : ¬ LookupFull volume path)
    (notDirectory : ¬ DirectoryPath volume path) {slot : DirSlot}
    {data : Bytes} {offset len : Nat} (range : offset + len < 2 ^ 32)
    (result : fatWriteAt volume slot path offset data len =
      some (0, volume')) :
    volume' = volume ∨
      ∃ entry opened, StoredEntry volume path entry opened volume' := by
  by_cases nothing : len = 0
  · rw [fatWriteAt, if_pos nothing] at result
    cases result
    exact .inl rfl
  have positive : 1 ≤ len := Nat.one_le_iff_ne_zero.mpr nothing
  rcases openTarget_opened wellFormed sound lookup 4 slot with
    ⟨code, which, stopped⟩ | ⟨cur, name, slot', full⟩ |
      ⟨cur, slots, name, entry, existing, opened, located, created, ok,
        isOpened, _⟩
  · rw [fatWriteAt, if_neg nothing, stopped] at result
    rcases which with rfl | rfl <;> cases result
  · rw [fatWriteAt_opened full positive] at result
    simp at result
  · rw [fatWriteAt_opened ok positive, if_neg (by decide),
      if_neg (by decide)] at result
    have storable := located.storable nameable
    have regular := created.regular wellFormed sound notDirectory located
      isOpened
    obtain ⟨old, oldChain⟩ := isOpened.oldChain
    obtain ⟨ent, attr, first, size, loaded, outcome⟩ :=
      spliceFile_eq isOpened oldChain (length_toFatName name) positive
        range data
    rw [result] at outcome
    cases outcome with
    | spliced spliced =>
        have isFile : ¬ IsDir volume'.mem entry := by
          rw [IsDir, spliced.entryIs.attr,
            (loaded.attr_plain isOpened regular).2.2, not_not]
        exact .inr ⟨entry, opened,
          ⟨cur, slots, name, slot, existing, old, _, located, created,
            isOpened,
            spliced.edited isOpened regular storable oldChain positive
              loaded,
            storable, spliced.entryIs.name, fun isDir => absurd isDir isFile⟩,
          spliced.kept.sound⟩

theorem fatWriteAt_wellFormed (wellFormed : WellFormed volume)
    (sound : volume.disk.Sound) (nameable : Nameable path)
    (lookup : ¬ LookupFull volume path)
    (notDirectory : ¬ DirectoryPath volume path) {slot : DirSlot}
    {data : Bytes} {offset len : Nat} (range : offset + len < 2 ^ 32)
    (result : fatWriteAt volume slot path offset data len =
      some (0, volume')) :
    WellFormed volume' ∧ volume'.disk.Sound := by
  rcases fatWriteAt_stored wellFormed sound nameable lookup notDirectory
      range result with rfl | ⟨entry, opened, stored⟩
  · exact ⟨wellFormed, sound⟩
  · exact ⟨stored.wellFormed, stored.sound⟩

/-- The entry that a call without creation has found. -/
theorem Located.opened (wellFormed : WellFormed volume)
    (sound : volume.disk.Sound) {cur entry : Nat} {slots : List Nat}
    {name : CString} (located : Located volume path cur slots name)
    (found : Finds volume.mem (toFatName name) slots entry) :
    Opened volume cur (toFatName name) entry true :=
  ⟨wellFormed, sound, toFatName_head name, slots, located.dirSlots,
    found.member, fun _ => found, by simp⟩

/-- The entry of the path is marked as deleted and its chain is free. -/
structure Unlinked (volume : Volume) (path : CString) (entry : Nat)
    (volume' : Volume) : Prop where
  names : Names volume path entry
  sound : volume'.disk.Sound
  marked : volume'.mem entry = 0xe5
  edited : ∃ old, Edited volume volume' entry old []

theorem Unlinked.wellFormed {entry : Nat}
    (unlinked : Unlinked volume path entry volume')
    (wellFormed : WellFormed volume) : WellFormed volume' := by
  obtain ⟨old, edited⟩ := unlinked.edited
  exact edited.wellFormed wellFormed unlinked.names.reach.treeSlot

/-- `fat_delete_file` removes a file, or changes nothing. -/
theorem fatDeleteFile_outcome (wellFormed : WellFormed volume)
    (sound : volume.disk.Sound) (path : CString) :
    ∃ code volume', fatDeleteFile volume path = some (code, volume') ∧
      (code ≠ 0 ∧ volume' = volume ∨ code = 0 ∧ ∃ entry,
        ¬ IsDir volume.mem entry ∧ Unlinked volume path entry volume') := by
  have refused {code : Nat} (failed : code ≠ 0)
      (result : fatDeleteFile volume path = some (code, volume)) :
      ∃ code volume', fatDeleteFile volume path = some (code, volume') ∧
        (code ≠ 0 ∧ volume' = volume ∨ code = 0 ∧ ∃ entry,
          ¬ IsDir volume.mem entry ∧ Unlinked volume path entry volume') :=
    ⟨code, volume, result, .inl ⟨failed, rfl⟩⟩
  rcases openTarget_find wellFormed sound path 4 .unset with
    ⟨code, which, stopped⟩ |
      ⟨cur, slots, name, code, slot', located, ok, outcome⟩
  · refine @refused code (by omega) ?_
    rw [fatDeleteFile, stopped]
    rfl
  have opens := fatDeleteFile_opened ok
  rcases outcome with ⟨rfl, entry, found, rfl⟩ | ⟨rfl, missing⟩ | rfl
  · have opened := located.opened wellFormed sound found
    rw [if_neg (by decide), if_neg (by simp [slotAt])] at opens
    rcases deleteEntry_eq opened with
      ⟨_, isRefused⟩ | ⟨regular, deleted, old, removed, sound', marked, edited⟩
    · exact @refused 3 (by decide) (opens.trans isRefused)
    · exact ⟨0, deleted, opens.trans removed, .inr ⟨rfl, entry, regular,
        ⟨cur, name, slots, located.resolved, located.dirSlots, found⟩,
        sound', marked, old, edited⟩⟩
  · refine @refused 2 (by decide) ?_
    rw [opens]
    simp [missing]
  · refine @refused 2 (by decide) ?_
    rw [opens]
    simp

/-- `fat_rmdir` removes a directory, or changes nothing. -/
theorem fatRmdir_outcome (wellFormed : WellFormed volume)
    (sound : volume.disk.Sound) (path : CString) :
    ∃ code volume', fatRmdir volume path = some (code, volume') ∧
      (code ≠ 0 ∧ volume' = volume ∨ code = 0 ∧ ∃ entry,
        IsDir volume.mem entry ∧ Unlinked volume path entry volume') := by
  have refused {code : Nat} (failed : code ≠ 0)
      (result : fatRmdir volume path = some (code, volume)) :
      ∃ code volume', fatRmdir volume path = some (code, volume') ∧
        (code ≠ 0 ∧ volume' = volume ∨ code = 0 ∧ ∃ entry,
          IsDir volume.mem entry ∧ Unlinked volume path entry volume') :=
    ⟨code, volume, result, .inl ⟨failed, rfl⟩⟩
  rcases openTarget_find wellFormed sound path 6 .unset with
    ⟨code, which, stopped⟩ |
      ⟨cur, slots, name, code, slot', located, ok, outcome⟩
  · refine @refused code (by omega) ?_
    rw [fatRmdir, stopped]
    rfl
  have opens := fatRmdir_opened ok
  rcases outcome with ⟨rfl, entry, found, rfl⟩ | ⟨rfl, missing⟩ | rfl
  · have opened := located.opened wellFormed sound found
    rw [if_neg (by decide), if_neg (by simp [slotAt])] at opens
    obtain ⟨code, removed, removeEq, which⟩ := removeDirectory_eq opened
    rcases which with ⟨rfl, rfl⟩ | ⟨rfl, rfl⟩ |
      ⟨rfl, isDir, sound', marked, old, edited⟩
    · exact @refused 3 (by decide) (opens.trans removeEq)
    · exact @refused 5 (by decide) (opens.trans removeEq)
    · exact ⟨0, removed, opens.trans removeEq, .inr ⟨rfl, entry, isDir,
        ⟨cur, name, slots, located.resolved, located.dirSlots, found⟩,
        sound', marked, old, edited⟩⟩
  · refine @refused 2 (by decide) ?_
    rw [opens]
    simp [missing]
  · refine @refused 2 (by decide) ?_
    rw [opens]
    simp

/-- What `fat_mkdir` leaves behind: the volume as it was, with its directory
lengthened by the lookup, or with the new entry. -/
inductive MkdirOutcome (volume : Volume) (path : CString) :
    Nat → Volume → Prop
  | refused {code : Nat} (failed : code ≠ 0) :
      MkdirOutcome volume path code volume
  | looked {code cur entry : Nat} {slots : List Nat} {name : CString}
      {existing : Bool} {opened : Volume} (failed : code ≠ 0)
      (located : Located volume path cur slots name)
      (created : CreateResult volume cur (toFatName name) slots .unset 0
        (slotAt entry existing) opened)
      (isOpened : Opened opened cur (toFatName name) entry existing) :
      MkdirOutcome volume path code opened
  | made {cur entry newc : Nat} {slots : List Nat} {name : CString}
      {opened volume' : Volume}
      (located : Located volume path cur slots name)
      (created : CreateResult volume cur (toFatName name) slots .unset 0
        (slotAt entry false) opened)
      (isOpened : Opened opened cur (toFatName name) entry false)
      (sound : volume'.disk.Sound)
      (edited : Edited opened volume' entry [] [newc])
      (holds : NewDirectory volume' entry (toFatName name) newc) :
      MkdirOutcome volume path 0 volume'

theorem fatMkdir_outcome (wellFormed : WellFormed volume)
    (sound : volume.disk.Sound) (nameable : Nameable path) :
    ∃ code volume', fatMkdir volume path = some (code, volume') ∧
      MkdirOutcome volume path code volume' := by
  rcases openTarget_create wellFormed sound path 5 .unset with
    ⟨code, which, stopped⟩ | ⟨cur, slots, name, code, slot', opened,
      located, created, _, ok⟩
  · refine ⟨code, volume, ?_, .refused (by omega)⟩
    rw [fatMkdir, stopped]
    rfl
  have opens := fatMkdir_opened ok
  cases code with
  | succ code =>
      have refused : code + 1 = 2 ∨ code + 1 = 3 := by
        cases created with
        | rootFull _ _ _ => exact .inl rfl
        | noCluster _ _ _ _ => exact .inr rfl
      have same : opened = volume := by
        cases created with
        | rootFull _ _ _ => rfl
        | noCluster _ _ _ _ => rfl
      subst same
      rw [if_neg (by omega), if_pos refused] at opens
      exact ⟨2, opened, opens, .refused (by decide)⟩
  | zero =>
      obtain ⟨entry, existing, slotEq, isOpened, _⟩ :=
        created.opened wellFormed sound located.dirSlots
          (toFatName_head name)
      subst slotEq
      rw [if_neg (by decide), if_neg (by decide)] at opens
      cases existing with
      | true =>
          rw [slotAt_existing, if_pos rfl] at opens
          exact ⟨3, opened, opens,
            .looked (by decide) located created isOpened⟩
      | false =>
          rw [slotAt_existing, if_neg Bool.false_ne_true] at opens
          rcases makeDirectory_eq isOpened (length_toFatName name)
              (located.storable nameable) cur with
            exhausted | ⟨made, newc, madeEq, sound', edited, holds⟩
          · exact ⟨4, opened, opens.trans exhausted,
              .looked (by decide) located created isOpened⟩
          · exact ⟨0, made, opens.trans madeEq,
              .made located created isOpened sound' edited holds⟩

theorem fatDeleteFile_wellFormed_any (wellFormed : WellFormed volume)
    (sound : volume.disk.Sound) {code : Nat}
    (result : fatDeleteFile volume path = some (code, volume')) :
    WellFormed volume' ∧ volume'.disk.Sound := by
  obtain ⟨_, _, result', outcome⟩ :=
    fatDeleteFile_outcome wellFormed sound path
  rw [result] at result'
  cases result'
  rcases outcome with ⟨_, rfl⟩ | ⟨_, entry, _, unlinked⟩
  · exact ⟨wellFormed, sound⟩
  · exact ⟨unlinked.wellFormed wellFormed, unlinked.sound⟩

theorem fatMkdir_wellFormed (wellFormed : WellFormed volume)
    (sound : volume.disk.Sound) (nameable : Nameable path) {code : Nat}
    (result : fatMkdir volume path = some (code, volume')) :
    WellFormed volume' ∧ volume'.disk.Sound := by
  obtain ⟨_, _, result', outcome⟩ :=
    fatMkdir_outcome wellFormed sound nameable
  rw [result] at result'
  cases result'
  cases outcome with
  | refused _ => exact ⟨wellFormed, sound⟩
  | looked _ _ _ isOpened => exact ⟨isOpened.wellFormed, isOpened.sound⟩
  | made _ _ isOpened sound' edited _ =>
      exact ⟨edited.wellFormed isOpened.wellFormed isOpened.treeSlot,
        sound'⟩

theorem fatRmdir_wellFormed (wellFormed : WellFormed volume)
    (sound : volume.disk.Sound) {code : Nat}
    (result : fatRmdir volume path = some (code, volume')) :
    WellFormed volume' ∧ volume'.disk.Sound := by
  obtain ⟨_, _, result', outcome⟩ := fatRmdir_outcome wellFormed sound path
  rw [result] at result'
  cases result'
  rcases outcome with ⟨_, rfl⟩ | ⟨_, entry, _, unlinked⟩
  · exact ⟨wellFormed, sound⟩
  · exact ⟨unlinked.wellFormed wellFormed, unlinked.sound⟩

/-- What a call of a run has done. -/
inductive CallDone (volume : Volume) (path : CString) : Volume → Prop
  | unchanged : CallDone volume path volume
  | unlinked {entry : Nat} {volume' : Volume}
      (unlinked : Unlinked volume path entry volume') :
      CallDone volume path volume'
  | stored {entry : Nat} {opened volume' : Volume}
      (stored : StoredEntry volume path entry opened volume') :
      CallDone volume path volume'

theorem FatStep.done {label : DirSlot × FatCall}
    (step : FatStep volume label volume') (wellFormed : WellFormed volume)
    (sound : volume.disk.Sound) :
    CallDone volume label.2.path volume' := by
  obtain ⟨slot, call⟩ := label
  obtain ⟨result, ascii, inRange, lookup, notDirectory⟩ := step
  cases call with
  | writeFile path data size =>
      obtain ⟨entry, opened, stored⟩ :=
        fatWriteFile_stored wellFormed sound ascii.nameable lookup
          (notDirectory trivial) size.toNat_lt result
      exact .stored stored
  | writeAt path offset data len =>
      rcases fatWriteAt_stored wellFormed sound ascii.nameable lookup
          (notDirectory trivial) inRange result with
        rfl | ⟨entry, opened, stored⟩
      · exact .unchanged
      · exact .stored stored
  | deleteFile path =>
      obtain ⟨_, _, result', outcome⟩ :=
        fatDeleteFile_outcome wellFormed sound path
      cases result.symm.trans result'
      rcases outcome with ⟨failed, _⟩ | ⟨_, entry, _, unlinked⟩
      · exact absurd rfl failed
      · exact .unlinked unlinked
  | mkdir path =>
      obtain ⟨_, _, result', outcome⟩ :=
        fatMkdir_outcome wellFormed sound ascii.nameable
      cases result.symm.trans result'
      cases outcome with
      | refused failed => exact absurd rfl failed
      | looked failed _ _ _ => exact absurd rfl failed
      | made located created isOpened sound' edited isNew =>
          exact .stored ⟨⟨_, _, _, _, _, _, _, located, created, isOpened,
            edited, located.storable ascii.nameable, isNew.entryIs.name,
            fun _ => ⟨_, rfl, isNew⟩⟩, sound'⟩
  | rmdir path =>
      obtain ⟨_, _, result', outcome⟩ :=
        fatRmdir_outcome wellFormed sound path
      cases result.symm.trans result'
      rcases outcome with ⟨failed, _⟩ | ⟨_, entry, _, unlinked⟩
      · exact absurd rfl failed
      · exact .unlinked unlinked

/-- One successful call keeps the volume well formed. -/
theorem FatStep.wellFormed {label : DirSlot × FatCall}
    (step : FatStep volume label volume') (wellFormed : WellFormed volume)
    (sound : volume.disk.Sound) :
    WellFormed volume' ∧ volume'.disk.Sound := by
  cases step.done wellFormed sound with
  | unchanged => exact ⟨wellFormed, sound⟩
  | unlinked unlinked =>
      exact ⟨unlinked.wellFormed wellFormed, unlinked.sound⟩
  | stored stored => exact ⟨stored.wellFormed, stored.sound⟩

end Calls

/-- Every run of successful calls keeps a volume well formed. -/
theorem fatRun_wellFormed {volume volume' : Volume}
    {calls : List (DirSlot × FatCall)} (wellFormed : WellFormed volume)
    (sound : volume.disk.Sound)
    (run : Runs.Run FatStep volume calls volume') : WellFormed volume' :=
  (run.invariant
    (fun volume => WellFormed volume ∧ volume.disk.Sound)
    (fun _ _ _ kept step => step.wellFormed kept.1 kept.2)
    ⟨wellFormed, sound⟩).1

/-! ## Checking a list of calls -/

/-- A test that `FatStep` holds for a call that returns 0. -/
def FatCall.safe (volume : Volume) (call : FatCall) : Bool :=
  decide (Ascii call.path) && decide call.InRange &&
    decide (volume.free ≠ []) &&
    match fatStat volume call.path with
    | some (.ok stat) => stat.attr &&& attrDirectory == 0
    | _ => true

def callsOk (volume : Volume) : List FatCall → Bool
  | [] => true
  | call :: rest =>
      let result := call.run volume .unset
      decide (result.map Prod.fst = some 0) && call.safe volume &&
        callsOk (volume.after result) rest

def afterCalls (volume : Volume) : List FatCall → Volume
  | [] => volume
  | call :: rest => afterCalls (volume.after (call.run volume .unset)) rest

theorem FatCall.safe_step {volume : Volume} {call : FatCall}
    (wellFormed : WellFormed volume) (sound : volume.disk.Sound)
    (code : (call.run volume .unset).map Prod.fst = some 0)
    (safe : call.safe volume = true) :
    FatStep volume (.unset, call)
      (volume.after (call.run volume .unset)) := by
  simp only [FatCall.safe, Bool.and_eq_true, decide_eq_true_eq] at safe
  obtain ⟨⟨⟨ascii, inRange⟩, room⟩, regular⟩ := safe
  refine ⟨Volume.after_eq code, ascii, inRange,
    not_lookupFull wellFormed sound room, ?_⟩
  rintro _ ⟨stat, statEq, directory⟩
  rw [statEq] at regular
  exact directory (by simpa using regular)

/-- A list of calls that passes the test is a run. -/
theorem callsOk_run : ∀ {volume : Volume} (calls : List FatCall),
    WellFormed volume → volume.disk.Sound →
      callsOk volume calls = true →
        Runs.Run FatStep volume (calls.map fun call => (.unset, call))
          (afterCalls volume calls)
  | _, [], _, _, _ => .nil
  | volume, call :: rest, wellFormed, sound, ok => by
      simp only [callsOk, Bool.and_eq_true, decide_eq_true_eq] at ok
      obtain ⟨⟨code, safe⟩, later⟩ := ok
      have step := FatCall.safe_step wellFormed sound code safe
      obtain ⟨wellFormed', sound'⟩ := step.wellFormed wellFormed sound
      exact .cons step (callsOk_run rest wellFormed' sound' later)

theorem callsOk_wellFormed {volume : Volume} (calls : List FatCall)
    (wellFormed : WellFormed volume) (sound : volume.disk.Sound)
    (ok : callsOk volume calls = true) :
    WellFormed (afterCalls volume calls) ∧
      (afterCalls volume calls).disk.Sound :=
  (callsOk_run calls wellFormed sound ok).invariant
    (fun volume => WellFormed volume ∧ volume.disk.Sound)
    (fun _ _ _ kept step => step.wellFormed kept.1 kept.2)
    ⟨wellFormed, sound⟩

/-! A directory and a file of 600 bytes in it, on a fresh small volume. -/

def samplePath : CString := [0x2f, 0x44]

def sampleFile : CString := [0x2f, 0x44, 0x2f, 0x41]

def sampleVolume : Volume := formatted (smallBpb 8)

def sampleDirectory : Volume :=
  sampleVolume.after (fatMkdir sampleVolume samplePath)

def sampleStored : Volume :=
  sampleDirectory.after
    (fatWriteFile sampleDirectory .unset sampleFile (fun _ => 7) 600)

theorem sampleVolume_wellFormed : WellFormed sampleVolume :=
  formatted_wellFormed (smallBpb_geometry (by decide) (by decide))

theorem sampleDirectory_step :
    FatStep sampleVolume (.unset, .mkdir samplePath) sampleDirectory where
  result := Volume.after_eq (by decide +kernel)
  ascii := by
    change Ascii samplePath
    decide +kernel
  inRange := trivial
  lookup := not_lookupFull sampleVolume_wellFormed blankDisk_sound
    (by decide +kernel)
  notDirectory := False.elim

theorem sampleStored_step :
    FatStep sampleDirectory
      (.unset, .writeFile sampleFile (fun _ => 7) 600) sampleStored where
  result := Volume.after_eq (by decide +kernel)
  ascii := by
    change Ascii sampleFile
    decide +kernel
  inRange := trivial
  lookup :=
    have kept := sampleDirectory_step.wellFormed sampleVolume_wellFormed
      blankDisk_sound
    not_lookupFull kept.1 kept.2 (by decide +kernel)
  notDirectory := by
    intro _ directory
    obtain ⟨stat, statEq, _⟩ := directory
    have missing : fatStat sampleDirectory sampleFile =
        some (.error 1) := by
      decide +kernel
    change fatStat sampleDirectory sampleFile = _ at statEq
    rw [missing] at statEq
    cases statEq

theorem sampleRun_wellFormed : WellFormed sampleStored :=
  fatRun_wellFormed sampleVolume_wellFormed blankDisk_sound
    (.cons sampleDirectory_step (.cons sampleStored_step .nil))

/-! A volume without a free cluster: `/D` holds fourteen empty files and
is full, and `/B` has the other cluster. -/

def sampleFullCalls : List FatCall :=
  .mkdir samplePath ::
    ((List.range 14).map fun index =>
      .writeFile [0x2f, 0x44, 0x2f, UInt8.ofNat (0x61 + index)]
        (fun _ => 0) 0) ++
    [.writeFile [0x2f, 0x42] (fun _ => 9) 512]

def sampleFull : Volume :=
  afterCalls (formatted (smallBpb 6)) sampleFullCalls

set_option maxRecDepth 20000 in
theorem sampleFull_wellFormed :
    WellFormed sampleFull ∧ sampleFull.disk.Sound :=
  callsOk_wellFormed sampleFullCalls
    (formatted_wellFormed (smallBpb_geometry (by decide) (by decide)))
    blankDisk_sound (by decide +kernel)

end LoafOs
