import LoafOs.Fs.FatAnyWrite
import LoafOs.Fs.File

/-!
# Calls that store or delete files leave directories alone

`fat_write_file`, `fat_write_at`, `fat_delete_file` and `file_open` for
writing share `dir_lookup`, but only `fat_delete_file` looks at the
attribute of what it has found.  A call whose path does not lead to a
directory keeps every directory and every other file; one that replaces a
file by a path that leads to a directory never keeps that directory.
-/

namespace LoafOs

/-- The calls that store or delete a file. -/
inductive EditCall where
  | writeFile (path : CString) (data : Bytes) (size : UInt32)
  | writeAt (path : CString) (offset : UInt32) (data : Bytes)
      (len : UInt32)
  | deleteFile (path : CString)
  | openWritable (path : CString)

namespace EditCall

def path : EditCall → CString
  | writeFile path _ _ => path
  | writeAt path _ _ _ => path
  | deleteFile path => path
  | openWritable path => path

/-- The volume that the call leaves, whatever it returns. -/
def run (fs : FileSystem) (stack : DirSlot) : EditCall → Option Volume
  | writeFile path data size =>
      (fatWriteFile fs.volume stack path data size.toNat).map Prod.snd
  | writeAt path offset data len =>
      (fatWriteAt fs.volume stack path offset.toNat data len.toNat).map
        Prod.snd
  | deleteFile path => (fatDeleteFile fs.volume path).map Prod.snd
  | openWritable path =>
      (fileOpen fs stack path true).map fun result => result.2.volume

/-- The path that a call with data replaces. -/
def replaces (fs : FileSystem) : EditCall → Option CString
  | writeFile path _ _ => some path
  | openWritable path =>
      if (freeHandle fs.openFiles).isSome then some path else none
  | _ => none

/-- The path for which the call looks up a slot to write. -/
def stores (fs : FileSystem) : EditCall → Option CString
  | writeAt path _ _ len => if len.toNat = 0 then none else some path
  | call => call.replaces fs

/-- The call does not store into a directory, and its directory is not full
on a full volume. -/
def Harmless (fs : FileSystem) (call : EditCall) : Prop :=
  ∀ path, call.stores fs = some path →
    ¬ NamesDirectory fs.volume path ∧ ¬ LookupFull fs.volume path

end EditCall

section Kept

variable {volume : Volume} {path : CString}

theorem OthersKept.refl (volume : Volume) (path : CString) :
    OthersKept volume volume path :=
  ⟨fun _ _ result _ => result, fun _ _ _ _ _ _ => rfl⟩

theorem DirectoriesKept.refl (volume : Volume) :
    DirectoriesKept volume volume :=
  fun _ _ reach _ chain =>
    ⟨reach, fun _ _ => rfl, [], by rwa [List.append_nil]⟩

/-- The beginning of a call that stores under a path: it stops without a
change, or it is aimed at a slot. -/
theorem openTarget_aimed (wellFormed : WellFormed volume)
    (sound : volume.disk.Sound)
    (notDirectory : ¬ NamesDirectory volume path)
    (lookup : ¬ LookupFull volume path) (slot : DirSlot) :
    (∃ code, openTarget volume path 4 slot true =
      some (.error code)) ∨
    (∃ cur raw slot', openTarget volume path 4 slot true =
      some (.ok (raw, cur, 2, slot', volume))) ∨
    ∃ cur raw slots entry existing opened,
      Aimed volume path cur raw slots slot opened entry existing ∧
        (∃ name, raw = toFatName name ∧ ∀ byte ∈ name, byte ∈ path) ∧
        openTarget volume path 4 slot true =
          some (.ok (raw, cur, 0, slotAt entry existing, opened)) := by
  rcases openTarget_opened wellFormed sound lookup 4 slot with
    ⟨code, _, stopped⟩ | ⟨cur, name, slot', full⟩ |
      ⟨cur, slots, name, entry, existing, opened, located, created, ok,
        _, _⟩
  · exact Or.inl ⟨code, stopped⟩
  · exact Or.inr (Or.inl ⟨cur, _, slot', full⟩)
  · obtain ⟨entry', existing', slotEq, aimed⟩ :=
      aimed_of_lookup wellFormed sound located.resolved located.dirSlots
        notDirectory created
    rw [slotEq] at ok
    exact Or.inr (Or.inr ⟨cur, toFatName name, slots, entry', existing',
      opened, aimed, ⟨name, rfl, located.bytes⟩, ok⟩)

theorem fatWriteFile_kept (wellFormed : WellFormed volume)
    (sound : volume.disk.Sound) (cString : ∀ byte ∈ path, byte ≠ 0)
    (notDirectory : ¬ NamesDirectory volume path)
    (lookup : ¬ LookupFull volume path) (slot : DirSlot) (data : Bytes)
    {size : Nat} (bound : size < 2 ^ 32) :
    ∃ code volume', fatWriteFile volume slot path data size =
        some (code, volume') ∧
      OthersKept volume volume' path ∧ DirectoriesKept volume volume' := by
  rcases openTarget_aimed wellFormed sound notDirectory lookup slot with
    ⟨code, stopped⟩ | ⟨cur, raw, slot', full⟩ |
      ⟨cur, raw, slots, entry, existing, opened, aimed,
        ⟨name, isName, bytes⟩, ok⟩
  · refine ⟨code, volume, ?_, .refl volume path, .refl volume⟩
    rw [fatWriteFile, stopped]
    rfl
  · refine ⟨2, volume, ?_, .refl volume path, .refl volume⟩
    rw [fatWriteFile_opened full]
    rfl
  · have nonzero : raw.head? ≠ some 0x00 := by
      rw [isName]
      exact toFatName_nonzero fun byte member =>
        cString byte (bytes byte member)
    obtain ⟨code, volume', touched, result, disturbed⟩ :=
      replaceFile_any aimed.isOpened aimed.regular aimed.width nonzero bound
        data
    refine ⟨code, volume', ?_, aimed.disturbed disturbed⟩
    rw [fatWriteFile_opened ok, if_neg (by decide), if_neg (by decide)]
    exact result

theorem fatWriteAt_kept (wellFormed : WellFormed volume)
    (sound : volume.disk.Sound) (cString : ∀ byte ∈ path, byte ≠ 0)
    (notDirectory : ¬ NamesDirectory volume path)
    (lookup : ¬ LookupFull volume path) (slot : DirSlot) (data : Bytes)
    (offset : Nat) {len : Nat} (positive : 1 ≤ len) :
    ∃ code volume', fatWriteAt volume slot path offset data len =
        some (code, volume') ∧
      OthersKept volume volume' path ∧ DirectoriesKept volume volume' := by
  rcases openTarget_aimed wellFormed sound notDirectory lookup slot with
    ⟨code, stopped⟩ | ⟨cur, raw, slot', full⟩ |
      ⟨cur, raw, slots, entry, existing, opened, aimed,
        ⟨name, isName, bytes⟩, ok⟩
  · refine ⟨code, volume, ?_, .refl volume path, .refl volume⟩
    rw [fatWriteAt, if_neg (by omega), stopped]
    rfl
  · refine ⟨2, volume, ?_, .refl volume path, .refl volume⟩
    rw [fatWriteAt_opened full positive]
    rfl
  · have nonzero : raw.head? ≠ some 0x00 := by
      rw [isName]
      exact toFatName_nonzero fun byte member =>
        cString byte (bytes byte member)
    obtain ⟨old, oldChain⟩ := aimed.isOpened.oldChain
    obtain ⟨code, volume', result, disturbed, _⟩ :=
      spliceFile_any aimed.isOpened aimed.regular oldChain aimed.width
        nonzero offset len data
    refine ⟨code, volume', ?_, aimed.disturbed disturbed⟩
    rw [fatWriteAt_opened ok positive, if_neg (by decide),
      if_neg (by decide)]
    exact result

theorem fatDeleteFile_kept (wellFormed : WellFormed volume)
    (sound : volume.disk.Sound) (path : CString) :
    ∃ code volume', fatDeleteFile volume path = some (code, volume') ∧
      OthersKept volume volume' path ∧ DirectoriesKept volume volume' := by
  obtain ⟨code, volume', result, outcome⟩ :=
    fatDeleteFile_outcome wellFormed sound path
  refine ⟨code, volume', result, ?_⟩
  rcases outcome with ⟨_, rfl⟩ | ⟨_, entry, regular, unlinked⟩
  · exact ⟨.refl _ path, .refl _⟩
  obtain ⟨cur, name, slots, resolved, dirSlots, found⟩ := unlinked.names
  obtain ⟨old, edited⟩ := unlinked.edited
  have isOpened : Opened volume cur (toFatName name) entry true :=
    ⟨wellFormed, sound, toFatName_head name, slots, dirSlots, found.member,
      fun _ => found, by simp⟩
  have aimed : Aimed volume path cur (toFatName name) slots .unset
      volume entry true :=
    ⟨wellFormed, sound, resolved, dirSlots, ⟨name, rfl⟩, .found found,
      isOpened, fun _ => regular⟩
  have oldChain := edited.oldChain
  have disturbed : Disturbed volume volume' (toFatName name) entry old :=
    { kept := edited.kept.mono fun address inside =>
        inside.imp_right fun inNone => inNone.mono
          fun _ member => nomatch member
      next := fun cluster notOld =>
        edited.others cluster notOld (by simp)
      low := oldChain.low
      mine := fun cluster inOld other reach different =>
        oldChain.mine wellFormed (Or.inl inOld) reach different
      regular := fun _ => regular
      entry := by
        refine Or.inr ⟨?_, Or.inl fun listed =>
          listed.2.1 unlinked.marked⟩
        rw [unlinked.marked]
        decide }
  exact aimed.disturbed disturbed

/-- A path to a directory: its chain is freed, and its entry becomes that of
a file if there is room for the data. -/
theorem fatWriteFile_directory (wellFormed : WellFormed volume)
    (sound : volume.disk.Sound) (directory : NamesDirectory volume path)
    (slot : DirSlot) (data : Bytes) {size : Nat} (bound : size < 2 ^ 32) :
    ∃ code volume', fatWriteFile volume slot path data size =
        some (code, volume') ∧ ¬ DirectoriesKept volume volume' := by
  obtain ⟨entry, ⟨cur, name, slots, resolved, dirSlots, found⟩, isDir⟩ :=
    directory
  obtain ⟨⟨name', isName, located⟩, code, slot', opened, created, _, ok⟩ :=
    openTarget_resolved wellFormed sound resolved dirSlots 4 slot
  have isOpened : Opened volume cur (toFatName name) entry true :=
    ⟨wellFormed, sound, toFatName_head name, slots, dirSlots, found.member,
      fun _ => found, by simp⟩
  have reach := isOpened.reach
  have isFound : code = 0 ∧ slot' = slotAt entry true ∧
      opened = volume := by
    cases created with
    | found other => rw [other.unique found]; exact ⟨rfl, rfl, rfl⟩
    | vacant absent _ => exact absurd found (absent entry)
    | rootFull _ absent _ => exact absurd found (absent entry)
    | noCluster _ absent _ _ => exact absurd found (absent entry)
    | grown absent _ _ _ _ _ _ _ _ => exact absurd found (absent entry)
  obtain ⟨rfl, rfl, rfl⟩ := isFound
  obtain ⟨released, old, isReleased, outcome⟩ :=
    replaceFile_eq isOpened (length_toFatName name) bound data
  have result := fatWriteFile_opened ok data size
  rw [if_neg (by decide), if_neg (by decide)] at result
  rw [← result] at outcome
  obtain ⟨clusters, chain⟩ := wellFormed.chain entry reach
  generalize fatWriteFile opened slot path data size = call at outcome
  cases outcome with
  | @stored volume' _ replaced =>
      refine ⟨0, volume', rfl, fun kept => ?_⟩
      obtain ⟨_, same, _⟩ := kept entry clusters reach isDir chain
      exact replaced.not_dir (same.isDir_iff.mpr isDir)
  | @full volume' _ _ _ fatBuf _ =>
      refine ⟨3, volume', rfl, fun kept => ?_⟩
      obtain ⟨_, _, more, chain'⟩ := kept entry clusters reach isDir chain
      cases clusters with
      | nil => exact chain.directory isDir rfl
      | cons first others =>
          have linked := chain'.linked first List.mem_cons_self
          have inOld : first ∈ old := by
            rw [(isReleased.chain reach).unique chain]
            exact List.mem_cons_self
          rw [Volume.next_congr fatBuf, isReleased.next, if_pos inOld]
            at linked
          exact absurd linked (by decide)

end Kept

/-! ## The four calls -/

section FileOpen

variable {fs : FileSystem} {path : CString}

/-- What `file_open` for writing does to the volume. -/
theorem fileOpen_volume (wellFormed : WellFormed fs.volume)
    (sound : fs.volume.disk.Sound) (stack : DirSlot) (path : CString) :
    (fileOpen fs stack path true).map (fun result => result.2.volume) =
      if (freeHandle fs.openFiles).isSome then
        (fatWriteFile fs.volume stack path scratch 0).map Prod.snd
      else some fs.volume := by
  obtain ⟨stat, statEq⟩ := fatStat_ends wellFormed sound path
  rw [fileOpen, statEq]
  cases freeHandle fs.openFiles with
  | none => simp
  | some slot =>
      cases written : fatWriteFile fs.volume stack path scratch 0 with
      | none => simp [truncateFile, written]
      | some result =>
          obtain ⟨code, volume'⟩ := result
          by_cases failed : code = 0
          · simp [truncateFile, written, failed, FileSystem.setFile]
          · simp [truncateFile, written, failed]

end FileOpen

/-- A call that is harmless comes back and keeps every directory and every
other file; a call that replaces a file and whose path leads to a
directory does not keep that directory. -/
theorem editCall_directories {fs : FileSystem}
    (wellFormed : WellFormed fs.volume) (sound : fs.volume.disk.Sound)
    (stack : DirSlot) (call : EditCall)
    (cString : ∀ byte ∈ call.path, byte ≠ 0) :
    (call.Harmless fs → ∃ volume', call.run fs stack = some volume' ∧
      OthersKept fs.volume volume' call.path ∧
      DirectoriesKept fs.volume volume') ∧
    ∀ path, call.replaces fs = some path →
      NamesDirectory fs.volume path →
        ∃ volume', call.run fs stack = some volume' ∧
          ¬ DirectoriesKept fs.volume volume' := by
  cases call with
  | writeFile path data size =>
      change ∀ byte ∈ path, byte ≠ 0 at cString
      refine ⟨fun harmless => ?_, fun other replaced directory => ?_⟩
      · obtain ⟨notDirectory, lookup⟩ := harmless path rfl
        obtain ⟨code, volume', result, kept⟩ :=
          fatWriteFile_kept wellFormed sound cString notDirectory lookup
            stack data size.toNat_lt
        exact ⟨volume', by rw [EditCall.run, result]; rfl, kept⟩
      · cases replaced
        obtain ⟨code, volume', result, lost⟩ :=
          fatWriteFile_directory wellFormed sound directory stack data
            size.toNat_lt
        exact ⟨volume', by rw [EditCall.run, result]; rfl, lost⟩
  | writeAt path offset data len =>
      change ∀ byte ∈ path, byte ≠ 0 at cString
      refine ⟨fun harmless => ?_, fun other replaced _ => ?_⟩
      · by_cases nothing : len.toNat = 0
        · refine ⟨fs.volume, ?_, .refl _ _, .refl _⟩
          rw [EditCall.run, fatWriteAt, if_pos nothing]
          rfl
        · obtain ⟨notDirectory, lookup⟩ :=
            harmless path (if_neg nothing)
          obtain ⟨code, volume', result, kept⟩ :=
            fatWriteAt_kept wellFormed sound cString notDirectory lookup
              stack data offset.toNat (Nat.one_le_iff_ne_zero.mpr nothing)
          exact ⟨volume', by rw [EditCall.run, result]; rfl, kept⟩
      · cases replaced
  | deleteFile path =>
      refine ⟨fun _ => ?_, fun other replaced _ => ?_⟩
      · obtain ⟨code, volume', result, kept⟩ :=
          fatDeleteFile_kept wellFormed sound path
        exact ⟨volume', by rw [EditCall.run, result]; rfl, kept⟩
      · cases replaced
  | openWritable path =>
      change ∀ byte ∈ path, byte ≠ 0 at cString
      have opens := fileOpen_volume wellFormed sound stack path
      refine ⟨fun harmless => ?_, fun other replaced directory => ?_⟩
      · by_cases room : (freeHandle fs.openFiles).isSome
        · obtain ⟨notDirectory, lookup⟩ := harmless path (if_pos room)
          obtain ⟨code, volume', result, kept⟩ :=
            fatWriteFile_kept wellFormed sound cString notDirectory lookup
              stack scratch (Nat.two_pow_pos 32)
          refine ⟨volume', ?_, kept⟩
          rw [EditCall.run, opens, if_pos room, result]
          rfl
        · refine ⟨fs.volume, ?_, .refl _ _, .refl _⟩
          rw [EditCall.run, opens, if_neg room]
      · rw [EditCall.replaces] at replaced
        by_cases room : (freeHandle fs.openFiles).isSome
        · rw [if_pos room, Option.some.injEq] at replaced
          subst replaced
          obtain ⟨code, volume', result, lost⟩ :=
            fatWriteFile_directory wellFormed sound directory stack scratch
              (Nat.two_pow_pos 32)
          refine ⟨volume', ?_, lost⟩
          rw [EditCall.run, opens, if_pos room, result]
          rfl
        · rw [if_neg room] at replaced
          cases replaced

/-! The sample file may be stored; the sample directory may not be written
to. -/

def sampleSystem (volume : Volume) : FileSystem where
  volume := volume
  openFiles := fun _ => ⟨false, [], 0, 0, false⟩

theorem sampleEdit_directories :
    ((EditCall.writeFile sampleFile (fun _ => 7) 600).Harmless
        (sampleSystem sampleDirectory) →
      ∃ volume', (EditCall.writeFile sampleFile (fun _ => 7) 600).run
          (sampleSystem sampleDirectory) .unset = some volume' ∧
        OthersKept sampleDirectory volume' sampleFile ∧
        DirectoriesKept sampleDirectory volume') ∧
    ∀ path, (EditCall.writeFile sampleFile (fun _ => 7) 600).replaces
        (sampleSystem sampleDirectory) = some path →
      NamesDirectory sampleDirectory path →
        ∃ volume', (EditCall.writeFile sampleFile (fun _ => 7) 600).run
            (sampleSystem sampleDirectory) .unset = some volume' ∧
          ¬ DirectoriesKept sampleDirectory volume' := by
  have cString : ∀ byte ∈ sampleFile, byte ≠ 0 := by decide +kernel
  exact editCall_directories sampleDirectory_wellFormed.1
    sampleDirectory_wellFormed.2 .unset
    (.writeFile sampleFile (fun _ => 7) 600) cString

/-- Writing one byte to `/D` turns the directory into a file, and `/D/A` is
gone. -/
theorem sampleDirectory_overwritten :
    WellFormed sampleStored ∧ sampleStored.disk.Sound ∧
      fatStat sampleStored samplePath =
        some (.ok ⟨[0x44], 0, 2, attrDirectory⟩) ∧
      fatStat sampleStored sampleFile =
        some (.ok ⟨[0x41], 600, 3, attrArchive⟩) ∧
      (fatWriteFile sampleStored .unset samplePath (fun _ => 1) 1).map
          Prod.fst = some 0 ∧
      fatStat (sampleStored.after (fatWriteFile sampleStored .unset
          samplePath (fun _ => 1) 1)) samplePath =
        some (.ok ⟨[0x44], 1, 2, attrArchive⟩) ∧
      fatStat (sampleStored.after (fatWriteFile sampleStored .unset
          samplePath (fun _ => 1) 1)) sampleFile = some (.error 1) := by
  obtain ⟨wellFormed, sound⟩ := sampleStored_step.wellFormed
    sampleDirectory_wellFormed.1 sampleDirectory_wellFormed.2
  refine ⟨wellFormed, sound, ?_⟩
  decide +kernel

end LoafOs
