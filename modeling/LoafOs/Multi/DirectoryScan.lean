import LoafOs.Fs.FatListing
import LoafOs.Multi.OpenDirectories

/-!
# Scans of a directory that changes

A process calls `SYS_READDIR` on a handle until it returns 0, while
processes make and remove files and directories.  The handle keeps the
number of entries returned, and `fat_readdir` counts from the beginning
every time.
-/

namespace LoafOs

open Cursors

/-- The system, and the slots of the entries that the scan has returned. -/
structure Scan where
  system : DirSystem
  returned : List Nat

/-- `SYS_READDIR` on the handle, with the slot of the entry that it returns
if it does not return 0, and the other calls. -/
inductive ScanEvent where
  | next (entry : Option Nat)
  | other (q : Nat) (call : DirCall)

namespace Scan

section Steps

variable (p slot : Nat)

/-- The handle of the scan. -/
def handle (s : Scan) : DirHandle := s.system.dirs p slot

def cluster (s : Scan) : Nat := (s.handle p slot).cluster

/-- These are the entries that are listed in the directory now. -/
def Listing (s : Scan) (entries : List Nat) : Prop :=
  ∃ slots, DirSlots s.system.volume (s.cluster p slot) slots ∧
    entries = listedIn s.system.volume (s.cluster p slot) slots

/-- The entry is in the directory. -/
def Present (s : Scan) (entry : Nat) : Prop :=
  ∃ entries, s.Listing p slot entries ∧ entry ∈ entries

/-- The process asks for the next entry, or closes the handle. -/
def OnHandle (q : Nat) (call : DirCall) : Prop :=
  q = p ∧ (call = .readdir slot ∨ call = .closedir slot)

inductive Step : Scan → ScanEvent → Scan → Prop
  | next {s : Scan} {system : DirSystem} {entries : List Nat} {entry : Nat}
      (done : s.system.sysReaddir p slot = some system)
      (listing : s.Listing p slot entries)
      (here : entries[(s.handle p slot).index.toNat]? = some entry) :
      Step s (.next (some entry)) ⟨system, s.returned ++ [entry]⟩
  | ended {s : Scan} {system : DirSystem} {entries : List Nat}
      (done : s.system.sysReaddir p slot = some system)
      (listing : s.Listing p slot entries)
      (exhausted : entries[(s.handle p slot).index.toNat]? = none) :
      Step s (.next none) ⟨system, s.returned⟩
  | other {s : Scan} {system : DirSystem} {q : Nat} {call : DirCall}
      (done : s.system.run q call = some system)
      (elsewhere : ¬ OnHandle p slot q call) :
      Step s (.other q call) ⟨system, s.returned⟩

/-- Every entry that is in the directory all the time is returned exactly
once. -/
def EachOnce (s s' : Scan) (events : List ScanEvent) : Prop :=
  ∀ entry, s.Present p slot entry →
    Runs.Run (fun before event after =>
      Step p slot before event after ∧ after.Present p slot entry)
      s events s' →
    s'.returned.count entry = 1

/-! ## The condition on a call -/

/-- A new name under the path gets no slot before an entry that has been
returned. -/
def CreatesBehind (s : Scan) (path : CString) : Prop :=
  ∀ slots entry,
    DirSlots s.system.volume (s.cluster p slot) slots →
    Creates s.system.volume path slots entry →
    s.returned.length ≤ (before
      (listedAt s.system.volume (s.cluster p slot)) entry slots).length

/-- A call that can store what it stores, removes no entry that has been
returned nor the directory itself, and makes none before those returned. -/
def Keeps (s : Scan) : ScanEvent → Prop
  | .next _ => True
  | .other q call =>
      match call with
      | .mkdir path =>
          Nameable path ∧
            (s.system.volume.free ≠ [] → s.CreatesBehind p slot path)
      | .rmdir path => ∀ entry, Removes s.system.volume path entry →
          direntFirst s.system.volume.mem entry ≠ s.cluster p slot ∧
            entry ∉ s.returned
      | .unlink path => ∀ entry, Deletes s.system.volume path entry →
          entry ∉ s.returned
      | .open _ path writable => writable = true →
          (Machine.allocFd (s.system.fds q)).isSome →
          (freeHandle s.system.files.openFiles).isSome →
            CanStore s.system.volume path 0 ∧ s.CreatesBehind p slot path
      | .write fd _ _ len => ∀ idx f, s.system.fileOf q fd = some idx →
          s.system.files.handle idx = some f → f.writable = true →
          len.toNat ≠ 0 →
            CanStore s.system.volume f.path
                (f.offset.toNat + len.toNat) ∧
              s.CreatesBehind p slot f.path
      | _ => True

/-- The invariant: the handle is in use, counts the returned entries, and
these are the first ones in the directory. -/
structure Ok (s : Scan) : Prop where
  wellFormed : WellFormed s.system.volume
  sound : s.system.volume.disk.Sound
  bounded : slot < maxDirsPerProc
  inUse : (s.handle p slot).inUse = true
  count : (s.handle p slot).index.toNat = s.returned.length
  inFront : ∃ entries, s.Listing p slot entries ∧
    InFront ⟨entries, s.returned⟩

end Steps

variable {p slot q : Nat} {s s' : Scan} {system : DirSystem}
  {call : DirCall} {entries : List Nat}

/-! ## The handle -/

theorem setHandle_other {t : DirSystem} {found : Nat} {handle : DirHandle}
    (other : q = p → found ≠ slot) :
    (t.setHandle q found handle).dirs p slot = t.dirs p slot := by
  rw [DirSystem.setHandle]
  by_cases owner : p = q
  · subst owner
    simp only [Function.update_self]
    exact Function.update_of_ne (other rfl).symm _ _
  · simp only [Function.update_of_ne owner]

/-- The other calls leave the handle alone. -/
theorem run_handle {t : DirSystem} (done : t.run q call = some system)
    (inUse : (t.dirs p slot).inUse = true)
    (elsewhere : ¬ OnHandle p slot q call) :
    system.dirs p slot = t.dirs p slot := by
  cases call with
  | opendir path =>
      rcases DirSystem.sysOpendir_cases done with
        rfl | ⟨found, cluster, free, _, rfl⟩
      · rfl
      · have unused : (t.dirs q found).inUse = false := by
          simpa using List.find?_some free
        refine setHandle_other fun owner same => ?_
        rw [owner, same, inUse] at unused
        cases unused
  | readdir dirfd =>
      rcases DirSystem.sysReaddir_cases done with rfl | ⟨found, isSlot, rfl⟩
      · rfl
      · refine setHandle_other fun owner same => elsewhere ⟨owner, ?_⟩
        rw [(DirSystem.slotOf_some isSlot).1, same]
        exact .inl rfl
  | closedir dirfd =>
      rw [← Option.some.inj done]
      rcases @DirSystem.sysClosedir_cases t q dirfd with
        same | ⟨found, isSlot, closed⟩
      · rw [same]
      · rw [closed]
        refine setHandle_other fun owner same => elsewhere ⟨owner, ?_⟩
        rw [(DirSystem.slotOf_some isSlot).1, same]
        exact .inr rfl
  | mkdir path =>
      obtain ⟨result, _, same⟩ := Option.map_eq_some_iff.mp done
      rw [← same]
      rfl
  | rmdir path =>
      obtain ⟨result, _, same⟩ := Option.map_eq_some_iff.mp done
      rw [← same]
      rfl
  | unlink path =>
      obtain ⟨result, _, same⟩ := Option.map_eq_some_iff.mp done
      rw [← same]
      rfl
  | «open» stack path writable =>
      rw [DirSystem.run, DirSystem.sysOpen] at done
      split at done
      case h_1 => exact Option.some.inj done ▸ rfl
      case h_2 =>
        obtain ⟨⟨idx, files⟩, _, done⟩ := Option.bind_eq_some_iff.mp done
        simp only [Option.pure_def] at done
        split at done <;> exact Option.some.inj done ▸ rfl
  | write fd stack data len =>
      rw [(DirSystem.sysWrite_volume done).1]

/-! ## One step -/

/-- The volume changes, and what has been returned stays in front. -/
theorem Ok.edited {creates : List Nat → Nat → Prop} {removes : Nat → Prop}
    (ok : s.Ok p slot)
    (same : system.dirs p slot = s.system.dirs p slot)
    (wellFormed : WellFormed system.volume)
    (sound : system.volume.disk.Sound)
    (edit : ∀ slots, DirSlots s.system.volume (s.cluster p slot) slots →
      SlotsEdit s.system.volume (s.cluster p slot) slots (creates slots)
        removes system.volume)
    (later : ∀ slots entry,
      DirSlots s.system.volume (s.cluster p slot) slots →
      creates slots entry → s.returned.length ≤ (before
        (listedAt s.system.volume (s.cluster p slot)) entry slots).length)
    (outside : ∀ entry, removes entry → entry ∉ s.returned) :
    Ok p slot ⟨system, s.returned⟩ := by
  obtain ⟨entries, ⟨slots, dirSlots, rfl⟩, inFront⟩ := ok.inFront
  obtain ⟨slots', dirSlots', inFront'⟩ :=
    (edit slots dirSlots).inFront inFront
      (fun entry => later slots entry dirSlots) outside
  have isHandle : handle p slot ⟨system, s.returned⟩ = s.handle p slot :=
    same
  have isCluster : cluster p slot ⟨system, s.returned⟩ =
      s.cluster p slot := congrArg DirHandle.cluster same
  refine ⟨wellFormed, sound, ok.bounded, ?_, ?_,
    listedIn system.volume (s.cluster p slot) slots', ⟨slots', ?_, ?_⟩, ?_⟩
  · rw [isHandle]
    exact ok.inUse
  · rw [isHandle]
    exact ok.count
  · rw [isCluster]
    exact dirSlots'
  · rw [isCluster]
  · exact @InFront.step _ _ _ (.change _) inFront inFront' .change

theorem Ok.unchanged (ok : s.Ok p slot)
    (same : system.dirs p slot = s.system.dirs p slot)
    (volume : system.volume = s.system.volume) :
    Ok p slot ⟨system, s.returned⟩ := by
  refine @Ok.edited _ _ _ _ (fun _ _ => False) (fun _ => False) ok same ?_ ?_
    (fun slots dirSlots => ?_) (fun _ _ _ impossible => impossible.elim)
    (fun _ impossible => impossible.elim)
  · rw [volume]
    exact ok.wellFormed
  · rw [volume]
    exact ok.sound
  · rw [volume]
    exact .unchanged dirSlots

theorem Ok.mkdir (ok : s.Ok p slot) {path : CString}
    (done : s.system.run q (.mkdir path) = some system)
    (same : system.dirs p slot = s.system.dirs p slot)
    (nameable : Nameable path)
    (behind : s.system.volume.free ≠ [] → s.CreatesBehind p slot path) :
    Ok p slot ⟨system, s.returned⟩ := by
  obtain ⟨code, volume', result, wellFormed, sound, _⟩ :=
    fatMkdir_kept ok.wellFormed ok.sound nameable
  rw [DirSystem.run, result] at done
  cases done
  exact @Ok.edited _ _ _ _ _ (fun _ => False) ok same wellFormed sound
    (fun slots dirSlots =>
      fatMkdir_edit ok.wellFormed ok.sound nameable result dirSlots)
    (fun slots entry dirSlots creates =>
      behind creates.2 slots entry dirSlots creates.1)
    (fun _ impossible => impossible.elim)

theorem Ok.rmdir (ok : s.Ok p slot) {path : CString}
    (done : s.system.run q (.rmdir path) = some system)
    (same : system.dirs p slot = s.system.dirs p slot)
    (keeps : ∀ entry, Removes s.system.volume path entry →
      direntFirst s.system.volume.mem entry ≠ s.cluster p slot ∧
        entry ∉ s.returned) :
    Ok p slot ⟨system, s.returned⟩ := by
  obtain ⟨code, volume', result, wellFormed, sound, _⟩ :=
    fatRmdir_kept ok.wellFormed ok.sound path
  rw [DirSystem.run, result] at done
  cases done
  exact @Ok.edited _ _ _ _ (fun _ _ => False) _ ok same wellFormed sound
    (fun slots dirSlots =>
      fatRmdir_edit ok.wellFormed ok.sound result
        (fun entry removes => (keeps entry removes).1) dirSlots)
    (fun _ _ _ impossible => impossible.elim)
    (fun entry removes => (keeps entry removes).2)

theorem Ok.unlink (ok : s.Ok p slot) {path : CString}
    (done : s.system.run q (.unlink path) = some system)
    (same : system.dirs p slot = s.system.dirs p slot)
    (keeps : ∀ entry, Deletes s.system.volume path entry →
      entry ∉ s.returned) :
    Ok p slot ⟨system, s.returned⟩ := by
  obtain ⟨⟨code, volume'⟩, result, isSystem⟩ :=
    Option.map_eq_some_iff.mp done
  obtain ⟨wellFormed, sound⟩ :=
    fatDeleteFile_wellFormed_any ok.wellFormed ok.sound result
  subst isSystem
  exact @Ok.edited _ _ _ _ (fun _ _ => False) _ ok same wellFormed sound
    (fun slots dirSlots =>
      fatDeleteFile_edit ok.wellFormed ok.sound result dirSlots)
    (fun _ _ _ impossible => impossible.elim) keeps

theorem Ok.open (ok : s.Ok p slot) {stack : DirSlot} {path : CString}
    {writable : Bool}
    (done : s.system.run q (.open stack path writable) = some system)
    (same : system.dirs p slot = s.system.dirs p slot)
    (keeps : writable = true →
      (Machine.allocFd (s.system.fds q)).isSome →
      (freeHandle s.system.files.openFiles).isSome →
        CanStore s.system.volume path 0 ∧ s.CreatesBehind p slot path) :
    Ok p slot ⟨system, s.returned⟩ := by
  obtain ⟨_, unchanged | ⟨isWritable, free, room, code, result⟩⟩ :=
    DirSystem.sysOpen_volume ok.wellFormed ok.sound done
  · exact ok.unchanged same unchanged
  · obtain ⟨can, behind⟩ := keeps isWritable free room
    obtain ⟨wellFormed, sound, _⟩ :=
      can.fatWriteFile ok.wellFormed ok.sound result
    exact @Ok.edited _ _ _ _ _ (fun _ => False) ok same wellFormed sound
      (fun slots dirSlots =>
        fatWriteFile_edit can ok.wellFormed ok.sound result dirSlots)
      behind (fun _ impossible => impossible.elim)

theorem Ok.write (ok : s.Ok p slot) {fd : Int} {stack : DirSlot}
    {data : Bytes} {len : UInt32}
    (done : s.system.run q (.write fd stack data len) = some system)
    (same : system.dirs p slot = s.system.dirs p slot)
    (keeps : ∀ idx f, s.system.fileOf q fd = some idx →
      s.system.files.handle idx = some f → f.writable = true →
      len.toNat ≠ 0 →
        CanStore s.system.volume f.path (f.offset.toNat + len.toNat) ∧
          s.CreatesBehind p slot f.path) :
    Ok p slot ⟨system, s.returned⟩ := by
  obtain ⟨_, unchanged |
      ⟨idx, f, code, isFile, found, writable, some, stored⟩⟩ :=
    DirSystem.sysWrite_volume done
  · exact ok.unchanged same unchanged
  · obtain ⟨can, behind⟩ := keeps idx f isFile found writable some
    have positive := Nat.one_le_iff_ne_zero.mpr some
    obtain ⟨wellFormed, sound, _⟩ :=
      can.fatWriteAt positive ok.wellFormed ok.sound stored
    exact @Ok.edited _ _ _ _ _ (fun _ => False) ok same wellFormed sound
      (fun slots dirSlots =>
        fatWriteAt_edit can positive ok.wellFormed ok.sound stored dirSlots)
      behind (fun _ impossible => impossible.elim)

/-- The listing of a directory is unique. -/
theorem Listing.unique {left right : List Nat}
    (first : s.Listing p slot left) (second : s.Listing p slot right) :
    left = right := by
  obtain ⟨slots, dirSlots, rfl⟩ := first
  obtain ⟨slots', dirSlots', rfl⟩ := second
  rw [dirSlots.unique dirSlots']

theorem root_listing (isRoot : s.cluster p slot = 0)
    (isListing : listedIn s.system.volume 0 (rootSlots s.system.volume.bpb) =
      entries) : s.Listing p slot entries := by
  refine ⟨rootSlots s.system.volume.bpb, ?_, ?_⟩
  · rw [isRoot]
    exact .root
  · rw [isRoot, isListing]

/-- What `SYS_READDIR` does with a handle in use. -/
theorem Listing.readdir (wellFormed : WellFormed s.system.volume)
    (sound : s.system.volume.disk.Sound) (bounded : slot < maxDirsPerProc)
    (inUse : (s.system.dirs p slot).inUse = true)
    (listing : s.Listing p slot entries) :
    s.system.sysReaddir p slot =
      some (match entries[(s.handle p slot).index.toNat]? with
        | some _ => s.system.setHandle p slot
            { s.handle p slot with index := (s.handle p slot).index + 1 }
        | none => s.system) := by
  obtain ⟨slots, dirSlots, rfl⟩ := listing
  have isSlot : s.system.slotOf p slot = some slot := by
    rw [DirSystem.slotOf, if_neg (by omega), Int.toNat_natCast,
      if_pos inUse]
  have lists := fatReaddir_eq wellFormed.readable sound dirSlots
    (s.handle p slot).index.toNat
  rw [DirSystem.sysReaddir, isSlot]
  simp only [Option.bind_eq_bind, Option.pure_def]
  rw [handle, cluster, handle] at lists
  rw [lists, handle, cluster, handle]
  cases (listedIn s.system.volume (s.system.dirs p slot).cluster
      slots)[(s.system.dirs p slot).index.toNat]? with
  | none => rfl
  | some entry => rfl

theorem Ok.readdir (ok : s.Ok p slot) (listing : s.Listing p slot entries) :
    s.system.sysReaddir p slot =
      some (match entries[(s.handle p slot).index.toNat]? with
        | some _ => s.system.setHandle p slot
            { s.handle p slot with index := (s.handle p slot).index + 1 }
        | none => s.system) :=
  listing.readdir ok.wellFormed ok.sound ok.bounded ok.inUse

theorem Ok.next (ok : s.Ok p slot) {entry : Nat}
    (listing : s.Listing p slot entries)
    (here : entries[(s.handle p slot).index.toNat]? = some entry)
    (done : s.system.sysReaddir p slot = some system) :
    Ok p slot ⟨system, s.returned ++ [entry]⟩ := by
  have result := ok.readdir listing
  rw [here, done] at result
  have result := Option.some.inj result
  obtain ⟨entries', listing', inFront⟩ := ok.inFront
  have same := listing'.unique listing
  subst same
  obtain ⟨slots, dirSlots, isListing⟩ := listing
  have few := dirSlots.length_lt ok.wellFormed.geometry
  have bound : (s.handle p slot).index.toNat < slots.length := by
    have inside := (List.getElem?_eq_some_iff.mp here).1
    have shorter := List.length_filter_le
      (listedAt s.system.volume (s.cluster p slot)) slots
    rw [isListing, listedIn_eq] at inside
    omega
  have isHandle : handle p slot ⟨system, s.returned ++ [entry]⟩ =
      { s.handle p slot with index := (s.handle p slot).index + 1 } := by
    rw [handle, result, DirSystem.setHandle]
    simp only [Function.update_self]
  have isVolume : system.volume = s.system.volume := by
    rw [result]
    rfl
  refine ⟨?_, ?_, ok.bounded, ?_, ?_, entries', ⟨slots, ?_, ?_⟩, ?_⟩
  · rw [isVolume]
    exact ok.wellFormed
  · rw [isVolume]
    exact ok.sound
  · rw [isHandle]
    exact ok.inUse
  · have one : (1 : UInt32).toNat = 1 := rfl
    rw [isHandle, UInt32.toNat_add, one, List.length_append,
      List.length_singleton, ok.count]
    have count := ok.count
    omega
  · rw [cluster, isHandle, isVolume]
    exact dirSlots
  · rw [cluster, isHandle, isVolume]
    exact isListing
  · rw [ok.count] at here
    exact @InFront.step _ _ _ (.next _) inFront trivial (.next here)

/-- One step of a scan that keeps what has been returned. -/
theorem Step.ok {event : ScanEvent} (step : Step p slot s event s')
    (keeps : s.Keeps p slot event) (ok : s.Ok p slot) : s'.Ok p slot := by
  cases step with
  | next done listing here => exact ok.next listing here done
  | ended done listing exhausted =>
      have result := ok.readdir listing
      rw [exhausted, done] at result
      rw [Option.some.inj result]
      exact ok
  | @other system q call done elsewhere =>
      have same := run_handle done ok.inUse elsewhere
      cases call with
      | opendir path =>
          refine ok.unchanged same ?_
          rcases DirSystem.sysOpendir_cases done with
            rfl | ⟨found, cluster, _, _, rfl⟩ <;> rfl
      | readdir dirfd =>
          refine ok.unchanged same ?_
          rcases DirSystem.sysReaddir_cases done with
            rfl | ⟨found, _, rfl⟩ <;> rfl
      | closedir dirfd =>
          refine ok.unchanged same ?_
          rw [← Option.some.inj done]
          rcases @DirSystem.sysClosedir_cases s.system q dirfd with
            unchanged | ⟨found, _, closed⟩
          · rw [unchanged]
          · rw [closed]
            rfl
      | mkdir path => exact ok.mkdir done same keeps.1 keeps.2
      | rmdir path => exact ok.rmdir done same keeps
      | «open» stack path writable => exact ok.open done same keeps
      | write fd stack data len => exact ok.write done same keeps
      | unlink path => exact ok.unlink done same keeps

/-- When `SYS_READDIR` returns 0, the entries in the directory are those that
have been returned. -/
theorem Ok.complete (ok : s.Ok p slot) (listing : s.Listing p slot entries)
    (exhausted : entries[(s.handle p slot).index.toNat]? = none) :
    s.returned = entries := by
  obtain ⟨entries', listing', inFront⟩ := ok.inFront
  have same := listing'.unique listing
  subst same
  rw [ok.count] at exhausted
  exact inFront.ended exhausted

theorem Listing.nodup (listing : s.Listing p slot entries) :
    entries.Nodup := by
  obtain ⟨slots, dirSlots, rfl⟩ := listing
  exact dirSlots.nodup.filter _

end Scan

open Scan in
/-- In every scan to the end in which no call removes an entry that has been
returned or makes one before it, every entry that is in the directory all
the time is returned exactly once. -/
theorem directoryScan_run {p slot : Nat} {s s' s'' : Scan}
    {events : List ScanEvent} (start : s.Ok p slot)
    (run : Runs.Run (fun before event after =>
      Step p slot before event after ∧ before.Keeps p slot event)
      s events s')
    (ended : Step p slot s' (.next none) s'') :
    EachOnce p slot s s' events := by
  have ok : s'.Ok p slot :=
    run.invariant (Scan.Ok p slot)
      (fun _ _ _ ok step => step.1.ok step.2 ok) start
  intro entry present throughout
  have still : s'.Present p slot entry :=
    throughout.invariant (Scan.Present p slot · entry)
      (fun _ _ _ _ step => step.2) present
  cases ended with
  | ended done listing exhausted =>
      have complete := ok.complete listing exhausted
      obtain ⟨entries, listing', member⟩ := still
      rw [listing'.unique listing, ← complete] at member
      have nodup := listing.nodup
      rw [← complete] at nodup
      exact List.count_eq_one_of_mem nodup member

/-! The files `/A` and `/B` in the root directory, and a handle on it.  After
one `SYS_READDIR`, another process removes one of the files. -/

namespace Scan

def sampleFileA : CString := [0x2f, 0x41]

def sampleFileB : CString := [0x2f, 0x42]

def sampleFiles : List FatCall :=
  [.writeFile sampleFileA (fun _ => 1) 1,
    .writeFile sampleFileB (fun _ => 2) 1]

def sampleVolumeAB : Volume := afterCalls sampleVolume sampleFiles

def sampleScan : Scan where
  system := (sampleUnopened.setVolume sampleVolumeAB).setHandle 1 0
    ⟨0, 0, true⟩
  returned := []

def sampleScanned : Scan where
  system := sampleScan.system.setHandle 1 0 ⟨0, 1, true⟩
  returned := [1536]

def sampleUnlinked (path : CString) : Scan where
  system := sampleScanned.system.setVolume
    (sampleVolumeAB.after (fatDeleteFile sampleVolumeAB path))
  returned := [1536]

theorem sampleVolumeAB_wellFormed :
    WellFormed sampleVolumeAB ∧ sampleVolumeAB.disk.Sound :=
  callsOk_wellFormed sampleFiles sampleVolume_wellFormed blankDisk_sound
    (by decide +kernel)

theorem sampleScan_listing : sampleScan.Listing 1 0 [1536, 1568] :=
  root_listing rfl (by decide +kernel)

theorem sampleScanned_listing : sampleScanned.Listing 1 0 [1536, 1568] :=
  root_listing rfl (by decide +kernel)

theorem sampleScan_ok : sampleScan.Ok 1 0 where
  wellFormed := sampleVolumeAB_wellFormed.1
  sound := sampleVolumeAB_wellFormed.2
  bounded := by decide
  inUse := rfl
  count := rfl
  inFront := ⟨_, sampleScan_listing, List.nil_prefix⟩

theorem sampleScan_next :
    Step 1 0 sampleScan (.next (some 1536)) sampleScanned := by
  have result : sampleScan.system.sysReaddir 1 0 =
      some sampleScanned.system := sampleScan_ok.readdir sampleScan_listing
  exact .next result sampleScan_listing rfl

theorem sampleScanned_ok : sampleScanned.Ok 1 0 :=
  sampleScan_next.ok trivial sampleScan_ok

theorem sampleUnlinked_wellFormed {path : CString}
    (code : (fatDeleteFile sampleVolumeAB path).map Prod.fst = some 0) :
    WellFormed (sampleUnlinked path).system.volume ∧
      (sampleUnlinked path).system.volume.disk.Sound := by
  have result := @Volume.after_eq sampleVolumeAB _ _ code
  exact fatDeleteFile_wellFormed_any sampleVolumeAB_wellFormed.1
    sampleVolumeAB_wellFormed.2 result

theorem sampleUnlinked_step {path : CString}
    (code : (fatDeleteFile sampleVolumeAB path).map Prod.fst = some 0) :
    Step 1 0 sampleScanned (.other 2 (.unlink path))
      (sampleUnlinked path) := by
  have result : fatDeleteFile sampleScanned.system.volume path =
      some (0, sampleVolumeAB.after (fatDeleteFile sampleVolumeAB path)) :=
    Volume.after_eq code
  have done : sampleScanned.system.run 2 (.unlink path) =
      some (sampleUnlinked path).system := by
    rw [DirSystem.run, result]
    rfl
  exact .other done fun onHandle => absurd onHandle.1 (by decide)

end Scan

open Scan in
/-- The file `/B` is removed before it is returned. -/
theorem sampleScan_eachOnce :
    sampleScanned.Present 1 0 1536 ∧
      EachOnce 1 0 sampleScan (sampleUnlinked sampleFileB)
        [.next (some 1536), .other 2 (.unlink sampleFileB)] := by
  have keeps : sampleScanned.Keeps 1 0 (.other 2 (.unlink sampleFileB)) := by
    intro entry deletes returned
    have stat := deletes.1.fatStat_eq sampleVolumeAB_wellFormed.1.readable
      sampleVolumeAB_wellFormed.2
    rw [List.mem_singleton.mp returned] at stat
    exact absurd stat (by decide +kernel)
  have removed : Step 1 0 sampleScanned (.other 2 (.unlink sampleFileB))
      (sampleUnlinked sampleFileB) :=
    sampleUnlinked_step (by decide +kernel)
  have left : (sampleUnlinked sampleFileB).Listing 1 0 [1536] :=
    root_listing rfl (by decide +kernel)
  have done := (removed.ok keeps sampleScanned_ok).readdir left
  exact ⟨⟨_, sampleScanned_listing, by decide⟩,
    directoryScan_run sampleScan_ok
      (.cons ⟨sampleScan_next, trivial⟩ (.cons ⟨removed, keeps⟩ .nil))
      (.ended done left rfl)⟩

open Scan in
/-- The file `/A` is removed after it has been returned, and `/B` is never
returned. -/
theorem sampleScan_skips :
    sampleScan.Ok 1 0 ∧ sampleScan.returned = [] ∧
      Step 1 0 sampleScan (.next (some 1536)) sampleScanned ∧
      (fatDeleteFile sampleVolumeAB sampleFileA).map Prod.fst = some 0 ∧
      Step 1 0 sampleScanned (.other 2 (.unlink sampleFileA))
        (sampleUnlinked sampleFileA) ∧
      Step 1 0 (sampleUnlinked sampleFileA) (.next none)
        (sampleUnlinked sampleFileA) ∧
      ¬ EachOnce 1 0 sampleScan (sampleUnlinked sampleFileA)
        [.next (some 1536), .other 2 (.unlink sampleFileA)] := by
  have code : (fatDeleteFile sampleVolumeAB sampleFileA).map Prod.fst =
      some 0 := by decide +kernel
  have removed := sampleUnlinked_step code
  have left : (sampleUnlinked sampleFileA).Listing 1 0 [1568] :=
    root_listing rfl (by decide +kernel)
  have ended : Step 1 0 (sampleUnlinked sampleFileA) (.next none)
      (sampleUnlinked sampleFileA) := by
    obtain ⟨wellFormed, sound⟩ := sampleUnlinked_wellFormed code
    have done : (sampleUnlinked sampleFileA).system.sysReaddir 1 0 =
        some (sampleUnlinked sampleFileA).system :=
      left.readdir wellFormed sound (by decide) rfl
    exact .ended done left rfl
  refine ⟨sampleScan_ok, rfl, sampleScan_next, code, removed, ended,
    fun each => ?_⟩
  have first : sampleScanned.Present 1 0 1568 :=
    ⟨_, sampleScanned_listing, by decide⟩
  have second : (sampleUnlinked sampleFileA).Present 1 0 1568 :=
    ⟨_, left, by decide⟩
  have missed := each 1568 ⟨_, sampleScan_listing, by decide⟩
    (.cons ⟨sampleScan_next, first⟩ (.cons ⟨removed, second⟩ .nil))
  exact absurd missed (by decide)

end LoafOs
