import LoafOs.Fs.DirectoryCalls
import LoafOs.Multi.Machine

/-!
# Directory handles

The calls of `src/userspace/syscalls.c` on directory handles, and those that
change the tree while handles are open.  A handle keeps the number of the
first cluster of its directory, and nothing ties it to the entry.  Calls
whose pointers the kernel refuses change nothing and are left out.
-/

namespace LoafOs

/-- `dir_handle_t`. -/
structure DirHandle where
  cluster : Nat
  index : UInt32
  inUse : Bool
  deriving DecidableEq, Repr

/-- The file system, and `fds` and `dirs` of every process. -/
structure DirSystem where
  files : FileSystem
  fds : Nat → List Int
  dirs : Nat → Nat → DirHandle

/-- The calls, by any process, with the stack contents of the driver calls
as for open files. -/
inductive DirCall where
  | opendir (path : CString)
  | readdir (dirfd : Int)
  | closedir (dirfd : Int)
  | mkdir (path : CString)
  | rmdir (path : CString)
  | open (stack : DirSlot) (path : CString) (writable : Bool)
  | write (fd : Int) (stack : DirSlot) (data : Bytes) (len : UInt32)
  | unlink (path : CString)

namespace DirSystem

def volume (s : DirSystem) : Volume := s.files.volume

def setVolume (s : DirSystem) (volume : Volume) : DirSystem :=
  { s with files := { s.files with volume } }

def setHandle (s : DirSystem) (p slot : Nat) (handle : DirHandle) :
    DirSystem :=
  { s with
    dirs := Function.update s.dirs p
      (Function.update (s.dirs p) slot handle) }

/-- `alloc_dirfd`. -/
def allocDirfd (s : DirSystem) (p : Nat) : Option Nat :=
  (List.range maxDirsPerProc).find? fun slot => ¬ (s.dirs p slot).inUse

/-- The slot behind a directory descriptor of the process. -/
def slotOf (s : DirSystem) (p : Nat) (dirfd : Int) : Option Nat :=
  if dirfd < 0 ∨ (maxDirsPerProc : Int) ≤ dirfd then none
  else if (s.dirs p dirfd.toNat).inUse then some dirfd.toNat
  else none

/-- `SYS_OPENDIR`. -/
def sysOpendir (s : DirSystem) (p : Nat) (path : CString) :
    Option DirSystem :=
  match s.allocDirfd p with
  | none => some s
  | some slot => do
      match ← fatOpendir s.volume path with
      | .error _ => return s
      | .ok cluster => return s.setHandle p slot ⟨cluster, 0, true⟩

/-- `SYS_READDIR`. -/
def sysReaddir (s : DirSystem) (p : Nat) (dirfd : Int) :
    Option DirSystem :=
  match s.slotOf p dirfd with
  | none => some s
  | some slot => do
      let handle := s.dirs p slot
      match ← fatReaddir s.volume handle.cluster handle.index.toNat with
      | .error _ => return s
      | .ok _ =>
          return s.setHandle p slot { handle with index := handle.index + 1 }

/-- `SYS_CLOSEDIR`. -/
def sysClosedir (s : DirSystem) (p : Nat) (dirfd : Int) : DirSystem :=
  match s.slotOf p dirfd with
  | none => s
  | some slot =>
      s.setHandle p slot { s.dirs p slot with inUse := false }

/-- The index in `open_files` behind a descriptor of the process. -/
def fileOf (s : DirSystem) (p : Nat) (fd : Int) : Option Int :=
  if fd < 0 ∨ (maxFdsPerProc : Int) ≤ fd then none
  else if (s.fds p).getD fd.toNat (-1) = -1 then none
  else some ((s.fds p).getD fd.toNat (-1))

/-- `SYS_OPEN`. -/
def sysOpen (s : DirSystem) (p : Nat) (stack : DirSlot) (path : CString)
    (writable : Bool) : Option DirSystem :=
  match Machine.allocFd (s.fds p) with
  | none => some s
  | some fd => do
      let (idx, files) ← fileOpen s.files stack path writable
      if idx < 0 then
        return { s with files }
      return { s with
        files
        fds := Function.update s.fds p ((s.fds p).set fd idx) }

/-- `SYS_WRITE`. -/
def sysWrite (s : DirSystem) (p : Nat) (fd : Int) (stack : DirSlot)
    (data : Bytes) (len : UInt32) : Option DirSystem :=
  match s.fileOf p fd with
  | none => some s
  | some idx => do
      let (_, files) ← fileWrite s.files stack idx data len
      return { s with files }

/-- What a call by process `p` makes of the system. -/
def run (s : DirSystem) (p : Nat) : DirCall → Option DirSystem
  | .opendir path => s.sysOpendir p path
  | .readdir dirfd => s.sysReaddir p dirfd
  | .closedir dirfd => some (s.sysClosedir p dirfd)
  | .mkdir path =>
      (fatMkdir s.volume path).map fun result => s.setVolume result.2
  | .rmdir path =>
      (fatRmdir s.volume path).map fun result => s.setVolume result.2
  | .open stack path writable => s.sysOpen p stack path writable
  | .write fd stack data len => s.sysWrite p fd stack data len
  | .unlink path =>
      (fatDeleteFile s.volume path).map fun result => s.setVolume result.2

/-! ## The invariant -/

/-- The root directory, or the first cluster of a directory. -/
def OfDirectory (volume : Volume) (cluster : Nat) : Prop :=
  cluster = 0 ∨ ∃ dir, Reach volume dir ∧ IsDir volume.mem dir ∧
    direntFirst volume.mem dir = cluster

/-- The process has the directory with this first cluster open. -/
def Holds (s : DirSystem) (p cluster : Nat) : Prop :=
  ∃ slot < maxDirsPerProc, (s.dirs p slot).inUse = true ∧
    (s.dirs p slot).cluster = cluster

def HandlesOk (s : DirSystem) : Prop :=
  ∀ p cluster, s.Holds p cluster → OfDirectory s.volume cluster

structure Ok (s : DirSystem) : Prop where
  wellFormed : WellFormed s.volume
  sound : s.volume.disk.Sound
  handles : s.HandlesOk

/-! ## The condition on a call -/

/-- A call that removes no open directory and can store what it stores. -/
def Safe (s : DirSystem) (p : Nat) : DirCall → Prop
  | .mkdir path => Nameable path
  | .rmdir path => ∀ entry, Removes s.volume path entry →
      ∀ q, ¬ s.Holds q (direntFirst s.volume.mem entry)
  | .open _ path writable => writable = true →
      (Machine.allocFd (s.fds p)).isSome →
      (freeHandle s.files.openFiles).isSome → CanStore s.volume path 0
  | .write fd _ _ len => ∀ idx f, s.fileOf p fd = some idx →
      s.files.handle idx = some f → f.writable = true → len.toNat ≠ 0 →
      CanStore s.volume f.path (f.offset.toNat + len.toNat)
  | _ => True

/-- One safe call by some process. -/
structure Step (s : DirSystem) (label : Nat × DirCall) (s' : DirSystem) :
    Prop where
  safe : s.Safe label.1 label.2
  result : s.run label.1 label.2 = some s'

section Steps

variable {s s' : DirSystem} {p q slot cluster : Nat} {volume' : Volume}

theorem OfDirectory.kept {volume : Volume}
    (wellFormed : WellFormed volume)
    (kept : DirectoriesKept volume volume')
    (ok : OfDirectory volume cluster) : OfDirectory volume' cluster := by
  rcases ok with zero | ⟨dir, reach, isDir, first⟩
  · exact .inl zero
  · obtain ⟨clusters, chain⟩ := wellFormed.chain dir reach
    obtain ⟨reach', same, _⟩ := kept dir clusters reach isDir chain
    exact .inr ⟨dir, reach', same.isDir_iff.mpr isDir, same.first.trans first⟩

theorem OfDirectory.keptBut {volume : Volume} {entry : Nat}
    (kept : DirectoriesKeptBut entry volume volume')
    (ok : OfDirectory volume cluster)
    (different : cluster ≠ direntFirst volume.mem entry) :
    OfDirectory volume' cluster := by
  rcases ok with zero | ⟨dir, reach, isDir, first⟩
  · exact .inl zero
  · have other : dir ≠ entry := by
      rintro rfl
      exact different first.symm
    obtain ⟨reach', same⟩ := kept dir reach isDir other
    exact .inr ⟨dir, reach', same.isDir_iff.mpr isDir, same.first.trans first⟩

/-- Only the volume changes, and it keeps the directories. -/
theorem Ok.stored (ok : s.Ok) (dirs : s'.dirs = s.dirs)
    (wellFormed : WellFormed s'.volume) (sound : s'.volume.disk.Sound)
    (kept : DirectoriesKept s.volume s'.volume) : s'.Ok := by
  refine ⟨wellFormed, sound, fun q cluster holds => ?_⟩
  have before : s.Holds q cluster := by
    rw [Holds, dirs] at holds
    exact holds
  exact (ok.handles q cluster before).kept ok.wellFormed kept

theorem Ok.same (ok : s.Ok) (dirs : s'.dirs = s.dirs)
    (volume : s'.volume = s.volume) : s'.Ok := by
  refine ok.stored dirs ?_ ?_ ?_
  · rw [volume]
    exact ok.wellFormed
  · rw [volume]
    exact ok.sound
  · rw [volume]
    exact .refl _

theorem setHandle_holds {handle : DirHandle}
    (holds : (s.setHandle p slot handle).Holds q cluster) :
    s.Holds q cluster ∨
      handle.inUse = true ∧ handle.cluster = cluster := by
  obtain ⟨other, bounded, inUse, isCluster⟩ := holds
  by_cases owner : q = p
  · subst owner
    by_cases here : other = slot
    · subst here
      simp only [setHandle, Function.update_self] at inUse isCluster
      exact .inr ⟨inUse, isCluster⟩
    · simp only [setHandle, Function.update_self,
        Function.update_of_ne here] at inUse isCluster
      exact .inl ⟨other, bounded, inUse, isCluster⟩
  · simp only [setHandle, Function.update_of_ne owner] at inUse isCluster
    exact .inl ⟨other, bounded, inUse, isCluster⟩

/-- A handle is set to a directory, or closed. -/
theorem Ok.setHandle (ok : s.Ok) {handle : DirHandle}
    (isOk : handle.inUse = true → OfDirectory s.volume handle.cluster) :
    (s.setHandle p slot handle).Ok := by
  refine ⟨ok.wellFormed, ok.sound, fun q cluster holds => ?_⟩
  rcases setHandle_holds holds with before | ⟨inUse, isCluster⟩
  · exact ok.handles q cluster before
  · rw [← isCluster]
    exact isOk inUse

theorem slotOf_some {dirfd : Int} (found : s.slotOf p dirfd = some slot) :
    dirfd = slot ∧ slot < maxDirsPerProc ∧ (s.dirs p slot).inUse = true := by
  rw [slotOf] at found
  split at found
  case isTrue => simp at found
  case isFalse bounds =>
    split at found
    case isTrue inUse =>
      rw [← Option.some.inj found]
      exact ⟨by omega, by omega, inUse⟩
    case isFalse => simp at found

/-! ## What the calls on handles do -/

theorem sysOpendir_cases {path : CString}
    (done : s.sysOpendir p path = some s') :
    s' = s ∨ ∃ slot cluster, s.allocDirfd p = some slot ∧
      fatOpendir s.volume path = some (.ok cluster) ∧
      s' = s.setHandle p slot ⟨cluster, 0, true⟩ := by
  rw [sysOpendir] at done
  split at done
  case h_1 => exact .inl (Option.some.inj done).symm
  case h_2 slot free =>
    simp only [Option.bind_eq_bind, Option.pure_def] at done
    obtain ⟨result, opened, done⟩ := Option.bind_eq_some_iff.mp done
    cases result with
    | error code => exact .inl (Option.some.inj done).symm
    | ok cluster =>
        exact .inr ⟨slot, cluster, free, opened,
          (Option.some.inj done).symm⟩

theorem sysReaddir_cases {dirfd : Int}
    (done : s.sysReaddir p dirfd = some s') :
    s' = s ∨ ∃ slot, s.slotOf p dirfd = some slot ∧
      s' = s.setHandle p slot
        { s.dirs p slot with index := (s.dirs p slot).index + 1 } := by
  rw [sysReaddir] at done
  split at done
  case h_1 => exact .inl (Option.some.inj done).symm
  case h_2 slot found =>
    simp only [Option.bind_eq_bind, Option.pure_def] at done
    obtain ⟨result, _, done⟩ := Option.bind_eq_some_iff.mp done
    cases result with
    | error code => exact .inl (Option.some.inj done).symm
    | ok info => exact .inr ⟨slot, found, (Option.some.inj done).symm⟩

theorem sysClosedir_cases (dirfd : Int) :
    s.sysClosedir p dirfd = s ∨ ∃ slot, s.slotOf p dirfd = some slot ∧
      s.sysClosedir p dirfd =
        s.setHandle p slot { s.dirs p slot with inUse := false } := by
  rw [sysClosedir]
  split
  case h_1 => exact .inl rfl
  case h_2 slot found => exact .inr ⟨slot, found, rfl⟩

/-! ## One call -/

theorem Ok.opendir (ok : s.Ok) {path : CString}
    (done : s.sysOpendir p path = some s') : s'.Ok := by
  rcases sysOpendir_cases done with
    rfl | ⟨slot, cluster, _, opened, rfl⟩
  · exact ok
  · exact ok.setHandle fun _ =>
      fatOpendir_ok ok.wellFormed ok.sound opened

theorem Ok.readdir (ok : s.Ok) {dirfd : Int}
    (done : s.sysReaddir p dirfd = some s') : s'.Ok := by
  rcases sysReaddir_cases done with rfl | ⟨slot, found, rfl⟩
  · exact ok
  · obtain ⟨_, bounded, inUse⟩ := slotOf_some found
    exact ok.setHandle fun _ =>
      ok.handles p _ ⟨slot, bounded, inUse, rfl⟩

theorem Ok.closedir (ok : s.Ok) (dirfd : Int) :
    (s.sysClosedir p dirfd).Ok := by
  rcases @sysClosedir_cases s p dirfd with same | ⟨slot, _, closed⟩
  · rw [same]
    exact ok
  · rw [closed]
    exact ok.setHandle nofun

theorem Ok.mkdir (ok : s.Ok) {path : CString} (nameable : Nameable path)
    (done : (fatMkdir s.volume path).map
      (fun result => s.setVolume result.2) = some s') : s'.Ok := by
  obtain ⟨code, volume', result, wellFormed, sound, kept⟩ :=
    fatMkdir_kept ok.wellFormed ok.sound nameable
  rw [result] at done
  rw [← Option.some.inj done]
  exact ok.stored rfl wellFormed sound kept

theorem Ok.rmdir (ok : s.Ok) {path : CString}
    (closed : ∀ entry, Removes s.volume path entry →
      ∀ q, ¬ s.Holds q (direntFirst s.volume.mem entry))
    (done : (fatRmdir s.volume path).map
      (fun result => s.setVolume result.2) = some s') : s'.Ok := by
  obtain ⟨code, volume', result, wellFormed, sound, outcome⟩ :=
    fatRmdir_kept ok.wellFormed ok.sound path
  rw [result] at done
  rw [← Option.some.inj done]
  rcases outcome with unchanged | ⟨entry, removes, kept⟩
  · exact ok.same rfl unchanged
  · refine ⟨wellFormed, sound, fun q cluster holds => ?_⟩
    have before : s.Holds q cluster := holds
    refine (ok.handles q cluster before).keptBut kept ?_
    rintro rfl
    exact closed entry removes q before

theorem Ok.unlink (ok : s.Ok) {path : CString}
    (done : (fatDeleteFile s.volume path).map
      (fun result => s.setVolume result.2) = some s') : s'.Ok := by
  obtain ⟨code, volume', result, _, kept⟩ :=
    fatDeleteFile_kept ok.wellFormed ok.sound path
  obtain ⟨wellFormed, sound⟩ :=
    fatDeleteFile_wellFormed_any ok.wellFormed ok.sound result
  rw [result] at done
  rw [← Option.some.inj done]
  exact ok.stored rfl wellFormed sound kept

theorem fileOpen_readable {fs fs' : FileSystem} {stack : DirSlot}
    {path : CString} {idx : Int}
    (done : fileOpen fs stack path false = some (idx, fs')) :
    fs'.volume = fs.volume := by
  rw [fileOpen] at done
  simp only [Option.bind_eq_bind, Option.pure_def] at done
  obtain ⟨stat, _, done⟩ := Option.bind_eq_some_iff.mp done
  split at done
  case isTrue =>
    cases Option.some.inj done
    rfl
  case isFalse =>
    split at done
    case h_1 =>
      cases Option.some.inj done
      rfl
    case h_2 slot _ =>
      simp only [truncateFile, Bool.false_eq_true, if_false,
        Option.bind_some, ne_eq, not_true] at done
      cases Option.some.inj done
      rfl

/-- `SYS_OPEN` changes the volume only by truncating a file. -/
theorem sysOpen_volume (wellFormed : WellFormed s.volume)
    (sound : s.volume.disk.Sound) {stack : DirSlot} {path : CString}
    {writable : Bool}
    (done : s.sysOpen p stack path writable = some s') :
    s'.dirs = s.dirs ∧ (s'.volume = s.volume ∨
      writable = true ∧ (Machine.allocFd (s.fds p)).isSome ∧
        (freeHandle s.files.openFiles).isSome ∧ ∃ code,
          fatWriteFile s.volume stack path scratch 0 =
            some (code, s'.volume)) := by
  rw [sysOpen] at done
  split at done
  case h_1 => exact Option.some.inj done ▸ ⟨rfl, .inl rfl⟩
  case h_2 fd free =>
    simp only [Option.bind_eq_bind, Option.pure_def] at done
    obtain ⟨⟨idx, files⟩, opened, done⟩ := Option.bind_eq_some_iff.mp done
    have dirs : s'.dirs = s.dirs := by
      split at done <;> exact Option.some.inj done ▸ rfl
    have volume : s'.volume = files.volume := by
      split at done <;> exact Option.some.inj done ▸ rfl
    refine ⟨dirs, ?_⟩
    cases writable with
    | false => exact .inl (volume.trans (fileOpen_readable opened))
    | true =>
        have stored := fileOpen_volume wellFormed sound stack path
        rw [opened] at stored
        split at stored
        case isTrue room =>
          obtain ⟨⟨code, volume'⟩, result, same⟩ :=
            Option.map_eq_some_iff.mp stored.symm
          have final : s'.volume = volume' := volume.trans same.symm
          refine .inr ⟨rfl, by rw [free]; rfl, room, code, ?_⟩
          rw [final]
          exact result
        case isFalse => exact .inl (volume.trans (Option.some.inj stored))

/-- `SYS_WRITE` changes the volume only by storing in a file. -/
theorem sysWrite_volume {fd : Int} {stack : DirSlot} {data : Bytes}
    {len : UInt32} (done : s.sysWrite p fd stack data len = some s') :
    s'.dirs = s.dirs ∧ (s'.volume = s.volume ∨
      ∃ idx f code, s.fileOf p fd = some idx ∧
        s.files.handle idx = some f ∧ f.writable = true ∧
        len.toNat ≠ 0 ∧
        fatWriteAt s.volume stack f.path f.offset.toNat data len.toNat =
          some (code, s'.volume)) := by
  rw [sysWrite] at done
  split at done
  case h_1 => exact Option.some.inj done ▸ ⟨rfl, .inl rfl⟩
  case h_2 idx isFile =>
    simp only [Option.bind_eq_bind, Option.pure_def] at done
    obtain ⟨⟨result, files⟩, written, done⟩ :=
      Option.bind_eq_some_iff.mp done
    have volume : s'.volume = files.volume := Option.some.inj done ▸ rfl
    refine ⟨Option.some.inj done ▸ rfl, ?_⟩
    rw [fileWrite] at written
    simp only [Option.bind_eq_bind, Option.pure_def] at written
    split at written
    case h_1 =>
      cases Option.some.inj written
      exact .inl volume
    case h_2 f found =>
      split at written
      case isTrue =>
        cases Option.some.inj written
        exact .inl volume
      case isFalse writable =>
        obtain ⟨⟨code, volume'⟩, stored, written⟩ :=
          Option.bind_eq_some_iff.mp written
        have final : s'.volume = volume' := by
          rw [volume]
          split at written <;> cases Option.some.inj written <;> rfl
        by_cases nothing : len.toNat = 0
        · rw [fatWriteAt, if_pos nothing] at stored
          cases Option.some.inj stored
          exact .inl final
        · refine .inr ⟨idx, f, code, isFile, found, by simpa using writable,
            nothing, ?_⟩
          rw [final]
          exact stored

theorem Ok.open (ok : s.Ok) {stack : DirSlot} {path : CString}
    {writable : Bool} (safe : s.Safe p (.open stack path writable))
    (done : s.sysOpen p stack path writable = some s') : s'.Ok := by
  obtain ⟨dirs, unchanged | ⟨isWritable, free, room, code, result⟩⟩ :=
    sysOpen_volume ok.wellFormed ok.sound done
  · exact ok.same dirs unchanged
  · obtain ⟨wellFormed, sound, kept⟩ :=
      (safe isWritable free room).fatWriteFile ok.wellFormed ok.sound result
    exact ok.stored dirs wellFormed sound kept

theorem Ok.write (ok : s.Ok) {fd : Int} {stack : DirSlot} {data : Bytes}
    {len : UInt32} (safe : s.Safe p (.write fd stack data len))
    (done : s.sysWrite p fd stack data len = some s') : s'.Ok := by
  obtain ⟨dirs, unchanged |
      ⟨idx, f, code, isFile, found, writable, some, stored⟩⟩ :=
    sysWrite_volume done
  · exact ok.same dirs unchanged
  · obtain ⟨wellFormed, sound, kept⟩ :=
      (safe idx f isFile found writable some).fatWriteAt
        (Nat.one_le_iff_ne_zero.mpr some) ok.wellFormed ok.sound stored
    exact ok.stored dirs wellFormed sound kept

/-- One safe call keeps the volume well formed and the handles in order. -/
theorem Step.ok {label : Nat × DirCall} (step : Step s label s')
    (ok : s.Ok) : s'.Ok := by
  obtain ⟨p, call⟩ := label
  obtain ⟨safe, done⟩ := step
  cases call with
  | opendir path => exact ok.opendir done
  | readdir dirfd => exact ok.readdir done
  | closedir dirfd =>
      cases Option.some.inj done
      exact ok.closedir dirfd
  | mkdir path => exact ok.mkdir safe done
  | rmdir path => exact ok.rmdir safe done
  | «open» stack path writable => exact ok.open safe done
  | write fd stack data len => exact ok.write safe done
  | unlink path => exact ok.unlink done

/-- What `fat_readdir` walks through from a handle belongs to a directory,
and lists the entries in its slots. -/
theorem OfDirectory.listed {volume : Volume}
    (wellFormed : WellFormed volume) (sound : volume.disk.Sound)
    (ok : OfDirectory volume cluster) :
    (∀ walked, Links.OnPath volume.next ChainStop cluster walked →
      volume.next walked ≠ 0 ∧ ∀ entry, Reach volume entry →
        Owns volume entry walked → IsDir volume.mem entry) ∧
    ∃ slots, DirSlots volume cluster slots ∧ ∀ index,
      fatReaddir volume cluster index =
        some (match (listedIn volume cluster slots)[index]? with
          | some slot => .ok (direntInfo volume.mem slot)
          | none => .error 2) := by
  have readable := wellFormed.readable
  rcases ok with rfl | ⟨dir, reach, isDir, rfl⟩
  · refine ⟨fun walked onPath => ?_, _, .root,
      fatReaddir_eq readable sound .root⟩
    obtain ⟨nodes, path, member⟩ := onPath
    rw [path.eq_nil_of_stop (.inl (by decide))] at member
    cases member
  · obtain ⟨clusters, chain⟩ := wellFormed.chain dir reach
    have dirSlots := DirSlots.sub reach isDir chain
    refine ⟨fun walked owned => ?_, _, dirSlots,
      fatReaddir_eq readable sound dirSlots⟩
    have linked := chain.linked walked (chain.owns_iff.mp owned)
    refine ⟨by omega, fun entry reach' owned' => ?_⟩
    rwa [wellFormed.disjoint entry dir walked reach' reach owned' owned]

end Steps

/-- A system that has no directory open. -/
theorem Ok.unopened {s : DirSystem} (wellFormed : WellFormed s.volume)
    (sound : s.volume.disk.Sound)
    (closed : ∀ p slot, (s.dirs p slot).inUse = false) : s.Ok := by
  refine ⟨wellFormed, sound, fun p cluster holds => ?_⟩
  obtain ⟨slot, _, inUse, _⟩ := holds
  rw [closed] at inUse
  cases inUse

end DirSystem

open DirSystem in
/-- In every run of safe calls, a handle in use keeps the first cluster of a
directory, and `fat_readdir` walks through clusters of directories only and
lists the entries of that directory. -/
theorem openDirectories_run {s s' : DirSystem}
    {labels : List (Nat × DirCall)} (start : s.Ok)
    (run : Runs.Run Step s labels s') (p slot : Nat)
    (bounded : slot < maxDirsPerProc)
    (inUse : (s'.dirs p slot).inUse = true) :
    OfDirectory s'.volume (s'.dirs p slot).cluster ∧
      (∀ walked, Links.OnPath s'.volume.next ChainStop
          (s'.dirs p slot).cluster walked →
        s'.volume.next walked ≠ 0 ∧ ∀ entry, Reach s'.volume entry →
          Owns s'.volume entry walked → IsDir s'.volume.mem entry) ∧
      ∃ slots, DirSlots s'.volume (s'.dirs p slot).cluster slots ∧
        ∀ index, fatReaddir s'.volume (s'.dirs p slot).cluster index =
          some (match (listedIn s'.volume (s'.dirs p slot).cluster
              slots)[index]? with
            | some slot => .ok (direntInfo s'.volume.mem slot)
            | none => .error 2) := by
  have ok : s'.Ok :=
    run.invariant Ok (fun _ _ _ ok step => step.ok ok) start
  have isDirectory := ok.handles p _ ⟨slot, bounded, inUse, rfl⟩
  exact ⟨isDirectory, isDirectory.listed ok.wellFormed ok.sound⟩

/-! The directory `/D` is made and opened; then another process removes
it. -/

def sampleUnopened : DirSystem where
  files := sampleSystem sampleVolume
  fds := fun _ => List.replicate maxFdsPerProc (-1)
  dirs := fun _ _ => ⟨0, 0, false⟩

def sampleMade : DirSystem := sampleUnopened.setVolume sampleDirectory

def sampleOpened : DirSystem := sampleMade.setHandle 1 0 ⟨2, 0, true⟩

def sampleRemoved : DirSystem :=
  sampleOpened.setVolume
    (sampleDirectory.after (fatRmdir sampleDirectory samplePath))

theorem sampleMade_run :
    sampleUnopened.run 1 (.mkdir samplePath) = some sampleMade := by
  have result : fatMkdir sampleUnopened.volume samplePath =
      some (0, sampleDirectory) := sampleDirectory_step.result
  rw [DirSystem.run, result]
  rfl

theorem sampleOpened_run :
    sampleMade.run 1 (.opendir samplePath) = some sampleOpened := by
  have free : sampleMade.allocDirfd 1 = some 0 := by decide
  have result : fatOpendir sampleMade.volume samplePath =
      some (.ok 2) := by
    change fatOpendir sampleDirectory samplePath = some (.ok 2)
    decide +kernel
  rw [DirSystem.run, DirSystem.sysOpendir, free]
  simp only [result]
  rfl

theorem sampleRmdir_eq : fatRmdir sampleDirectory samplePath =
    some (0, sampleRemoved.volume) := by
  have result : fatRmdir sampleDirectory samplePath =
      some (0, sampleDirectory.after
        (fatRmdir sampleDirectory samplePath)) :=
    Volume.after_eq (by decide +kernel)
  exact result

theorem sampleRemoved_run :
    sampleOpened.run 2 (.rmdir samplePath) = some sampleRemoved := by
  have result : fatRmdir sampleOpened.volume samplePath =
      some (0, sampleRemoved.volume) := sampleRmdir_eq
  rw [DirSystem.run, result]
  rfl

theorem sampleUnopened_ok : sampleUnopened.Ok :=
  .unopened sampleVolume_wellFormed blankDisk_sound fun _ _ => rfl

theorem sampleOpened_directory :
    DirSystem.OfDirectory sampleOpened.volume 2 := by
  have made : DirSystem.Step sampleUnopened (1, .mkdir samplePath)
      sampleMade :=
    ⟨show Nameable samplePath by decide +kernel, sampleMade_run⟩
  have opened : DirSystem.Step sampleMade (1, .opendir samplePath)
      sampleOpened := ⟨trivial, sampleOpened_run⟩
  exact (openDirectories_run sampleUnopened_ok
    (.cons made (.cons opened .nil)) 1 0 (by decide) rfl).1

/-- The handle on `/D` stays in use after `/D` is gone, and its cluster is
free. -/
theorem sampleHandle_dangles :
    sampleUnopened.Ok ∧
      sampleUnopened.run 1 (.mkdir samplePath) = some sampleMade ∧
      sampleMade.run 1 (.opendir samplePath) = some sampleOpened ∧
      sampleOpened.run 2 (.rmdir samplePath) = some sampleRemoved ∧
      (sampleRemoved.dirs 1 0).inUse = true ∧
      (sampleRemoved.dirs 1 0).cluster = 2 ∧
      sampleRemoved.volume.next 2 = 0 ∧
      ¬ DirSystem.OfDirectory sampleRemoved.volume 2 := by
  have free : sampleRemoved.volume.next 2 = 0 := by decide +kernel
  have kept : WellFormed sampleRemoved.volume ∧
      sampleRemoved.volume.disk.Sound :=
    fatRmdir_wellFormed sampleDirectory_wellFormed.1
      sampleDirectory_wellFormed.2 sampleRmdir_eq
  refine ⟨sampleUnopened_ok, sampleMade_run, sampleOpened_run,
    sampleRemoved_run, rfl, rfl, free, fun ok => ?_⟩
  have walk := (ok.listed kept.1 kept.2).1 2
  refine (walk ⟨[2], .more (by decide) (.done ?_), ?_⟩).1 free
  · rw [free]
    exact .inl (by decide)
  · exact List.mem_singleton_self 2

end LoafOs
