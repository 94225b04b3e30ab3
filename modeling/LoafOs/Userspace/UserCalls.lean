import LoafOs.Fs.FatLooks
import LoafOs.Lib.Logged
import LoafOs.Multi.OpenDirectories
import LoafOs.Multi.RoundRobin
import LoafOs.Userspace.Print

/-!
# System calls with user pointers

The calls of `src/userspace/syscalls.c` that read through a pointer of the
caller.  A run logs what the kernel validates, which addresses it reads
through such a pointer, and the paths with which it calls the file system.
-/

namespace LoafOs

inductive UserEvent where
  /-- `paging_validate_user_range` has returned 1. -/
  | validated (vaddr size : Nat)
  /-- A byte is read through a user pointer. -/
  | read (addr : Nat)
  /-- A path is passed to the file system. -/
  | passed (path : CString)
  deriving DecidableEq, Repr

abbrev UserRun := Logged UserEvent

/-- `(uint32_t)-1` in `eax`. -/
def refused : Nat := 2 ^ 32 - 1

/-- `(int)word`. -/
def intOf (word : UInt32) : Int := word.toInt32.toInt

section Strings

variable (memory : Memory) (pd : Nat)

/-- `paging_validate_user_range(curr_proc->pd_phys, ...)`. -/
def checkUser (vaddr size : Nat) (needWrite : Bool) : UserRun Bool :=
  if pagingValidateUserRange memory pd vaddr size needWrite then
    ⟨[.validated vaddr size], some true⟩
  else
    ⟨[], some false⟩

/-- The check that the string loops make at the first byte of a page. -/
def checkPageStart (addr : Nat) : UserRun Bool :=
  if addr % 4096 = 0 then checkUser memory pd addr 1 false else pure true

def readUser (addr : Nat) : UserRun UInt8 :=
  ⟨[.read addr], userByte memory pd addr⟩

/-- A pointer of the caller's `argv`. -/
def readUserWord (addr : Nat) : UserRun Nat := do
  let b0 ← readUser memory pd (u32 addr)
  let b1 ← readUser memory pd (u32 (addr + 1))
  let b2 ← readUser memory pd (u32 (addr + 2))
  let b3 ← readUser memory pd (u32 (addr + 3))
  return b0.toNat + 2 ^ 8 * b1.toNat + 2 ^ 16 * b2.toNat +
    2 ^ 24 * b3.toNat

/-- `count` bytes from `addr` on. -/
def readUserBytes (addr : Nat) : (count : Nat) → UserRun Unit
  | 0 => pure ()
  | count + 1 => do
      let _ ← readUser memory pd (u32 addr)
      readUserBytes (addr + 1) count

/-- The loop of `copy_user_str` with room for `count` more bytes. -/
def copyUserLoop (ptr : Nat) : (count i : Nat) → UserRun (Option CString)
  | 0, _ => pure (some [])
  | count + 1, i => do
      let addr := u32 (ptr + i)
      if ¬ (← checkPageStart memory pd addr) then
        return none
      let c ← readUser memory pd addr
      if c = 0 then
        return some []
      let rest ← copyUserLoop ptr count (i + 1)
      return rest.map (c :: ·)

/-- `copy_user_str`: the string in `kbuf`, unless the call returns -1. -/
def copyUserStr (ptr max : Nat) : UserRun (Option CString) := do
  if ¬ (← checkUser memory pd ptr 1 false) then
    return none
  copyUserLoop memory pd ptr (max - 1) 0

/-- The loop of `SYS_PRINT` with room for `count` more bytes in `kbuf`. -/
def printLoop (msg : Nat) : (count i : Nat) → UserRun CString
  | 0, _ => pure []
  | count + 1, i => do
      let addr := u32 (msg + i)
      if ¬ (← checkPageStart memory pd addr) then
        return []
      let c ← readUser memory pd addr
      if c = 0 then
        return []
      let rest ← printLoop msg count (i + 1)
      return c :: rest

/-- `SYS_PRINT`: `eax`, and the text that is passed to `term_write`. -/
def printUser (msg : Nat) : UserRun (Nat × Option CString) := do
  if ¬ (← checkUser memory pd msg 1 false) then
    return (refused, none)
  let kbuf ← printLoop memory pd msg (kbufSize - 1) 0
  return (0, some kbuf)

/-- The bytes from `ptr + i` on, up to a null byte or a page that is not
mapped; no string is longer than the address space. -/
def userTextFrom (ptr : Nat) : (fuel i : Nat) → CString
  | 0, _ => []
  | fuel + 1, i =>
      match userByte memory pd (u32 (ptr + i)) with
      | none => []
      | some c => if c = 0 then [] else c :: userTextFrom ptr fuel (i + 1)

def userText (ptr : Nat) : CString := userTextFrom memory pd ptr (2 ^ 32) 0

end Strings

section Results

variable {memory : Memory} {pd : Nat}

theorem checkUser_result {vaddr size : Nat} {needWrite : Bool} :
    (checkUser memory pd vaddr size needWrite).result =
      some (pagingValidateUserRange memory pd vaddr size needWrite) := by
  rw [checkUser]
  split
  case isTrue valid => rw [valid]
  case isFalse invalid => rw [eq_false_of_ne_true invalid]

theorem checkPageStart_result {addr : Nat} :
    (checkPageStart memory pd addr).result =
      some (!(addr % 4096 = 0 ∧
        ¬ pagingValidateUserRange memory pd addr 1 false)) := by
  rw [checkPageStart]
  split
  case isTrue start => simp [checkUser_result, start]
  case isFalse inside => simp [inside]

theorem printLoop_result {msg count i : Nat} :
    (printLoop memory pd msg count i).result =
      copyMessage memory pd msg count i := by
  induction count generalizing i with
  | zero => rfl
  | succ count inductionHypothesis =>
      rw [printLoop, copyMessage, Logged.result_bind, checkPageStart_result,
        Option.bind_some]
      by_cases fresh : u32 (msg + i) % 4096 = 0 ∧
          ¬ pagingValidateUserRange memory pd (u32 (msg + i)) 1 false = true
      · rw [if_pos fresh, if_pos (by simp [fresh])]
        rfl
      · rw [if_neg fresh, if_neg (by simpa using fresh), Logged.result_bind]
        congr 1
        funext c
        split
        case isTrue => rfl
        case isFalse =>
          rw [Logged.result_bind, inductionHypothesis]
          cases copyMessage memory pd msg count (i + 1) with
          | none => rfl
          | some rest => rfl

/-- The log is all that `printUser` adds to `sysPrint`. -/
theorem printUser_result {msg : Nat} :
    (printUser memory pd msg).result = sysPrint memory pd msg := by
  rw [printUser, sysPrint, Logged.result_bind, checkUser_result,
    Option.bind_some]
  split
  case isTrue => rfl
  case isFalse =>
    rw [Logged.result_bind, printLoop_result]
    rfl

end Results

/-- How many bytes of the path `file_open` looks at: those that
`resolve_path` looks at, in `fat_stat` and, on the same volume, in
`fat_write_file`, and those of the loop that fills in the handle. -/
def fileOpenLooks (fs : FileSystem) (stack : DirSlot) (path : CString)
    (writable : Bool) : Nat :=
  let resolved := resolveLooks fs.volume (path.length + 1) path 0 none
  match fileOpen fs stack path writable with
  | none => resolved
  | some (idx, _) =>
      if idx < 0 then resolved
      else max resolved (min path.length pathCapacity + 1)

/-! ## The calls -/

/-- `sizeof(fat_stat_t)`. -/
def statSize : Nat := 24

/-- `MAX_SPAWN_ARGC` and `MAX_SPAWN_ARGLEN`. -/
def maxSpawnArgc : Nat := 16
def maxSpawnArglen : Nat := 64

/-- The size of `kpath`, other than in `SYS_CHDIR`. -/
def kpathSize : Nat := 64

/-- The registers that a call reads. -/
structure Registers where
  eax : UInt32
  ebx : UInt32
  ecx : UInt32
  edx : UInt32

/-- What the variables hold that a call leaves unset: the slot of the two
write calls, the bytes of `st`, the attributes in it and the strings behind
`kargv`; and the address of the label `isr_return`. -/
structure Leftovers where
  slot : DirSlot
  stat : Bytes
  attr : UInt8
  args : Nat → CString
  isrReturn : Nat

/-- The kernel during a call: the other processes and the parts below them,
`open_files`, and `*curr_proc` with its `dirs`. -/
structure UserSystem where
  system : System
  openFiles : Nat → OpenFile
  proc : Process
  dirs : Nat → DirHandle

namespace UserSystem

variable (s : UserSystem)

def memory : Memory := s.system.kernel.memory

/-- `curr_proc->pd_phys`. -/
def pd : Nat := s.proc.image.pdPhys

def volume : Volume := s.system.kernel.volume

def files : FileSystem := ⟨s.volume, s.openFiles⟩

def setVolume (volume : Volume) : UserSystem :=
  { s with
    system := { s.system with kernel := { s.system.kernel with volume } } }

def setMemory (memory : Memory) : UserSystem :=
  { s with
    system := { s.system with kernel := s.system.kernel.setMemory memory } }

def setFiles (files : FileSystem) : UserSystem :=
  { s.setVolume files.volume with openFiles := files.openFiles }

/-- The file system is called with a path. -/
def passPath {α : Type} (path : CString) (call : CString → Option α) :
    UserRun α :=
  ⟨[.passed path], call path⟩

/-- A call that copies its path to `kpath` first. -/
def withPath (ptr max : Nat)
    (call : CString → UserRun (Nat × UserSystem)) :
    UserRun (Nat × UserSystem) := do
  match ← copyUserStr s.memory s.pd ptr max with
  | none => return (refused, s)
  | some kpath => call kpath

/-- `SYS_UNLINK`, `SYS_MKDIR` and `SYS_RMDIR` after the copy. -/
def changeTree (driver : Volume → CString → Option (Nat × Volume))
    (kpath : CString) : UserRun (Nat × UserSystem) := do
  let (code, volume) ← passPath kpath (driver s.volume)
  return (if code ≠ 0 then refused else 0, s.setVolume volume)

/-- `SYS_UNLINK`. -/
def sysUnlink (ptr : Nat) : UserRun (Nat × UserSystem) :=
  s.withPath ptr kpathSize (s.changeTree fatDeleteFile)

/-- `SYS_MKDIR`. -/
def sysMkdir (ptr : Nat) : UserRun (Nat × UserSystem) :=
  s.withPath ptr kpathSize (s.changeTree fatMkdir)

/-- `SYS_RMDIR`. -/
def sysRmdir (ptr : Nat) : UserRun (Nat × UserSystem) :=
  s.withPath ptr kpathSize (s.changeTree fatRmdir)

/-- The bytes of a `fat_stat_t`; those that `fat_stat` does not set are as
they were. -/
def statBytes (unset : Bytes) (st : FatStat) : Bytes :=
  ((unset.copy 0 (fun i => (st.name ++ [0]).getD i 0)
    (st.name.length + 1)).putWord32 16 st.size).putWord16 20
      st.firstCluster |>.put 22 st.attr

/-- `SYS_STAT` after the copy. -/
def statPath (unset : Leftovers) (out : Nat) (kpath : CString) :
    UserRun (Nat × UserSystem) := do
  if ¬ (← checkUser s.memory s.pd out statSize true) then
    return (refused, s)
  match ← passPath kpath (fatStat s.volume) with
  | .error _ => return (refused, s)
  | .ok st =>
      let memory ← .ofOption
        (copyToUser s.memory s.pd out (statBytes unset.stat st) statSize)
      return (0, s.setMemory memory)

/-- `SYS_STAT`. -/
def sysStat (unset : Leftovers) (ptr out : Nat) :
    UserRun (Nat × UserSystem) :=
  s.withPath ptr kpathSize (s.statPath unset out)

/-- `alloc_dirfd`. -/
def allocDirfd : Option Nat :=
  (List.range maxDirsPerProc).find? fun slot => ¬ (s.dirs slot).inUse

/-- `SYS_OPENDIR` after the copy. -/
def opendirPath (kpath : CString) : UserRun (Nat × UserSystem) :=
  match s.allocDirfd with
  | none => return (refused, s)
  | some slot => do
      match ← passPath kpath (fatOpendir s.volume) with
      | .error _ => return (refused, s)
      | .ok cluster =>
          return (slot, { s with
            dirs := Function.update s.dirs slot ⟨cluster, 0, true⟩ })

/-- `SYS_OPENDIR`. -/
def sysOpendir (ptr : Nat) : UserRun (Nat × UserSystem) :=
  s.withPath ptr kpathSize s.opendirPath

/-- The loop of `SYS_SPAWN` over `argv`, at index `i`.  When a string cannot
be copied, only this loop ends, and the rest of `kargv` stays unset. -/
def copyArgs (unset : Leftovers) (argv : Nat) :
    (count i : Nat) → UserRun (List CString)
  | 0, _ => pure []
  | count + 1, i => do
      let userStr ← readUserWord s.memory s.pd (argv + 4 * i)
      match ← copyUserStr s.memory s.pd userStr maxSpawnArglen with
      | none =>
          return (List.range (count + 1)).map fun j => unset.args (i + j)
      | some arg =>
          let rest ← copyArgs unset argv count (i + 1)
          return arg :: rest

/-- `kargv` in `SYS_SPAWN`, if the call gets to `process_create`. -/
def spawnArgs (unset : Leftovers) (kpath : CString) (argc argv : UInt32) :
    UserRun (Option (List CString)) := do
  if intOf argc < 0 ∨ (maxSpawnArgc : Int) < intOf argc then
    return none
  if argc = 0 ∨ argv = 0 then
    return some [kpath.take (maxSpawnArglen - 1)]
  if ¬ (← checkUser s.memory s.pd argv.toNat (argc.toNat * 4) false) then
    return none
  let kargv ← s.copyArgs unset argv.toNat argc.toNat 0
  return some kargv

/-- `set_proc_cwd`. -/
def procCwd (cwd : CString) : CString :=
  if cwd = [] then [0x2f] else cwd.take (maxBuf - 1)

/-- `SYS_SPAWN` after the copy. -/
def spawnPath (unset : Leftovers) (argc argv : UInt32) (kpath : CString) :
    UserRun (Nat × UserSystem) := do
  match ← s.spawnArgs unset kpath argc argv with
  | none => return (refused, s)
  | some kargv =>
      let (system, created) ← passPath kpath fun path =>
        processCreate s.system unset.isrReturn path kargv
      match created with
      | .error _ => return (refused, { s with system })
      | .ok child =>
          let child := { child with
            ppid := s.proc.pid
            cwd := procCwd s.proc.cwd }
          return (child.pid, { s with
            system := { system with
              procList := child :: system.procList } })

/-- `SYS_SPAWN`. -/
def sysSpawn (unset : Leftovers) (ptr : Nat) (argc argv : UInt32) :
    UserRun (Nat × UserSystem) :=
  s.withPath ptr kpathSize (s.spawnPath unset argc argv)

/-- `SYS_CHDIR` after the copy; a `fat_stat` that fails leaves `st` as it
was. -/
def chdirPath (unset : Leftovers) (kpath : CString) :
    UserRun (Nat × UserSystem) := do
  let stat ← passPath kpath (fatStat s.volume)
  let attr :=
    match stat with
    | .error _ => unset.attr
    | .ok st => st.attr
  if ¬ stat.isOk ∧ attr &&& attrDirectory = 0 then
    return (refused, s)
  return (0, { s with proc := { s.proc with cwd := procCwd kpath } })

/-- `SYS_CHDIR`. -/
def sysChdir (unset : Leftovers) (ptr : Nat) :
    UserRun (Nat × UserSystem) :=
  s.withPath ptr maxBuf (s.chdirPath unset)

/-- `SYS_OPEN`: `file_open` gets the pointer of the caller. -/
def sysOpen (unset : Leftovers) (ptr : Nat) (writable : Bool) :
    UserRun (Nat × UserSystem) := do
  if ¬ (← checkUser s.memory s.pd ptr 1 false) then
    return (refused, s)
  match Machine.allocFd s.proc.fds with
  | none => return (refused, s)
  | some fd =>
      let path := userText s.memory s.pd ptr
      readUserBytes s.memory s.pd ptr
        (fileOpenLooks s.files unset.slot path writable)
      let (idx, files) ← passPath path fun path =>
        fileOpen s.files unset.slot path writable
      let s := s.setFiles files
      if idx < 0 then
        return (refused, s)
      return (fd, { s with
        proc := { s.proc with fds := s.proc.fds.set fd idx } })

/-- The index in `open_files` behind a descriptor of the caller. -/
def fileOf (fd : Int) : Option Int :=
  if fd < 0 ∨ (maxFdsPerProc : Int) ≤ fd then none
  else if s.proc.fds.getD fd.toNat (-1) = -1 then none
  else some (s.proc.fds.getD fd.toNat (-1))

/-- `SYS_WRITE`.  The log has the whole buffer; `fat_write_at` reads a part
of it when it fails. -/
def sysWrite (unset : Leftovers) (fd : Int) (buf : Nat) (len : UInt32) :
    UserRun (Nat × UserSystem) := do
  match s.fileOf fd with
  | none => return (refused, s)
  | some idx =>
      if ¬ (← checkUser s.memory s.pd buf len.toNat false) then
        return (refused, s)
      readUserBytes s.memory s.pd buf len.toNat
      let data := fun i =>
        (userByte s.memory s.pd (u32 (buf + i))).getD 0
      let (result, files) ← .ofOption
        (fileWrite s.files unset.slot idx data len)
      return (u32 (result + 2 ^ 32).toNat, s.setFiles files)

/-- What `syscall_dispatch` does with the pointers of the caller.  The calls
that are not named here have none, or write through it only. -/
def userEvents (unset : Leftovers) (regs : Registers) : List UserEvent :=
  match regs.eax.toNat with
  | 3 => (printUser s.memory s.pd regs.ebx.toNat).events
  | 6 => (s.sysOpen unset regs.ebx.toNat (regs.ecx ≠ 0)).events
  | 9 => (s.sysWrite unset (intOf regs.ebx) regs.ecx.toNat regs.edx).events
  | 10 => (s.sysStat unset regs.ebx.toNat regs.ecx.toNat).events
  | 11 => (s.sysUnlink regs.ebx.toNat).events
  | 12 => (s.sysMkdir regs.ebx.toNat).events
  | 13 => (s.sysRmdir regs.ebx.toNat).events
  | 14 => (s.sysOpendir regs.ebx.toNat).events
  | 17 => (s.sysSpawn unset regs.ebx.toNat regs.ecx regs.edx).events
  | 25 => (s.sysChdir unset regs.ebx.toNat).events
  | _ => []

/-! ## A program with one page -/

/-- A program whose only page has these bytes. -/
def onPage (volume : Volume) (bytes : Bytes) : UserSystem where
  system :=
    { kernel :=
        { heap := ⟨(onePage bytes).mem, 0, 0, 0, 0⟩
          live := []
          pmm := (onePage bytes).pmm
          kernelDirectory := 0
          volume }
      nextPid := 2
      procList := [] }
  openFiles := fun _ => ⟨false, [], 0, 0, false⟩
  proc :=
    { Tasks.sampleProc 1 .running with image := ⟨0x1000, 0, 0, 0, 0, 0⟩ }
  dirs := fun _ => ⟨0, 0, false⟩

end UserSystem

/-- A call of `init` on a stack that is still empty. -/
def noLeftovers : Leftovers where
  slot := .unset
  stat := fun _ => 0
  attr := 0
  args := fun _ => []
  isrReturn := 0

end LoafOs
