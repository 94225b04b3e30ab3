import LoafOs.Devices.Keyboard
import LoafOs.Lib.Runs
import LoafOs.Multi.Scheduler

/-!
# The kernel as a state machine

Each interrupt, each system call and each resumption of a call that was
suspended in `schedule` is one step: `src/idt/isr.c`, `src/devices/pit.c`,
`src/devices/kbd.c` and the calls of `src/userspace/syscalls.c` that touch
processes or open files.  A null pointer that the kernel follows ends it, so
such a step has no result.
-/

namespace LoafOs

/-- What a process has left to do of the call in which it was suspended. -/
inductive Pending where
  | none
  | wait (pid : Nat)
  | getchar
  deriving DecidableEq, Repr

/-- What the kernel did, for the statements about its runs. -/
inductive Event where
  | created (pid pd kstack : Nat)
  /-- The process ends, with the code that waiting for it should yield. -/
  | died (pid : Nat) (code : Int)
  /-- `process_cleanup` with what it releases. -/
  | cleaned (pid : Nat) (fds : List Int) (pd kstack : Nat)
  /-- The structure of the process is unlinked and freed. -/
  | freed (pid : Nat)
  /-- `SYS_WAIT` returns a code. -/
  | waited (pid : Nat) (code : Int)
  /-- `SYS_GETCHAR` returns, with no character for -1. -/
  | got (c : Option UInt8)
  deriving DecidableEq, Repr

/-- The state of the kernel between two steps. -/
structure Machine where
  tasks : Tasks
  nextPid : Nat
  tickCount : Nat
  kbd : Keyboard
  files : FileSystem
  pending : Nat → Pending
  events : List Event

/-- The system calls; a call that reaches neither processes nor open files
is `other`, with what it makes of the volume. -/
inductive Call where
  | exit (code : Int)
  | yieldHlt
  | kill (pid : Nat)
  | wait (pid : Nat)
  | sleep (ms : Nat)
  | getchar
  | getcharNb
  | spawn (child : Process)
  | open (stack : DirSlot) (path : CString) (writable : Bool)
  | close (fd : Int)
  | read (fd : Int) (heap : Option Bytes) (len : UInt32)
  | write (fd : Int) (stack : DirSlot) (data : Bytes) (len : UInt32)
  | other (volume : Volume)

inductive Label where
  | tick
  | key (scancode : UInt8)
  | fault
  | call (call : Call)
  | resume

namespace Tasks

/-- A loop over the process list that changes each structure on its own. -/
def eachProc (tasks : Tasks) (change : Process → Process) : Option Tasks := do
  let nodes ← listFrom tasks.next listFuel tasks.procList
  return { tasks with
    procs := fun node =>
      if node ∈ nodes then change (tasks.procs node)
      else tasks.procs node }

/-- The loop body of `SYS_EXIT` and `SYS_KILL`: a process that waits for
this one is woken. -/
def wakeWaiter (pid : Nat) (proc : Process) : Process :=
  if proc.state ≠ .blocked ∨ proc.block ≠ .pid then proc
  else if proc.targetPid ≠ pid then proc
  else { proc with state := .ready, block := .none, targetPid := noPid }

/-- The loop body of `handle_fault`. -/
def wakeFaulted (pid : Nat) (proc : Process) : Process :=
  if proc.targetPid = pid ∧ proc.state = .blocked then
    { proc with state := .ready, targetPid := noPid }
  else proc

end Tasks

namespace Machine

/-- `curr_proc`. -/
def curr (m : Machine) : Nat := m.tasks.currProc

/-- The structure that `curr_proc` points to. -/
def currFields (m : Machine) : Process := m.tasks.procs m.curr

def setTasks (m : Machine) (tasks : Tasks) : Machine := { m with tasks }

def setProc (m : Machine) (proc : Nat) (change : Process → Process) :
    Machine :=
  m.setTasks (m.tasks.setProc proc change)

/-- `proc->state = PROC_DEAD`. -/
def markDead (m : Machine) (proc : Nat) : Machine :=
  m.setProc proc fun fields => { fields with state := .dead }

def setPending (m : Machine) (proc : Nat) (pending : Pending) : Machine :=
  { m with pending := Function.update m.pending proc pending }

def record (m : Machine) (event : Event) : Machine :=
  { m with events := event :: m.events }

/-- `schedule(regs)`. -/
def schedule (m : Machine) : Option Machine :=
  m.tasks.schedule.map m.setTasks

/-- `schedule(regs)` in a call that goes on with `pending` when the process
runs again. -/
def suspend (m : Machine) (pending : Pending) : Option Machine :=
  (m.setPending m.curr pending).schedule

/-! ## Interrupts -/

/-- `process_cleanup`. -/
def processCleanup (m : Machine) (proc : Nat) : Machine :=
  let fields := m.tasks.procs proc
  let used := fields.fds.filter (· ≠ -1)
  let m := { m with files := used.foldl fileClose m.files }
  let m := m.setProc proc fun fields =>
    { fields with
      fds := fields.fds.map fun _ => -1
      dirsInUse := fields.dirsInUse.map fun _ => false
      image := { fields.image with pdPhys := 0 }
      kstack := 0 }
  m.record (.cleaned fields.pid used fields.image.pdPhys fields.kstack)

/-- The loop body of `pit_handler`. -/
def pitProc (m : Machine) (proc : Nat) : Machine :=
  let fields := m.tasks.procs proc
  if fields.state = .dead ∧ ¬ fields.cleanedUp then
    if proc ≠ m.curr then
      (m.processCleanup proc).setProc proc fun fields =>
        { fields with cleanedUp := true }
    else m
  else if fields.state ≠ .blocked ∨ fields.block ≠ .sleep then m
  else if m.tickCount < fields.resumeTick then m
  else
    m.setProc proc fun fields =>
      { fields with state := .ready, block := .none, resumeTick := noPid }

/-- `pit_handler`. -/
def pitHandler (m : Machine) : Option Machine := do
  let m := { m with tickCount := u32 (m.tickCount + 1) }
  if m.tasks.schedulerReady then
    let nodes ← listFrom m.tasks.next listFuel m.tasks.procList
    return nodes.foldl pitProc m
  else
    return m

/-- The timer interrupt. -/
def tick (m : Machine) : Option Machine := m.pitHandler.bind schedule

/-- A process that is blocked on input. -/
def awaitsInput (m : Machine) (proc : Nat) : Bool :=
  (m.tasks.procs proc).state = .blocked ∧
    (m.tasks.procs proc).block = .input

/-- `kbd_handler`. -/
def key (m : Machine) (scancode : UInt8) : Option Machine := do
  let (kbd, stored) := m.kbd.interrupt scancode
  let m := { m with kbd }
  if stored then
    let nodes ← listFrom m.tasks.next listFuel m.tasks.procList
    match nodes.find? m.awaitsInput with
    | none => return m
    | some proc =>
        return m.setProc proc fun fields =>
          { fields with state := .ready, block := .none }
  else
    return m

/-- `handle_fault`, for a fault in user mode. -/
def fault (m : Machine) : Option Machine := do
  let pid := m.currFields.pid
  let m := (m.markDead m.curr).record (.died pid (-1))
  if m.tasks.procList = 0 then
    none
  let tasks ← m.tasks.eachProc (Tasks.wakeFaulted pid)
  (m.setTasks tasks).schedule

/-! ## System calls -/

/-- `SYS_EXIT`. -/
def sysExit (m : Machine) (code : Int) : Option Machine := do
  let pid := m.currFields.pid
  let m := m.setProc m.curr fun fields =>
    { fields with state := .dead, exitCode := code }
  let m := m.record (.died pid code)
  let tasks ← m.tasks.eachProc (Tasks.wakeWaiter pid)
  (m.setTasks tasks).schedule

/-- `SYS_KILL`. -/
def sysKill (m : Machine) (pid : Nat) : Option Machine := do
  let proc ← m.tasks.processFind pid
  if proc = 0 then
    return m
  let alive := m.tasks.stateOf proc ≠ .dead
  let m := m.markDead proc
  let m := if alive then m.record (.died pid (-1)) else m
  let tasks ← m.tasks.eachProc
    (Tasks.wakeWaiter (m.tasks.procs proc).pid)
  let m := m.setTasks tasks
  if proc = m.curr then m.schedule else return m

/-- `SYS_WAIT`. -/
def sysWait (m : Machine) (pid : Nat) : Option Machine := do
  let proc ← m.tasks.processFind pid
  if proc = 0 then
    return m
  if m.tasks.stateOf proc = .dead then
    return m.record (.waited pid (m.tasks.procs proc).exitCode)
  let target := (m.tasks.procs proc).pid
  let m := m.setProc m.curr fun fields =>
    { fields with state := .blocked, block := .pid, targetPid := target }
  m.suspend (.wait pid)

/-- `SYS_WAIT` after its `schedule`; `process_find` may return `NULL`, whose
`exit_code` the kernel cannot read. -/
def resumeWait (m : Machine) (pid : Nat) : Option Machine := do
  let proc ← m.tasks.processFind pid
  if proc = 0 then
    none
  let code := (m.tasks.procs proc).exitCode
  let tasks ← m.tasks.procUnlink proc
  let m := (m.setTasks tasks).record (.freed (m.tasks.procs proc).pid)
  return m.record (.waited pid code)

/-- `SYS_SLEEP`. -/
def sysSleep (m : Machine) (ms : Nat) : Option Machine :=
  (m.setProc m.curr fun fields =>
    { fields with
      state := .blocked
      block := .sleep
      resumeTick := u32 (m.tickCount + ms) }).schedule

/-- `SYS_GETCHAR`. -/
def sysGetchar (m : Machine) : Option Machine :=
  match m.kbd.getchar with
  | (none, kbd) =>
      ({ m with kbd }.setProc m.curr fun fields =>
        { fields with state := .blocked, block := .input }).suspend .getchar
  | (some c, kbd) => some ({ m with kbd }.record (.got (some c)))

/-- `SYS_GETCHAR` after its `schedule`. -/
def resumeGetchar (m : Machine) : Machine :=
  { m with kbd := m.kbd.getchar.2 }.record (.got m.kbd.getchar.1)

/-- `SYS_GETCHAR_NB`. -/
def sysGetcharNb (m : Machine) : Machine :=
  { m with kbd := m.kbd.getchar.2 }

/-- `SYS_SPAWN` once `process_create` has returned `child`. -/
def sysSpawn (m : Machine) (child : Process) : Machine :=
  let parent := m.currFields
  let fields := { child with ppid := parent.pid, cwd := parent.cwd }
  let m := m.setProc child.addr fun _ => fields
  let m := { m with nextPid := u32 (m.nextPid + 1) }
  let m := m.setPending child.addr .none
  let m := m.setTasks (m.tasks.schedulerAdd child.addr)
  m.record (.created child.pid child.image.pdPhys child.kstack)

/-- `alloc_fd`. -/
def allocFd (fds : List Int) : Option Nat := fds.findIdx? (· = -1)

/-- The index in `open_files` behind a descriptor of the caller. -/
def fileOf (m : Machine) (fd : Int) : Option Int :=
  if fd < 0 ∨ (maxFdsPerProc : Int) ≤ fd then none
  else if m.currFields.fds.getD fd.toNat (-1) = -1 then none
  else some (m.currFields.fds.getD fd.toNat (-1))

/-- `SYS_OPEN` with a path that the caller may read. -/
def sysOpen (m : Machine) (stack : DirSlot) (path : CString)
    (writable : Bool) : Option Machine :=
  match allocFd m.currFields.fds with
  | none => some m
  | some slot => do
      let (idx, files) ← fileOpen m.files stack path writable
      let m := { m with files }
      if idx < 0 then
        return m
      return m.setProc m.curr fun fields =>
        { fields with fds := fields.fds.set slot idx }

/-- `SYS_CLOSE`. -/
def sysClose (m : Machine) (fd : Int) : Machine :=
  match m.fileOf fd with
  | none => m
  | some idx =>
      { m with files := fileClose m.files idx }.setProc m.curr fun fields =>
        { fields with fds := fields.fds.set fd.toNat (-1) }

/-- `SYS_READ` with a buffer that the caller may write. -/
def sysRead (m : Machine) (fd : Int) (heap : Option Bytes) (len : UInt32) :
    Option Machine :=
  match m.fileOf fd with
  | none => some m
  | some idx => do
      let read ← fileRead m.files heap idx len
      return { m with files := read.fs }

/-- `SYS_WRITE` with a buffer that the caller may read. -/
def sysWrite (m : Machine) (fd : Int) (stack : DirSlot) (data : Bytes)
    (len : UInt32) : Option Machine :=
  match m.fileOf fd with
  | none => some m
  | some idx => do
      let (_, files) ← fileWrite m.files stack idx data len
      return { m with files }

def syscallDispatch (m : Machine) : Call → Option Machine
  | .exit code => m.sysExit code
  | .yieldHlt => m.schedule
  | .kill pid => m.sysKill pid
  | .wait pid => m.sysWait pid
  | .sleep ms => m.sysSleep ms
  | .getchar => m.sysGetchar
  | .getcharNb => some m.sysGetcharNb
  | .spawn child => some (m.sysSpawn child)
  | .open stack path writable => m.sysOpen stack path writable
  | .close fd => some (m.sysClose fd)
  | .read fd heap len => m.sysRead fd heap len
  | .write fd stack data len => m.sysWrite fd stack data len
  | .other volume => some { m with files := { m.files with volume } }

/-- The rest of the suspended call. -/
def resume (m : Machine) : Option Machine :=
  let rest := m.setPending m.curr .none
  match m.pending m.curr with
  | .none => none
  | .wait pid => rest.resumeWait pid
  | .getchar => some rest.resumeGetchar

/-- One step, or none when the kernel crashes. -/
def next (m : Machine) : Label → Option Machine
  | .tick => m.tick
  | .key scancode => m.key scancode
  | .fault => m.fault
  | .call call => m.syscallDispatch call
  | .resume => m.resume

/-! ## Which steps there are -/

/-- What `process_create` returns: a block of its own, and fields with
nothing in them yet. -/
structure Created (m : Machine) (child : Process) : Prop where
  nonzero : child.addr ≠ 0
  word : child.addr < listFuel
  notIdle : child.addr ≠ m.tasks.idleProc
  notCurr : child.addr ≠ m.curr
  unlinked : ∀ nodes, Links.Path m.tasks.next (· = 0) m.tasks.procList nodes →
    child.addr ∉ nodes
  pid : child.pid = m.nextPid
  targetPid : child.targetPid = noPid
  fds : child.fds = List.replicate maxFdsPerProc (-1)
  exitCode : child.exitCode = -1
  state : child.state = .ready
  block : child.block = .none
  cleanedUp : child.cleanedUp = false
  pd : child.image.pdPhys ≠ 0
  kstack : child.kstack ≠ 0

/-- The idle process runs `src/init/idle.c`, which only yields; interrupts
come while no call is under way. -/
inductive Enabled (m : Machine) : Label → Prop
  | tick (user : m.pending m.curr = .none) : Enabled m .tick
  | key {scancode : UInt8} (user : m.pending m.curr = .none) :
      Enabled m (.key scancode)
  | fault (user : m.pending m.curr = .none)
      (program : m.curr ≠ m.tasks.idleProc) : Enabled m .fault
  | idle (user : m.pending m.curr = .none) : Enabled m (.call .yieldHlt)
  | call {call : Call} (user : m.pending m.curr = .none)
      (program : m.curr ≠ m.tasks.idleProc)
      (created : ∀ child, call = .spawn child → m.Created child) :
      Enabled m (.call call)
  | resume (suspended : m.pending m.curr ≠ .none) : Enabled m .resume

/-- A step that does not crash. -/
structure Step (m : Machine) (label : Label) (m' : Machine) : Prop where
  enabled : m.Enabled label
  done : m.next label = some m'

/-- `curr_proc` is `init` and runs, `idle_proc` is not on the list, and both
are as `process_create` returned them. -/
structure Booted (m : Machine) : Prop where
  list : m.tasks.procList = m.curr ∧ m.tasks.next m.curr = 0
  curr : m.curr ≠ 0 ∧ m.curr < listFuel
  idle : m.tasks.idleProc ≠ 0 ∧ m.tasks.idleProc ≠ m.curr ∧
    m.tasks.next m.tasks.idleProc = 0
  ready : m.tasks.schedulerReady = true
  running : m.tasks.stateOf m.curr = .running
  idleReady : m.tasks.stateOf m.tasks.idleProc = .ready
  pids : m.currFields.pid = 1 ∧ m.nextPid = 2
  fds : m.currFields.fds = List.replicate maxFdsPerProc (-1)
  fields : m.currFields.targetPid = noPid ∧ m.currFields.exitCode = -1 ∧
    m.currFields.cleanedUp = false ∧ m.currFields.image.pdPhys ≠ 0 ∧
    m.currFields.kstack ≠ 0
  kbd : m.kbd.Ok
  files : ∀ idx, (m.files.openFiles idx).inUse = false
  pending : m.pending m.curr = .none ∧ m.pending m.tasks.idleProc = .none
  events : m.events =
    [.created 1 m.currFields.image.pdPhys m.currFields.kstack]

end Machine

end LoafOs
