import LoafOs.Lib.Interrupts
import LoafOs.Multi.Process

/-!
# System calls and the interrupt flag

Every gate of `idt_init` is an interrupt gate.  A path through
`syscall_dispatch`, or through a handler, is kept as its operations on the
flag, the kernel heap, the process list and the processor; which path a call
takes is left open.  `panic` ends a path early.
-/

namespace LoafOs

open Interrupts Runs

/-- The operations of a path. -/
inductive FlagOp where
  | kmalloc
  | kfree
  | listChange
  | cli
  | sti
  | hlt
  | schedule
  deriving DecidableEq, Repr

def FlagOp.effect : FlagOp → Effect
  | .kmalloc => .use
  | .kfree => .use
  | .listChange => .use
  | .cli => .mask
  | .sti => .unmask
  | .hlt => .none
  | .schedule => .yield

/-! ## The paths of the functions -/

/-- How `file_read` ends. -/
inductive FileReadPath where
  | refused
  | noBuffer
  | failed
  | done
  deriving DecidableEq, Repr

def fileReadOps : FileReadPath → List FlagOp
  | .refused => []
  | .noBuffer => [.kmalloc]
  | .failed => [.kmalloc, .kfree]
  | .done => [.kmalloc, .kfree]

/-- How `exec_load` ends. -/
inductive ExecLoadPath where
  | missing
  | noBuffer
  | failed
  | loaded
  deriving DecidableEq, Repr

def execLoadOps : ExecLoadPath → List FlagOp
  | .missing => []
  | .noBuffer => [.kmalloc]
  | .failed => [.kmalloc]
  | .loaded => [.kmalloc, .kfree]

def copyToUserOps : List FlagOp := [.cli, .sti]

def setupUserArgvOps : List FlagOp := [.kmalloc] ++ copyToUserOps ++ [.kfree]

/-- How `process_create` ends. -/
inductive CreatePath where
  | noProcess
  | notLoaded (path : ExecLoadPath)
  | noStack
  | created
  deriving DecidableEq, Repr

def processCreateOps : CreatePath → List FlagOp
  | .noProcess => [.kmalloc]
  | .notLoaded path => [.kmalloc] ++ execLoadOps path
  | .noStack => [.kmalloc] ++ execLoadOps .loaded ++ [.kmalloc]
  | .created =>
      [.kmalloc] ++ execLoadOps .loaded ++ [.kmalloc] ++ setupUserArgvOps

/-- How `SYS_SPAWN` ends: it refuses its arguments, or it goes on with what
`process_create` does. -/
inductive SpawnPath where
  | refused
  | create (path : CreatePath)
  deriving DecidableEq, Repr

def spawnOps : SpawnPath → List FlagOp
  | .refused => []
  | .create .created => processCreateOps .created ++ [.listChange]
  | .create path => processCreateOps path

/-- How `SYS_WAIT` ends. -/
inductive WaitPath where
  | missing
  | dead
  | waited
  deriving DecidableEq, Repr

def waitOps : WaitPath → List FlagOp
  | .missing => []
  | .dead => []
  | .waited => [.schedule, .listChange, .kfree]

/-- A system call with the path that it takes; the calls whose paths all
leave the heap, the list, the flag and the processor alone are the ones
without one. -/
inductive SyscallPath where
  | exit
  | yieldHlt
  | print
  | datetime
  | sbrk
  | open
  | close
  | read (path : FileReadPath)
  | write
  | stat
  | unlink
  | mkdir
  | rmdir
  | opendir
  | readdir
  | closedir
  | spawn (path : SpawnPath)
  | kill (self : Bool)
  | wait (path : WaitPath)
  | sleep
  | getchar (blocks : Bool)
  | getcharNb
  | getuptime
  | ps
  | chdir
  | getcwd
  | unknown
  deriving DecidableEq, Repr

/-- `syscall_dispatch`. -/
def syscallOps : SyscallPath → List FlagOp
  | .exit => [.schedule]
  | .yieldHlt => [.schedule, .sti, .hlt]
  | .print => []
  | .datetime => []
  | .sbrk => []
  | .open => []
  | .close => []
  | .read path => fileReadOps path
  | .write => []
  | .stat => []
  | .unlink => []
  | .mkdir => []
  | .rmdir => []
  | .opendir => []
  | .readdir => []
  | .closedir => []
  | .spawn path => spawnOps path
  | .kill self => if self then [.schedule] else []
  | .wait path => waitOps path
  | .sleep => [.schedule]
  | .getchar blocks => if blocks then [.schedule] else []
  | .getcharNb => []
  | .getuptime => []
  | .ps => []
  | .chdir => []
  | .getcwd => []
  | .unknown => []

/-- The timer interrupt: `pit_handler` frees the kernel stacks of the
processes that it cleans up, and `schedule` follows. -/
def timerOps (cleaned : Nat) : List FlagOp :=
  List.replicate cleaned .kfree ++ [.schedule]

/-- The keyboard interrupt. -/
def keyboardOps : List FlagOp := []

/-- A fault of a program. -/
def faultOps : List FlagOp := [.schedule]

/-! ## The path that a call takes -/

/-- The path of `exec_load` on a kernel. -/
def execLoadPath (kernel : Kernel) (path : CString) : Option ExecLoadPath :=
  (execLoad kernel path).map fun (_, result) =>
    match result with
    | .error 1 => .missing
    | .error 2 => .noBuffer
    | .error _ => .failed
    | .ok _ => .loaded

/-- The path of `process_create` up to `setup_user_argv`. -/
def createPath (kernel : Kernel) (path : CString) : Option CreatePath := do
  let (kernel, proc) ← kernel.kmalloc processSize
  if proc = 0 then
    return .noProcess
  match ← execLoadPath kernel path with
  | .loaded =>
      let (kernel, _) ← execLoad kernel path
      let (_, kstack) ← kernel.kmalloc kernelStackSize
      return if kstack = 0 then .noStack else .created
  | ended => return .notLoaded ended

variable {system system' : System} {isrReturn : Nat} {path : CString}
  {argv : List CString}

/-- A call that returns a process took the whole path. -/
theorem createPath_ok {proc : Process}
    (done : processCreate system isrReturn path argv =
      some (system', .ok proc)) :
    createPath system.kernel path = some .created := by
  rw [processCreate] at done
  simp only [Option.bind_eq_bind, Option.pure_def,
    Option.bind_eq_some_iff] at done
  obtain ⟨⟨kernel, ptr⟩, alloc, rest⟩ := done
  rw [createPath]
  simp only [Option.bind_eq_bind, Option.pure_def, alloc, Option.bind_some]
  split at rest
  case isTrue => simp at rest
  case isFalse nonzero =>
    rw [if_neg nonzero]
    simp only [Option.bind_eq_some_iff] at rest
    obtain ⟨⟨loaded, result⟩, load, rest⟩ := rest
    cases result with
    | error code => simp at rest
    | ok image =>
        have ended : execLoadPath kernel path = some .loaded := by
          rw [execLoadPath, load]
          rfl
        simp only [Option.bind_eq_some_iff] at rest
        obtain ⟨⟨stacked, kstack⟩, stack, rest⟩ := rest
        simp only [ended, load, stack, Option.bind_some]
        split at rest
        case isTrue => simp at rest
        case isFalse given => rw [if_neg given]

/-- A call that fails never reaches `setup_user_argv`. -/
theorem createPath_error {code : Int}
    (done : processCreate system isrReturn path argv =
      some (system', .error code)) :
    ∃ ended, createPath system.kernel path = some ended ∧
      ended ≠ .created := by
  rw [processCreate] at done
  simp only [Option.bind_eq_bind, Option.pure_def,
    Option.bind_eq_some_iff] at done
  obtain ⟨⟨kernel, ptr⟩, alloc, rest⟩ := done
  rw [createPath]
  simp only [Option.bind_eq_bind, Option.pure_def, alloc, Option.bind_some]
  split at rest
  case isTrue zero => exact ⟨.noProcess, if_pos zero, by simp⟩
  case isFalse nonzero =>
    rw [if_neg nonzero]
    simp only [Option.bind_eq_some_iff] at rest
    obtain ⟨⟨loaded, result⟩, load, rest⟩ := rest
    cases result with
    | error failure =>
        cases ended : execLoadPath kernel path with
        | none =>
            rw [execLoadPath, load] at ended
            simp at ended
        | some which =>
            cases which with
            | loaded =>
                rw [execLoadPath, load] at ended
                simp only [Option.map_some, Option.some.injEq] at ended
                split at ended <;> simp_all
            | missing => exact ⟨_, rfl, by simp⟩
            | noBuffer => exact ⟨_, rfl, by simp⟩
            | failed => exact ⟨_, rfl, by simp⟩
    | ok image =>
        have ended : execLoadPath kernel path = some .loaded := by
          rw [execLoadPath, load]
          rfl
        simp only [Option.bind_eq_some_iff] at rest
        obtain ⟨⟨stacked, kstack⟩, stack, rest⟩ := rest
        simp only [ended, load, stack, Option.bind_some]
        split at rest
        case isTrue zero =>
          rw [if_pos zero]
          exact ⟨.noStack, rfl, by simp⟩
        case isFalse given =>
          simp only [Option.bind_eq_some_iff] at rest
          obtain ⟨_, _, last⟩ := rest
          simp at last

/-! ## The kernel -/

universe u

/-- What starts or goes on in the kernel. -/
inductive FlagEvent (Thread : Type u) where
  | syscall (path : SyscallPath)
  | fault
  | timer (cleaned : Nat)
  | keyboard
  | perform (op : FlagOp)
  | schedule (next : Thread)
  | iret

def FlagEvent.toEvent {Thread : Type u} :
    FlagEvent Thread → Event FlagOp Thread
  | .syscall path => .call (syscallOps path)
  | .fault => .call faultOps
  | .timer cleaned => .interrupt (timerOps cleaned)
  | .keyboard => .interrupt keyboardOps
  | .perform op => .perform op
  | .schedule next => .yield next
  | .iret => .finish

variable {Thread : Type u}

/-- One step of the kernel. -/
def FlagStep [DecidableEq Thread] (state : State FlagOp Thread) (event : FlagEvent Thread)
    (state' : State FlagOp Thread) : Prop :=
  Step FlagOp.effect state event.toEvent state'

/-- One thread is in user mode, and the others wait with the stack that
`init_fake_stack` prepared. -/
def userState [DecidableEq Thread] (thread : Thread) : State FlagOp Thread where
  enabled := true
  current := thread
  calls := setCalls (fun _ => [⟨[], true⟩]) thread []

/-- The call does not get as far as `copy_to_user`. -/
def SyscallPath.isQuiet : SyscallPath → Bool
  | .spawn (.create .created) => false
  | _ => true

/-! ## The flag -/

/-- A path is clear exactly when it does not reach `copy_to_user`. -/
theorem syscallOps_clear_iff {call : SyscallPath} :
    clearPath FlagOp.effect false (syscallOps call) = true ↔
      call.isQuiet = true := by
  cases call with
  | read path => cases path <;> simp [SyscallPath.isQuiet] <;> rfl
  | wait path => cases path <;> simp [SyscallPath.isQuiet] <;> rfl
  | kill self => cases self <;> simp [SyscallPath.isQuiet] <;> rfl
  | getchar blocks => cases blocks <;> simp [SyscallPath.isQuiet] <;> rfl
  | spawn path =>
      cases path with
      | refused => simp [SyscallPath.isQuiet]; rfl
      | create path =>
          cases path with
          | created => decide
          | notLoaded ended =>
              cases ended <;> simp [SyscallPath.isQuiet] <;> rfl
          | noProcess => simp [SyscallPath.isQuiet]; rfl
          | noStack => simp [SyscallPath.isQuiet]; rfl
  | _ => decide

theorem timerOps_clear (cleaned : Nat) :
    clearPath FlagOp.effect false (timerOps cleaned) = true := by
  rw [timerOps]
  induction cleaned with
  | zero => rfl
  | succ cleaned inductionHypothesis =>
      rw [List.replicate_succ, List.cons_append, clearPath]
      exact inductionHypothesis

theorem userState_masked [DecidableEq Thread] (thread : Thread) :
    Masked FlagOp.effect (userState thread) := by
  refine ⟨?_, fun other different => ?_⟩
  · simp only [userState, setCalls_same]
    rfl
  · have other' : other ≠ thread := different
    have fresh : (userState thread).calls other = [⟨[], true⟩] :=
      if_neg other'
    rw [fresh]
    exact ⟨rfl, rfl⟩

theorem FlagEvent.toEvent_clear {event : FlagEvent Thread}
    (quiet : ∀ path, event = .syscall path → path.isQuiet = true) :
    event.toEvent.IsClear FlagOp.effect := by
  cases event with
  | syscall path => exact syscallOps_clear_iff.mpr (quiet path rfl)
  | fault => rfl
  | timer cleaned => exact timerOps_clear cleaned
  | keyboard => rfl
  | perform op => trivial
  | schedule next => trivial
  | iret => trivial

/-- While no call reaches `copy_to_user`, the invariant holds. -/
theorem FlagStep.masked_run [DecidableEq Thread]
    {state state' : State FlagOp Thread}
    {events : List (FlagEvent Thread)}
    (masked : Masked FlagOp.effect state)
    (run : Run FlagStep state events state')
    (quiet : ∀ path, .syscall path ∈ events → path.isQuiet = true) :
    Masked FlagOp.effect state' := by
  induction run with
  | nil => exact masked
  | cons first _ inductionHypothesis =>
      have clear := FlagEvent.toEvent_clear fun path same =>
        quiet path (same ▸ List.mem_cons_self ..)
      exact inductionHypothesis (masked.step clear first)
        fun path member => quiet path (List.mem_cons_of_mem _ member)

/-- While no `SYS_SPAWN` gets as far as `copy_to_user`, the heap and the
process list are only touched with interrupts off, whatever the threads
and the devices do. -/
theorem interruptsOff_run [DecidableEq Thread] {thread : Thread}
    {state state' : State FlagOp Thread}
    {events : List (FlagEvent Thread)} {op : FlagOp}
    (run : Run FlagStep (userState thread) events state)
    (quiet : ∀ path, .syscall path ∈ events → path.isQuiet = true)
    (step : FlagStep state (.perform op) state')
    (uses : op.effect = .use) : state.enabled = false := by
  have masked := FlagStep.masked_run (userState_masked thread) run quiet
  exact masked.perform step (by rw [uses]; rfl)

/-- The only thread has begun one call. -/
def inCall (enabled : Bool) (ops : List FlagOp) : State FlagOp Unit where
  enabled := enabled
  current := ()
  calls := fun _ => [⟨ops, true⟩]

theorem userState_calls (path : SyscallPath) :
    FlagStep (userState ()) (.syscall path)
      (inCall false (syscallOps path)) :=
  .call rfl

theorem inCall_performs {enabled : Bool} {op : FlagOp} {ops : List FlagOp}
    (stays : op.effect ≠ .yield) :
    FlagStep (inCall enabled (op :: ops)) (.perform op)
      (inCall (op.effect.after enabled) ops) :=
  .perform rfl stays

/-- A read allocates its buffer with interrupts off. -/
theorem sampleRead_interruptsOff :
    ∃ state state' : State FlagOp Unit,
      Run FlagStep (userState ()) [.syscall (.read .done)] state ∧
      FlagStep state (.perform .kmalloc) state' ∧
      state.enabled = false := by
  have run : Run FlagStep (userState ()) [.syscall (.read .done)]
      (inCall false [.kmalloc, .kfree]) :=
    .cons (userState_calls _) .nil
  have step : FlagStep (inCall false [.kmalloc, .kfree])
      (.perform .kmalloc) (inCall false [.kfree]) :=
    inCall_performs (by decide)
  refine ⟨_, _, run, step, interruptsOff_run run ?_ step rfl⟩
  intro path member
  simp only [List.mem_singleton, FlagEvent.syscall.injEq] at member
  rw [member]
  rfl

/-- `SYS_SPAWN` frees the argument block with interrupts on. -/
theorem sampleSpawn_interruptsOn :
    ¬ ∀ (thread : Unit) (state state' : State FlagOp Unit)
        (events : List (FlagEvent Unit)) (op : FlagOp),
      Run FlagStep (userState thread) events state →
      FlagStep state (.perform op) state' →
      op.effect = .use → state.enabled = false := by
  intro claim
  have run : Run FlagStep (userState ())
      [.syscall (.spawn (.create .created)), .perform .kmalloc,
        .perform .kmalloc, .perform .kfree, .perform .kmalloc,
        .perform .kmalloc, .perform .cli, .perform .sti]
      (inCall true [.kfree, .listChange]) :=
    .cons (userState_calls _) (.cons (inCall_performs (by decide))
      (.cons (inCall_performs (by decide))
        (.cons (inCall_performs (by decide))
          (.cons (inCall_performs (by decide))
            (.cons (inCall_performs (by decide))
              (.cons (inCall_performs (by decide))
                (.cons (inCall_performs (by decide)) .nil)))))))
  have free : FlagStep (inCall true [.kfree, .listChange])
      (.perform .kfree) (inCall true [.listChange]) :=
    inCall_performs (by decide)
  have off := claim () _ _ _ _ run free rfl
  simp [inCall] at off

end LoafOs
