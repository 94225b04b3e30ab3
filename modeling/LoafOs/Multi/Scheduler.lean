import LoafOs.Lib.Links
import LoafOs.Multi.Process

/-!
# The process list and the scheduler

`src/multi/scheduler.c`, and the list functions of `src/multi/process.c`.
A pointer to a `process_t` is its address, with 0 for `NULL`; the `next`
fields are kept as a table of their own.
-/

namespace LoafOs

/-- The global variables of the scheduler and the structures that they
point to. -/
structure Tasks where
  procs : Nat → Process
  next : Nat → Nat
  procList : Nat
  currProc : Nat
  idleProc : Nat
  schedulerReady : Bool

/-- Fuel for the loops over the process list: the number of addresses. -/
def listFuel : Nat := 2 ^ 32

/-- The nodes that `for (p = head; p; p = p->next)` visits; `none` when the
list does not end within the fuel. -/
def listFrom (next : Nat → Nat) : Nat → Nat → Option (List Nat)
  | 0, head => if head = 0 then some [] else none
  | fuel + 1, head =>
      if head = 0 then some []
      else (listFrom next fuel (next head)).map (head :: ·)

namespace Tasks

/-- The state of the process at an address. -/
def stateOf (tasks : Tasks) (proc : Nat) : ProcState :=
  (tasks.procs proc).state

/-- Some fields of the process at an address are assigned. -/
def setProc (tasks : Tasks) (proc : Nat) (change : Process → Process) :
    Tasks :=
  { tasks with
    procs := Function.update tasks.procs proc (change (tasks.procs proc)) }

/-- `proc->state = state`. -/
def setState (tasks : Tasks) (proc : Nat) (state : ProcState) : Tasks :=
  tasks.setProc proc fun fields => { fields with state }

/-- `scheduler_add`. -/
def schedulerAdd (tasks : Tasks) (proc : Nat) : Tasks :=
  { tasks with
    next := Function.update tasks.next proc tasks.procList
    procList := proc }

/-- `p->next ? p->next : proc_list`. -/
def following (tasks : Tasks) (proc : Nat) : Nat :=
  if tasks.next proc = 0 then tasks.procList else tasks.next proc

/-- The loop of `pick_next` at `p`; the result is 0 when it breaks. -/
def pickFrom (tasks : Tasks) (start : Nat) : Nat → Nat → Option Nat
  | 0, _ => none
  | fuel + 1, p =>
      if p = 0 then some 0
      else if tasks.stateOf p = .ready then some p
      else if tasks.following p = start then some 0
      else tasks.pickFrom start fuel (tasks.following p)

/-- `pick_next`; a missing `idle_proc` is a panic. -/
def pickNext (tasks : Tasks) : Option Nat := do
  if tasks.currProc = 0 then
    return if tasks.procList = 0 then tasks.idleProc else tasks.procList
  let start := tasks.following tasks.currProc
  let found ← tasks.pickFrom start listFuel start
  if found ≠ 0 then
    return found
  if tasks.idleProc = 0 then none else some tasks.idleProc

/-- The running process gives way to `next`. -/
def switchTo (tasks : Tasks) (next : Nat) : Tasks :=
  let prev := tasks.currProc
  let tasks :=
    if prev ≠ 0 ∧ tasks.stateOf prev = .running then
      tasks.setState prev .ready
    else tasks
  { tasks with currProc := next }.setState next .running

/-- `schedule`; control goes to the new `curr_proc`. -/
def schedule (tasks : Tasks) : Option Tasks := do
  if ¬ tasks.schedulerReady then
    return tasks
  let next ← tasks.pickNext
  if next = tasks.currProc then
    return tasks
  return tasks.switchTo next

/-- `process_find`; the result is 0 when no process has the number. -/
def processFind (tasks : Tasks) (pid : Nat) : Option Nat := do
  let nodes ← listFrom tasks.next listFuel tasks.procList
  return (nodes.find? fun node => (tasks.procs node).pid = pid).getD 0

/-- `proc_unlink`. -/
def procUnlink (tasks : Tasks) (proc : Nat) : Option Tasks := do
  if tasks.procList = proc then
    return { tasks with procList := tasks.next proc }
  let nodes ← listFrom tasks.next listFuel tasks.procList
  match nodes.find? fun node => tasks.next node = proc with
  | none => return tasks
  | some node =>
      return { tasks with
        next := Function.update tasks.next node (tasks.next proc) }

/-! ## Assignments -/

section Assignments

variable {tasks : Tasks} {proc next node : Nat}
  {change : Process → Process} {state : ProcState}

@[simp]
theorem setProc_same :
    (tasks.setProc proc change).procs proc = change (tasks.procs proc) :=
  Function.update_self ..

theorem setProc_other (different : node ≠ proc) :
    (tasks.setProc proc change).procs node = tasks.procs node :=
  Function.update_of_ne different ..

@[simp]
theorem setState_same : (tasks.setState proc state).stateOf proc = state := by
  rw [stateOf, setState, setProc_same]

theorem setState_other (different : node ≠ proc) :
    (tasks.setState proc state).stateOf node = tasks.stateOf node := by
  rw [stateOf, setState, setProc_other different, stateOf]

theorem switchTo_curr : (tasks.switchTo next).currProc = next := rfl

theorem switchTo_links :
    (tasks.switchTo next).next = tasks.next ∧
      (tasks.switchTo next).procList = tasks.procList ∧
      (tasks.switchTo next).idleProc = tasks.idleProc ∧
      (tasks.switchTo next).schedulerReady = tasks.schedulerReady := by
  rw [switchTo]
  split <;> exact ⟨rfl, rfl, rfl, rfl⟩

theorem switchTo_next : (tasks.switchTo next).stateOf next = .running :=
  setState_same

theorem switchTo_other (notNext : node ≠ next)
    (notCurr : node ≠ tasks.currProc) :
    (tasks.switchTo next).stateOf node = tasks.stateOf node := by
  rw [switchTo, setState_other notNext]
  split
  case isTrue => exact setState_other notCurr
  case isFalse => rfl

end Assignments

end Tasks

end LoafOs
