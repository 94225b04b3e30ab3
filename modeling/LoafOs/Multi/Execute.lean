import LoafOs.Fs.FatRun
import LoafOs.Multi.MachineRun

/-!
# Running the machine

`execute` computes the end of a run, and whether every step of it may
happen.
-/

namespace LoafOs

open Links Runs

theorem path_of_listFrom {next : Nat → Nat} {fuel head : Nat}
    {nodes : List Nat} (done : listFrom next fuel head = some nodes) :
    Path next (· = 0) head nodes := by
  induction fuel generalizing head nodes with
  | zero =>
      rw [listFrom] at done
      split at done
      case isTrue zero =>
        rw [← Option.some.inj done]
        exact .done zero
      case isFalse => simp at done
  | succ fuel inductionHypothesis =>
      rw [listFrom] at done
      split at done
      case isTrue zero =>
        rw [← Option.some.inj done]
        exact .done zero
      case isFalse going =>
        obtain ⟨rest, found, same⟩ := Option.map_eq_some_iff.mp done
        rw [← same]
        exact .more going (inductionHypothesis found)

namespace Machine

variable {m m' : Machine} {label : Label} {labels : List Label}

/-- `Created`, computed. -/
def mayCreate (m : Machine) (child : Process) : Bool :=
  (match listFrom m.tasks.next listFuel m.tasks.procList with
    | none => false
    | some nodes => child.addr ∉ nodes) &&
  decide (child.addr ≠ 0 ∧ child.addr < listFuel ∧
    child.addr ≠ m.tasks.idleProc ∧ child.addr ≠ m.curr ∧
    child.pid = m.nextPid ∧ child.targetPid = noPid ∧
    child.fds = List.replicate maxFdsPerProc (-1) ∧ child.exitCode = -1 ∧
    child.state = .ready ∧ child.block = .none ∧ child.cleanedUp = false ∧
    child.image.pdPhys ≠ 0 ∧ child.kstack ≠ 0)

/-- `Enabled`, computed. -/
def allows (m : Machine) : Label → Bool
  | .tick => m.pending m.curr = .none
  | .key _ => m.pending m.curr = .none
  | .fault => m.pending m.curr = .none ∧ m.curr ≠ m.tasks.idleProc
  | .call (.spawn child) =>
      decide (m.pending m.curr = .none ∧ m.curr ≠ m.tasks.idleProc) &&
        m.mayCreate child
  | .call _ => m.pending m.curr = .none ∧ m.curr ≠ m.tasks.idleProc
  | .resume => m.pending m.curr ≠ .none

def execute : List Label → Machine → Option Machine
  | [], m => some m
  | label :: labels, m =>
      if m.allows label then (m.next label).bind (execute labels) else none

theorem mayCreate_created {child : Process}
    (may : m.mayCreate child = true) : m.Created child := by
  rw [mayCreate, Bool.and_eq_true] at may
  obtain ⟨fresh, rest⟩ := may
  obtain ⟨nonzero, word, notIdle, notCurr, pid, targetPid, fds, exitCode,
    state, block, cleanedUp, pd, kstack⟩ := of_decide_eq_true rest
  refine ⟨nonzero, word, notIdle, notCurr, fun nodes path => ?_, pid,
    targetPid, fds, exitCode, state, block, cleanedUp, pd, kstack⟩
  split at fresh
  case h_1 => simp at fresh
  case h_2 nodes' found =>
    rw [path.unique (path_of_listFrom found)]
    simpa using fresh

theorem allows_enabled (may : m.allows label = true) : m.Enabled label := by
  cases label with
  | tick => exact .tick (of_decide_eq_true may)
  | key _ => exact .key (of_decide_eq_true may)
  | fault =>
      obtain ⟨user, program⟩ := of_decide_eq_true may
      exact .fault user program
  | resume => exact .resume (of_decide_eq_true may)
  | call call =>
      cases call with
      | spawn child =>
          rw [allows, Bool.and_eq_true] at may
          obtain ⟨user, program⟩ := of_decide_eq_true may.1
          refine .call user program fun other same => ?_
          injection same with same
          exact same ▸ mayCreate_created may.2
      | _ =>
          obtain ⟨user, program⟩ := of_decide_eq_true may
          exact .call user program fun child same => by simp at same

/-- What is computed is a run. -/
theorem run_of_execute (done : execute labels m = some m') :
    Run Step m labels m' := by
  induction labels generalizing m with
  | nil =>
      rw [← Option.some.inj done]
      exact .nil
  | cons label labels inductionHypothesis =>
      rw [execute] at done
      split at done
      case isTrue may =>
        obtain ⟨mid, first, rest⟩ := Option.bind_eq_some_iff.mp done
        exact .cons ⟨allows_enabled may, first⟩ (inductionHypothesis rest)
      case isFalse => simp at done

/-- `execute`, where each step also passes a check. -/
def executeWith (check : Machine → Label → Bool) :
    List Label → Machine → Option Machine
  | [], m => some m
  | label :: labels, m =>
      if m.allows label && check m label then
        (m.next label).bind (executeWith check labels)
      else none

theorem run_of_executeWith {check : Machine → Label → Bool}
    {cond : Machine → Label → Prop}
    (sound : ∀ m label, check m label = true → cond m label)
    (done : executeWith check labels m = some m') :
    Run (StepWith cond) m labels m' := by
  induction labels generalizing m with
  | nil =>
      rw [← Option.some.inj done]
      exact .nil
  | cons label labels inductionHypothesis =>
      rw [executeWith] at done
      split at done
      case isTrue may =>
        rw [Bool.and_eq_true] at may
        obtain ⟨mid, first, rest⟩ := Option.bind_eq_some_iff.mp done
        exact .cons ⟨⟨allows_enabled may.1, first⟩, sound m label may.2⟩
          (inductionHypothesis rest)
      case isFalse => simp at done

/-! The kernel after boot, with `init` at 0x1000 and the idle process at
0x2000, and processes for it to start. -/

/-- A process as `process_create` returns it. -/
def sampleNew (addr pid : Nat) : Process :=
  { Tasks.sampleProc pid .ready with
    addr
    image := ⟨addr + 0x10000, 0, 0, 0, 0, 0⟩
    kstack := addr + 0x20000 }

def sampleBoot : Machine where
  tasks :=
    { procs := fun addr =>
        if addr = 0x1000 then { sampleNew 0x1000 1 with state := .running }
        else sampleNew addr 0
      next := fun _ => 0
      procList := 0x1000
      currProc := 0x1000
      idleProc := 0x2000
      schedulerReady := true }
  nextPid := 2
  tickCount := 0
  kbd := ⟨fun _ => 0, 0, 0, false⟩
  files := ⟨sampleVolume, fun _ => ⟨false, [], 0, 0, false⟩⟩
  pending := fun _ => .none
  events := [.created 1 0x11000 0x21000]

theorem sampleBoot_booted : sampleBoot.Booted := by
  refine ⟨⟨rfl, rfl⟩, ⟨by decide, by decide⟩,
    ⟨by decide, by decide, rfl⟩, rfl, by decide, by decide,
    ⟨by decide, rfl⟩, by decide, by decide, ⟨by decide, by decide⟩,
    fun _ => rfl, ⟨rfl, rfl⟩, by decide⟩

/-- `init` starts a process and waits for it; the timer interrupts it before
it exits. -/
def sampleWait : List Label :=
  [.call (.spawn (sampleNew 0x3000 2)), .call (.wait 2), .tick, .tick,
    .call (.exit 7), .resume]

end Machine

end LoafOs
