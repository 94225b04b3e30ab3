import LoafOs.Lib.Runs

/-!
# Operations under an interrupt flag

Threads run paths of operations on one processor.  A call from user mode or
an interrupt starts a new path with the flag clear and restores the flag
when it is over; an operation may set the flag, clear it, use what handlers
use too, or give the processor to another thread.
-/

namespace Interrupts

open Runs

universe u v

/-- What an operation means for the flag. -/
inductive Effect where
  | use
  | mask
  | unmask
  | yield
  | none
  deriving DecidableEq, Repr

/-- The flag after an operation. -/
def Effect.after (enabled : Bool) : Effect → Bool
  | .mask => false
  | .unmask => true
  | .use => enabled
  | .yield => enabled
  | .none => enabled

/-- An operation that must not be interrupted. -/
def Effect.isGuarded : Effect → Bool
  | .use => true
  | .yield => true
  | .mask => false
  | .unmask => false
  | .none => false

variable {Op : Type u} {Thread : Type v}

/-- Along the path every guarded operation finds the flag clear. -/
def clearPath (effect : Op → Effect) (enabled : Bool) : List Op → Bool
  | [] => true
  | op :: ops =>
      !((effect op).isGuarded && enabled) &&
        clearPath effect ((effect op).after enabled) ops

/-- A path that has begun, with the flag that it restores. -/
structure Activation (Op : Type u) where
  ops : List Op
  restore : Bool

/-- The flag, the thread that runs and what each thread has begun, the
innermost path first; a thread in user mode has begun nothing. -/
structure State (Op : Type u) (Thread : Type v) where
  enabled : Bool
  current : Thread
  calls : Thread → List (Activation Op)

/-- The calls of one thread change. -/
def setCalls [DecidableEq Thread] (calls : Thread → List (Activation Op))
    (thread : Thread) (value : List (Activation Op)) :
    Thread → List (Activation Op) :=
  fun other => if other = thread then value else calls other

inductive Event (Op : Type u) (Thread : Type v) where
  | call (ops : List Op)
  | interrupt (ops : List Op)
  | perform (op : Op)
  | yield (next : Thread)
  | finish

/-- One step of the processor.  A thread that yields goes on after it has
been chosen again, with the flag as it is then. -/
inductive Step [DecidableEq Thread] (effect : Op → Effect) :
    State Op Thread → Event Op Thread → State Op Thread → Prop
  | call {state : State Op Thread} {ops : List Op}
      (user : state.calls state.current = []) :
      Step effect state (.call ops)
        { state with
          enabled := false
          calls := setCalls state.calls state.current
            [⟨ops, state.enabled⟩] }
  | interrupt {state : State Op Thread} {ops : List Op}
      (enabled : state.enabled = true) :
      Step effect state (.interrupt ops)
        { state with
          enabled := false
          calls := setCalls state.calls state.current
            (⟨ops, true⟩ :: state.calls state.current) }
  | perform {state : State Op Thread} {op : Op} {ops : List Op}
      {restore : Bool} {rest : List (Activation Op)}
      (top : state.calls state.current = ⟨op :: ops, restore⟩ :: rest)
      (stays : effect op ≠ .yield) :
      Step effect state (.perform op)
        { state with
          enabled := (effect op).after state.enabled
          calls := setCalls state.calls state.current
            (⟨ops, restore⟩ :: rest) }
  | yield {state : State Op Thread} {op : Op} {ops : List Op}
      {restore : Bool} {rest : List (Activation Op)} {next : Thread}
      (top : state.calls state.current = ⟨op :: ops, restore⟩ :: rest)
      (yields : effect op = .yield) :
      Step effect state (.yield next)
        { state with
          current := next
          calls := setCalls state.calls state.current
            (⟨ops, restore⟩ :: rest) }
  | finish {state : State Op Thread} {restore : Bool}
      {rest : List (Activation Op)}
      (top : state.calls state.current = ⟨[], restore⟩ :: rest) :
      Step effect state .finish
        { state with
          enabled := restore
          calls := setCalls state.calls state.current rest }

/-- The paths that an event begins are clear. -/
def Event.IsClear (effect : Op → Effect) : Event Op Thread → Prop
  | .call ops => clearPath effect false ops = true
  | .interrupt ops => clearPath effect false ops = true
  | .perform _ => True
  | .yield _ => True
  | .finish => True

/-! ## The invariant -/

/-- The paths of a thread that goes on with this flag are clear, and below
them lies user mode, where the flag is set. -/
def ClearCalls (effect : Op → Effect) (enabled : Bool) :
    List (Activation Op) → Prop
  | [] => enabled = true
  | call :: calls =>
      clearPath effect enabled call.ops = true ∧
        ClearCalls effect call.restore calls

/-- The running thread is clear with the flag as it is, the other ones with
a clear flag. -/
structure Masked (effect : Op → Effect) (state : State Op Thread) : Prop where
  running : ClearCalls effect state.enabled (state.calls state.current)
  waiting : ∀ thread, thread ≠ state.current →
    ClearCalls effect false (state.calls thread)

variable {effect : Op → Effect} {state state' : State Op Thread}
  {event : Event Op Thread} {events : List (Event Op Thread)}
  {enabled : Bool} {op : Op} {ops : List Op} {thread other : Thread}
  {calls : Thread → List (Activation Op)} {value : List (Activation Op)}

theorem setCalls_same [DecidableEq Thread] :
    setCalls calls thread value thread = value :=
  if_pos rfl

theorem setCalls_other [DecidableEq Thread] (different : other ≠ thread) :
    setCalls calls thread value other = calls other :=
  if_neg different

theorem clearPath_cons (clear : clearPath effect enabled (op :: ops) = true) :
    ((effect op).isGuarded = true → enabled = false) ∧
      clearPath effect ((effect op).after enabled) ops = true := by
  rw [clearPath, Bool.and_eq_true] at clear
  refine ⟨fun guarded => ?_, clear.2⟩
  cases enabled with
  | false => rfl
  | true =>
      rw [guarded] at clear
      simp at clear

/-- The running thread changes what it has begun. -/
theorem Masked.change [DecidableEq Thread] (masked : Masked effect state)
    (running : ClearCalls effect enabled value) :
    Masked effect
      { state with
        enabled
        calls := setCalls state.calls state.current value } := by
  refine ⟨?_, fun thread different => ?_⟩
  · simp only [setCalls_same]
    exact running
  · simp only [setCalls_other different]
    exact masked.waiting thread different

/-- Every step keeps the invariant when the paths that it begins are
clear. -/
theorem Masked.step [DecidableEq Thread] (masked : Masked effect state)
    (clear : event.IsClear effect) (step : Step effect state event state') :
    Masked effect state' := by
  have running := masked.running
  cases step with
  | call user =>
      rw [user] at running
      exact masked.change ⟨clear, running⟩
  | interrupt enabled =>
      rw [enabled] at running
      exact masked.change ⟨clear, running⟩
  | perform top stays =>
      rw [top] at running
      exact masked.change ⟨(clearPath_cons running.1).2, running.2⟩
  | finish top =>
      rw [top] at running
      exact masked.change running.2
  | @yield op ops restore rest next top yields =>
      rw [top] at running
      obtain ⟨guarded, later⟩ := clearPath_cons running.1
      have off : state.enabled = false := guarded (by rw [yields]; rfl)
      rw [yields, off] at later
      -- every thread now goes on with a clear flag, the chosen one too
      have all : ∀ thread, ClearCalls effect false
          (setCalls state.calls state.current (⟨ops, restore⟩ :: rest)
            thread) := by
        intro thread
        by_cases same : thread = state.current
        · rw [same, setCalls_same]
          exact ⟨later, running.2⟩
        · rw [setCalls_other same]
          exact masked.waiting thread same
      refine ⟨?_, fun thread _ => all thread⟩
      simp only [off]
      exact all next

/-- When all paths that begin in a run are clear, its guarded operations
find the flag clear. -/
theorem Masked.run [DecidableEq Thread] (masked : Masked effect state)
    (run : Run (Step effect) state events state')
    (clear : ∀ event ∈ events, event.IsClear effect) :
    Masked effect state' := by
  induction run with
  | nil => exact masked
  | cons first _ inductionHypothesis =>
      exact inductionHypothesis
        (masked.step (clear _ (List.mem_cons_self ..)) first)
        fun event member => clear event (List.mem_cons_of_mem _ member)

/-- A guarded operation that is performed finds the flag clear. -/
theorem Masked.perform [DecidableEq Thread] (masked : Masked effect state)
    (step : Step effect state (.perform op) state')
    (guarded : (effect op).isGuarded = true) : state.enabled = false := by
  have running := masked.running
  cases step with
  | perform top stays =>
      rw [top] at running
      exact (clearPath_cons running.1).1 guarded

end Interrupts
