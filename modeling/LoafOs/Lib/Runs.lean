import Mathlib.Init

/-!
# Runs of a transition system

A system is a step relation between states, labelled by what happens in the
step.  A property that every step preserves holds after every run, also
when it is only preserved by the steps of runs that meet a condition.
-/

namespace Runs

universe u v

variable {State : Type u} {Label : Type v}

/-- A finite sequence of steps between two states. -/
inductive Run (step : State → Label → State → Prop) :
    State → List Label → State → Prop
  | nil {state : State} : Run step state [] state
  | cons {state state' state'' : State} {label : Label}
      {labels : List Label} (first : step state label state')
      (rest : Run step state' labels state'') :
      Run step state (label :: labels) state''

variable {step step' : State → Label → State → Prop}
  {state state' state'' : State} {labels labels' : List Label}

theorem Run.append (left : Run step state labels state')
    (right : Run step state' labels' state'') :
    Run step state (labels ++ labels') state'' := by
  induction left with
  | nil => exact right
  | cons first _ inductionHypothesis =>
      exact .cons first (inductionHypothesis right)

theorem Run.mono (run : Run step state labels state')
    (weaker : ∀ before label after, step before label after →
      step' before label after) : Run step' state labels state' := by
  induction run with
  | nil => exact .nil
  | cons first _ inductionHypothesis =>
      exact .cons (weaker _ _ _ first) inductionHypothesis

/-- What every step preserves holds at the end of a run. -/
theorem Run.invariant (run : Run step state labels state')
    (invariant : State → Prop)
    (preserved : ∀ before label after, invariant before →
      step before label after → invariant after)
    (start : invariant state) : invariant state' := by
  induction run with
  | nil => exact start
  | cons first _ inductionHypothesis =>
      exact inductionHypothesis (preserved _ _ _ start first)

/-- Either all steps of a run meet a condition, or there is a first step
that does not. -/
theorem Run.all_or_first (run : Run step state labels state')
    (good : State → Label → Prop) :
    Run (fun before label after => step before label after ∧
        good before label) state labels state' ∨
      ∃ before label after earlier later,
        Run (fun before label after => step before label after ∧
          good before label) state earlier before ∧
        step before label after ∧ ¬ good before label ∧
        Run step after later state' := by
  induction run with
  | nil => exact .inl .nil
  | @cons state state₁ state₂ label labels first rest inductionHypothesis =>
      by_cases meets : good state label
      · rcases inductionHypothesis with all | found
        · exact .inl (.cons ⟨first, meets⟩ all)
        · obtain ⟨before, bad, after, earlier, later, good', rest'⟩ := found
          exact .inr ⟨before, bad, after, label :: earlier, later,
            .cons ⟨first, meets⟩ good', rest'⟩
      · exact .inr ⟨state, label, state₁, [], labels, .nil, first, meets,
          rest⟩

end Runs
