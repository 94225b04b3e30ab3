import LoafOs.Multi.ProcessStates

/-!
# Invariants of runs

A property that every kind of step keeps, where the steps meet a condition,
holds after every run of such steps.
-/

namespace LoafOs

open Links Runs

namespace Machine

variable {m m' mid : Machine} {nodes nodes' : List Nat} {p q pid count : Nat}
  {label : Label} {labels : List Label}

/-- A step that meets a condition. -/
def StepWith (cond : Machine → Label → Prop) (m : Machine) (label : Label)
    (m' : Machine) : Prop :=
  Step m label m' ∧ cond m label

theorem StepWith.forgets {cond : Machine → Label → Prop}
    (run : Run (StepWith cond) m labels m') : Run Step m labels m' :=
  run.mono fun _ _ _ step => step.1

/-- The steps that meet `cond` keep `holds`, which may depend on the list
and on the number of processes created so far. -/
structure Keeps (cond : Machine → Label → Prop)
    (holds : Machine → List Nat → Nat → Prop) : Prop where
  scheduled : ∀ {m mid nodes count label next}, m.Ok nodes →
    m.Numbered nodes count → holds m nodes count → m.Enabled label →
    cond m label → Mid m nodes label mid → mid.Core nodes →
    MayGo mid nodes next → holds (mid.goTo next) nodes count
  direct : ∀ {m m' nodes nodes' count label}, m.Ok nodes →
    m.Numbered nodes count → holds m nodes count → m.Enabled label →
    cond m label → Direct m nodes label m' nodes' →
    isSpawn label = false → holds m' nodes' count
  spawn : ∀ {m nodes count child}, m.Ok nodes → m.Numbered nodes count →
    holds m nodes count → m.Created child → count ≤ 2 ^ 32 →
    holds (m.sysSpawn child) (child.addr :: nodes) (count + 1)

/-- One step: the invariant and the numbers of the processes. -/
theorem Keeps.step {cond : Machine → Label → Prop}
    {holds : Machine → List Nat → Nat → Prop} (keeps : Keeps cond holds)
    (ok : m.Ok nodes) (numbered : m.Numbered nodes count)
    (positive : 1 ≤ count) (start : holds m nodes count)
    (step : StepWith cond m label m')
    (few : isSpawn label = true → count ≤ 2 ^ 32) :
    ∃ nodes', m'.Ok nodes' ∧
      m'.Numbered nodes' (count + if isSpawn label then 1 else 0) ∧
      holds m' nodes' (count + if isSpawn label then 1 else 0) := by
  have fresh : ∀ child, label = .call (.spawn child) →
      m.FreshPid nodes := by
    rintro child rfl
    exact numbered.fresh (few rfl)
  obtain ⟨nodes', ok', ⟨before, next, isMid, may, rfl, rfl⟩ | direct⟩ :=
    ok.step step.1 fresh
  · have notSpawn : isSpawn label = false := by
      cases isMid <;> rfl
    obtain ⟨core, _, _⟩ := ok.beforeSchedule isMid
    rw [notSpawn]
    exact ⟨_, ok', ((mid_steady isMid).goTo next).numbered
      (fun _ member => member) numbered,
      keeps.scheduled ok numbered start step.1.enabled step.2 isMid core may⟩
  · cases spawns : isSpawn label with
    | false =>
        obtain ⟨steady, inside⟩ := ok.direct_steady direct spawns
        exact ⟨nodes', ok', steady.numbered inside numbered,
          keeps.direct ok numbered start step.1.enabled step.2 direct spawns⟩
    | true =>
        cases direct with
        | @spawn child created =>
            exact ⟨_, ok', numbered.spawn ok.core positive created,
              keeps.spawn ok numbered start created (few rfl)⟩
        | _ => simp [isSpawn] at spawns

/-- A run of fewer than 2^32 spawns. -/
theorem Keeps.run {cond : Machine → Label → Prop}
    {holds : Machine → List Nat → Nat → Prop} (keeps : Keeps cond holds)
    (ok : m.Ok nodes) (numbered : m.Numbered nodes count)
    (positive : 1 ≤ count) (start : holds m nodes count)
    (run : Run (StepWith cond) m labels m')
    (few : count + labels.countP isSpawn ≤ 2 ^ 32 + 1) :
    ∃ nodes' count', m'.Ok nodes' ∧ m'.Numbered nodes' count' ∧
      holds m' nodes' count' := by
  induction run generalizing nodes count with
  | nil => exact ⟨nodes, count, ok, numbered, start⟩
  | @cons m mid _ label labels first _ inductionHypothesis =>
      rw [List.countP_cons] at few
      obtain ⟨nodes', ok', numbered', held⟩ :=
        keeps.step ok numbered positive start first
          fun spawns => by rw [if_pos spawns] at few; omega
      exact inductionHypothesis ok' numbered' (by omega) held (by omega)

/-- Every run of the kernel from boot. -/
theorem Keeps.boot {cond : Machine → Label → Prop}
    {holds : Machine → List Nat → Nat → Prop} (keeps : Keeps cond holds)
    (booted : m.Booted) (start : holds m [m.curr] 2)
    (run : Run (StepWith cond) m labels m')
    (few : labels.countP isSpawn < 2 ^ 32) :
    ∃ nodes' count', m'.Ok nodes' ∧ m'.Numbered nodes' count' ∧
      holds m' nodes' count' :=
  keeps.run booted.ok booted.numbered (by decide) start run (by omega)

end Machine

end LoafOs
