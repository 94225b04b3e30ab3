import LoafOs.Multi.Execute

/-!
# The idle process

`pick_next` looks for a process that is ready while the caller still counts
as running, so a caller that is the only one to run loses the processor to
the idle process.
-/

namespace LoafOs

open Runs

namespace Tasks

variable {tasks : Tasks} {nodes : List Nat}

/-- The scheduler as it stands after boot, with any process list. -/
structure AfterBoot (tasks : Tasks) (nodes : List Nat) : Prop where
  listed : tasks.Listed nodes
  idle : tasks.Idle nodes
  enabled : tasks.schedulerReady = true
  current : tasks.currProc ∈ nodes ∨ tasks.currProc = tasks.idleProc

/-- A call of `schedule` gives the processor to the idle process only if
nothing else can run; a lone runnable process keeps it. -/
structure IdleLast (tasks : Tasks) (nodes : List Nat) : Prop where
  becomes : ∀ tasks', tasks.schedule = some tasks' →
    tasks'.currProc = tasks.idleProc → tasks.currProc ≠ tasks.idleProc →
      (∀ node ∈ nodes, tasks.stateOf node ≠ .ready) ∧
        tasks.stateOf tasks.currProc ≠ .running
  lone : ∀ tasks', tasks.schedule = some tasks' →
    tasks.stateOf tasks.currProc = .running →
      (∀ node ∈ nodes, tasks.stateOf node ≠ .ready) →
        tasks'.currProc = tasks.currProc

/-- The caller is the idle process or does not run on, or another process
is ready. -/
def GivesWay (tasks : Tasks) (nodes : List Nat) : Prop :=
  tasks.currProc = tasks.idleProc ∨
    tasks.stateOf tasks.currProc ≠ .running ∨
      ∃ node ∈ nodes, tasks.stateOf node = .ready

instance (tasks : Tasks) (nodes : List Nat) :
    Decidable (tasks.GivesWay nodes) :=
  inferInstanceAs (Decidable (_ ∨ _ ∨ _))

/-- Who is current after a call. -/
theorem AfterBoot.scheduled (afterBoot : tasks.AfterBoot nodes) :
    ∃ tasks', tasks.schedule = some tasks' ∧
      ((tasks'.currProc ∈ nodes ∧
          tasks.stateOf tasks'.currProc = .ready) ∨
        (tasks'.currProc = tasks.idleProc ∧
          ∀ node ∈ nodes, tasks.stateOf node ≠ .ready)) := by
  obtain ⟨next, selects, scheduled⟩ := schedule_selects afterBoot.listed
    afterBoot.idle afterBoot.enabled afterBoot.current
  refine ⟨_, scheduled, ?_⟩
  have isNext : (if next = tasks.currProc then tasks
      else tasks.switchTo next).currProc = next := by
    split
    case isTrue same => exact same.symm
    case isFalse => rfl
  rw [isNext]
  exact selects.choice

theorem AfterBoot.givesWay (afterBoot : tasks.AfterBoot nodes)
    (idleLast : tasks.IdleLast nodes) : tasks.GivesWay nodes := by
  obtain ⟨tasks', scheduled, choice⟩ := afterBoot.scheduled
  by_contra stays
  unfold GivesWay at stays
  push Not at stays
  obtain ⟨program, running, noneReady⟩ := stays
  have same := idleLast.lone tasks' scheduled running noneReady
  rcases choice with ⟨member, ready⟩ | ⟨isIdle, _⟩
  · exact noneReady _ member ready
  · exact program (same.symm.trans isIdle)

theorem AfterBoot.idleLast (afterBoot : tasks.AfterBoot nodes)
    (givesWay : tasks.GivesWay nodes) : tasks.IdleLast nodes := by
  obtain ⟨after, scheduled, choice⟩ := afterBoot.scheduled
  constructor
  · intro tasks' scheduled' isIdle program
    obtain rfl := Option.some.inj (scheduled.symm.trans scheduled')
    rcases choice with ⟨member, _⟩ | ⟨_, noneReady⟩
    · rw [isIdle] at member
      exact absurd member afterBoot.idle.unlisted
    · refine ⟨noneReady, ?_⟩
      rcases givesWay with already | stopped | ⟨node, member, ready⟩
      · exact absurd already program
      · exact stopped
      · exact absurd ready (noneReady node member)
  · intro tasks' scheduled' running noneReady
    obtain rfl := Option.some.inj (scheduled.symm.trans scheduled')
    rcases choice with ⟨member, ready⟩ | ⟨isIdle, _⟩
    · exact absurd ready (noneReady _ member)
    · rcases givesWay with already | stopped | ⟨node, member, ready⟩
      · exact isIdle.trans already.symm
      · exact absurd running stopped
      · exact absurd ready (noneReady node member)

end Tasks

namespace Machine

variable {m before mid : Machine} {nodes : List Nat} {label : Label}

/-- Every call of `schedule` is made in a state like that. -/
theorem Ok.afterBoot (ok : before.Ok nodes)
    (isMid : Mid before nodes label mid) : mid.tasks.AfterBoot nodes := by
  have core := (ok.beforeSchedule isMid).1
  exact ⟨core.listed, core.idle, core.enabled, core.curr⟩

end Machine

open Machine Tasks

/-- On any process list the idle process comes last exactly when the caller
gives way; so it does in a run from boot, in every call of `schedule` that
meets this condition and in no other. -/
theorem idleLast_iff (tasks : Tasks) (nodes : List Nat)
    (m before : Machine) (labels : List Label) :
    (tasks.AfterBoot nodes →
      (tasks.IdleLast nodes ↔ tasks.GivesWay nodes)) ∧
    (m.Booted → Run Step m labels before →
      labels.countP isSpawn < 2 ^ 32 →
        ∃ nodes, before.tasks.Listed nodes ∧
          ∀ label mid, Mid before nodes label mid →
            (mid.tasks.IdleLast nodes ↔ mid.tasks.GivesWay nodes)) := by
  constructor
  · intro afterBoot
    exact ⟨afterBoot.givesWay, afterBoot.idleLast⟩
  · intro booted run few
    obtain ⟨nodes, ok⟩ := booted.ok.run booted.numbered (by decide) run
      (by omega)
    refine ⟨nodes, ok.core.listed, ?_⟩
    intro label mid isMid
    have afterBoot := ok.afterBoot isMid
    exact ⟨afterBoot.givesWay, afterBoot.idleLast⟩

theorem sampleBoot_idleLast :
    ∃ nodes, Machine.sampleBoot.tasks.Listed nodes ∧
      ∀ label mid, Mid Machine.sampleBoot nodes label mid →
        (mid.tasks.IdleLast nodes ↔ mid.tasks.GivesWay nodes) :=
  (idleLast_iff Machine.sampleBoot.tasks [0x1000] Machine.sampleBoot
    Machine.sampleBoot []).2 sampleBoot_booted .nil (by decide)

/-- The first tick after boot takes the processor from `init`, which is the
only process. -/
theorem initAlone_preempted :
    Machine.sampleBoot.Booted ∧
      ∃ mid, Mid Machine.sampleBoot [0x1000] .tick mid ∧
        ¬mid.tasks.IdleLast [0x1000] := by
  refine ⟨sampleBoot_booted, _, .tick, ?_⟩
  intro idleLast
  have afterBoot := sampleBoot_booted.ok.afterBoot .tick
  have givesWay := afterBoot.givesWay idleLast
  revert givesWay
  decide +kernel

end LoafOs
