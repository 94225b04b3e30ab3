import LoafOs.Multi.TaskList

/-!
# The invariant of the process state machine

`Core` holds between the parts of a step, `Ok` between steps, when the
current process runs.  Every part keeps `Core`, and `schedule` leads from
`Core` back to `Ok`.
-/

namespace LoafOs

open Links

namespace Machine

variable {m m' : Machine} {nodes : List Nat} {p q pid : Nat}

def stateOf (m : Machine) (p : Nat) : ProcState := m.tasks.stateOf p

def pidOf (m : Machine) (p : Nat) : Nat := (m.tasks.procs p).pid

def blockOf (m : Machine) (p : Nat) : ProcBlock := (m.tasks.procs p).block

def targetOf (m : Machine) (p : Nat) : Nat := (m.tasks.procs p).targetPid

/-- A process and the call of `SYS_WAIT` in which it is suspended. -/
structure Waits (m : Machine) (nodes : List Nat) (p : Nat) : Prop where
  suspended : m.stateOf p = .blocked → m.blockOf p = .pid →
    m.pending p = .wait (m.targetOf p)
  target : ∀ pid, m.pending p = .wait pid → m.stateOf p = .blocked →
    m.blockOf p = .pid ∧ m.targetOf p = pid ∧
      ∃ q ∈ nodes, m.pidOf q = pid ∧ m.stateOf q ≠ .dead
  woken : ∀ pid, m.pending p = .wait pid → m.stateOf p ≠ .blocked →
    m.stateOf p ≠ .dead → ∀ q ∈ nodes, m.pidOf q = pid → m.stateOf q = .dead

/-- The invariant but for the state of the current process. -/
structure Core (m : Machine) (nodes : List Nat) : Prop where
  listed : m.tasks.Listed nodes
  idle : m.tasks.Idle nodes
  enabled : m.tasks.schedulerReady = true
  curr : m.curr ∈ nodes ∨ m.curr = m.tasks.idleProc
  others : ∀ p, p ∈ nodes ∨ p = m.tasks.idleProc → p ≠ m.curr →
    m.stateOf p ≠ .running
  idleState : m.stateOf m.tasks.idleProc = .ready ∨
    m.stateOf m.tasks.idleProc = .running
  idlePending : m.pending m.tasks.idleProc = .none
  pids : ∀ p ∈ nodes, ∀ q ∈ nodes, m.pidOf p = m.pidOf q → p = q
  waits : ∀ p ∈ nodes, m.Waits nodes p

/-- The invariant between two steps. -/
structure Ok (m : Machine) (nodes : List Nat) : Prop where
  core : m.Core nodes
  running : m.stateOf m.curr = .running

/-! ## Changes that the invariant does not see -/

/-- Nothing changes that the scheduling of processes depends on. -/
structure SameTasks (m m' : Machine) : Prop where
  next : m'.tasks.next = m.tasks.next
  procList : m'.tasks.procList = m.tasks.procList
  curr : m'.tasks.currProc = m.tasks.currProc
  idle : m'.tasks.idleProc = m.tasks.idleProc
  enabled : m'.tasks.schedulerReady = m.tasks.schedulerReady
  pending : m'.pending = m.pending
  states : ∀ p, m'.stateOf p = m.stateOf p
  pids : ∀ p, m'.pidOf p = m.pidOf p
  blocks : ∀ p, m'.blockOf p = m.blockOf p
  targets : ∀ p, m'.targetOf p = m.targetOf p

theorem SameTasks.of_eq (tasks : m'.tasks = m.tasks)
    (pending : m'.pending = m.pending) : SameTasks m m' := by
  refine ⟨?_, ?_, ?_, ?_, ?_, pending, fun p => ?_, fun p => ?_,
    fun p => ?_, fun p => ?_⟩ <;>
  · simp only [stateOf, pidOf, blockOf, targetOf, tasks]

theorem SameTasks.trans {m'' : Machine} (left : SameTasks m m')
    (right : SameTasks m' m'') : SameTasks m m'' :=
  ⟨right.next.trans left.next, right.procList.trans left.procList,
    right.curr.trans left.curr, right.idle.trans left.idle,
    right.enabled.trans left.enabled, right.pending.trans left.pending,
    fun p => (right.states p).trans (left.states p),
    fun p => (right.pids p).trans (left.pids p),
    fun p => (right.blocks p).trans (left.blocks p),
    fun p => (right.targets p).trans (left.targets p)⟩

theorem Core.same (core : m.Core nodes) (same : SameTasks m m') :
    m'.Core nodes := by
  refine ⟨core.listed.congr same.next same.procList,
    ⟨?_, ?_, ?_⟩, ?_, ?_, ?_, ?_, ?_, ?_, ?_⟩
  · rw [same.idle]
    exact core.idle.nonzero
  · rw [same.idle]
    exact core.idle.unlisted
  · rw [same.idle, same.next]
    exact core.idle.alone
  · rw [same.enabled]
    exact core.enabled
  · rw [Machine.curr, same.curr, same.idle]
    exact core.curr
  · intro p inside notCurr
    rw [same.idle] at inside
    rw [Machine.curr, same.curr] at notCurr
    rw [same.states]
    exact core.others p inside notCurr
  · rw [same.idle, same.states]
    exact core.idleState
  · rw [same.idle, same.pending]
    exact core.idlePending
  · intro p left q right
    rw [same.pids, same.pids]
    exact core.pids p left q right
  · intro p inside
    have waits := core.waits p inside
    refine ⟨?_, fun pid => ?_, fun pid => ?_⟩
    · rw [same.states, same.blocks, same.targets, same.pending]
      exact waits.suspended
    · simp only [same.states, same.blocks, same.targets, same.pending,
        same.pids]
      exact waits.target pid
    · simp only [same.states, same.pending, same.pids]
      exact waits.woken pid

theorem Ok.same (ok : m.Ok nodes) (same : SameTasks m m') :
    m'.Ok nodes :=
  ⟨ok.core.same same, by
    rw [Machine.curr, same.curr, same.states]
    exact ok.running⟩

/-! ## Switching to another process -/

/-- The processor goes to `next`, or stays. -/
def goTo (m : Machine) (next : Nat) : Machine :=
  if next = m.curr then m else m.setTasks (m.tasks.switchTo next)

theorem goTo_curr (next : Nat) : (m.goTo next).curr = next := by
  rw [goTo]
  split
  case isTrue same => exact same.symm
  case isFalse => rfl

theorem goTo_pending (next : Nat) : (m.goTo next).pending = m.pending := by
  rw [goTo]
  split <;> rfl

/-- The fields that a switch leaves alone. -/
theorem goTo_fields (next p : Nat) :
    (m.goTo next).pidOf p = m.pidOf p ∧
      (m.goTo next).blockOf p = m.blockOf p ∧
      (m.goTo next).targetOf p = m.targetOf p := by
  rw [goTo]
  split
  case isTrue => exact ⟨rfl, rfl, rfl⟩
  case isFalse =>
    simp only [pidOf, blockOf, targetOf, setTasks, Tasks.switchTo_procs,
      and_self]

theorem goTo_links (next : Nat) :
    (m.goTo next).tasks.next = m.tasks.next ∧
      (m.goTo next).tasks.procList = m.tasks.procList ∧
      (m.goTo next).tasks.idleProc = m.tasks.idleProc ∧
      (m.goTo next).tasks.schedulerReady = m.tasks.schedulerReady := by
  rw [goTo]
  split
  case isTrue => exact ⟨rfl, rfl, rfl, rfl⟩
  case isFalse => exact Tasks.switchTo_links

/-- What the selected process and the state of the current one allow. -/
structure MayGo (m : Machine) (nodes : List Nat) (next : Nat) : Prop where
  selects : m.tasks.Selects nodes next
  yields : m.stateOf m.curr ≠ .ready
  idleRuns : m.curr = m.tasks.idleProc →
    m.stateOf m.tasks.idleProc = .running

theorem MayGo.awake (core : m.Core nodes) {next : Nat}
    (may : MayGo m nodes next) :
    m.stateOf next = .ready ∨ m.stateOf next = .running := by
  rcases may.selects.choice with ⟨_, ready⟩ | ⟨rfl, _⟩
  · exact .inl ready
  · exact core.idleState

/-- A switch turns ready processes into running ones and back. -/
theorem goTo_state (core : m.Core nodes) {next : Nat}
    (may : MayGo m nodes next) (p : Nat) :
    (m.goTo next).stateOf p = m.stateOf p ∨
      ((m.stateOf p = .ready ∨ m.stateOf p = .running) ∧
        ((m.goTo next).stateOf p = .ready ∨
          (m.goTo next).stateOf p = .running)) := by
  rw [goTo]
  split
  case isTrue => exact .inl rfl
  case isFalse =>
    have after : (m.setTasks (m.tasks.switchTo next)).stateOf p =
        m.tasks.stateAfter next p := by
      rw [stateOf, Tasks.stateOf, setTasks, Tasks.switchTo_procs]
    rw [after, Tasks.stateAfter]
    split
    case isTrue same =>
      subst same
      exact .inr ⟨may.awake core, .inr rfl⟩
    case isFalse =>
      split
      case isTrue gave => exact .inr ⟨.inr gave.2.1, .inl rfl⟩
      case isFalse => exact .inl rfl

theorem goTo_blocked (core : m.Core nodes) {next : Nat}
    (may : MayGo m nodes next) (p : Nat) :
    (m.goTo next).stateOf p = .blocked ↔ m.stateOf p = .blocked := by
  rcases goTo_state core may p with same | ⟨before | before, after | after⟩
  · rw [same]
  all_goals simp [before, after]

theorem goTo_dead (core : m.Core nodes) {next : Nat}
    (may : MayGo m nodes next) (p : Nat) :
    (m.goTo next).stateOf p = .dead ↔ m.stateOf p = .dead := by
  rcases goTo_state core may p with same | ⟨before | before, after | after⟩
  · rw [same]
  all_goals simp [before, after]

theorem goTo_running {next : Nat}
    (may : MayGo m nodes next) : (m.goTo next).stateOf next = .running := by
  rw [goTo]
  split
  case isTrue same =>
    rcases may.selects.choice with ⟨_, ready⟩ | ⟨isIdle, _⟩
    · subst same
      exact absurd ready may.yields
    · rw [isIdle]
      exact may.idleRuns (same ▸ isIdle)
  case isFalse => exact Tasks.switchTo_next

theorem goTo_others (core : m.Core nodes) {next : Nat} (p : Nat)
    (inside : p ∈ nodes ∨ p = m.tasks.idleProc) (different : p ≠ next) :
    (m.goTo next).stateOf p ≠ .running := by
  rw [goTo]
  split
  case isTrue same =>
    exact core.others p inside (same ▸ different)
  case isFalse =>
    have after : (m.setTasks (m.tasks.switchTo next)).stateOf p =
        m.tasks.stateAfter next p := by
      rw [stateOf, Tasks.stateOf, setTasks, Tasks.switchTo_procs]
    have nonzero : p ≠ 0 := by
      rcases inside with member | isIdle
      · exact fun zero => core.listed.zero (zero ▸ member)
      · rw [isIdle]
        exact core.idle.nonzero
    rw [after, Tasks.stateAfter, if_neg different]
    split
    case isTrue => simp
    case isFalse stays =>
      by_cases isCurr : p = m.curr
      · exact fun running => stays ⟨isCurr, running, nonzero⟩
      · exact core.others p inside isCurr

/-- After a switch the selected process is the one that runs. -/
theorem Core.goTo (core : m.Core nodes) {next : Nat}
    (may : MayGo m nodes next) : (m.goTo next).Ok nodes := by
  obtain ⟨links, head, idleProc, enabled⟩ := @goTo_links m next
  have blocked := goTo_blocked core may
  have dead := goTo_dead core may
  have fields := fun p => @goTo_fields m next p
  refine ⟨⟨core.listed.congr links head, ⟨?_, ?_, ?_⟩, ?_, ?_, ?_, ?_, ?_,
    ?_, ?_⟩, ?_⟩
  · rw [idleProc]
    exact core.idle.nonzero
  · rw [idleProc]
    exact core.idle.unlisted
  · rw [idleProc, links]
    exact core.idle.alone
  · rw [enabled]
    exact core.enabled
  · rw [goTo_curr, idleProc]
    rcases may.selects.choice with ⟨member, _⟩ | ⟨isIdle, _⟩
    · exact .inl member
    · exact .inr isIdle
  · intro p inside notCurr
    rw [idleProc] at inside
    rw [goTo_curr] at notCurr
    exact goTo_others core p inside notCurr
  · rw [idleProc]
    rcases goTo_state core may m.tasks.idleProc with same | ⟨_, after⟩
    · rw [same]
      exact core.idleState
    · exact after
  · rw [idleProc, goTo_pending]
    exact core.idlePending
  · intro p left q right
    rw [(fields p).1, (fields q).1]
    exact core.pids p left q right
  · intro p inside
    have waits := core.waits p inside
    refine ⟨?_, fun pid => ?_, fun pid => ?_⟩
    · rw [blocked, (fields p).2.1, (fields p).2.2, goTo_pending]
      exact waits.suspended
    · simp only [blocked, (fields p).2.1, (fields p).2.2, goTo_pending,
        ne_eq, dead, (fields _).1]
      exact waits.target pid
    · simp only [ne_eq, blocked, dead, goTo_pending, (fields _).1]
      exact waits.woken pid
  · rw [goTo_curr]
    exact goTo_running may

/-- `schedule` never fails, and leads back to the invariant. -/
theorem Core.schedule (core : m.Core nodes)
    (yields : m.stateOf m.curr ≠ .ready)
    (idleRuns : m.curr = m.tasks.idleProc →
      m.stateOf m.tasks.idleProc = .running) :
    ∃ next, MayGo m nodes next ∧ m.schedule = some (m.goTo next) := by
  obtain ⟨next, selects, done⟩ := Tasks.schedule_selects core.listed
    core.idle core.enabled core.curr
  refine ⟨next, ⟨selects, yields, idleRuns⟩, ?_⟩
  rw [Machine.schedule, done, Option.map_some, Machine.goTo]
  by_cases same : next = m.tasks.currProc
  · have here : next = m.curr := same
    rw [if_pos same, if_pos here]
    rfl
  · have elsewhere : ¬ next = m.curr := same
    rw [if_neg same, if_neg elsewhere]

end Machine

end LoafOs
