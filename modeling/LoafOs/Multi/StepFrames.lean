import LoafOs.Multi.ProcessStates

/-!
# What the steps leave alone

The fields of a process that scheduling does not touch, the dead and the
events, step by step.
-/

namespace LoafOs

open Links

namespace Machine

variable {m m' mid : Machine} {nodes nodes' : List Nat} {p q pid : Nat}
  {label : Label}

/-- The fields that scheduling does not touch. -/
structure Inert where
  pid : Nat
  exitCode : Int
  fds : List Int
  pd : Nat
  kstack : Nat
  cleanedUp : Bool

def Inert.of (proc : Process) : Inert :=
  ⟨proc.pid, proc.exitCode, proc.fds, proc.image.pdPhys, proc.kstack,
    proc.cleanedUp⟩

def inertOf (m : Machine) (p : Nat) : Inert := .of (m.tasks.procs p)

theorem inertOf_pid : (m.inertOf p).pid = m.pidOf p := rfl

theorem inertOf_eq (same : m'.tasks.procs p = m.tasks.procs p) :
    m'.inertOf p = m.inertOf p := by
  rw [inertOf, same]
  rfl

theorem goTo_inert (next p : Nat) :
    (m.goTo next).inertOf p = m.inertOf p := by
  rw [goTo]
  split
  case isTrue => rfl
  case isFalse =>
    simp only [inertOf, setTasks, Tasks.switchTo_procs]
    rfl

theorem goTo_rest (next : Nat) :
    (m.goTo next).events = m.events ∧ (m.goTo next).kbd = m.kbd ∧
      (m.goTo next).files = m.files := by
  rw [goTo]
  split <;> exact ⟨rfl, rfl, rfl⟩

/-- A change of the scheduling fields of one process. -/
theorem setProc_inert {change : Process → Process}
    (same : Inert.of (change (m.tasks.procs p)) = m.inertOf p) (q : Nat) :
    (m.setProc p change).inertOf q = m.inertOf q := by
  by_cases here : q = p
  · rw [here, inertOf, setProc_same, same]
  · exact inertOf_eq (setProc_other m _ here)

@[simp]
theorem setPending_inert (pending : Pending) :
    (m.setPending p pending).inertOf q = m.inertOf q := rfl

@[simp]
theorem record_inert (event : Event) :
    (m.record event).inertOf q = m.inertOf q := rfl

theorem markDead_inert (victim q : Nat) :
    (m.markDead victim).inertOf q = m.inertOf q := by
  rw [markDead]
  exact setProc_inert rfl q

theorem Wakes.inert {wake : Process → Process} (wakes : Wakes pid wake)
    (proc : Process) : Inert.of (wake proc) = Inert.of proc := by
  rcases wakes proc with ⟨kept, _⟩ | ⟨_, woken, _⟩
  · rw [kept]
  · rw [woken]
    rfl

theorem eachNode_inert {wake : Process → Process} (wakes : Wakes pid wake)
    (q : Nat) : (m.eachNode nodes wake).inertOf q = m.inertOf q := by
  have after : (m.eachNode nodes wake).tasks.procs q =
      if q ∈ nodes then wake (m.tasks.procs q) else m.tasks.procs q := rfl
  rw [inertOf, after]
  split
  case isTrue => exact wakes.inert _
  case isFalse => rfl

/-! ## Deaths -/

theorem faulted_inert (q : Nat) :
    (m.faulted nodes).inertOf q = m.inertOf q :=
  (eachNode_inert (wakes_wakeFaulted _) q).trans (markDead_inert _ q)

theorem killed_inert (victim q : Nat) :
    (m.killed nodes victim).inertOf q = m.inertOf q := by
  rw [Machine.killed]
  refine (eachNode_inert (wakes_wakeWaiter _) q).trans ?_
  split <;> exact markDead_inert victim q

theorem exited_inert (code : Int) (different : q ≠ m.curr) :
    (m.exited nodes code).inertOf q = m.inertOf q := by
  rw [exited]
  refine (eachNode_inert (wakes_wakeWaiter _) q).trans ?_
  rw [record_inert]
  exact inertOf_eq (setProc_other m _ different)

theorem exited_curr (code : Int) :
    (m.exited nodes code).inertOf m.curr =
      { m.inertOf m.curr with exitCode := code } := by
  rw [exited]
  refine (eachNode_inert (wakes_wakeWaiter _) m.curr).trans ?_
  rw [record_inert, inertOf, setProc_same]
  rfl

/-- The processes that are dead after a death. -/
theorem Dies.dead_iff {victim : Nat} (dies : Dies m m' nodes victim)
    (q : Nat) :
    m'.stateOf q = .dead ↔ m.stateOf q = .dead ∨ q = victim := by
  constructor
  · intro dead
    by_cases same : q = victim
    · exact .inr same
    · by_contra neither
      rw [not_or] at neither
      exact dies.alive same neither.1 dead
  · rintro (dead | rfl)
    · exact dies.stateOf_dead dead
    · exact dies.dead

/-! ## The timer -/

/-- A property of the machine that neither waking a sleeper nor cleaning up
a dead process ends. -/
theorem ticked_induction (holds : Machine → Prop)
    (start : holds { m with tickCount := u32 (m.tickCount + 1) })
    (wakes : ∀ mid, holds mid → ∀ p ∈ nodes, mid.stateOf p = .blocked →
      mid.blockOf p = .sleep → holds (mid.wokenUp p))
    (cleans : ∀ mid, holds mid → ∀ p ∈ nodes, mid.stateOf p = .dead →
      (mid.inertOf p).cleanedUp = false → p ≠ mid.curr →
      holds (mid.cleanedUp p)) : holds (m.ticked nodes) := by
  refine foldl_pitProc nodes _ holds start fun mid held p member => ?_
  rcases pitProc_cases mid p with same | ⟨dead, unclean, other, cleaned⟩ |
    ⟨blocked, sleeps, woken⟩
  · rw [same]
    exact held
  · rw [cleaned]
    exact cleans mid held p member dead unclean other
  · rw [woken]
    exact wakes mid held p member blocked sleeps

theorem wokenUp_inert (q : Nat) :
    (m.wokenUp p).inertOf q = m.inertOf q := setProc_inert rfl q

theorem cleanedUp_inert (different : q ≠ p) :
    (m.cleanedUp p).inertOf q = m.inertOf q :=
  inertOf_eq (cleanedUp_other m different)

theorem cleanedUp_self :
    (m.cleanedUp p).inertOf p =
      { m.inertOf p with
        fds := (m.inertOf p).fds.map fun _ => -1
        pd := 0
        kstack := 0
        cleanedUp := true } := by
  rw [inertOf, cleanedUp_procs]
  rfl

theorem cleanedUp_events :
    (m.cleanedUp p).events =
      .cleaned (m.pidOf p) ((m.inertOf p).fds.filter (· ≠ -1))
        (m.inertOf p).pd (m.inertOf p).kstack :: m.events := rfl

theorem wokenUp_dead (blocked : m.stateOf p = .blocked) (q : Nat) :
    (m.wokenUp p).stateOf q = .dead ↔ m.stateOf q = .dead := by
  by_cases same : q = p
  · rw [same, blocked, stateOf, Tasks.stateOf, wokenUp, setProc_same]
    simp
  · rw [(wokenUp_change m p).stateOf same]

/-! ## Blocking -/

/-- The current process goes to sleep. -/
structure Blocks (m mid : Machine) : Prop where
  change : OneChange m mid m.curr
  blocked : mid.stateOf m.curr = .blocked
  inert : ∀ q, mid.inertOf q = m.inertOf q
  events : mid.events = m.events
  kbd : mid.kbd = m.kbd
  files : mid.files = m.files

theorem waiting_blocks (pid target : Nat) :
    Blocks m (m.waiting pid target) := by
  refine ⟨(oneChange_setProc rfl).setPending _, ?_, fun q => ?_, rfl, rfl,
    rfl⟩
  rotate_left
  · rw [Machine.waiting, setPending_inert]
    exact setProc_inert rfl q
  simp [Machine.waiting, stateOf, Tasks.stateOf, setPending, setProc_same]

theorem sleeping_blocks (ms : Nat) : Blocks m (m.sleeping ms) := by
  refine ⟨oneChange_setProc rfl, ?_, fun q => setProc_inert rfl q, rfl, rfl,
    rfl⟩
  simp [Machine.sleeping, stateOf, Tasks.stateOf, setProc_same]

theorem awaiting_blocks : Blocks m m.awaiting := by
  refine ⟨(oneChange_setProc rfl).setPending _, ?_, fun q => ?_, rfl, rfl,
    rfl⟩
  rotate_left
  · rw [Machine.awaiting, setPending_inert]
    exact setProc_inert rfl q
  simp [Machine.awaiting, stateOf, Tasks.stateOf, setPending, setProc_same]

theorem Blocks.dead_iff (blocks : Blocks m mid)
    (running : m.stateOf m.curr = .running) (q : Nat) :
    mid.stateOf q = .dead ↔ m.stateOf q = .dead := by
  by_cases same : q = m.curr
  · rw [same, blocks.blocked, running]
    simp
  · rw [blocks.change.stateOf same]

/-! ## Calls on files, spawning and unlinking -/

theorem FileCall.inert (call : FileCall m m') (p : Nat) :
    ∃ fds, m'.inertOf p = { m.inertOf p with fds } := by
  obtain ⟨fds, same⟩ := call.procs p
  exact ⟨fds, by rw [inertOf, same]; rfl⟩

theorem awake_inert (proc q : Nat) :
    (m.awake proc).inertOf q = m.inertOf q := setProc_inert rfl q

theorem spawned_inert (child : Process) :
    Inert.of (m.spawned child) = Inert.of child := rfl

theorem sysSpawn_inert (child : Process) :
    (m.sysSpawn child).inertOf child.addr = Inert.of child := by
  rw [inertOf, sysSpawn_child, spawned_inert]

end Machine

end LoafOs
