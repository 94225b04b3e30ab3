import LoafOs.Multi.MachineInvariant

/-!
# Changes of the process table

The parts that the steps are made of: one process changes, a process ends
and its waiters are woken, a process enters or leaves the list.
-/

namespace LoafOs

open Links

namespace Machine

variable {m m' : Machine} {nodes : List Nat} {p q pid : Nat}

/-- The list, the current process and the idle process stay. -/
structure SameLinks (m m' : Machine) : Prop where
  next : m'.tasks.next = m.tasks.next
  procList : m'.tasks.procList = m.tasks.procList
  curr : m'.curr = m.curr
  idle : m'.tasks.idleProc = m.tasks.idleProc
  enabled : m'.tasks.schedulerReady = m.tasks.schedulerReady

theorem SameLinks.listed (same : SameLinks m m')
    (listed : m.tasks.Listed nodes) : m'.tasks.Listed nodes :=
  listed.congr same.next same.procList

theorem SameLinks.idleOk (same : SameLinks m m')
    (idle : m.tasks.Idle nodes) : m'.tasks.Idle nodes :=
  ⟨by rw [same.idle]; exact idle.nonzero,
    by rw [same.idle]; exact idle.unlisted,
    by rw [same.idle, same.next]; exact idle.alone⟩

/-! ## One process changes -/

/-- Only the process at `p` changes, and it keeps its number. -/
structure OneChange (m m' : Machine) (p : Nat) : Prop where
  links : SameLinks m m'
  procs : ∀ q, q ≠ p → m'.tasks.procs q = m.tasks.procs q
  pending : ∀ q, q ≠ p → m'.pending q = m.pending q
  pid : m'.pidOf p = m.pidOf p

namespace OneChange

variable (change : OneChange m m' p)
include change

theorem stateOf (different : q ≠ p) : m'.stateOf q = m.stateOf q := by
  rw [Machine.stateOf, Tasks.stateOf, change.procs q different]
  rfl

theorem blockOf (different : q ≠ p) : m'.blockOf q = m.blockOf q := by
  rw [Machine.blockOf, change.procs q different]
  rfl

theorem targetOf (different : q ≠ p) : m'.targetOf q = m.targetOf q := by
  rw [Machine.targetOf, change.procs q different]
  rfl

theorem pidOf (q : Nat) : m'.pidOf q = m.pidOf q := by
  by_cases same : q = p
  · rw [same]
    exact change.pid
  · rw [Machine.pidOf, change.procs q same]
    rfl

end OneChange

theorem setProc_same (m : Machine) (p : Nat) (change : Process → Process) :
    (m.setProc p change).tasks.procs p = change (m.tasks.procs p) :=
  Function.update_self ..

theorem setProc_other (m : Machine) {p q : Nat} (change : Process → Process)
    (different : q ≠ p) :
    (m.setProc p change).tasks.procs q = m.tasks.procs q :=
  Function.update_of_ne different ..

theorem setPending_same (m : Machine) (p : Nat) (pending : Pending) :
    (m.setPending p pending).pending p = pending :=
  Function.update_self ..

theorem setPending_other (m : Machine) {p q : Nat} (pending : Pending)
    (different : q ≠ p) :
    (m.setPending p pending).pending q = m.pending q :=
  Function.update_of_ne different ..

theorem oneChange_setProc {change : Process → Process}
    (pid : (change (m.tasks.procs p)).pid = m.pidOf p) :
    OneChange m (m.setProc p change) p := by
  refine ⟨⟨rfl, rfl, rfl, rfl, rfl⟩, fun q => setProc_other m change,
    fun _ _ => rfl, ?_⟩
  rw [pidOf, setProc_same]
  exact pid

/-- Some other fields of a process are assigned. -/
theorem sameTasks_setProc {change : Process → Process}
    (pid : (change (m.tasks.procs p)).pid = m.pidOf p)
    (state : (change (m.tasks.procs p)).state = m.stateOf p)
    (block : (change (m.tasks.procs p)).block = m.blockOf p)
    (target : (change (m.tasks.procs p)).targetPid = m.targetOf p) :
    SameTasks m (m.setProc p change) := by
  refine ⟨rfl, rfl, rfl, rfl, rfl, rfl, fun q => ?_, fun q => ?_,
    fun q => ?_, fun q => ?_⟩ <;>
  · by_cases same : q = p
    · subst same
      simp only [Machine.stateOf, Tasks.stateOf, pidOf, blockOf, targetOf,
        setProc_same]
      assumption
    · simp only [Machine.stateOf, Tasks.stateOf, pidOf, blockOf, targetOf,
        setProc_other m _ same]

theorem OneChange.setPending (change : OneChange m m' p)
    (pending : Pending) : OneChange m (m'.setPending p pending) p := by
  refine ⟨⟨change.links.next, change.links.procList, change.links.curr,
    change.links.idle, change.links.enabled⟩, change.procs,
    fun q different => ?_, change.pid⟩
  exact (Function.update_of_ne different ..).trans
    (change.pending q different)

theorem Core.oneChange (core : m.Core nodes) (change : OneChange m m' p)
    (member : p ∈ nodes)
    (notRunning : p ≠ m.curr → m'.stateOf p ≠ .running)
    (dead : m'.stateOf p = .dead ↔ m.stateOf p = .dead)
    (own : m'.Waits nodes p) : m'.Core nodes := by
  have links := change.links
  have notIdle : m.tasks.idleProc ≠ p :=
    fun same => core.idle.unlisted (same ▸ member)
  have allDead : ∀ q, m'.stateOf q = .dead ↔ m.stateOf q = .dead := by
    intro q
    by_cases same : q = p
    · rw [same]
      exact dead
    · rw [change.stateOf same]
  refine ⟨links.listed core.listed, links.idleOk core.idle, ?_, ?_, ?_, ?_,
    ?_, ?_, ?_⟩
  · rw [links.enabled]
    exact core.enabled
  · rw [links.curr, links.idle]
    exact core.curr
  · intro q inside notCurr
    rw [links.idle] at inside
    rw [links.curr] at notCurr
    by_cases same : q = p
    · rw [same]
      exact notRunning (same ▸ notCurr)
    · rw [change.stateOf same]
      exact core.others q inside notCurr
  · rw [links.idle, change.stateOf notIdle]
    exact core.idleState
  · rw [links.idle, change.pending _ notIdle]
    exact core.idlePending
  · intro q left r right
    rw [change.pidOf, change.pidOf]
    exact core.pids q left r right
  · intro q inside
    by_cases same : q = p
    · rw [same]
      exact own
    · have waits := core.waits q inside
      refine ⟨?_, fun pid => ?_, fun pid => ?_⟩
      · rw [change.stateOf same, change.blockOf same, change.targetOf same,
          change.pending q same]
        exact waits.suspended
      · simp only [change.stateOf same, change.blockOf same,
          change.targetOf same, change.pending q same, ne_eq, allDead,
          change.pidOf]
        exact waits.target pid
      · simp only [change.stateOf same, change.pending q same, ne_eq,
          allDead, change.pidOf]
        exact waits.woken pid

/-- The current process blocks in a call that is not `SYS_WAIT`. -/
theorem Ok.block (ok : m.Ok nodes) (change : OneChange m m' m.curr)
    (program : m.curr ≠ m.tasks.idleProc)
    (blocked : m'.stateOf m.curr = .blocked)
    (block : m'.blockOf m.curr ≠ .pid)
    (pending : ∀ pid, m'.pending m.curr ≠ .wait pid) : m'.Core nodes := by
  have running := ok.running
  refine ok.core.oneChange change (ok.core.curr.resolve_right program)
    (fun different => absurd rfl different) ?_
    ⟨fun _ isPid => absurd isPid block, fun pid is => absurd is (pending pid),
      fun pid is => absurd is (pending pid)⟩
  rw [blocked, running]
  simp

/-- The current process blocks until another one ends. -/
theorem Ok.blockOn (ok : m.Ok nodes) (change : OneChange m m' m.curr)
    (program : m.curr ≠ m.tasks.idleProc)
    (blocked : m'.stateOf m.curr = .blocked)
    (block : m'.blockOf m.curr = .pid)
    (target : m'.targetOf m.curr = pid)
    (pending : m'.pending m.curr = .wait pid)
    (member : q ∈ nodes) (named : m.pidOf q = pid)
    (alive : m.stateOf q ≠ .dead) : m'.Core nodes := by
  have running := ok.running
  refine ok.core.oneChange change (ok.core.curr.resolve_right program)
    (fun different => absurd rfl different) ?_
    ⟨fun _ _ => ?_, fun pid' is _ => ?_, fun pid' is notBlocked =>
      absurd blocked notBlocked⟩
  · rw [blocked, running]
    simp
  · rw [pending, target]
  · rw [pending] at is
    injection is with same
    subst same
    refine ⟨block, target, q, member, by rw [change.pidOf, named], ?_⟩
    by_cases same : q = m.curr
    · rw [same, blocked]
      simp
    · rw [change.stateOf same]
      exact alive

/-- A process that blocks on something else than another process is made
ready. -/
theorem Core.wake (core : m.Core nodes) (change : OneChange m m' p)
    (member : p ∈ nodes) (blocked : m.stateOf p = .blocked)
    (block : m.blockOf p ≠ .pid) (pending : m'.pending p = m.pending p)
    (ready : m'.stateOf p = .ready) : m'.Core nodes := by
  have notWait : ∀ pid, m.pending p ≠ .wait pid := fun pid is =>
    block ((core.waits p member).target pid is blocked).1
  refine core.oneChange change member (fun _ => by simp [ready]) ?_
    ⟨fun isBlocked => ?_, fun pid is => ?_, fun pid is => ?_⟩
  · rw [ready, blocked]
    simp
  · rw [ready] at isBlocked
    simp at isBlocked
  · rw [pending] at is
    exact absurd is (notWait pid)
  · rw [pending] at is
    exact absurd is (notWait pid)

/-- The current process goes on with its call. -/
theorem Ok.clear (ok : m.Ok nodes) :
    (m.setPending m.curr .none).Ok nodes := by
  have running := ok.running
  have fields : ∀ q, (m.setPending m.curr .none).tasks.procs q =
    m.tasks.procs q := fun _ => rfl
  rcases ok.core.curr with member | isIdle
  · have change : OneChange m (m.setPending m.curr .none) m.curr :=
      ⟨⟨rfl, rfl, rfl, rfl, rfl⟩, fun _ _ => rfl,
        fun q different => Function.update_of_ne different .., rfl⟩
    have none : (m.setPending m.curr .none).pending m.curr = .none :=
      Function.update_self ..
    refine ⟨ok.core.oneChange change member
      (fun different => absurd rfl different) Iff.rfl
      ⟨fun isBlocked => ?_, fun pid is => ?_, fun pid is => ?_⟩, running⟩
    · change m.stateOf m.curr = .blocked at isBlocked
      rw [running] at isBlocked
      simp at isBlocked
    · rw [none] at is
      simp at is
    · rw [none] at is
      simp at is
  · have same : (m.setPending m.curr .none).pending = m.pending := by
      funext q
      by_cases isCurr : q = m.curr
      · rw [isCurr, isIdle, ok.core.idlePending, ← isIdle]
        exact Function.update_self ..
      · exact Function.update_of_ne isCurr ..
    exact ok.same ⟨rfl, rfl, rfl, rfl, rfl, same, fun _ => rfl,
      fun _ => rfl, fun _ => rfl, fun _ => rfl⟩

/-! ## A process ends -/

/-- The process `victim` ends, and those that wait for it are woken. -/
structure Dies (m m' : Machine) (nodes : List Nat) (victim : Nat) :
    Prop where
  links : SameLinks m m'
  pending : m'.pending = m.pending
  dead : m'.stateOf victim = .dead
  pids : ∀ q, m'.pidOf q = m.pidOf q
  others : ∀ q, q ≠ victim →
    (m'.stateOf q = m.stateOf q ∧ m'.blockOf q = m.blockOf q ∧
      m'.targetOf q = m.targetOf q) ∨
    (m.stateOf q = .blocked ∧ m.targetOf q = m.pidOf victim ∧
      m'.stateOf q = .ready)
  woken : ∀ q ∈ nodes, q ≠ victim → m.stateOf q = .blocked →
    m.blockOf q = .pid → m.targetOf q = m.pidOf victim →
    m'.stateOf q = .ready

theorem Dies.stateOf_dead {victim : Nat} (dies : Dies m m' nodes victim)
    (isDead : m.stateOf q = .dead) : m'.stateOf q = .dead := by
  by_cases same : q = victim
  · rw [same]
    exact dies.dead
  · rcases dies.others q same with ⟨state, _⟩ | ⟨blocked, _⟩
    · rw [state, isDead]
    · rw [blocked] at isDead
      simp at isDead

theorem Dies.alive {victim : Nat} (dies : Dies m m' nodes victim)
    (different : q ≠ victim) (alive : m.stateOf q ≠ .dead) :
    m'.stateOf q ≠ .dead := by
  rcases dies.others q different with ⟨state, _⟩ | ⟨_, _, ready⟩
  · rw [state]
    exact alive
  · rw [ready]
    simp

theorem Core.dies {victim : Nat} (core : m.Core nodes)
    (dies : Dies m m' nodes victim) (member : victim ∈ nodes) :
    m'.Core nodes := by
  have links := dies.links
  have notIdle : m.tasks.idleProc ≠ victim :=
    fun same => core.idle.unlisted (same ▸ member)
  refine ⟨links.listed core.listed, links.idleOk core.idle, ?_, ?_, ?_, ?_,
    ?_, ?_, ?_⟩
  · rw [links.enabled]
    exact core.enabled
  · rw [links.curr, links.idle]
    exact core.curr
  · intro q inside notCurr
    rw [links.idle] at inside
    rw [links.curr] at notCurr
    by_cases same : q = victim
    · rw [same, dies.dead]
      simp
    · rcases dies.others q same with ⟨state, _⟩ | ⟨_, _, ready⟩
      · rw [state]
        exact core.others q inside notCurr
      · rw [ready]
        simp
  · rw [links.idle]
    rcases dies.others _ notIdle with ⟨state, _⟩ | ⟨_, _, ready⟩
    · rw [state]
      exact core.idleState
    · exact .inl ready
  · rw [links.idle, dies.pending]
    exact core.idlePending
  · intro q left r right
    rw [dies.pids, dies.pids]
    exact core.pids q left r right
  · intro q inside
    have waits := core.waits q inside
    by_cases same : q = victim
    · subst same
      refine ⟨fun is => ?_, fun pid _ is => ?_, fun pid _ _ is => ?_⟩
      · rw [dies.dead] at is
        simp at is
      · rw [dies.dead] at is
        simp at is
      · exact absurd dies.dead is
    · refine ⟨fun isBlocked isPid => ?_, fun pid is isBlocked => ?_,
        fun pid is notBlocked notDead r there named => ?_⟩
      · rcases dies.others q same with ⟨state, block, target⟩ | ⟨_, _, ready⟩
        · rw [dies.pending, target]
          exact waits.suspended (state ▸ isBlocked) (block ▸ isPid)
        · rw [ready] at isBlocked
          simp at isBlocked
      · rw [dies.pending] at is
        rcases dies.others q same with ⟨state, block, target⟩ | ⟨_, _, ready⟩
        · obtain ⟨isPid, isTarget, r, there, named, alive⟩ :=
            waits.target pid is (state ▸ isBlocked)
          refine ⟨block.trans isPid, target.trans isTarget, r, there,
            (dies.pids r).trans named, ?_⟩
          refine dies.alive (fun isVictim => ?_) alive
          subst isVictim
          have ready := dies.woken q inside same (state ▸ isBlocked) isPid
            (isTarget.trans named.symm)
          rw [ready] at isBlocked
          simp at isBlocked
        · rw [ready] at isBlocked
          simp at isBlocked
      · rw [dies.pending] at is
        rw [dies.pids] at named
        rcases dies.others q same with ⟨state, _, _⟩ | ⟨blocked, target, _⟩
        · rw [state] at notBlocked notDead
          exact dies.stateOf_dead
            (waits.woken pid is notBlocked notDead r there named)
        · obtain ⟨_, isTarget, _⟩ := waits.target pid is blocked
          have isVictim : r = victim := core.pids r there victim member
            (named.trans (isTarget.symm.trans target))
          rw [isVictim]
          exact dies.dead

/-! ## A process enters or leaves the list -/

/-- The process `child` is put in front of the list. -/
structure Enters (m m' : Machine) (nodes : List Nat) (child : Nat) :
    Prop where
  listed : m'.tasks.Listed (child :: nodes)
  next : ∀ q, q ≠ child → m'.tasks.next q = m.tasks.next q
  curr : m'.curr = m.curr
  idle : m'.tasks.idleProc = m.tasks.idleProc
  enabled : m'.tasks.schedulerReady = m.tasks.schedulerReady
  procs : ∀ q, q ≠ child → m'.tasks.procs q = m.tasks.procs q
  pending : ∀ q, q ≠ child → m'.pending q = m.pending q
  none : m'.pending child = .none
  ready : m'.stateOf child = .ready

theorem Core.enters {child : Nat} (core : m.Core nodes)
    (enters : Enters m m' nodes child)
    (notIdle : child ≠ m.tasks.idleProc)
    (unused : ∀ q ∈ nodes, m.pidOf q ≠ m'.pidOf child)
    (unwaited : ∀ q ∈ nodes, m.pending q ≠ .wait (m'.pidOf child)) :
    m'.Core (child :: nodes) := by
  have fresh : child ∉ nodes :=
    (List.nodup_cons.mp enters.listed.path.nodup).1
  have different : ∀ q ∈ nodes, q ≠ child :=
    fun q member same => fresh (same ▸ member)
  have pidOf : ∀ q ∈ nodes, m'.pidOf q = m.pidOf q := fun q member => by
    rw [Machine.pidOf, enters.procs q (different q member)]
    rfl
  have stateOf : ∀ q, q ≠ child → m'.stateOf q = m.stateOf q :=
    fun q other => by
      rw [Machine.stateOf, Tasks.stateOf, enters.procs q other]
      rfl
  refine ⟨enters.listed, ⟨?_, ?_, ?_⟩, ?_, ?_, ?_, ?_, ?_, ?_, ?_⟩
  · rw [enters.idle]
    exact core.idle.nonzero
  · rw [enters.idle]
    intro member
    rcases List.mem_cons.mp member with same | inside
    · exact notIdle same.symm
    · exact core.idle.unlisted inside
  · rw [enters.idle, enters.next _ notIdle.symm]
    exact core.idle.alone
  · rw [enters.enabled]
    exact core.enabled
  · rw [enters.curr, enters.idle]
    exact core.curr.imp_left (List.mem_cons_of_mem _)
  · intro q inside notCurr
    rw [enters.idle] at inside
    rw [enters.curr] at notCurr
    by_cases same : q = child
    · rw [same, enters.ready]
      simp
    · rw [stateOf q same]
      refine core.others q (inside.imp_left fun member => ?_) notCurr
      exact (List.mem_cons.mp member).resolve_left same
  · rw [enters.idle, stateOf _ notIdle.symm]
    exact core.idleState
  · rw [enters.idle, enters.pending _ notIdle.symm]
    exact core.idlePending
  · intro q left r right same
    rcases List.mem_cons.mp left with isLeft | inLeft <;>
      rcases List.mem_cons.mp right with isRight | inRight
    · rw [isLeft, isRight]
    · rw [isLeft, pidOf r inRight] at same
      exact absurd same.symm (unused r inRight)
    · rw [isRight, pidOf q inLeft] at same
      exact absurd same (unused q inLeft)
    · rw [pidOf q inLeft, pidOf r inRight] at same
      exact core.pids q inLeft r inRight same
  · intro q inside
    rcases List.mem_cons.mp inside with isChild | old
    · subst isChild
      refine ⟨fun is => ?_, fun pid is => ?_, fun pid is => ?_⟩
      · rw [enters.ready] at is
        simp at is
      · rw [enters.none] at is
        simp at is
      · rw [enters.none] at is
        simp at is
    · have other := different q old
      have waits := core.waits q old
      have fields : m'.blockOf q = m.blockOf q ∧
          m'.targetOf q = m.targetOf q := by
        rw [Machine.blockOf, Machine.targetOf, enters.procs q other]
        exact ⟨rfl, rfl⟩
      refine ⟨?_, fun pid is isBlocked => ?_,
        fun pid is notBlocked notDead r there named => ?_⟩
      · rw [stateOf q other, fields.1, fields.2, enters.pending q other]
        exact waits.suspended
      · rw [enters.pending q other] at is
        rw [stateOf q other] at isBlocked
        obtain ⟨isPid, isTarget, r, there, named, alive⟩ :=
          waits.target pid is isBlocked
        refine ⟨fields.1.trans isPid, fields.2.trans isTarget, r,
          List.mem_cons_of_mem _ there, (pidOf r there).trans named, ?_⟩
        rw [stateOf r (different r there)]
        exact alive
      · rw [enters.pending q other] at is
        rw [stateOf q other] at notBlocked notDead
        rcases List.mem_cons.mp there with isChild | before
        · rw [isChild] at named
          exact absurd (named ▸ is) (unwaited q old)
        · rw [pidOf r before] at named
          rw [stateOf r (different r before)]
          exact waits.woken pid is notBlocked notDead r before named

/-- A dead process is taken off the list. -/
structure Leaves (m m' : Machine) (nodes : List Nat) (gone : Nat) :
    Prop where
  listed : m'.tasks.Listed (nodes.erase gone)
  next : ∀ q ∉ nodes, m'.tasks.next q = m.tasks.next q
  curr : m'.curr = m.curr
  idle : m'.tasks.idleProc = m.tasks.idleProc
  enabled : m'.tasks.schedulerReady = m.tasks.schedulerReady
  procs : m'.tasks.procs = m.tasks.procs
  pending : m'.pending = m.pending

theorem Ok.leaves {gone : Nat} (ok : m.Ok nodes)
    (leaves : Leaves m m' nodes gone) (dead : m.stateOf gone = .dead) :
    m'.Ok (nodes.erase gone) := by
  have core := ok.core
  have nodup := core.listed.path.nodup
  have stateOf : ∀ q, m'.stateOf q = m.stateOf q := fun q => by
    rw [Machine.stateOf, Tasks.stateOf, leaves.procs]
    rfl
  have fields : ∀ q, m'.pidOf q = m.pidOf q ∧ m'.blockOf q = m.blockOf q ∧
      m'.targetOf q = m.targetOf q := fun q => by
    rw [Machine.pidOf, Machine.blockOf, Machine.targetOf, leaves.procs]
    exact ⟨rfl, rfl, rfl⟩
  have notGone : m.curr ≠ gone := by
    intro same
    have running := ok.running
    rw [same, dead] at running
    simp at running
  refine ⟨⟨leaves.listed, ⟨?_, ?_, ?_⟩, ?_, ?_, ?_, ?_, ?_, ?_, ?_⟩, ?_⟩
  · rw [leaves.idle]
    exact core.idle.nonzero
  · rw [leaves.idle]
    exact fun member => core.idle.unlisted (List.mem_of_mem_erase member)
  · rw [leaves.idle, leaves.next _ core.idle.unlisted]
    exact core.idle.alone
  · rw [leaves.enabled]
    exact core.enabled
  · rw [leaves.curr, leaves.idle]
    exact core.curr.imp_left fun member =>
      (List.mem_erase_of_ne notGone).mpr member
  · intro q inside notCurr
    rw [leaves.idle] at inside
    rw [leaves.curr] at notCurr
    rw [stateOf]
    exact core.others q (inside.imp_left List.mem_of_mem_erase) notCurr
  · rw [leaves.idle, stateOf]
    exact core.idleState
  · rw [leaves.idle, leaves.pending]
    exact core.idlePending
  · intro q left r right
    rw [(fields q).1, (fields r).1]
    exact core.pids q (List.mem_of_mem_erase left) r
      (List.mem_of_mem_erase right)
  · intro q inside
    have waits := core.waits q (List.mem_of_mem_erase inside)
    refine ⟨?_, fun pid is isBlocked => ?_,
      fun pid is notBlocked notDead r there named => ?_⟩
    · rw [stateOf, (fields q).2.1, (fields q).2.2, leaves.pending]
      exact waits.suspended
    · rw [leaves.pending] at is
      rw [stateOf] at isBlocked
      obtain ⟨isPid, isTarget, r, there, named, alive⟩ :=
        waits.target pid is isBlocked
      refine ⟨(fields q).2.1.trans isPid, (fields q).2.2.trans isTarget, r,
        ?_, (fields r).1.trans named, by rw [stateOf]; exact alive⟩
      refine (List.mem_erase_of_ne fun same => ?_).mpr there
      rw [same] at alive
      exact alive dead
    · rw [leaves.pending] at is
      rw [stateOf] at notBlocked notDead ⊢
      rw [(fields r).1] at named
      exact waits.woken pid is notBlocked notDead r
        (List.mem_of_mem_erase there) named
  · rw [leaves.curr, stateOf]
    exact ok.running

end Machine

end LoafOs
