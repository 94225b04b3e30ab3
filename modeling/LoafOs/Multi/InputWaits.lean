import LoafOs.Multi.MachineRun
import LoafOs.Multi.StepFrames

/-!
# Waiting for a key

A key that is stored wakes one process; the character stays in the buffer
until that process runs.  `Calm` are the changes of a process that do not
touch this.
-/

namespace LoafOs

open Links

namespace Machine

variable {m m' mid : Machine} {nodes nodes' : List Nat} {p q pid : Nat}
  {label : Label}

/-- A process that a key has woken and that has not run since. -/
def woken (m : Machine) (p : Nat) : Bool :=
  m.pending p = .getchar ∧ (m.stateOf p = .ready ∨ m.stateOf p = .running)

def wokenCount (m : Machine) (nodes : List Nat) : Nat :=
  nodes.countP m.woken

/-- The fields of a process agree on what it waits for. -/
structure InputOk (m : Machine) (p : Nat) : Prop where
  input : m.stateOf p = .blocked →
    (m.blockOf p = .input ↔ m.pending p = .getchar)
  target : m.stateOf p ≠ .dead →
    (m.stateOf p = .blocked → m.blockOf p ≠ .pid) → m.targetOf p = noPid

/-- The changes of a process that neither wake it from waiting for a key nor
make it wait for one. -/
inductive Calm (m m' : Machine) (p : Nat) : Prop
  | stays (state : m'.stateOf p = m.stateOf p)
      (block : m'.blockOf p = m.blockOf p)
      (target : m'.targetOf p = m.targetOf p)
      (pending : m'.pending p = m.pending p)
  | runs (before : m.stateOf p = .ready ∨ m.stateOf p = .running)
      (after : m'.stateOf p = .ready ∨ m'.stateOf p = .running)
      (target : m'.targetOf p = m.targetOf p)
      (pending : m'.pending p = m.pending p)
  | dies (dead : m'.stateOf p = .dead) (notWoken : m.woken p = false)
  | wakes (blocked : m.stateOf p = .blocked) (block : m.blockOf p ≠ .input)
      (ready : m'.stateOf p = .ready) (target : m'.targetOf p = noPid)
      (pending : m'.pending p = m.pending p)
  | blocks (user : m.pending p = .none) (blocked : m'.stateOf p = .blocked)
      (block : m'.blockOf p ≠ .input) (pending : m'.pending p ≠ .getchar)
      (target : m'.blockOf p ≠ .pid → m'.targetOf p = noPid)
  | goesOn (before : m.stateOf p = .running)
      (after : m'.stateOf p = .running)
      (target : m'.targetOf p = m.targetOf p)
      (pending : m.pending p ≠ .getchar) (user : m'.pending p = .none)

theorem woken_eq_false (notGetchar : m.pending p ≠ .getchar) :
    m.woken p = false := by
  simp [woken, notGetchar]

theorem woken_blocked (blocked : m.stateOf p = .blocked) :
    m.woken p = false := by
  simp [woken, blocked]

theorem woken_dead (dead : m.stateOf p = .dead) : m.woken p = false := by
  simp [woken, dead]

theorem awaitsInput_iff : m.awaitsInput p = true ↔
    m.stateOf p = .blocked ∧ m.blockOf p = .input := decide_eq_true_iff

theorem Calm.inputOk (calm : Calm m m' p) (ok : m.InputOk p) :
    m'.InputOk p := by
  cases calm with
  | stays state block target pending =>
      refine ⟨?_, ?_⟩
      · rw [state, block, pending]
        exact ok.input
      · rw [state, block, target]
        exact ok.target
  | runs before after target _ =>
      refine ⟨fun blocked => ?_, fun _ _ => ?_⟩
      · rcases after with is | is <;> simp [is] at blocked
      · rw [target]
        refine ok.target ?_ fun blocked => ?_
        · rcases before with is | is <;> simp [is]
        · rcases before with is | is <;> simp [is] at blocked
  | dies dead _ =>
      exact ⟨fun blocked => by simp [dead] at blocked,
        fun alive => absurd dead alive⟩
  | wakes _ _ ready target _ =>
      exact ⟨fun blocked => by simp [ready] at blocked, fun _ _ => target⟩
  | blocks _ blocked block pending target =>
      refine ⟨fun _ => ?_, fun _ notPid => target (notPid blocked)⟩
      constructor
      · exact fun is => absurd is block
      · exact fun is => absurd is pending
  | goesOn before after target _ _ =>
      refine ⟨fun blocked => by simp [after] at blocked, fun _ _ => ?_⟩
      rw [target]
      exact ok.target (by simp [before]) fun is => by simp [before] at is

theorem Calm.woken (calm : Calm m m' p) (ok : m.InputOk p) :
    m'.woken p = m.woken p := by
  cases calm with
  | stays state _ _ pending => simp only [Machine.woken, state, pending]
  | runs before after _ pending =>
      simp only [Machine.woken, pending, before, after]
  | dies dead notWoken => rw [notWoken, woken_dead dead]
  | wakes blocked block _ _ pending =>
      have notGetchar : m.pending p ≠ .getchar :=
        fun is => block ((ok.input blocked).mpr is)
      rw [woken_eq_false notGetchar, woken_eq_false (pending ▸ notGetchar)]
  | blocks user blocked _ _ _ =>
      rw [woken_blocked blocked, woken_eq_false (by simp [user])]
  | goesOn _ _ _ pending user =>
      rw [woken_eq_false pending, woken_eq_false (by simp [user])]

theorem Calm.awaits (calm : Calm m m' p)
    (awaits : m'.awaitsInput p = true) : m.awaitsInput p = true := by
  rw [awaitsInput_iff] at awaits ⊢
  obtain ⟨isBlocked, isInput⟩ := awaits
  cases calm with
  | stays state block _ _ => exact ⟨state ▸ isBlocked, block ▸ isInput⟩
  | runs _ after _ _ =>
      rcases after with is | is <;> simp [is] at isBlocked
  | dies dead _ => simp [dead] at isBlocked
  | wakes _ _ ready _ _ => simp [ready] at isBlocked
  | blocks _ _ block _ _ => exact absurd isInput block
  | goesOn _ after _ _ _ => simp [after] at isBlocked

theorem Enabled.user (enabled : m.Enabled label)
    (notResume : label ≠ .resume) : m.pending m.curr = .none := by
  cases enabled with
  | resume _ => exact absurd rfl notResume
  | _ user => exact user

/-! ## The changes that the steps are made of -/

theorem goTo_calm (core : m.Core nodes) {next : Nat}
    (may : MayGo m nodes next) (p : Nat) : Calm m (m.goTo next) p := by
  obtain ⟨_, block, target⟩ := @goTo_fields m next p
  have pending := congrFun (@goTo_pending m next) p
  rcases goTo_state core may p with same | ⟨before, after⟩
  · exact .stays same block target pending
  · exact .runs before after target pending

theorem SameTasks.calm (same : SameTasks m m') (p : Nat) : Calm m m' p :=
  .stays (same.states p) (same.blocks p) (same.targets p)
    (congrFun same.pending p)

theorem OneChange.calm (change : OneChange m m' p) (different : q ≠ p) :
    Calm m m' q :=
  .stays (change.stateOf different) (change.blockOf different)
    (change.targetOf different) (change.pending q different)

theorem wokenUp_calm (ok : m.InputOk p) (blocked : m.stateOf p = .blocked)
    (sleeps : m.blockOf p = .sleep) (q : Nat) : Calm m (m.wokenUp p) q := by
  by_cases same : q = p
  · subst same
    refine .wakes blocked (by simp [sleeps]) ?_ ?_ rfl
    · rw [stateOf, Tasks.stateOf, wokenUp, setProc_same]
    · rw [targetOf, wokenUp, setProc_same]
      exact ok.target (by simp [blocked]) fun _ => by simp [sleeps]
  · exact (wokenUp_change m p).calm same

/-- A loop over the list that wakes waiters leaves a process alone or wakes
it. -/
theorem eachNode_calm {wake : Process → Process}
    (procs : mid.tasks.procs q = m.tasks.procs q)
    (pending : mid.pending = m.pending)
    (wakes : wake (m.tasks.procs q) = m.tasks.procs q ∨
      ∃ block, wake (m.tasks.procs q) =
          { m.tasks.procs q with
            state := .ready, block := block, targetPid := noPid } ∧
        m.stateOf q = .blocked ∧ m.blockOf q ≠ .input) :
    Calm m (mid.eachNode nodes wake) q := by
  have after : (mid.eachNode nodes wake).tasks.procs q =
      if q ∈ nodes then wake (mid.tasks.procs q)
      else mid.tasks.procs q := rfl
  have same : (mid.eachNode nodes wake).pending q = m.pending q :=
    congrFun pending q
  rw [procs] at after
  split at after
  case isFalse =>
    refine .stays ?_ ?_ ?_ same <;>
    · simp only [stateOf, Tasks.stateOf, blockOf, targetOf, after]
  case isTrue =>
    rcases wakes with kept | ⟨block, woken, blocked, notInput⟩
    · rw [kept] at after
      refine .stays ?_ ?_ ?_ same <;>
      · simp only [stateOf, Tasks.stateOf, blockOf, targetOf, after]
    · rw [woken] at after
      refine .wakes blocked notInput ?_ ?_ same
      · rw [stateOf, Tasks.stateOf, after]
      · rw [targetOf, after]

theorem wakeWaiter_calm (pid : Nat) (proc : Process) :
    Tasks.wakeWaiter pid proc = proc ∨
      ∃ block, Tasks.wakeWaiter pid proc =
          { proc with
            state := .ready, block := block, targetPid := noPid } ∧
        proc.state = .blocked ∧ proc.block ≠ .input := by
  rw [Tasks.wakeWaiter]
  split
  case isTrue => exact .inl rfl
  case isFalse waits =>
    rw [not_or, not_not, not_not] at waits
    split
    case isTrue => exact .inl rfl
    case isFalse =>
      exact .inr ⟨_, rfl, waits.1, by simp [waits.2]⟩

theorem wakeFaulted_calm {proc : Process} (named : pid ≠ noPid)
    (target : proc.state = .blocked → proc.block ≠ .pid →
      proc.targetPid = noPid) :
    Tasks.wakeFaulted pid proc = proc ∨
      ∃ block, Tasks.wakeFaulted pid proc =
          { proc with
            state := .ready, block := block, targetPid := noPid } ∧
        proc.state = .blocked ∧ proc.block ≠ .input := by
  rw [Tasks.wakeFaulted]
  split
  case isTrue waits =>
    refine .inr ⟨_, rfl, waits.2, fun isInput => ?_⟩
    have notPid : proc.block ≠ .pid := by simp [isInput]
    exact named (waits.1.symm.trans (target waits.2 notPid))
  case isFalse => exact .inl rfl

theorem exited_calm (code : Int) (user : m.pending m.curr = .none)
    (q : Nat) : Calm m (m.exited nodes code) q := by
  by_cases same : q = m.curr
  · have dies : Dies m (m.exited nodes code) nodes m.curr :=
      exited_dies code
    rw [same]
    exact .dies dies.dead (woken_eq_false (by simp [user]))
  · have other := setProc_other m
      (fun fields => { fields with state := .dead, exitCode := code }) same
    exact eachNode_calm other rfl (wakeWaiter_calm _ _)

theorem faulted_calm (user : m.pending m.curr = .none)
    (named : m.pidOf m.curr ≠ noPid) (ok : m.InputOk q) :
    Calm m (m.faulted nodes) q := by
  by_cases same : q = m.curr
  · have dies : Dies m (m.faulted nodes) nodes m.curr := faulted_dies
    rw [same]
    exact .dies dies.dead (woken_eq_false (by simp [user]))
  · have other := setProc_other m
      (fun fields => { fields with state := .dead }) same
    refine eachNode_calm other rfl
      (wakeFaulted_calm named fun blocked notPid => ?_)
    exact ok.target (fun dead => by
      have isBlocked : m.stateOf q = .blocked := blocked
      simp [isBlocked] at dead) fun _ => notPid

theorem killed_others {victim : Nat} (different : q ≠ victim) :
    Calm m (m.killed nodes victim) q := by
  have other := setProc_other m
    (fun fields => { fields with state := .dead }) different
  rw [killed]
  split
  case isTrue => exact eachNode_calm other rfl (wakeWaiter_calm _ _)
  case isFalse => exact eachNode_calm other rfl (wakeWaiter_calm _ _)

theorem killed_calm {victim : Nat} (notWoken : m.woken victim = false)
    (q : Nat) : Calm m (m.killed nodes victim) q := by
  by_cases same : q = victim
  · have dies : Dies m (m.killed nodes victim) nodes victim :=
      killed_dies victim
    rw [same]
    exact .dies dies.dead notWoken
  · exact killed_others same

theorem waiting_calm (user : m.pending m.curr = .none) (pid target q : Nat) :
    Calm m (m.waiting pid target) q := by
  have blocks : Blocks m (m.waiting pid target) := waiting_blocks _ _
  by_cases same : q = m.curr
  · subst same
    have block : (m.waiting pid target).blockOf m.curr = .pid := by
      simp [Machine.waiting, blockOf, setPending, setProc_same]
    have pending : (m.waiting pid target).pending m.curr = .wait pid :=
      setPending_same ..
    exact .blocks user blocks.blocked (by simp [block]) (by simp [pending])
      fun notPid => absurd block notPid
  · exact blocks.change.calm same

theorem sleeping_calm (user : m.pending m.curr = .none)
    (running : m.stateOf m.curr = .running) (ms : Nat)
    (ok : q = m.curr → m.InputOk q) : Calm m (m.sleeping ms) q := by
  have blocks : Blocks m (m.sleeping ms) := sleeping_blocks ms
  by_cases same : q = m.curr
  · have own := ok same
    subst same
    have block : (m.sleeping ms).blockOf m.curr = .sleep := by
      simp [Machine.sleeping, blockOf, setProc_same]
    have pending : (m.sleeping ms).pending m.curr = .none := user
    have target : (m.sleeping ms).targetOf m.curr = m.targetOf m.curr := by
      rw [targetOf, Machine.sleeping, setProc_same]
      rfl
    refine .blocks user blocks.blocked (by simp [block]) (by simp [pending])
      fun _ => ?_
    rw [target]
    exact own.target (by simp [running]) fun is => by simp [running] at is
  · exact blocks.change.calm same

/-- The call of the current process goes on. -/
theorem clear_calm (running : m.stateOf m.curr = .running)
    (notGetchar : m.pending m.curr ≠ .getchar) (q : Nat) :
    Calm m (m.setPending m.curr .none) q := by
  by_cases same : q = m.curr
  · subst same
    exact .goesOn running running rfl notGetchar (setPending_same ..)
  · exact .stays rfl rfl rfl (setPending_other m _ same)

open Runs

variable {count : Nat} {labels : List Label}

/-! ## Who waits for what -/

/-- The fields of every process agree on what it waits for. -/
def WaitsOk (m : Machine) (nodes : List Nat) : Prop :=
  ∀ p ∈ nodes, m.InputOk p

/-- Numbers that were handed out are not the number of no process. -/
theorem Numbered.pid_ne (numbered : m.Numbered nodes count)
    (few : count < 2 ^ 32) (member : p ∈ nodes) : m.pidOf p ≠ noPid := by
  obtain ⟨k, positive, below, is⟩ := numbered.used p member
  rw [is, u32, noPid]
  omega

theorem WaitsOk.calm (waits : m.WaitsOk nodes)
    (calm : ∀ q ∈ nodes, Calm m m' q) : m'.WaitsOk nodes := by
  intro q member
  exact (calm q member).inputOk (waits q member)

theorem WaitsOk.same (waits : m.WaitsOk nodes) (same : SameTasks m m') :
    m'.WaitsOk nodes :=
  waits.calm fun q _ => same.calm q

theorem WaitsOk.dies (waits : m.WaitsOk nodes) {victim : Nat}
    (dead : m'.stateOf victim = .dead)
    (others : ∀ q ∈ nodes, q ≠ victim → Calm m m' q) :
    m'.WaitsOk nodes := by
  intro q member
  by_cases same : q = victim
  · rw [same]
    refine ⟨?_, ?_⟩
    · intro blocked
      simp [dead] at blocked
    · intro alive
      exact absurd dead alive
  · exact (others q member same).inputOk (waits q member)

theorem WaitsOk.ticked (waits : m.WaitsOk nodes) :
    (m.ticked nodes).WaitsOk nodes := by
  refine ticked_induction (fun mid => mid.WaitsOk nodes) ?_ ?_ ?_
  · exact waits.same (.of_eq rfl rfl)
  · intro mid waits p member blocked sleeps
    apply waits.calm
    intro q _
    exact wokenUp_calm (waits p member) blocked sleeps q
  · intro mid waits p _ _ _ _
    exact waits.same (cleanedUp_same mid p)

theorem WaitsOk.awaiting (waits : m.WaitsOk nodes)
    (running : m.stateOf m.curr = .running) :
    m.awaiting.WaitsOk nodes := by
  have blocks : Blocks m m.awaiting := awaiting_blocks
  have block : m.awaiting.blockOf m.curr = .input := by
    simp [Machine.awaiting, blockOf, setPending, setProc_same]
  have pending : m.awaiting.pending m.curr = .getchar := setPending_same ..
  have target : m.awaiting.targetOf m.curr = m.targetOf m.curr := by
    simp [Machine.awaiting, targetOf, setPending, setProc_same]
  intro q member
  by_cases same : q = m.curr
  · subst same
    refine ⟨?_, ?_⟩
    · intro _
      simp [block, pending]
    · intro _ _
      rw [target]
      apply (waits _ member).target
      · simp [running]
      · intro blocked
        simp [running] at blocked
  · exact (blocks.change.calm same).inputOk (waits q member)

theorem WaitsOk.beforeSchedule (ok : m.Ok nodes)
    (numbered : m.Numbered nodes count) (few : count < 2 ^ 32)
    (waits : m.WaitsOk nodes) (enabled : m.Enabled label)
    (isMid : Mid m nodes label mid) : mid.WaitsOk nodes := by
  have user : m.pending m.curr = .none :=
    enabled.user (by cases isMid <;> simp)
  cases isMid with
  | tick => exact waits.ticked
  | yieldHlt => exact waits
  | fault program =>
      have member := ok.core.curr.resolve_right program
      have named := numbered.pid_ne few member
      exact waits.calm fun q inside =>
        faulted_calm user named (waits q inside)
  | exit _ => exact waits.calm fun q _ => exited_calm _ user q
  | kill _ _ =>
      have dies : Dies m (m.killed nodes m.curr) nodes m.curr :=
        killed_dies m.curr
      exact waits.dies dies.dead fun q _ other => killed_others other
  | wait _ _ _ _ => exact waits.calm fun q _ => waiting_calm user _ _ q
  | sleep _ _ =>
      exact waits.calm fun q inside =>
        sleeping_calm user ok.running _ fun _ => waits q inside
  | getchar _ _ => exact waits.awaiting ok.running

theorem WaitsOk.awake (waits : m.WaitsOk nodes)
    (awaits : m.awaitsInput p = true) (member : p ∈ nodes) :
    (m.awake p).WaitsOk nodes := by
  obtain ⟨blocked, isInput⟩ := awaitsInput_iff.mp awaits
  have change : OneChange m (m.awake p) p := oneChange_setProc rfl
  have ready : (m.awake p).stateOf p = .ready := by
    rw [stateOf, Tasks.stateOf, Machine.awake, setProc_same]
  have target : (m.awake p).targetOf p = m.targetOf p := by
    rw [targetOf, Machine.awake, setProc_same]
    rfl
  intro q inside
  by_cases same : q = p
  · subst same
    refine ⟨?_, ?_⟩
    · intro is
      simp [ready] at is
    · intro _ _
      rw [target]
      apply (waits q inside).target
      · simp [blocked]
      · intro _
        simp [isInput]
  · exact (change.calm same).inputOk (waits q inside)

theorem WaitsOk.cleared (waits : m.WaitsOk nodes)
    (running : m.stateOf m.curr = .running) :
    (m.setPending m.curr .none).WaitsOk nodes := by
  intro q member
  by_cases same : q = m.curr
  · subst same
    refine ⟨?_, (waits _ member).target⟩
    intro blocked
    exact absurd (running.symm.trans blocked) (by simp)
  · have calm : Calm m (m.setPending m.curr .none) q :=
      .stays rfl rfl rfl (setPending_other m _ same)
    exact calm.inputOk (waits q member)

theorem WaitsOk.direct (ok : m.Ok nodes) (waits : m.WaitsOk nodes)
    (direct : Direct m nodes label m' nodes')
    (notSpawn : isSpawn label = false) : m'.WaitsOk nodes' := by
  cases direct with
  | key _ => exact waits.same (.of_eq rfl rfl)
  | @keyWakes scancode proc member _ awaits =>
      have keyed : (m.keyed scancode).WaitsOk nodes :=
        waits.same (.of_eq rfl rfl)
      exact keyed.awake awaits member
  | killNobody _ => exact waits
  | @kill pid proc _ _ _ =>
      have dies : Dies m (m.killed nodes proc) nodes proc :=
        killed_dies proc
      exact waits.dies dies.dead fun q _ other => killed_others other
  | waitNobody _ => exact waits
  | waitDead _ _ _ => exact waits.same (.of_eq rfl rfl)
  | getchar _ => exact waits.same (.of_eq rfl rfl)
  | getcharNb => exact waits.same (.of_eq rfl rfl)
  | spawn _ => simp [isSpawn] at notSpawn
  | «open» _ done => exact waits.same (sysOpen_files done).same
  | close _ => exact waits.same (sysClose_files _).same
  | read _ done => exact waits.same (sysRead_files done).same
  | write _ done => exact waits.same (sysWrite_files done).same
  | other => exact waits.same (.of_eq rfl rfl)
  | @resumeWait pid proc tasks _ inside _ unlinked =>
      obtain ⟨tasks', unlinked', _, procs, _⟩ :=
        ok.core.listed.procUnlink inside
      rw [unlinked] at unlinked'
      obtain rfl := Option.some.inj unlinked'
      have cleared := waits.cleared ok.running
      intro q member
      have before := cleared q (List.mem_of_mem_erase member)
      refine ⟨?_, ?_⟩
      · change (tasks.procs q).state = .blocked →
          ((tasks.procs q).block = .input ↔ _)
        rw [procs]
        exact before.input
      · change (tasks.procs q).state ≠ .dead →
          ((tasks.procs q).state = .blocked → (tasks.procs q).block ≠ .pid) →
            (tasks.procs q).targetPid = noPid
        rw [procs]
        exact before.target
  | resumeGetchar _ =>
      exact (waits.cleared ok.running).same (.of_eq rfl rfl)

theorem WaitsOk.spawn {child : Process} (core : m.Core nodes)
    (waits : m.WaitsOk nodes) (created : m.Created child) :
    (m.sysSpawn child).WaitsOk (child.addr :: nodes) := by
  have enters := sysSpawn_enters core created
  have fresh := created.unlinked nodes core.listed.path
  intro q member
  cases member with
  | head =>
      have target : (m.sysSpawn child).targetOf child.addr = noPid := by
        rw [targetOf, sysSpawn_child]
        exact created.targetPid
      refine ⟨?_, ?_⟩
      · intro blocked
        simp [enters.ready] at blocked
      · intro _ _
        exact target
  | tail _ inside =>
      have other : q ≠ child.addr := fun same => fresh (same ▸ inside)
      have calm : Calm m (m.sysSpawn child) q := by
        refine .stays ?_ ?_ ?_ (enters.pending q other) <;>
        · simp only [stateOf, Tasks.stateOf, blockOf, targetOf,
            sysSpawn_other other]
      exact calm.inputOk (waits q inside)

/-- The invariant of the runs in which no number runs out. -/
theorem waitsOk_keeps : Keeps (fun _ _ => True) fun m nodes count =>
    count < 2 ^ 32 → m.WaitsOk nodes := by
  refine ⟨?_, ?_, ?_⟩
  · intro m mid nodes count label next ok numbered waits enabled _ isMid
      core may few
    have before := (waits few).beforeSchedule ok numbered few enabled isMid
    exact before.calm fun q _ => goTo_calm core may q
  · intro m m' nodes nodes' count label ok _ waits _ _ direct notSpawn few
    exact (waits few).direct ok direct notSpawn
  · intro m nodes count child ok _ waits created _ few
    exact (waits (by omega)).spawn ok.core created

theorem Booted.waitsOk (booted : m.Booted) : m.WaitsOk [m.curr] := by
  have running : m.stateOf m.curr = .running := booted.running
  intro q member
  rw [List.mem_singleton.mp member]
  refine ⟨?_, ?_⟩
  · intro blocked
    simp [running] at blocked
  · intro _ _
    exact booted.fields.1

/-- After a run from boot in which no number runs out. -/
theorem WaitsOk.run (ok : m.Ok nodes) (numbered : m.Numbered nodes count)
    (positive : 1 ≤ count) (waits : m.WaitsOk nodes)
    (run : Run Step m labels m')
    (few : count + labels.countP isSpawn < 2 ^ 32) :
    ∃ nodes', m'.Ok nodes' ∧
      m'.Numbered nodes' (count + labels.countP isSpawn) ∧
      m'.WaitsOk nodes' := by
  induction run generalizing nodes count with
  | nil => exact ⟨nodes, ok, numbered, waits⟩
  | @cons m mid _ label labels first _ inductionHypothesis =>
      rw [List.countP_cons] at few ⊢
      obtain ⟨nodes', ok', numbered', waits'⟩ := waitsOk_keeps.step ok
        numbered positive (fun _ => waits) ⟨first, trivial⟩
        (fun _ => by omega)
      have rest := inductionHypothesis ok' numbered' (by omega)
        (waits' (by omega)) (by omega)
      rw [Nat.add_assoc, Nat.add_comm (if isSpawn label then 1 else 0)]
        at rest
      exact rest

end Machine

end LoafOs
