import LoafOs.Multi.MachineChange

/-!
# What a step can do

A step ends in `schedule` or it does not.  `Mid` lists the states in which
`schedule` is called, `Direct` the steps without it; every step is one of
these.
-/

namespace LoafOs

open Links

namespace Machine

variable {m m' mid : Machine} {nodes nodes' : List Nat} {p q pid : Nat}
  {label : Label}

/-- A loop over the list that changes each structure on its own. -/
def eachNode (m : Machine) (nodes : List Nat) (change : Process → Process) :
    Machine :=
  m.setTasks { m.tasks with
    procs := fun node =>
      if node ∈ nodes then change (m.tasks.procs node)
      else m.tasks.procs node }

/-- The current process has exited. -/
def exited (m : Machine) (nodes : List Nat) (code : Int) : Machine :=
  ((m.setProc m.curr fun fields =>
    { fields with state := .dead, exitCode := code }).record
      (.died m.currFields.pid code)).eachNode nodes
        (Tasks.wakeWaiter m.currFields.pid)

/-- The current process has faulted. -/
def faulted (m : Machine) (nodes : List Nat) : Machine :=
  ((m.markDead m.curr).record (.died m.currFields.pid (-1))).eachNode nodes
    (Tasks.wakeFaulted m.currFields.pid)

/-- A process has been killed. -/
def killed (m : Machine) (nodes : List Nat) (proc : Nat) : Machine :=
  (if m.tasks.stateOf proc ≠ .dead then
    (m.markDead proc).record (.died (m.pidOf proc) (-1))
  else m.markDead proc).eachNode nodes (Tasks.wakeWaiter (m.pidOf proc))

/-- The current process waits for another one. -/
def waiting (m : Machine) (pid target : Nat) : Machine :=
  (m.setProc m.curr fun fields =>
    { fields with
      state := .blocked
      block := .pid
      targetPid := target }).setPending m.curr (.wait pid)

/-- The current process sleeps. -/
def sleeping (m : Machine) (ms : Nat) : Machine :=
  m.setProc m.curr fun fields =>
    { fields with
      state := .blocked
      block := .sleep
      resumeTick := u32 (m.tickCount + ms) }

/-- The current process waits for a key. -/
def awaiting (m : Machine) : Machine :=
  (m.setProc m.curr fun fields =>
    { fields with state := .blocked, block := .input }).setPending m.curr
      .getchar

/-- The timer has gone through the list. -/
def ticked (m : Machine) (nodes : List Nat) : Machine :=
  nodes.foldl pitProc { m with tickCount := u32 (m.tickCount + 1) }

/-- The keyboard has taken a scancode. -/
def keyed (m : Machine) (scancode : UInt8) : Machine :=
  { m with kbd := (m.kbd.interrupt scancode).1 }

/-- A process that waited for a key is ready. -/
def awake (m : Machine) (proc : Nat) : Machine :=
  m.setProc proc fun fields => { fields with state := .ready, block := .none }

/-- The states in which a step calls `schedule`. -/
inductive Mid (m : Machine) (nodes : List Nat) : Label → Machine → Prop
  | tick : Mid m nodes .tick (m.ticked nodes)
  | fault (program : m.curr ≠ m.tasks.idleProc) :
      Mid m nodes .fault (m.faulted nodes)
  | exit {code : Int} (program : m.curr ≠ m.tasks.idleProc) :
      Mid m nodes (.call (.exit code)) (m.exited nodes code)
  | yieldHlt : Mid m nodes (.call .yieldHlt) m
  | kill {pid : Nat} (program : m.curr ≠ m.tasks.idleProc)
      (itself : m.pidOf m.curr = pid) :
      Mid m nodes (.call (.kill pid)) (m.killed nodes m.curr)
  | wait {pid proc : Nat} (program : m.curr ≠ m.tasks.idleProc)
      (member : proc ∈ nodes) (named : m.pidOf proc = pid)
      (alive : m.stateOf proc ≠ .dead) :
      Mid m nodes (.call (.wait pid)) (m.waiting pid pid)
  | sleep {ms : Nat} (program : m.curr ≠ m.tasks.idleProc)
      (user : m.pending m.curr = .none) :
      Mid m nodes (.call (.sleep ms)) (m.sleeping ms)
  | getchar (program : m.curr ≠ m.tasks.idleProc)
      (empty : m.kbd.getchar = (none, m.kbd)) :
      Mid m nodes (.call .getchar) m.awaiting

/-- The steps that do not call `schedule`, with the list after them. -/
inductive Direct (m : Machine) (nodes : List Nat) :
    Label → Machine → List Nat → Prop
  | key {scancode : UInt8}
      (quiet : (m.kbd.interrupt scancode).2 = true →
        ∀ p ∈ nodes, ¬ m.awaitsInput p) :
      Direct m nodes (.key scancode) (m.keyed scancode) nodes
  | keyWakes {scancode : UInt8} {proc : Nat} (member : proc ∈ nodes)
      (stored : (m.kbd.interrupt scancode).2 = true)
      (awaits : m.awaitsInput proc = true) :
      Direct m nodes (.key scancode) ((m.keyed scancode).awake proc) nodes
  | killNobody {pid : Nat} (nobody : ∀ p ∈ nodes, m.pidOf p ≠ pid) :
      Direct m nodes (.call (.kill pid)) m nodes
  | kill {pid proc : Nat} (member : proc ∈ nodes)
      (named : m.pidOf proc = pid) (other : proc ≠ m.curr) :
      Direct m nodes (.call (.kill pid)) (m.killed nodes proc) nodes
  | waitNobody {pid : Nat} (nobody : ∀ p ∈ nodes, m.pidOf p ≠ pid) :
      Direct m nodes (.call (.wait pid)) m nodes
  | waitDead {pid proc : Nat} (member : proc ∈ nodes)
      (named : m.pidOf proc = pid) (dead : m.stateOf proc = .dead) :
      Direct m nodes (.call (.wait pid))
        (m.record (.waited pid (m.tasks.procs proc).exitCode)) nodes
  | getchar {c : UInt8} {kbd : Keyboard}
      (taken : m.kbd.getchar = (some c, kbd)) :
      Direct m nodes (.call .getchar)
        ({ m with kbd }.record (.got (some c))) nodes
  | getcharNb : Direct m nodes (.call .getcharNb) m.sysGetcharNb nodes
  | spawn {child : Process} (created : m.Created child) :
      Direct m nodes (.call (.spawn child)) (m.sysSpawn child)
        (child.addr :: nodes)
  | open {stack : DirSlot} {path : CString} {writable : Bool}
      {after : Machine} (program : m.curr ≠ m.tasks.idleProc)
      (done : m.sysOpen stack path writable = some after) :
      Direct m nodes (.call (.open stack path writable)) after nodes
  | close {fd : Int} (program : m.curr ≠ m.tasks.idleProc) :
      Direct m nodes (.call (.close fd)) (m.sysClose fd) nodes
  | read {fd : Int} {heap : Option Bytes} {len : UInt32}
      {after : Machine} (program : m.curr ≠ m.tasks.idleProc)
      (done : m.sysRead fd heap len = some after) :
      Direct m nodes (.call (.read fd heap len)) after nodes
  | write {fd : Int} {stack : DirSlot} {data : Bytes} {len : UInt32}
      {after : Machine} (program : m.curr ≠ m.tasks.idleProc)
      (done : m.sysWrite fd stack data len = some after) :
      Direct m nodes (.call (.write fd stack data len)) after nodes
  | other {volume : Volume} :
      Direct m nodes (.call (.other volume))
        { m with files := { m.files with volume } } nodes
  | resumeWait {pid proc : Nat} {tasks : Tasks}
      (pending : m.pending m.curr = .wait pid) (member : proc ∈ nodes)
      (named : m.pidOf proc = pid)
      (unlinked : m.tasks.procUnlink proc = some tasks) :
      Direct m nodes .resume
        ((((m.setPending m.curr .none).setTasks tasks).record
          (.freed pid)).record (.waited pid (m.tasks.procs proc).exitCode))
        (nodes.erase proc)
  | resumeGetchar (pending : m.pending m.curr = .getchar) :
      Direct m nodes .resume (m.setPending m.curr .none).resumeGetchar nodes

/-! ## The loops -/

theorem foldl_pitProc (nodes : List Nat) (m : Machine)
    (holds : Machine → Prop) (start : holds m)
    (body : ∀ m, holds m → ∀ p ∈ nodes, holds (m.pitProc p)) :
    holds (nodes.foldl pitProc m) := by
  induction nodes generalizing m with
  | nil => exact start
  | cons p rest inductionHypothesis =>
      exact inductionHypothesis (m.pitProc p)
        (body m start p (List.mem_cons_self ..))
        fun m holds q member => body m holds q (List.mem_cons_of_mem _ member)

/-! ## Deaths -/

/-- A loop body that wakes the processes waiting for `pid`. -/
def Wakes (pid : Nat) (wake : Process → Process) : Prop :=
  ∀ proc, (wake proc = proc ∧
      ¬ (proc.state = .blocked ∧ proc.block = .pid ∧
        proc.targetPid = pid)) ∨
    ∃ block, wake proc =
        { proc with state := .ready, block := block, targetPid := noPid } ∧
      proc.state = .blocked ∧ proc.targetPid = pid

theorem wakes_wakeWaiter (pid : Nat) : Wakes pid (Tasks.wakeWaiter pid) := by
  intro proc
  rw [Tasks.wakeWaiter]
  split
  case isTrue other => exact .inl ⟨rfl, by tauto⟩
  case isFalse waits =>
    split
    case isTrue other => exact .inl ⟨rfl, by tauto⟩
    case isFalse same => exact .inr ⟨_, rfl, by tauto, by tauto⟩

theorem wakes_wakeFaulted (pid : Nat) :
    Wakes pid (Tasks.wakeFaulted pid) := by
  intro proc
  rw [Tasks.wakeFaulted]
  split
  case isTrue both => exact .inr ⟨_, rfl, both.2, both.1⟩
  case isFalse other => exact .inl ⟨rfl, by tauto⟩

/-- A process that is marked dead, and a loop that wakes its waiters. -/
theorem dies_eachNode {victim : Nat} {wake : Process → Process}
    (change : Process → Process)
    (tasks : mid.tasks = (m.setProc victim change).tasks)
    (pending : mid.pending = m.pending)
    (dead : (change (m.tasks.procs victim)).state = .dead)
    (pid : (change (m.tasks.procs victim)).pid = m.pidOf victim)
    (wakes : Wakes (m.pidOf victim) wake) :
    Dies m (mid.eachNode nodes wake) nodes victim := by
  have same : mid.tasks.procs victim = change (m.tasks.procs victim) := by
    rw [tasks]
    exact Tasks.setProc_same
  have other : ∀ q, q ≠ victim → mid.tasks.procs q = m.tasks.procs q := by
    intro q different
    rw [tasks]
    exact Tasks.setProc_other different
  have after : ∀ q, (mid.eachNode nodes wake).tasks.procs q =
      if q ∈ nodes then wake (mid.tasks.procs q)
      else mid.tasks.procs q := fun _ => rfl
  have victimAfter : (mid.eachNode nodes wake).tasks.procs victim =
      change (m.tasks.procs victim) := by
    rw [after, same]
    split
    case isTrue =>
      rcases wakes (change (m.tasks.procs victim)) with
        ⟨kept, _⟩ | ⟨_, _, blocked, _⟩
      · exact kept
      · rw [dead] at blocked
        simp at blocked
    case isFalse => rfl
  refine ⟨⟨?_, ?_, ?_, ?_, ?_⟩, pending, ?_, fun q => ?_,
    fun q different => ?_, fun q member different blocked isPid target => ?_⟩
  · change mid.tasks.next = _
    rw [tasks]
    rfl
  · change mid.tasks.procList = _
    rw [tasks]
    rfl
  · change mid.tasks.currProc = _
    rw [tasks]
    rfl
  · change mid.tasks.idleProc = _
    rw [tasks]
    rfl
  · change mid.tasks.schedulerReady = _
    rw [tasks]
    rfl
  · rw [stateOf, Tasks.stateOf, victimAfter]
    exact dead
  · by_cases isVictim : q = victim
    · rw [isVictim, pidOf, victimAfter]
      exact pid
    · rw [pidOf, after, other q isVictim]
      split
      case isTrue =>
        rcases wakes (m.tasks.procs q) with ⟨kept, _⟩ | ⟨_, woken, _⟩
        · rw [kept]
          rfl
        · rw [woken]
          rfl
      case isFalse => rfl
  · simp only [stateOf, Tasks.stateOf, blockOf, targetOf, after,
      other q different]
    split
    case isTrue =>
      rcases wakes (m.tasks.procs q) with
        ⟨kept, _⟩ | ⟨_, woken, blocked, target⟩
      · rw [kept]
        exact .inl ⟨rfl, rfl, rfl⟩
      · rw [woken]
        exact .inr ⟨blocked, target, rfl⟩
    case isFalse => exact .inl ⟨rfl, rfl, rfl⟩
  · simp only [stateOf, Tasks.stateOf, after, other q different]
    rw [if_pos member]
    rcases wakes (m.tasks.procs q) with ⟨_, stays⟩ | ⟨_, woken, _⟩
    · exact absurd ⟨blocked, isPid, target⟩ stays
    · rw [woken]

theorem exited_dies (code : Int) :
    Dies m (m.exited nodes code) nodes m.curr :=
  dies_eachNode
    (fun fields => { fields with state := .dead, exitCode := code })
    rfl rfl rfl rfl (wakes_wakeWaiter _)

theorem faulted_dies : Dies m (m.faulted nodes) nodes m.curr :=
  dies_eachNode (fun fields => { fields with state := .dead })
    rfl rfl rfl rfl (wakes_wakeFaulted _)

theorem killed_dies (victim : Nat) :
    Dies m (m.killed nodes victim) nodes victim := by
  rw [killed]
  split
  case isTrue =>
    exact dies_eachNode (fun fields => { fields with state := .dead })
      rfl rfl rfl rfl (wakes_wakeWaiter _)
  case isFalse =>
    exact dies_eachNode (fun fields => { fields with state := .dead })
      rfl rfl rfl rfl (wakes_wakeWaiter _)

/-! ## The timer -/

/-- `process_cleanup` and the mark that it has run. -/
def cleanedUp (m : Machine) (p : Nat) : Machine :=
  (m.processCleanup p).setProc p fun fields =>
    { fields with cleanedUp := true }

/-- A process whose time has come. -/
def wokenUp (m : Machine) (p : Nat) : Machine :=
  m.setProc p fun fields =>
    { fields with state := .ready, block := .none, resumeTick := noPid }

/-- What the timer does to one process. -/
theorem pitProc_cases (m : Machine) (p : Nat) :
    m.pitProc p = m ∨
      (m.stateOf p = .dead ∧ (m.tasks.procs p).cleanedUp = false ∧
        p ≠ m.curr ∧ m.pitProc p = m.cleanedUp p) ∨
      (m.stateOf p = .blocked ∧ m.blockOf p = .sleep ∧
        m.pitProc p = m.wokenUp p) := by
  rw [pitProc]
  split
  case isTrue dead =>
    split
    case isTrue other =>
      exact .inr (.inl ⟨dead.1, by simpa using dead.2, other, rfl⟩)
    case isFalse => exact .inl rfl
  case isFalse =>
    split
    case isTrue => exact .inl rfl
    case isFalse sleeps =>
      split
      case isTrue => exact .inl rfl
      case isFalse =>
        rw [not_or, not_not, not_not] at sleeps
        exact .inr (.inr ⟨sleeps.1, sleeps.2, rfl⟩)

theorem cleanedUp_procs (m : Machine) (p : Nat) :
    (m.cleanedUp p).tasks.procs p =
      { m.tasks.procs p with
        fds := (m.tasks.procs p).fds.map fun _ => -1
        dirsInUse := (m.tasks.procs p).dirsInUse.map fun _ => false
        image := { (m.tasks.procs p).image with pdPhys := 0 }
        kstack := 0
        cleanedUp := true } := by
  rw [cleanedUp, setProc_same, processCleanup]
  simp only [record, setProc_same]

theorem cleanedUp_other (m : Machine) {p q : Nat} (different : q ≠ p) :
    (m.cleanedUp p).tasks.procs q = m.tasks.procs q := by
  rw [cleanedUp, setProc_other _ _ different]
  change Function.update m.tasks.procs p _ q = _
  exact Function.update_of_ne different ..

theorem cleanedUp_same (m : Machine) (p : Nat) :
    SameTasks m (m.cleanedUp p) := by
  refine ⟨rfl, rfl, rfl, rfl, rfl, rfl, fun q => ?_, fun q => ?_,
    fun q => ?_, fun q => ?_⟩ <;>
  · by_cases same : q = p
    · subst same
      simp only [stateOf, Tasks.stateOf, pidOf, blockOf, targetOf,
        cleanedUp_procs]
    · simp only [stateOf, Tasks.stateOf, pidOf, blockOf, targetOf,
        cleanedUp_other m same]

theorem wokenUp_change (m : Machine) (p : Nat) :
    OneChange m (m.wokenUp p) p := oneChange_setProc rfl

/-- The timer wakes sleepers and cleans up; it ends nothing and starts
nothing. -/
theorem Core.pitProc (core : m.Core nodes) (member : p ∈ nodes) :
    (m.pitProc p).Core nodes := by
  rcases pitProc_cases m p with same | ⟨_, _, _, cleaned⟩ |
    ⟨blocked, block, woken⟩
  · rw [same]
    exact core
  · rw [cleaned]
    exact core.same (cleanedUp_same m p)
  · rw [woken]
    refine core.wake (wokenUp_change m p) member blocked (by simp [block])
      rfl ?_
    rw [stateOf, Tasks.stateOf, wokenUp, setProc_same]

theorem pitProc_links (m : Machine) (p : Nat) :
    SameLinks m (m.pitProc p) := by
  rcases pitProc_cases m p with same | ⟨_, _, _, cleaned⟩ | ⟨_, _, woken⟩
  · rw [same]
    exact ⟨rfl, rfl, rfl, rfl, rfl⟩
  · rw [cleaned]
    exact ⟨rfl, rfl, rfl, rfl, rfl⟩
  · rw [woken]
    exact ⟨rfl, rfl, rfl, rfl, rfl⟩

/-- The timer only changes the states of sleeping processes. -/
theorem pitProc_state (m : Machine) (p q : Nat)
    (awake : m.stateOf q ≠ .blocked) :
    (m.pitProc p).stateOf q = m.stateOf q := by
  rcases pitProc_cases m p with same | ⟨_, _, _, cleaned⟩ |
    ⟨blocked, _, woken⟩
  · rw [same]
  · rw [cleaned, (cleanedUp_same m p).states]
  · have different : q ≠ p := fun same => awake (same ▸ blocked)
    rw [woken, (wokenUp_change m p).stateOf different]

theorem Ok.ticked (ok : m.Ok nodes) :
    (m.ticked nodes).Core nodes ∧
      (m.ticked nodes).curr = m.curr ∧
      (m.ticked nodes).tasks.idleProc = m.tasks.idleProc ∧
      (m.ticked nodes).stateOf m.curr = .running := by
  rw [Machine.ticked]
  refine foldl_pitProc nodes _ (fun mid => mid.Core nodes ∧
    mid.curr = m.curr ∧ mid.tasks.idleProc = m.tasks.idleProc ∧
    mid.stateOf m.curr = .running) ?_ ?_
  · exact ⟨ok.core.same ⟨rfl, rfl, rfl, rfl, rfl, rfl, fun _ => rfl,
      fun _ => rfl, fun _ => rfl, fun _ => rfl⟩, rfl, rfl, ok.running⟩
  · intro mid ⟨core, curr, idle, running⟩ p member
    have links := pitProc_links mid p
    refine ⟨core.pitProc member, links.curr.trans curr,
      links.idle.trans idle, ?_⟩
    rw [pitProc_state mid p m.curr (by simp [running])]
    exact running

/-! ## The states before `schedule` -/

theorem Ok.beforeSchedule (ok : m.Ok nodes) (isMid : Mid m nodes label mid) :
    mid.Core nodes ∧ mid.stateOf mid.curr ≠ .ready ∧
      (mid.curr = mid.tasks.idleProc →
        mid.stateOf mid.tasks.idleProc = .running) := by
  have core := ok.core
  have running := ok.running
  have inside : m.curr ≠ m.tasks.idleProc → m.curr ∈ nodes :=
    fun program => core.curr.resolve_right program
  cases isMid with
  | tick =>
      obtain ⟨core', curr, idle, running'⟩ := ok.ticked
      refine ⟨core', ?_, fun isIdle => ?_⟩
      · rw [curr, running']
        simp
      · rw [← isIdle, curr]
        exact running'
  | yieldHlt =>
      refine ⟨core, by simp [running], fun isIdle => ?_⟩
      rw [← isIdle]
      exact running
  | fault program =>
      have dies : Dies m (m.faulted nodes) nodes m.curr := faulted_dies
      refine ⟨core.dies dies (inside program), ?_, fun isIdle => ?_⟩
      · rw [dies.links.curr, dies.dead]
        simp
      · rw [dies.links.curr, dies.links.idle] at isIdle
        exact absurd isIdle program
  | @exit code program =>
      have dies : Dies m (m.exited nodes code) nodes m.curr :=
        exited_dies code
      refine ⟨core.dies dies (inside program), ?_, fun isIdle => ?_⟩
      · rw [dies.links.curr, dies.dead]
        simp
      · rw [dies.links.curr, dies.links.idle] at isIdle
        exact absurd isIdle program
  | kill program _ =>
      have dies : Dies m (m.killed nodes m.curr) nodes m.curr :=
        killed_dies m.curr
      refine ⟨core.dies dies (inside program), ?_, fun isIdle => ?_⟩
      · rw [dies.links.curr, dies.dead]
        simp
      · rw [dies.links.curr, dies.links.idle] at isIdle
        exact absurd isIdle program
  | @wait pid proc program member named alive =>
      have change : OneChange m (m.waiting pid pid) m.curr :=
        (oneChange_setProc rfl).setPending _
      have blocked : (m.waiting pid pid).stateOf m.curr = .blocked := by
        simp [Machine.waiting, stateOf, Tasks.stateOf, setPending,
          setProc_same]
      refine ⟨ok.blockOn change program blocked ?_ ?_ ?_ member named alive,
        ?_, fun isIdle => absurd isIdle program⟩
      · simp [Machine.waiting, blockOf, setPending, setProc_same]
      · simp [Machine.waiting, targetOf, setPending, setProc_same]
      · exact Function.update_self ..
      · change (m.waiting pid pid).stateOf m.curr ≠ .ready
        simp [blocked]
  | @sleep ms program user =>
      have change : OneChange m (m.sleeping ms) m.curr :=
        oneChange_setProc rfl
      have blocked : (m.sleeping ms).stateOf m.curr = .blocked := by
        simp [Machine.sleeping, stateOf, Tasks.stateOf, setProc_same]
      refine ⟨ok.block change program blocked ?_ (fun pid is => ?_), ?_,
        fun isIdle => absurd isIdle program⟩
      · simp [Machine.sleeping, blockOf, setProc_same]
      · rw [show (m.sleeping ms).pending = m.pending from rfl, user] at is
        simp at is
      · change (m.sleeping ms).stateOf m.curr ≠ .ready
        simp [blocked]
  | getchar program empty =>
      have change : OneChange m m.awaiting m.curr :=
        (oneChange_setProc rfl).setPending _
      have blocked : m.awaiting.stateOf m.curr = .blocked := by
        simp [Machine.awaiting, stateOf, Tasks.stateOf, setPending,
          setProc_same]
      refine ⟨ok.block change program blocked ?_ ?_, ?_,
        fun isIdle => absurd isIdle program⟩
      · simp [Machine.awaiting, blockOf, setPending, setProc_same]
      · intro pid is
        have pending : m.awaiting.pending m.curr = .getchar :=
          Function.update_self ..
        rw [pending] at is
        simp at is
      · change m.awaiting.stateOf m.curr ≠ .ready
        simp [blocked]

/-! ## The steps without `schedule` -/

/-- A process may get a number that no process has and none waits for. -/
def FreshPid (m : Machine) (nodes : List Nat) : Prop :=
  (∀ p ∈ nodes, m.pidOf p ≠ m.nextPid) ∧
    ∀ p ∈ nodes, m.pending p ≠ .wait m.nextPid

theorem killed_curr (victim : Nat) : (m.killed nodes victim).curr = m.curr :=
  (killed_dies victim).links.curr

/-- A call that reaches open files changes nothing but the descriptors of
the caller and the file system. -/
structure FileCall (m m' : Machine) : Prop where
  same : SameTasks m m'
  nextPid : m'.nextPid = m.nextPid
  kbd : m'.kbd = m.kbd
  events : m'.events = m.events
  procs : ∀ p, ∃ fds, m'.tasks.procs p = { m.tasks.procs p with fds }

theorem fileCall_files (files : FileSystem) :
    FileCall m { m with files } :=
  ⟨.of_eq rfl rfl, rfl, rfl, rfl, fun p => ⟨(m.tasks.procs p).fds, rfl⟩⟩

theorem fileCall_fds (files : FileSystem) (change : List Int → List Int) :
    FileCall m (({ m with files } : Machine).setProc m.curr fun fields =>
      { fields with fds := change fields.fds }) := by
  have changed : SameTasks { m with files }
      (({ m with files } : Machine).setProc m.curr fun fields =>
        { fields with fds := change fields.fds }) := by
    refine sameTasks_setProc ?_ ?_ ?_ ?_ <;> rfl
  refine ⟨(fileCall_files files).same.trans changed, rfl, rfl, rfl,
    fun p => ?_⟩
  by_cases same : p = m.curr
  · subst same
    exact ⟨_, setProc_same ..⟩
  · exact ⟨(m.tasks.procs p).fds, setProc_other _ _ same⟩

theorem sysOpen_files {stack : DirSlot} {path : CString} {writable : Bool}
    (done : m.sysOpen stack path writable = some m') : FileCall m m' := by
  rw [sysOpen] at done
  split at done
  case h_1 =>
    rw [← Option.some.inj done]
    exact fileCall_files m.files
  case h_2 slot _ =>
    simp only [Option.bind_eq_bind, Option.pure_def] at done
    obtain ⟨⟨idx, files⟩, _, done⟩ := Option.bind_eq_some_iff.mp done
    split at done
    case isTrue =>
      rw [← Option.some.inj done]
      exact fileCall_files files
    case isFalse =>
      rw [← Option.some.inj done]
      exact fileCall_fds files fun fds => fds.set slot idx

theorem sysClose_files (fd : Int) : FileCall m (m.sysClose fd) := by
  rw [sysClose]
  split
  · exact fileCall_files m.files
  · exact fileCall_fds _ fun fds => fds.set fd.toNat (-1)

theorem sysRead_files {fd : Int} {heap : Option Bytes} {len : UInt32}
    (done : m.sysRead fd heap len = some m') : FileCall m m' := by
  rw [sysRead] at done
  split at done
  case h_1 =>
    rw [← Option.some.inj done]
    exact fileCall_files m.files
  case h_2 =>
    simp only [Option.bind_eq_bind, Option.pure_def] at done
    obtain ⟨read, _, done⟩ := Option.bind_eq_some_iff.mp done
    rw [← Option.some.inj done]
    exact fileCall_files read.fs

theorem sysWrite_files {fd : Int} {stack : DirSlot} {data : Bytes}
    {len : UInt32} (done : m.sysWrite fd stack data len = some m') :
    FileCall m m' := by
  rw [sysWrite] at done
  split at done
  case h_1 =>
    rw [← Option.some.inj done]
    exact fileCall_files m.files
  case h_2 =>
    simp only [Option.bind_eq_bind, Option.pure_def] at done
    obtain ⟨⟨_, files⟩, _, done⟩ := Option.bind_eq_some_iff.mp done
    rw [← Option.some.inj done]
    exact fileCall_files files

/-- The structure that `SYS_SPAWN` puts on the list. -/
def spawned (m : Machine) (child : Process) : Process :=
  { child with ppid := m.currFields.pid, cwd := m.currFields.cwd }

theorem sysSpawn_procs (child : Process) :
    (m.sysSpawn child).tasks.procs =
      Function.update m.tasks.procs child.addr (m.spawned child) := rfl

theorem sysSpawn_child (child : Process) :
    (m.sysSpawn child).tasks.procs child.addr = m.spawned child := by
  rw [sysSpawn_procs, Function.update_self]

theorem sysSpawn_other {child : Process} (different : q ≠ child.addr) :
    (m.sysSpawn child).tasks.procs q = m.tasks.procs q := by
  rw [sysSpawn_procs, Function.update_of_ne different]

theorem sysSpawn_enters {child : Process} (core : m.Core nodes)
    (created : m.Created child) :
    Enters m (m.sysSpawn child) nodes child.addr := by
  have fresh := created.unlinked nodes core.listed.path
  have added := core.listed.schedulerAdd fresh created.nonzero created.word
  refine ⟨added.congr rfl rfl,
    fun q different => Function.update_of_ne different ..,
    rfl, rfl, rfl, fun q => sysSpawn_other,
    fun q different => Function.update_of_ne different ..,
    Function.update_self .., ?_⟩
  rw [stateOf, Tasks.stateOf, sysSpawn_child]
  exact created.state

theorem sysSpawn_pid (child : Process) :
    (m.sysSpawn child).pidOf child.addr = child.pid := by
  rw [pidOf, sysSpawn_child]
  rfl

/-- A step without `schedule` keeps the invariant. -/
theorem Ok.direct (ok : m.Ok nodes)
    (direct : Direct m nodes label m' nodes')
    (fresh : ∀ child, label = .call (.spawn child) → m.FreshPid nodes) :
    m'.Ok nodes' := by
  cases direct with
  | key _ => exact ok.same (.of_eq rfl rfl)
  | @keyWakes scancode proc member _ awaits =>
      have keyed : (m.keyed scancode).Ok nodes := ok.same (.of_eq rfl rfl)
      have both : m.stateOf proc = .blocked ∧ m.blockOf proc = .input :=
        of_decide_eq_true awaits
      have ready : ((m.keyed scancode).awake proc).stateOf proc = .ready := by
        rw [stateOf, Tasks.stateOf, awake, setProc_same]
      have change : OneChange (m.keyed scancode)
          ((m.keyed scancode).awake proc) proc := oneChange_setProc rfl
      have core := keyed.core.wake change member both.1
        (by rw [show (m.keyed scancode).blockOf proc = _ from both.2]; simp)
        rfl ready
      refine ⟨core, ?_⟩
      have different : m.curr ≠ proc := by
        intro same
        have running := ok.running
        rw [same, both.1] at running
        simp at running
      exact (change.stateOf different).trans ok.running
  | killNobody _ => exact ok
  | @kill pid proc member _ other =>
      have dies : Dies m (m.killed nodes proc) nodes proc :=
        killed_dies proc
      refine ⟨ok.core.dies dies member, ?_⟩
      rw [dies.links.curr]
      have running := ok.running
      rcases dies.others m.curr other.symm with ⟨state, _⟩ | ⟨blocked, _⟩
      · rw [state, running]
      · rw [running] at blocked
        simp at blocked
  | waitNobody _ => exact ok
  | waitDead _ _ _ => exact ok.same (.of_eq rfl rfl)
  | getchar _ => exact ok.same (.of_eq rfl rfl)
  | getcharNb => exact ok.same (.of_eq rfl rfl)
  | @spawn child created =>
      obtain ⟨unused, unwaited⟩ := fresh child rfl
      have enters := sysSpawn_enters ok.core created
      have pid := (sysSpawn_pid (m := m) child).trans created.pid
      refine ⟨ok.core.enters enters created.notIdle
        (by rw [pid]; exact unused) (by rw [pid]; exact unwaited), ?_⟩
      rw [enters.curr, stateOf, Tasks.stateOf,
        enters.procs m.curr created.notCurr.symm]
      exact ok.running
  | «open» _ done => exact ok.same (sysOpen_files done).same
  | close _ => exact ok.same (sysClose_files _).same
  | read _ done => exact ok.same (sysRead_files done).same
  | write _ done => exact ok.same (sysWrite_files done).same
  | other => exact ok.same (.of_eq rfl rfl)
  | resumeGetchar _ => exact ok.clear.same (.of_eq rfl rfl)
  | @resumeWait pid proc tasks pending member named unlinked =>
      obtain ⟨tasks', unlinked', listed, procs, curr, idle, enabled, links⟩ :=
        ok.core.listed.procUnlink member
      rw [unlinked] at unlinked'
      obtain rfl := Option.some.inj unlinked'
      have dead : m.stateOf proc = .dead := by
        have running := ok.running
        rcases ok.core.curr with inside | isIdle
        · exact (ok.core.waits m.curr inside).woken pid pending
            (by simp [running]) (by simp [running]) proc member named
        · rw [isIdle, ok.core.idlePending] at pending
          simp at pending
      exact ok.clear.leaves ⟨listed, links, curr, idle, enabled, procs, rfl⟩
        dead

end Machine

end LoafOs
