import LoafOs.Multi.MachineStep

/-!
# Process states over whole runs

Every step is one of those that `Mid` and `Direct` list, so the invariant
holds in every state that the kernel reaches from boot.
-/

namespace LoafOs

open Links Runs

namespace Machine

variable {m m' mid : Machine} {nodes nodes' : List Nat} {p q pid : Nat}
  {label : Label} {labels : List Label}

/-- A step that ends in `schedule`, or one that does not. -/
def Outcome (m : Machine) (nodes : List Nat) (label : Label)
    (m' : Machine) : Prop :=
  (∃ mid next, Mid m nodes label mid ∧ MayGo mid nodes next ∧
    m' = mid.goTo next) ∨
  ∃ nodes', Direct m nodes label m' nodes'

theorem Ok.scheduled (ok : m.Ok nodes) (isMid : Mid m nodes label mid)
    (done : mid.schedule = some m') : Outcome m nodes label m' := by
  obtain ⟨core, yields, idleRuns⟩ := ok.beforeSchedule isMid
  obtain ⟨next, may, scheduled⟩ := core.schedule yields idleRuns
  refine .inl ⟨mid, next, isMid, may, ?_⟩
  exact Option.some.inj (done.symm.trans scheduled)

theorem Ok.tick_eq (ok : m.Ok nodes) : m.tick = (m.ticked nodes).schedule := by
  have enabled := ok.core.enabled
  have walk := ok.core.listed.listFrom
  simp only [Machine.tick, pitHandler, enabled, if_true, walk,
    Option.bind_eq_bind, Option.bind_some, Option.pure_def]
  rfl

theorem Ok.key_outcome (ok : m.Ok nodes) {scancode : UInt8}
    (done : m.key scancode = some m') :
    ∃ nodes', Direct m nodes (.key scancode) m' nodes' := by
  have walk := ok.core.listed.listFrom
  rw [Machine.key] at done
  cases stored : (m.kbd.interrupt scancode).2 with
  | false =>
      simp only [stored, Bool.false_eq_true, if_false, Option.pure_def,
        Option.some_inj] at done
      rw [← done]
      exact ⟨nodes, .key fun is => by simp [stored] at is⟩
  | true =>
      simp only [stored, if_true, walk, Option.bind_eq_bind,
        Option.bind_some, Option.pure_def] at done
      split at done
      case h_1 nobody =>
        rw [← Option.some.inj done]
        exact ⟨nodes, .key fun _ p member awaits =>
          List.find?_eq_none.mp nobody p member awaits⟩
      case h_2 proc found =>
        rw [← Option.some.inj done]
        exact ⟨nodes, .keyWakes (List.mem_of_find?_eq_some found) stored
          (List.find?_some found)⟩

theorem Ok.fault_outcome (ok : m.Ok nodes)
    (program : m.curr ≠ m.tasks.idleProc) (done : m.fault = some m') :
    Outcome m nodes .fault m' := by
  refine ok.scheduled (.fault program) ?_
  have marked : ((m.markDead m.curr).record
      (.died m.currFields.pid (-1))).tasks.Listed nodes :=
    ok.core.listed.congr rfl rfl
  rw [Machine.fault] at done
  simp only [marked.eachProc, Option.bind_eq_bind, Option.bind_some] at done
  split at done
  case isTrue => simp at done
  case isFalse => exact done

theorem Ok.exit_outcome (ok : m.Ok nodes) {code : Int}
    (program : m.curr ≠ m.tasks.idleProc)
    (done : m.sysExit code = some m') :
    Outcome m nodes (.call (.exit code)) m' := by
  refine ok.scheduled (.exit program) ?_
  have marked : ((m.setProc m.curr fun fields =>
      { fields with state := .dead, exitCode := code }).record
        (.died m.currFields.pid code)).tasks.Listed nodes :=
    ok.core.listed.congr rfl rfl
  rw [Machine.sysExit] at done
  simp only [marked.eachProc, Option.bind_eq_bind, Option.bind_some] at done
  exact done

theorem Ok.kill_outcome (ok : m.Ok nodes) {pid : Nat}
    (program : m.curr ≠ m.tasks.idleProc)
    (done : m.sysKill pid = some m') :
    Outcome m nodes (.call (.kill pid)) m' := by
  rw [Machine.sysKill] at done
  simp only [Option.bind_eq_bind, Option.pure_def] at done
  obtain ⟨proc, found, done⟩ := Option.bind_eq_some_iff.mp done
  rcases ok.core.listed.found found with
    ⟨rfl, nobody⟩ | ⟨nonzero, member, named⟩
  · rw [if_pos rfl] at done
    rw [← Option.some.inj done]
    exact .inr ⟨nodes, .killNobody nobody⟩
  · rw [if_neg nonzero] at done
    subst named
    have walk : ∀ mid : Machine, mid.tasks = (m.markDead proc).tasks →
        ∀ change, mid.tasks.eachProc change =
          some (mid.eachNode nodes change).tasks := by
      intro mid tasks change
      have listed : mid.tasks.Listed nodes := by
        rw [tasks]
        exact ok.core.listed.congr rfl rfl
      exact listed.eachProc change
    have kept : ((m.markDead proc).tasks.procs proc).pid = m.pidOf proc := by
      rw [markDead, setProc_same]
      rfl
    have ended : (if proc = m.curr then (m.killed nodes proc).schedule
        else some (m.killed nodes proc)) = some m' := by
      rw [← done, killed]
      by_cases alive : m.tasks.stateOf proc = .dead
      · simp only [alive, ne_eq, not_true_eq_false, if_false,
          walk (m.markDead proc) rfl, Option.bind_some, kept]
        rfl
      · simp only [alive, ne_eq, not_false_eq_true, if_true,
          record, kept, walk (m.markDead proc) rfl, Option.bind_some]
        rfl
    split at ended
    case isTrue isCurr =>
      subst isCurr
      exact ok.scheduled (.kill program rfl) ended
    case isFalse other =>
      rw [← Option.some.inj ended]
      exact .inr ⟨nodes, .kill member rfl other⟩

theorem Ok.wait_outcome (ok : m.Ok nodes) {pid : Nat}
    (program : m.curr ≠ m.tasks.idleProc)
    (done : m.sysWait pid = some m') :
    Outcome m nodes (.call (.wait pid)) m' := by
  rw [Machine.sysWait] at done
  simp only [Option.bind_eq_bind, Option.pure_def] at done
  obtain ⟨proc, found, done⟩ := Option.bind_eq_some_iff.mp done
  rcases ok.core.listed.found found with
    ⟨rfl, nobody⟩ | ⟨nonzero, member, named⟩
  · rw [if_pos rfl] at done
    rw [← Option.some.inj done]
    exact .inr ⟨nodes, .waitNobody nobody⟩
  · rw [if_neg nonzero] at done
    by_cases dead : m.tasks.stateOf proc = .dead
    · rw [if_pos dead] at done
      rw [← Option.some.inj done]
      exact .inr ⟨nodes, .waitDead member named dead⟩
    · rw [if_neg dead, named] at done
      exact ok.scheduled (.wait program member named dead) done

theorem Ok.getchar_outcome (ok : m.Ok nodes)
    (program : m.curr ≠ m.tasks.idleProc)
    (done : m.sysGetchar = some m') :
    Outcome m nodes (.call .getchar) m' := by
  rw [Machine.sysGetchar] at done
  split at done
  case h_1 kbd taken =>
    have same : kbd = m.kbd := by
      rw [Keyboard.getchar] at taken
      split at taken
      case isTrue => exact (congrArg Prod.snd taken).symm
      case isFalse => simp at taken
    subst same
    exact ok.scheduled (.getchar program taken) done
  case h_2 c kbd taken =>
    rw [← Option.some.inj done]
    exact .inr ⟨nodes, .getchar taken⟩

theorem Ok.resume_outcome (ok : m.Ok nodes) (done : m.resume = some m') :
    Outcome m nodes .resume m' := by
  rw [Machine.resume] at done
  split at done
  case h_1 => simp at done
  case h_2 pid pending =>
    rw [resumeWait] at done
    simp only [Option.bind_eq_bind, Option.pure_def] at done
    obtain ⟨proc, found, done⟩ := Option.bind_eq_some_iff.mp done
    have listed : (m.setPending m.curr .none).tasks.Listed nodes :=
      ok.core.listed
    rcases listed.found found with ⟨rfl, _⟩ | ⟨nonzero, member, named⟩
    · simp at done
    · rw [if_neg nonzero] at done
      obtain ⟨tasks, unlinked, done⟩ := Option.bind_eq_some_iff.mp done
      obtain ⟨tasks', unlinked', _, procs, _⟩ := listed.procUnlink member
      rw [unlinked] at unlinked'
      obtain rfl := Option.some.inj unlinked'
      rw [← Option.some.inj done]
      rw [named]
      exact .inr ⟨_, .resumeWait pending member named unlinked⟩
  case h_3 pending =>
    rw [← Option.some.inj done]
    exact .inr ⟨nodes, .resumeGetchar pending⟩

/-- What a step does. -/
theorem Ok.outcome (ok : m.Ok nodes) (step : Step m label m') :
    Outcome m nodes label m' := by
  have done := step.done
  cases step.enabled with
  | tick _ =>
      rw [next, ok.tick_eq] at done
      exact ok.scheduled .tick done
  | key _ => exact .inr (ok.key_outcome done)
  | fault _ program => exact ok.fault_outcome program done
  | idle _ => exact ok.scheduled .yieldHlt done
  | resume _ => exact ok.resume_outcome done
  | @call call user program created =>
      cases call with
      | exit code => exact ok.exit_outcome program done
      | yieldHlt => exact ok.scheduled .yieldHlt done
      | kill pid => exact ok.kill_outcome program done
      | wait pid => exact ok.wait_outcome program done
      | sleep ms => exact ok.scheduled (.sleep program user) done
      | getchar => exact ok.getchar_outcome program done
      | getcharNb =>
          rw [← Option.some.inj done]
          exact .inr ⟨nodes, .getcharNb⟩
      | spawn child =>
          rw [← Option.some.inj done]
          exact .inr ⟨_, .spawn (created child rfl)⟩
      | «open» stack path writable =>
          exact .inr ⟨nodes, .open program done⟩
      | close fd =>
          rw [← Option.some.inj done]
          exact .inr ⟨nodes, .close program⟩
      | read fd heap len => exact .inr ⟨nodes, .read program done⟩
      | write fd stack data len => exact .inr ⟨nodes, .write program done⟩
      | other volume =>
          rw [← Option.some.inj done]
          exact .inr ⟨nodes, .other⟩

/-- A step keeps the invariant. -/
theorem Ok.step (ok : m.Ok nodes) (step : Step m label m')
    (fresh : ∀ child, label = .call (.spawn child) → m.FreshPid nodes) :
    ∃ nodes', m'.Ok nodes' ∧ ((∃ mid next, Mid m nodes label mid ∧
      MayGo mid nodes next ∧ m' = mid.goTo next ∧ nodes' = nodes) ∨
      Direct m nodes label m' nodes') := by
  rcases ok.outcome step with ⟨mid, next, isMid, may, rfl⟩ | ⟨nodes', direct⟩
  · obtain ⟨core, _, _⟩ := ok.beforeSchedule isMid
    exact ⟨nodes, core.goTo may, .inl ⟨mid, next, isMid, may, rfl, rfl⟩⟩
  · exact ⟨nodes', ok.direct direct fresh, .inr direct⟩

/-! ## The dead stay dead -/

theorem OneChange.dead (change : OneChange m m' p)
    (running : m.stateOf p = .running) (dead : m.stateOf q = .dead) :
    m'.stateOf q = .dead := by
  have different : q ≠ p := by
    intro same
    rw [same, running] at dead
    simp at dead
  rw [change.stateOf different]
  exact dead

theorem pitProc_dead (m : Machine) (p : Nat) (dead : m.stateOf q = .dead) :
    (m.pitProc p).stateOf q = .dead := by
  rw [pitProc_state m p q (by simp [dead]), dead]

theorem Ok.mid_dead (ok : m.Ok nodes) (isMid : Mid m nodes label mid)
    (dead : m.stateOf p = .dead) : mid.stateOf p = .dead := by
  cases isMid with
  | tick =>
      exact foldl_pitProc nodes _ (fun mid => mid.stateOf p = .dead) dead
        fun mid dead q _ => pitProc_dead mid q dead
  | yieldHlt => exact dead
  | fault _ => exact faulted_dies.stateOf_dead dead
  | exit _ => exact (exited_dies _).stateOf_dead dead
  | kill _ _ => exact (killed_dies _).stateOf_dead dead
  | @wait pid _ _ _ _ _ =>
      have change : OneChange m (m.waiting pid pid) m.curr :=
        (oneChange_setProc rfl).setPending _
      exact change.dead ok.running dead
  | @sleep ms _ _ =>
      have change : OneChange m (m.sleeping ms) m.curr :=
        oneChange_setProc rfl
      exact change.dead ok.running dead
  | getchar _ _ =>
      have change : OneChange m m.awaiting m.curr :=
        (oneChange_setProc rfl).setPending _
      exact change.dead ok.running dead

theorem Ok.direct_dead (ok : m.Ok nodes)
    (direct : Direct m nodes label m' nodes') (member : p ∈ nodes)
    (dead : m.stateOf p = .dead) : m'.stateOf p = .dead := by
  cases direct with
  | key _ => exact dead
  | @keyWakes scancode proc _ _ awaits =>
      have both : m.stateOf proc = .blocked ∧ m.blockOf proc = .input :=
        of_decide_eq_true awaits
      have different : p ≠ proc := by
        intro same
        rw [same, both.1] at dead
        simp at dead
      have change : OneChange (m.keyed scancode)
          ((m.keyed scancode).awake proc) proc := oneChange_setProc rfl
      exact (change.stateOf different).trans dead
  | killNobody _ => exact dead
  | kill _ _ _ => exact (killed_dies _).stateOf_dead dead
  | waitNobody _ => exact dead
  | waitDead _ _ _ => exact dead
  | getchar _ => exact dead
  | getcharNb => exact dead
  | @spawn child created =>
      have fresh := created.unlinked nodes ok.core.listed.path
      have different : p ≠ child.addr := fun same => fresh (same ▸ member)
      rw [stateOf, Tasks.stateOf, sysSpawn_other different]
      exact dead
  | «open» _ done => rw [(sysOpen_files done).same.states, dead]
  | close _ => rw [(sysClose_files _).same.states, dead]
  | read _ done => rw [(sysRead_files done).same.states, dead]
  | write _ done => rw [(sysWrite_files done).same.states, dead]
  | other => exact dead
  | resumeGetchar _ => exact dead
  | @resumeWait pid proc tasks _ inside _ unlinked =>
      obtain ⟨tasks', unlinked', _, procs, _⟩ :=
        ok.core.listed.procUnlink inside
      rw [unlinked] at unlinked'
      obtain rfl := Option.some.inj unlinked'
      have same : tasks.stateOf p = m.stateOf p := by
        rw [Tasks.stateOf, procs]
        rfl
      exact same.trans dead

/-- Every number in use was handed out before. -/
structure Numbered (m : Machine) (nodes : List Nat) (count : Nat) :
    Prop where
  next : m.nextPid = u32 count
  used : ∀ p ∈ nodes, ∃ k, 1 ≤ k ∧ k < count ∧ m.pidOf p = u32 k
  waited : ∀ p ∈ nodes, ∀ pid, m.pending p = .wait pid →
    ∃ k, 1 ≤ k ∧ k < count ∧ pid = u32 k

theorem Numbered.fresh {count : Nat} (numbered : m.Numbered nodes count)
    (few : count ≤ 2 ^ 32) : m.FreshPid nodes := by
  refine ⟨fun p member same => ?_, fun p member same => ?_⟩
  · obtain ⟨k, positive, below, is⟩ := numbered.used p member
    rw [is, numbered.next, u32, u32] at same
    omega
  · obtain ⟨k, positive, below, is⟩ := numbered.waited p member _ same
    rw [numbered.next, u32, u32] at is
    omega

/-- The spawns of a run. -/
def isSpawn : Label → Bool
  | .call (.spawn _) => true
  | _ => false

/-- What a step that creates no process does to the numbers. -/
structure Steady (m m' : Machine) (nodes : List Nat) : Prop where
  next : m'.nextPid = m.nextPid
  pids : ∀ p ∈ nodes, m'.pidOf p = m.pidOf p
  waits : ∀ p ∈ nodes, ∀ pid, m'.pending p = .wait pid →
    m.pending p = .wait pid ∨ ∃ q ∈ nodes, m.pidOf q = pid

theorem Steady.numbered {count : Nat} (steady : Steady m m' nodes)
    (inside : nodes' ⊆ nodes) (numbered : m.Numbered nodes count) :
    m'.Numbered nodes' count := by
  refine ⟨steady.next.trans numbered.next, fun p member => ?_,
    fun p member pid is => ?_⟩
  · rw [steady.pids p (inside member)]
    exact numbered.used p (inside member)
  · rcases steady.waits p (inside member) pid is with before | ⟨q, there, named⟩
    · exact numbered.waited p (inside member) pid before
    · rw [← named]
      exact numbered.used q there

theorem Steady.of_pending (next : m'.nextPid = m.nextPid)
    (pids : ∀ p ∈ nodes, m'.pidOf p = m.pidOf p)
    (pending : m'.pending = m.pending) : Steady m m' nodes :=
  ⟨next, pids, fun _ _ _ is => .inl (pending ▸ is)⟩

theorem FileCall.steady (call : FileCall m m') : Steady m m' nodes :=
  .of_pending call.nextPid (fun p _ => call.same.pids p) call.same.pending

theorem Steady.goTo (steady : Steady m mid nodes) (next : Nat) :
    Steady m (mid.goTo next) nodes := by
  refine ⟨?_, fun p member => ?_, fun p member pid is => ?_⟩
  · rw [← steady.next, Machine.goTo]
    split <;> rfl
  · rw [(goTo_fields next p).1]
    exact steady.pids p member
  · rw [goTo_pending] at is
    exact steady.waits p member pid is

theorem pitProc_steady (m : Machine) (p : Nat) :
    (m.pitProc p).nextPid = m.nextPid ∧
      (m.pitProc p).pending = m.pending ∧
      ∀ q, (m.pitProc p).pidOf q = m.pidOf q := by
  rcases pitProc_cases m p with same | ⟨_, _, _, cleaned⟩ | ⟨_, _, woken⟩
  · rw [same]
    exact ⟨rfl, rfl, fun _ => rfl⟩
  · rw [cleaned]
    exact ⟨rfl, rfl, (cleanedUp_same m p).pids⟩
  · rw [woken]
    exact ⟨rfl, rfl, (wokenUp_change m p).pidOf⟩

theorem mid_steady (isMid : Mid m nodes label mid) :
    Steady m mid nodes := by
  cases isMid with
  | tick =>
      have kept := foldl_pitProc nodes
        { m with tickCount := u32 (m.tickCount + 1) }
        (fun mid => mid.nextPid = m.nextPid ∧ mid.pending = m.pending ∧
          ∀ q, mid.pidOf q = m.pidOf q) ⟨rfl, rfl, fun _ => rfl⟩
        fun mid ⟨next, pending, pids⟩ p _ => by
          obtain ⟨next', pending', pids'⟩ := pitProc_steady mid p
          exact ⟨next'.trans next, pending'.trans pending,
            fun q => (pids' q).trans (pids q)⟩
      exact .of_pending kept.1 (fun p _ => kept.2.2 p) kept.2.1
  | yieldHlt => exact .of_pending rfl (fun _ _ => rfl) rfl
  | fault _ =>
      have dies : Dies m (m.faulted nodes) nodes m.curr := faulted_dies
      exact .of_pending rfl (fun p _ => dies.pids p) rfl
  | @exit code _ =>
      have dies : Dies m (m.exited nodes code) nodes m.curr :=
        exited_dies code
      exact .of_pending rfl (fun p _ => dies.pids p) rfl
  | kill _ _ =>
      have dies : Dies m (m.killed nodes m.curr) nodes m.curr :=
        killed_dies m.curr
      refine .of_pending ?_ (fun p _ => dies.pids p) dies.pending
      rw [Machine.killed]
      split <;> rfl
  | @wait pid proc program member named _ =>
      have change : OneChange m (m.waiting pid pid) m.curr :=
        (oneChange_setProc rfl).setPending _
      refine ⟨rfl, fun p _ => change.pidOf p, fun p _ pid' is => ?_⟩
      by_cases same : p = m.curr
      · have now : (m.waiting pid pid).pending m.curr = .wait pid :=
          Function.update_self ..
        rw [same, now] at is
        injection is with same
        exact .inr ⟨proc, member, named.trans same⟩
      · rw [change.pending p same] at is
        exact .inl is
  | @sleep ms _ _ =>
      have change : OneChange m (m.sleeping ms) m.curr :=
        oneChange_setProc rfl
      exact .of_pending rfl (fun p _ => change.pidOf p) rfl
  | getchar _ _ =>
      have change : OneChange m m.awaiting m.curr :=
        (oneChange_setProc rfl).setPending _
      refine ⟨rfl, fun p _ => change.pidOf p, fun p _ pid is => ?_⟩
      by_cases same : p = m.curr
      · have now : m.awaiting.pending m.curr = .getchar :=
          Function.update_self ..
        rw [same, now] at is
        simp at is
      · rw [change.pending p same] at is
        exact .inl is

theorem clear_waits (is : (m.setPending m.curr .none).pending p = .wait pid) :
    m.pending p = .wait pid := by
  by_cases same : p = m.curr
  · rw [same, setPending_same] at is
    simp at is
  · rwa [setPending_other m _ same] at is

/-- A step without `schedule` that is no spawn. -/
theorem Ok.direct_steady (ok : m.Ok nodes)
    (direct : Direct m nodes label m' nodes')
    (notSpawn : isSpawn label = false) :
    Steady m m' nodes ∧ nodes' ⊆ nodes := by
  have whole : nodes ⊆ nodes := fun _ member => member
  cases direct with
  | key _ => exact ⟨.of_pending rfl (fun _ _ => rfl) rfl, whole⟩
  | @keyWakes scancode proc _ _ _ =>
      have change : OneChange (m.keyed scancode)
          ((m.keyed scancode).awake proc) proc := oneChange_setProc rfl
      exact ⟨.of_pending rfl (fun p _ => change.pidOf p) rfl, whole⟩
  | killNobody _ => exact ⟨.of_pending rfl (fun _ _ => rfl) rfl, whole⟩
  | @kill pid proc _ _ _ =>
      have dies : Dies m (m.killed nodes proc) nodes proc :=
        killed_dies proc
      refine ⟨.of_pending ?_ (fun p _ => dies.pids p) dies.pending, whole⟩
      rw [Machine.killed]
      split <;> rfl
  | waitNobody _ => exact ⟨.of_pending rfl (fun _ _ => rfl) rfl, whole⟩
  | waitDead _ _ _ => exact ⟨.of_pending rfl (fun _ _ => rfl) rfl, whole⟩
  | getchar _ => exact ⟨.of_pending rfl (fun _ _ => rfl) rfl, whole⟩
  | getcharNb => exact ⟨.of_pending rfl (fun _ _ => rfl) rfl, whole⟩
  | spawn _ => simp [isSpawn] at notSpawn
  | «open» _ done => exact ⟨(sysOpen_files done).steady, whole⟩
  | close _ => exact ⟨(sysClose_files _).steady, whole⟩
  | read _ done => exact ⟨(sysRead_files done).steady, whole⟩
  | write _ done => exact ⟨(sysWrite_files done).steady, whole⟩
  | other => exact ⟨.of_pending rfl (fun _ _ => rfl) rfl, whole⟩
  | resumeGetchar _ =>
      exact ⟨⟨rfl, fun _ _ => rfl, fun _ _ _ is => .inl (clear_waits is)⟩,
        whole⟩
  | @resumeWait pid proc tasks _ inside _ unlinked =>
      obtain ⟨tasks', unlinked', _, procs, _⟩ :=
        ok.core.listed.procUnlink inside
      rw [unlinked] at unlinked'
      obtain rfl := Option.some.inj unlinked'
      refine ⟨⟨rfl, fun p _ => ?_, fun _ _ _ is => .inl (clear_waits is)⟩,
        fun _ member => List.mem_of_mem_erase member⟩
      have same : (tasks.procs p).pid = (m.tasks.procs p).pid := by
        rw [procs]
      exact same

theorem Numbered.spawn {count : Nat} {child : Process}
    (core : m.Core nodes) (numbered : m.Numbered nodes count)
    (positive : 1 ≤ count) (created : m.Created child) :
    (m.sysSpawn child).Numbered (child.addr :: nodes) (count + 1) := by
  have enters := sysSpawn_enters core created
  have fresh := created.unlinked nodes core.listed.path
  refine ⟨?_, fun p member => ?_, fun p member pid is => ?_⟩
  · change u32 (m.nextPid + 1) = _
    rw [numbered.next, u32, u32, u32]
    omega
  · rcases List.mem_cons.mp member with isChild | old
    · refine ⟨count, positive, Nat.lt_succ_self _, ?_⟩
      rw [isChild, sysSpawn_pid, created.pid, numbered.next]
    · obtain ⟨k, one, below, is⟩ := numbered.used p old
      refine ⟨k, one, by omega, ?_⟩
      rw [pidOf, sysSpawn_other fun same => fresh (same ▸ old)]
      exact is
  · rcases List.mem_cons.mp member with isChild | old
    · rw [isChild, enters.none] at is
      simp at is
    · rw [enters.pending p fun same => fresh (same ▸ old)] at is
      obtain ⟨k, one, below, named⟩ := numbered.waited p old pid is
      exact ⟨k, one, by omega, named⟩

/-! ## Runs -/

/-- After boot, one process is on the list and none waits. -/
theorem Booted.ok (booted : m.Booted) : m.Ok [m.curr] := by
  have path : Path m.tasks.next (· = 0) m.tasks.procList [m.curr] := by
    rw [booted.list.1]
    exact .more booted.curr.1 (.done booted.list.2)
  have running := booted.running
  refine ⟨⟨⟨path, fun p member => ?_⟩,
    ⟨booted.idle.1, fun member => ?_, booted.idle.2.2⟩, booted.ready,
    .inl (List.mem_singleton_self _), fun p inside notCurr => ?_,
    .inl booted.idleReady, booted.pending.2, fun p left q right _ => ?_,
    fun p member => ?_⟩, running⟩
  · rw [List.mem_singleton.mp member]
    exact booted.curr.2
  · exact booted.idle.2.1 (List.mem_singleton.mp member)
  · rcases inside with member | isIdle
    · exact absurd (List.mem_singleton.mp member) notCurr
    · have ready : m.stateOf m.tasks.idleProc = .ready := booted.idleReady
      rw [isIdle, ready]
      simp
  · rw [List.mem_singleton.mp left, List.mem_singleton.mp right]
  · have isCurr := List.mem_singleton.mp member
    have state : m.stateOf m.curr = .running := running
    subst isCurr
    refine ⟨fun is => ?_, fun pid is => ?_, fun pid is => ?_⟩
    · rw [state] at is
      simp at is
    · rw [booted.pending.1] at is
      simp at is
    · rw [booted.pending.1] at is
      simp at is

theorem Booted.numbered (booted : m.Booted) : m.Numbered [m.curr] 2 := by
  refine ⟨booted.pids.2, fun p member => ⟨1, by decide, by decide, ?_⟩,
    fun p member pid is => ?_⟩
  · rw [List.mem_singleton.mp member]
    exact booted.pids.1
  · rw [List.mem_singleton.mp member, booted.pending.1] at is
    simp at is

/-- A run of fewer than 2^32 spawns keeps the invariant. -/
theorem Ok.run {count : Nat} (ok : m.Ok nodes)
    (numbered : m.Numbered nodes count) (positive : 1 ≤ count)
    (run : Run Step m labels m')
    (few : count + labels.countP isSpawn ≤ 2 ^ 32 + 1) :
    ∃ nodes', m'.Ok nodes' := by
  induction run generalizing nodes count with
  | nil => exact ⟨nodes, ok⟩
  | @cons m mid _ label labels first _ inductionHypothesis =>
      rw [List.countP_cons] at few
      have fresh : ∀ child, label = .call (.spawn child) →
          m.FreshPid nodes := by
        rintro child rfl
        refine numbered.fresh ?_
        simp only [isSpawn, if_true] at few
        omega
      obtain ⟨nodes', ok', ⟨before, next, isMid, may, rfl, rfl⟩ | direct⟩ :=
        ok.step first fresh
      · refine inductionHypothesis ok'
          (((mid_steady isMid).goTo next).numbered (fun _ member => member)
            numbered) positive ?_
        omega
      · cases spawns : isSpawn label with
        | false =>
            obtain ⟨steady, inside⟩ := ok.direct_steady direct spawns
            exact inductionHypothesis ok' (steady.numbered inside numbered)
              positive (by omega)
        | true =>
            cases direct with
            | @spawn child created =>
                refine inductionHypothesis ok'
                  (numbered.spawn ok.core positive created) (by omega) ?_
                simp only [isSpawn, if_true] at few
                omega
            | _ => simp [isSpawn] at spawns

end Machine

end LoafOs
