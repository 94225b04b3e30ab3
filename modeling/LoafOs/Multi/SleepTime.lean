import LoafOs.Multi.Execute
import LoafOs.Multi.InputWaits

/-!
# How long a process sleeps

`SYS_SLEEP` stores the tick at which the caller goes on, and the timer
compares it with the counter.  Both wrap at `2 ^ 32`.
-/

namespace LoafOs

open Links Runs

namespace Machine

variable {m m' mid : Machine} {nodes nodes' : List Nat}
  {p count resumeTick : Nat} {label : Label} {labels : List Label}

/-- The ticks of a run. -/
def isTick : Label → Bool
  | .tick => true
  | _ => false

/-- The step does not kill the process at `p`. -/
def Spares (p : Nat) (m : Machine) (label : Label) : Prop :=
  ∀ pid, label = .call (.kill pid) → m.pidOf p ≠ pid

/-- From here on the process is blocked for so many ticks, and it is the
last of them at which `pit_handler` makes it ready.  `spawned` processes
were started before; their numbers must not run out. -/
def SleepsFor (m : Machine) (p ticks spawned : Nat) : Prop :=
  ∀ labels m', Run (StepWith (Spares p)) m labels m' →
    spawned + labels.countP isSpawn < 2 ^ 32 - 2 →
      labels.countP isTick < ticks →
        m'.stateOf p = .blocked ∧
          ∀ m'', m'.pitHandler = some m'' →
            (m''.stateOf p = .ready ↔ labels.countP isTick + 1 = ticks)

/-- The deadline does not wrap; or the counter is about to, so that both
start again from 0. -/
def DeadlineFits (tickCount ms : Nat) : Prop :=
  tickCount + max ms 1 < 2 ^ 32 ∨ tickCount = 2 ^ 32 - 1 ∧ 1 ≤ ms

instance (tickCount ms : Nat) : Decidable (DeadlineFits tickCount ms) :=
  inferInstanceAs (Decidable (_ ∨ _ ∧ _))

/-! ## A process that sleeps -/

/-- The process sleeps until a tick. -/
structure Asleep (m : Machine) (p resumeTick : Nat) : Prop where
  blocked : m.stateOf p = .blocked
  block : m.blockOf p = .sleep
  target : m.targetOf p = noPid
  deadline : (m.tasks.procs p).resumeTick = resumeTick

theorem Asleep.of_procs (asleep : m.Asleep p resumeTick)
    (same : m'.tasks.procs p = m.tasks.procs p) :
    m'.Asleep p resumeTick := by
  refine ⟨?_, ?_, ?_, ?_⟩
  · rw [stateOf, Tasks.stateOf, same]
    exact asleep.blocked
  · rw [blockOf, same]
    exact asleep.block
  · rw [targetOf, same]
    exact asleep.target
  · rw [same]
    exact asleep.deadline

theorem Asleep.notCurr (asleep : m.Asleep p resumeTick)
    (running : m.stateOf m.curr = .running) : p ≠ m.curr := by
  intro same
  have blocked := asleep.blocked
  rw [same, running] at blocked
  simp at blocked

theorem Asleep.eachNode {wake : Process → Process}
    (asleep : m.Asleep p resumeTick)
    (kept : wake (m.tasks.procs p) = m.tasks.procs p) :
    (m.eachNode nodes wake).Asleep p resumeTick := by
  apply asleep.of_procs
  have after : (m.eachNode nodes wake).tasks.procs p =
      if p ∈ nodes then wake (m.tasks.procs p) else m.tasks.procs p := rfl
  rw [after, kept, ite_self]

/-- A sleeping process waits for no other one. -/
theorem Asleep.wakeWaiter (asleep : m.Asleep p resumeTick) (pid : Nat) :
    Tasks.wakeWaiter pid (m.tasks.procs p) = m.tasks.procs p := by
  have block : (m.tasks.procs p).block = .sleep := asleep.block
  rw [Tasks.wakeWaiter, if_pos]
  right
  rw [block]
  simp

theorem Asleep.wakeFaulted (asleep : m.Asleep p resumeTick) {pid : Nat}
    (named : pid ≠ noPid) :
    Tasks.wakeFaulted pid (m.tasks.procs p) = m.tasks.procs p := by
  have target : (m.tasks.procs p).targetPid = noPid := asleep.target
  rw [Tasks.wakeFaulted, if_neg]
  rintro ⟨same, _⟩
  exact named (same.symm.trans target)

theorem Asleep.setProc {change : Process → Process} {q : Nat}
    (asleep : m.Asleep p resumeTick) (other : p ≠ q) :
    (m.setProc q change).Asleep p resumeTick :=
  asleep.of_procs (setProc_other m change other)

theorem Asleep.record (asleep : m.Asleep p resumeTick) (event : Event) :
    (m.record event).Asleep p resumeTick :=
  asleep.of_procs rfl

theorem Asleep.killed (asleep : m.Asleep p resumeTick) {victim : Nat}
    (other : p ≠ victim) : (m.killed nodes victim).Asleep p resumeTick := by
  have marked : (m.markDead victim).Asleep p resumeTick :=
    asleep.setProc other
  rw [Machine.killed]
  split
  case isTrue =>
    have recorded := marked.record (.died (m.pidOf victim) (-1))
    exact recorded.eachNode (recorded.wakeWaiter _)
  case isFalse => exact marked.eachNode (marked.wakeWaiter _)

theorem Asleep.goTo (asleep : m.Asleep p resumeTick) (core : m.Core nodes)
    {next : Nat} (may : MayGo m nodes next) :
    (m.goTo next).Asleep p resumeTick := by
  have blocked := asleep.blocked
  have notNext : p ≠ next := by
    intro same
    rw [same] at blocked
    rcases may.awake core with is | is <;> simp [is] at blocked
  rw [Machine.goTo]
  split
  case isTrue => exact asleep
  case isFalse =>
    apply asleep.of_procs
    have state : m.tasks.stateAfter next p = (m.tasks.procs p).state := by
      rw [Tasks.stateAfter, if_neg notNext, if_neg]
      · rfl
      · rintro ⟨_, running, _⟩
        exact absurd (blocked.symm.trans running) (by simp)
    rw [setTasks, Tasks.switchTo_procs, state]

/-! ## The steps around it -/

theorem goTo_tickCount (next : Nat) :
    (m.goTo next).tickCount = m.tickCount := by
  rw [goTo]
  split <;> rfl

theorem killed_tickCount (victim : Nat) :
    (m.killed nodes victim).tickCount = m.tickCount := by
  rw [killed]
  split <;> rfl

theorem Asleep.beforeSchedule (ok : m.Ok nodes)
    (numbered : m.Numbered nodes count) (few : count < 2 ^ 32)
    (asleep : m.Asleep p resumeTick) (isMid : Mid m nodes label mid)
    (notTick : isTick label = false) :
    mid.Asleep p resumeTick ∧ mid.tickCount = m.tickCount := by
  have other := asleep.notCurr ok.running
  cases isMid with
  | tick => simp [isTick] at notTick
  | yieldHlt => exact ⟨asleep, rfl⟩
  | fault program =>
      have named := numbered.pid_ne few (ok.core.curr.resolve_right program)
      have marked : ((m.markDead m.curr).record
          (.died (m.pidOf m.curr) (-1))).Asleep p resumeTick :=
        (asleep.setProc other).record _
      exact ⟨marked.eachNode (marked.wakeFaulted named), rfl⟩
  | @exit code _ =>
      have ended : ((m.setProc m.curr fun fields =>
          { fields with state := .dead, exitCode := code }).record
            (.died (m.pidOf m.curr) code)).Asleep p resumeTick :=
        (asleep.setProc other).record _
      exact ⟨ended.eachNode (ended.wakeWaiter _), rfl⟩
  | kill _ _ => exact ⟨asleep.killed other, killed_tickCount m.curr⟩
  | @wait pid _ _ _ _ _ =>
      have blocks : Blocks m (m.waiting pid pid) := waiting_blocks pid pid
      exact ⟨asleep.of_procs (blocks.change.procs p other), rfl⟩
  | sleep _ _ => exact ⟨asleep.setProc other, rfl⟩
  | getchar _ _ =>
      have blocks : Blocks m m.awaiting := awaiting_blocks
      exact ⟨asleep.of_procs (blocks.change.procs p other), rfl⟩

theorem FileCall.asleep (call : FileCall m m')
    (asleep : m.Asleep p resumeTick) : m'.Asleep p resumeTick := by
  obtain ⟨fds, same⟩ := call.procs p
  refine ⟨?_, ?_, ?_, ?_⟩
  · rw [call.same.states]
    exact asleep.blocked
  · rw [call.same.blocks]
    exact asleep.block
  · rw [call.same.targets]
    exact asleep.target
  · rw [same]
    exact asleep.deadline

theorem sysOpen_tickCount {stack : DirSlot} {path : CString}
    {writable : Bool} (done : m.sysOpen stack path writable = some m') :
    m'.tickCount = m.tickCount := by
  rw [sysOpen] at done
  split at done
  case h_1 => rw [← Option.some.inj done]
  case h_2 =>
    simp only [Option.bind_eq_bind, Option.pure_def] at done
    obtain ⟨⟨idx, files⟩, _, done⟩ := Option.bind_eq_some_iff.mp done
    split at done
    case isTrue => rw [← Option.some.inj done]
    case isFalse =>
      rw [← Option.some.inj done]
      rfl

theorem sysClose_tickCount (fd : Int) :
    (m.sysClose fd).tickCount = m.tickCount := by
  rw [sysClose]
  split <;> rfl

theorem sysRead_tickCount {fd : Int} {heap : Option Bytes} {len : UInt32}
    (done : m.sysRead fd heap len = some m') :
    m'.tickCount = m.tickCount := by
  rw [sysRead] at done
  split at done
  case h_1 => rw [← Option.some.inj done]
  case h_2 =>
    simp only [Option.bind_eq_bind, Option.pure_def] at done
    obtain ⟨read, _, done⟩ := Option.bind_eq_some_iff.mp done
    rw [← Option.some.inj done]

theorem sysWrite_tickCount {fd : Int} {stack : DirSlot} {data : Bytes}
    {len : UInt32} (done : m.sysWrite fd stack data len = some m') :
    m'.tickCount = m.tickCount := by
  rw [sysWrite] at done
  split at done
  case h_1 => rw [← Option.some.inj done]
  case h_2 =>
    simp only [Option.bind_eq_bind, Option.pure_def] at done
    obtain ⟨⟨_, files⟩, _, done⟩ := Option.bind_eq_some_iff.mp done
    rw [← Option.some.inj done]

theorem Asleep.direct (ok : m.Ok nodes) (asleep : m.Asleep p resumeTick)
    (member : p ∈ nodes) (spares : Spares p m label)
    (direct : Direct m nodes label m' nodes') :
    m'.Asleep p resumeTick ∧ m'.tickCount = m.tickCount ∧ p ∈ nodes' := by
  have blocked := asleep.blocked
  cases direct with
  | key _ => exact ⟨asleep.of_procs rfl, rfl, member⟩
  | @keyWakes scancode proc _ _ awaits =>
      have other : p ≠ proc := by
        intro same
        have block := (awaitsInput_iff.mp awaits).2
        rw [← same, asleep.block] at block
        simp at block
      have keyed : (m.keyed scancode).Asleep p resumeTick :=
        asleep.of_procs rfl
      exact ⟨keyed.setProc other, rfl, member⟩
  | killNobody _ => exact ⟨asleep, rfl, member⟩
  | @kill pid proc _ named _ =>
      have other : p ≠ proc := by
        intro same
        exact spares pid rfl (same ▸ named)
      exact ⟨asleep.killed other, killed_tickCount proc, member⟩
  | waitNobody _ => exact ⟨asleep, rfl, member⟩
  | waitDead _ _ _ => exact ⟨asleep.of_procs rfl, rfl, member⟩
  | getchar _ => exact ⟨asleep.of_procs rfl, rfl, member⟩
  | getcharNb => exact ⟨asleep.of_procs rfl, rfl, member⟩
  | @spawn child created =>
      have fresh := created.unlinked nodes ok.core.listed.path
      have other : p ≠ child.addr := fun same => fresh (same ▸ member)
      exact ⟨asleep.of_procs (sysSpawn_other other), rfl,
        List.mem_cons_of_mem _ member⟩
  | «open» _ done =>
      exact ⟨(sysOpen_files done).asleep asleep, sysOpen_tickCount done,
        member⟩
  | close _ =>
      exact ⟨(sysClose_files _).asleep asleep, sysClose_tickCount _, member⟩
  | read _ done =>
      exact ⟨(sysRead_files done).asleep asleep, sysRead_tickCount done,
        member⟩
  | write _ done =>
      exact ⟨(sysWrite_files done).asleep asleep, sysWrite_tickCount done,
        member⟩
  | other => exact ⟨asleep.of_procs rfl, rfl, member⟩
  | @resumeWait pid proc tasks pending inside named unlinked =>
      obtain ⟨tasks', unlinked', _, procs, _⟩ :=
        ok.core.listed.procUnlink inside
      rw [unlinked] at unlinked'
      obtain rfl := Option.some.inj unlinked'
      have currListed : m.curr ∈ nodes := by
        apply ok.core.curr.resolve_right
        intro isIdle
        rw [isIdle, ok.core.idlePending] at pending
        simp at pending
      have running := ok.running
      have dead : m.stateOf proc = .dead := by
        apply (ok.core.waits m.curr currListed).woken pid pending
        · simp [running]
        · simp [running]
        · exact inside
        · exact named
      have other : p ≠ proc := by
        intro same
        rw [same, dead] at blocked
        simp at blocked
      exact ⟨asleep.of_procs (congrFun procs p), rfl,
        (List.mem_erase_of_ne other).mpr member⟩
  | resumeGetchar _ => exact ⟨asleep.of_procs rfl, rfl, member⟩

/-! ## The ticks -/

theorem pitProc_tickCount (q : Nat) :
    (m.pitProc q).tickCount = m.tickCount := by
  rcases pitProc_cases m q with same | ⟨_, _, _, cleaned⟩ | ⟨_, _, woken⟩
  · rw [same]
  · rw [cleaned]
    rfl
  · rw [woken]
    rfl

theorem foldl_tickCount (nodes : List Nat) (m : Machine) :
    (nodes.foldl pitProc m).tickCount = m.tickCount := by
  apply foldl_pitProc nodes m (fun mid => mid.tickCount = m.tickCount) rfl
  intro mid same q _
  exact (pitProc_tickCount q).trans same

theorem ticked_tickCount :
    (m.ticked nodes).tickCount = u32 (m.tickCount + 1) :=
  foldl_tickCount nodes _

theorem Asleep.pitProc_other (asleep : m.Asleep p resumeTick) {q : Nat}
    (other : p ≠ q) : (m.pitProc q).Asleep p resumeTick := by
  rcases pitProc_cases m q with same | ⟨_, _, _, cleaned⟩ | ⟨_, _, woken⟩
  · rw [same]
    exact asleep
  · rw [cleaned]
    exact asleep.of_procs (cleanedUp_other m other)
  · rw [woken]
    exact asleep.setProc other

/-- Before its tick the timer passes a sleeping process by. -/
theorem Asleep.pitProc_early (asleep : m.Asleep p resumeTick)
    (early : m.tickCount < resumeTick) : m.pitProc p = m := by
  have state : (m.tasks.procs p).state = .blocked := asleep.blocked
  have block : (m.tasks.procs p).block = .sleep := asleep.block
  have deadline := asleep.deadline
  simp [Machine.pitProc, state, block, deadline, early]

theorem Asleep.pitProc_due (asleep : m.Asleep p resumeTick)
    (due : resumeTick ≤ m.tickCount) :
    (m.pitProc p).stateOf p = .ready := by
  have state : (m.tasks.procs p).state = .blocked := asleep.blocked
  have block : (m.tasks.procs p).block = .sleep := asleep.block
  have deadline := asleep.deadline
  have notEarly : ¬m.tickCount < resumeTick := Nat.not_lt.mpr due
  have woken : m.pitProc p = m.wokenUp p := by
    simp [Machine.pitProc, Machine.wokenUp, state, block, deadline,
      notEarly]
  rw [woken, stateOf, Tasks.stateOf, wokenUp, setProc_same]

theorem Asleep.foldl_early (asleep : m.Asleep p resumeTick)
    (early : m.tickCount < resumeTick) :
    (nodes.foldl pitProc m).Asleep p resumeTick := by
  refine (foldl_pitProc nodes m (fun mid => mid.Asleep p resumeTick ∧
    mid.tickCount = m.tickCount) ⟨asleep, rfl⟩ ?_).1
  intro mid ⟨asleep, same⟩ q _
  refine ⟨?_, (pitProc_tickCount q).trans same⟩
  by_cases here : p = q
  · rw [← here, asleep.pitProc_early (same ▸ early)]
    exact asleep
  · exact asleep.pitProc_other here

theorem Asleep.foldl_due (asleep : m.Asleep p resumeTick)
    (due : resumeTick ≤ m.tickCount) (member : p ∈ nodes) :
    (nodes.foldl pitProc m).stateOf p = .ready := by
  induction nodes generalizing m with
  | nil => simp at member
  | cons q rest inductionHypothesis =>
      rw [List.foldl_cons]
      by_cases here : p = q
      · subst here
        have ready := asleep.pitProc_due due
        apply foldl_pitProc rest _ (fun mid => mid.stateOf p = .ready) ready
        intro mid ready q _
        rw [pitProc_state mid q p (by simp [ready])]
        exact ready
      · apply inductionHypothesis (asleep.pitProc_other here)
        · rw [pitProc_tickCount]
          exact due
        · exact List.mem_of_ne_of_mem here member

theorem Asleep.ticked_early (asleep : m.Asleep p resumeTick)
    (early : u32 (m.tickCount + 1) < resumeTick) :
    (m.ticked nodes).Asleep p resumeTick := by
  have started : ({ m with tickCount := u32 (m.tickCount + 1) } :
      Machine).Asleep p resumeTick := asleep.of_procs rfl
  exact started.foldl_early early

/-- The next tick makes the process ready exactly when its time has
come. -/
theorem Asleep.ticked_ready_iff (asleep : m.Asleep p resumeTick)
    (member : p ∈ nodes) :
    (m.ticked nodes).stateOf p = .ready ↔
      resumeTick ≤ u32 (m.tickCount + 1) := by
  have started : ({ m with tickCount := u32 (m.tickCount + 1) } :
      Machine).Asleep p resumeTick := asleep.of_procs rfl
  constructor
  · intro ready
    by_contra early
    have still : (m.ticked nodes).Asleep p resumeTick :=
      started.foldl_early (Nat.lt_of_not_le early)
    exact absurd (still.blocked.symm.trans ready) (by simp)
  · intro due
    exact started.foldl_due due member

theorem Ok.pitHandler_eq (ok : m.Ok nodes) :
    m.pitHandler = some (m.ticked nodes) := by
  have enabled := ok.core.enabled
  have walk := ok.core.listed.listFrom
  simp only [Machine.pitHandler, enabled, if_true, walk,
    Option.bind_eq_bind, Option.bind_some, Option.pure_def]
  rfl

/-! ## Runs -/

/-- A step that neither kills the process nor is its tick leaves it
asleep. -/
theorem Asleep.step (ok : m.Ok nodes) (numbered : m.Numbered nodes count)
    (positive : 1 ≤ count) (few : count < 2 ^ 32)
    (asleep : m.Asleep p resumeTick) (member : p ∈ nodes)
    (step : StepWith (Spares p) m label m')
    (early : isTick label = true → u32 (m.tickCount + 1) < resumeTick) :
    ∃ nodes', m'.Ok nodes' ∧
      m'.Numbered nodes' (count + if isSpawn label then 1 else 0) ∧
      m'.Asleep p resumeTick ∧ p ∈ nodes' ∧
      m'.tickCount =
        if isTick label then u32 (m.tickCount + 1) else m.tickCount := by
  have fresh : ∀ child, label = .call (.spawn child) →
      m.FreshPid nodes := by
    intro child isSpawn
    exact numbered.fresh (by omega)
  obtain ⟨nodes', ok', ⟨before, next, isMid, may, rfl, rfl⟩ | direct⟩ :=
    ok.step step.1 fresh
  · have notSpawn : isSpawn label = false := by
      cases isMid <;> rfl
    obtain ⟨core, _, _⟩ := ok.beforeSchedule isMid
    have numbered' := ((mid_steady isMid).goTo next).numbered
      (fun _ inside => inside) numbered
    rw [notSpawn]
    refine ⟨_, ok', numbered', ?_⟩
    cases ticks : isTick label with
    | false =>
        obtain ⟨still, same⟩ :=
          asleep.beforeSchedule ok numbered few isMid ticks
        exact ⟨still.goTo core may, member,
          (goTo_tickCount next).trans same⟩
    | true =>
        cases isMid with
        | tick =>
            have still : (m.ticked nodes').Asleep p resumeTick :=
              asleep.ticked_early (early ticks)
            exact ⟨still.goTo core may, member,
              (goTo_tickCount next).trans ticked_tickCount⟩
        | _ => simp [isTick] at ticks
  · obtain ⟨still, same, member'⟩ :=
      asleep.direct ok member step.2 direct
    have notTick : isTick label = false := by
      cases direct <;> rfl
    rw [notTick]
    cases spawns : isSpawn label with
    | false =>
        obtain ⟨steady, inside⟩ := ok.direct_steady direct spawns
        exact ⟨nodes', ok', steady.numbered inside numbered, still, member',
          same⟩
    | true =>
        cases direct with
        | @spawn child created =>
            exact ⟨_, ok', numbered.spawn ok.core positive created, still,
              member', same⟩
        | _ => simp [isSpawn] at spawns

/-- A run before the tick of a sleeping process. -/
theorem Asleep.run (ok : m.Ok nodes) (numbered : m.Numbered nodes count)
    (positive : 1 ≤ count) (asleep : m.Asleep p resumeTick)
    (member : p ∈ nodes) (word : m.tickCount < 2 ^ 32)
    (run : Run (StepWith (Spares p)) m labels m')
    (few : count + labels.countP isSpawn < 2 ^ 32)
    (early : ∀ j, 1 ≤ j → j ≤ labels.countP isTick →
      u32 (m.tickCount + j) < resumeTick) :
    ∃ nodes', m'.Ok nodes' ∧ m'.Asleep p resumeTick ∧ p ∈ nodes' ∧
      m'.tickCount = u32 (m.tickCount + labels.countP isTick) := by
  induction run generalizing nodes count with
  | nil => exact ⟨nodes, ok, asleep, member, (Nat.mod_eq_of_lt word).symm⟩
  | @cons m mid _ label labels first _ inductionHypothesis =>
      rw [List.countP_cons] at few early
      obtain ⟨nodes', ok', numbered', still, member', counter⟩ :=
        asleep.step ok numbered positive (by omega) member first (by
          intro ticks
          apply early 1 (Nat.le_refl 1)
          rw [if_pos ticks]
          omega)
      cases ticks : isTick label with
      | false =>
          simp only [ticks, Bool.false_eq_true, if_false, Nat.add_zero]
            at early counter
          have rest := inductionHypothesis ok' numbered' (by omega) still
            member' (counter ▸ word) (by omega) (counter ▸ early)
          rw [counter] at rest
          rw [List.countP_cons, ticks]
          exact rest
      | true =>
          simp only [ticks, if_true] at early counter
          have next (j : Nat) : u32 (mid.tickCount + j) =
              u32 (m.tickCount + (j + 1)) := by
            rw [counter, u32, u32, u32]
            omega
          obtain ⟨nodes'', ok'', asleep', member'', counter'⟩ :=
            inductionHypothesis ok' numbered' (by omega) still member'
              (counter ▸ Nat.mod_lt _ (by decide)) (by omega) (by
                intro j one below
                rw [next]
                exact early (j + 1) (by omega) (by omega))
          refine ⟨nodes'', ok'', asleep', member'', ?_⟩
          rw [counter', next, List.countP_cons, ticks]
          rfl

/-! ## The deadline -/

section Deadline

variable {tickCount ms passed : Nat}

/-- With a deadline that fits, the counter reaches it with the right
tick. -/
theorem DeadlineFits.due_iff (fits : DeadlineFits tickCount ms)
    (word : tickCount < 2 ^ 32) (msWord : ms < 2 ^ 32)
    (inTime : passed < max ms 1) :
    u32 (tickCount + ms) ≤ u32 (tickCount + (passed + 1)) ↔
      passed + 1 = max ms 1 := by
  unfold DeadlineFits at fits
  unfold u32
  omega

/-- Otherwise the first tick is too early or not enough. -/
theorem deadlineFits_of_first (word : tickCount < 2 ^ 32)
    (msWord : ms < 2 ^ 32)
    (first : u32 (tickCount + ms) ≤ u32 (tickCount + 1) ↔
      1 = max ms 1) : DeadlineFits tickCount ms := by
  unfold DeadlineFits
  unfold u32 at first
  omega

end Deadline

theorem sleeping_asleep (waits : m.InputOk m.curr)
    (running : m.stateOf m.curr = .running) (ms : Nat) :
    (m.sleeping ms).Asleep m.curr (u32 (m.tickCount + ms)) := by
  refine ⟨?_, ?_, ?_, ?_⟩
  · exact (sleeping_blocks ms).blocked
  · rw [blockOf, Machine.sleeping, setProc_same]
  · rw [targetOf, Machine.sleeping, setProc_same]
    apply waits.target
    · simp [running]
    · intro blocked
      simp [running] at blocked
  · rw [Machine.sleeping, setProc_same]

/-- What `SYS_SLEEP` leaves behind in a run from boot. -/
theorem sleep_call {m₀ : Machine} {ms : Nat} (booted : m₀.Booted)
    (run : Run Step m₀ labels m)
    (few : labels.countP isSpawn < 2 ^ 32 - 2)
    (call : Step m (.call (.sleep ms)) m') :
    ∃ nodes, m'.Ok nodes ∧
      m'.Numbered nodes (2 + labels.countP isSpawn) ∧
      m'.Asleep m.curr (u32 (m.tickCount + ms)) ∧ m.curr ∈ nodes ∧
      m'.tickCount = m.tickCount := by
  obtain ⟨nodes, ok, numbered, waits⟩ := booted.waitsOk.run booted.ok
    booted.numbered (by decide) run (by omega)
  have program : m.curr ≠ m.tasks.idleProc := by
    cases call.enabled with
    | call _ program _ => exact program
  have member := ok.core.curr.resolve_right program
  obtain ⟨nodes', ok', ⟨mid, next, isMid, may, rfl, rfl⟩ | direct⟩ :=
    ok.step call (by simp)
  · obtain ⟨core, _, _⟩ := ok.beforeSchedule isMid
    have numbered' := ((mid_steady isMid).goTo next).numbered
      (fun _ inside => inside) numbered
    cases isMid with
    | sleep _ _ =>
        have asleep := sleeping_asleep (waits m.curr member) ok.running ms
        exact ⟨_, ok', numbered', asleep.goTo core may, member,
          goTo_tickCount next⟩
  · cases direct

theorem SleepsFor.fits {m₀ : Machine} {ms : Nat} (booted : m₀.Booted)
    (run : Run Step m₀ labels m)
    (few : labels.countP isSpawn < 2 ^ 32 - 2)
    (call : Step m (.call (.sleep ms)) m')
    (word : m.tickCount < 2 ^ 32) (msWord : ms < 2 ^ 32)
    (sleepsFor :
      m'.SleepsFor m.curr (max ms 1) (labels.countP isSpawn)) :
    DeadlineFits m.tickCount ms := by
  obtain ⟨nodes, ok, _, asleep, member, counter⟩ :=
    sleep_call booted run few call
  have atOnce : ([] : List Label).countP isTick < max ms 1 := by
    rw [List.countP_nil]
    omega
  have first := (sleepsFor [] m' .nil (by simpa using few) atOnce).2 _
    ok.pitHandler_eq
  rw [asleep.ticked_ready_iff member, counter, List.countP_nil] at first
  exact deadlineFits_of_first word msWord first

/-- A process that calls `SYS_SLEEP` becomes ready with the first tick that
is `max(ms, 1)` ticks after the call exactly when its deadline fits. -/
theorem sleepsFor_iff {m₀ : Machine} {ms : Nat} (booted : m₀.Booted)
    (run : Run Step m₀ labels m)
    (few : labels.countP isSpawn < 2 ^ 32 - 2)
    (call : Step m (.call (.sleep ms)) m')
    (word : m.tickCount < 2 ^ 32) (msWord : ms < 2 ^ 32) :
    m'.SleepsFor m.curr (max ms 1) (labels.countP isSpawn) ↔
      DeadlineFits m.tickCount ms := by
  constructor
  · exact SleepsFor.fits booted run few call word msWord
  · intro fits labels' m'' run' few' inTime
    obtain ⟨nodes, ok, numbered, asleep, member, counter⟩ :=
      sleep_call booted run few call
    obtain ⟨nodes', ok', asleep', member', counter'⟩ := asleep.run ok
      numbered (by omega) member (counter ▸ word) run' (by omega) (by
        intro j one below
        have due := fits.due_iff word msWord
          (show j - 1 < max ms 1 by omega)
        have same : j - 1 + 1 = j := by omega
        rw [same] at due
        rw [counter]
        omega)
    refine ⟨asleep'.blocked, ?_⟩
    intro after ticks
    obtain rfl := Option.some.inj (ok'.pitHandler_eq.symm.trans ticks)
    have next : u32 (m''.tickCount + 1) =
        u32 (m.tickCount + (labels'.countP isTick + 1)) := by
      rw [counter', counter, u32, u32, u32]
      omega
    rw [asleep'.ticked_ready_iff member', next]
    exact fits.due_iff word msWord inTime

/-- `init` sleeps for three ticks from tick 0 on. -/
theorem sampleSleep_exact :
    ∃ m, Step sampleBoot (.call (.sleep 3)) m ∧ m.SleepsFor 0x1000 3 0 := by
  have done : (execute [.call (.sleep 3)] sampleBoot).isSome = true := by
    decide +kernel
  obtain ⟨m, done⟩ := Option.isSome_iff_exists.mp done
  cases run_of_execute done with
  | cons first rest =>
      cases rest
      exact ⟨m, first, (sleepsFor_iff sampleBoot_booted .nil (by decide)
        first (by decide) (by decide)).mpr (by decide)⟩

/-- `init` at a counter that is about to wrap. -/
def sampleWrap : Machine := { sampleBoot with tickCount := 2 ^ 32 - 2 }

theorem sampleWrap_booted : sampleWrap.Booted :=
  ⟨sampleBoot_booted.list, sampleBoot_booted.curr, sampleBoot_booted.idle,
    sampleBoot_booted.ready, sampleBoot_booted.running,
    sampleBoot_booted.idleReady, sampleBoot_booted.pids,
    sampleBoot_booted.fds, sampleBoot_booted.fields, sampleBoot_booted.kbd,
    sampleBoot_booted.files, sampleBoot_booted.pending,
    sampleBoot_booted.events⟩

/-- There the first tick ends a sleep of ten. -/
theorem sampleWrap_early :
    ∃ m, Step sampleWrap (.call (.sleep 10)) m ∧
      ¬m.SleepsFor 0x1000 10 0 := by
  have done : (execute [.call (.sleep 10)] sampleWrap).isSome = true := by
    decide +kernel
  obtain ⟨m, done⟩ := Option.isSome_iff_exists.mp done
  cases run_of_execute done with
  | cons first rest =>
      cases rest
      refine ⟨m, first, ?_⟩
      intro sleepsFor
      have fits := SleepsFor.fits sampleWrap_booted .nil (by decide) first
        (by decide) (by decide) sleepsFor
      revert fits
      decide

end Machine

end LoafOs
