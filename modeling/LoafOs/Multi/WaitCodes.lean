import LoafOs.Multi.Execute
import LoafOs.Multi.StepFrames

/-!
# The codes that `SYS_WAIT` returns

As long as one process at a time waits for another one, waiting finds the
structure of the process and returns the code with which it ended.
-/

namespace LoafOs

open Links Runs

namespace Machine

variable {m m' mid : Machine} {nodes nodes' : List Nat} {p q pid count : Nat}
  {label : Label} {labels : List Label} {code : Int}

def exitOf (m : Machine) (p : Nat) : Int := (m.inertOf p).exitCode

/-- The codes of the dead are on record, and they are what waiting yields. -/
structure Told (m : Machine) (nodes : List Nat) (count : Nat) : Prop where
  dead : ∀ p ∈ nodes, m.stateOf p = .dead →
    .died (m.pidOf p) (m.exitOf p) ∈ m.events
  alive : ∀ p ∈ nodes, m.stateOf p ≠ .dead → m.exitOf p = -1 ∧
    ∀ code, .died (m.pidOf p) code ∉ m.events
  once : ∀ pid code code', .died pid code ∈ m.events →
    .died pid code' ∈ m.events → code = code'
  waited : ∀ pid code, .waited pid code ∈ m.events →
    .died pid code ∈ m.events
  numbered : ∀ pid code, .died pid code ∈ m.events →
    ∃ k, 1 ≤ k ∧ k < count ∧ pid = u32 k

/-- Nobody ends and no call of `SYS_WAIT` returns. -/
structure Quiet (m m' : Machine) : Prop where
  pids : ∀ p, m'.pidOf p = m.pidOf p
  codes : ∀ p, m'.exitOf p = m.exitOf p
  dead : ∀ p, m'.stateOf p = .dead ↔ m.stateOf p = .dead
  died : ∀ pid code, .died pid code ∈ m'.events ↔ .died pid code ∈ m.events
  waited : ∀ pid code,
    .waited pid code ∈ m'.events ↔ .waited pid code ∈ m.events

theorem Quiet.trans {m'' : Machine} (left : Quiet m m')
    (right : Quiet m' m'') : Quiet m m'' :=
  ⟨fun p => (right.pids p).trans (left.pids p),
    fun p => (right.codes p).trans (left.codes p),
    fun p => (right.dead p).trans (left.dead p),
    fun pid code => (right.died pid code).trans (left.died pid code),
    fun pid code => (right.waited pid code).trans (left.waited pid code)⟩

/-- A change that keeps the inert fields and the events. -/
theorem Quiet.of_inert (inert : ∀ p, m'.inertOf p = m.inertOf p)
    (dead : ∀ p, m'.stateOf p = .dead ↔ m.stateOf p = .dead)
    (events : m'.events = m.events) : Quiet m m' := by
  refine ⟨fun p => ?_, fun p => ?_, dead, fun pid code => ?_,
    fun pid code => ?_⟩
  · rw [← inertOf_pid, inert, inertOf_pid]
  · rw [exitOf, inert, exitOf]
  · rw [events]
  · rw [events]

theorem Quiet.of_events (tasks : m'.tasks = m.tasks)
    (died : ∀ pid code,
      .died pid code ∈ m'.events ↔ .died pid code ∈ m.events)
    (waited : ∀ pid code,
      .waited pid code ∈ m'.events ↔ .waited pid code ∈ m.events) :
    Quiet m m' :=
  ⟨fun p => by rw [pidOf, tasks]; rfl,
    fun p => by rw [exitOf, inertOf, tasks]; rfl,
    fun p => by rw [stateOf, tasks]; rfl, died, waited⟩

theorem FileCall.quiet (call : FileCall m m') : Quiet m m' := by
  refine ⟨call.same.pids, fun p => ?_, fun p => ?_, fun _ _ => ?_,
    fun _ _ => ?_⟩
  · obtain ⟨fds, same⟩ := call.inert p
    rw [exitOf, same]
    rfl
  · rw [call.same.states]
  · rw [call.events]
  · rw [call.events]

theorem Told.quiet (told : m.Told nodes count) (quiet : Quiet m m') :
    m'.Told nodes count := by
  refine ⟨fun p member dead => ?_, fun p member alive => ?_,
    fun pid code code' left right => ?_, fun pid code is => ?_,
    fun pid code is => ?_⟩
  · rw [quiet.pids, quiet.codes, quiet.died]
    exact told.dead p member ((quiet.dead p).mp dead)
  · rw [quiet.codes, quiet.pids]
    obtain ⟨initial, never⟩ := told.alive p member
      fun dead => alive ((quiet.dead p).mpr dead)
    exact ⟨initial, fun code is => never code ((quiet.died _ _).mp is)⟩
  · exact told.once pid code code' ((quiet.died _ _).mp left)
      ((quiet.died _ _).mp right)
  · exact (quiet.died _ _).mpr (told.waited pid code
      ((quiet.waited _ _).mp is))
  · exact told.numbered pid code ((quiet.died _ _).mp is)

/-- A process ends with a code. -/
structure Ends (m m' : Machine) (victim : Nat) (code : Int) : Prop where
  pids : ∀ p, m'.pidOf p = m.pidOf p
  codes : ∀ p, p ≠ victim → m'.exitOf p = m.exitOf p
  own : m'.exitOf victim = code
  dead : ∀ p, m'.stateOf p = .dead ↔ m.stateOf p = .dead ∨ p = victim
  events : m'.events = .died (m.pidOf victim) code :: m.events

theorem Told.ends {victim : Nat} (core : m.Core nodes)
    (numbered : m.Numbered nodes count) (told : m.Told nodes count)
    (member : victim ∈ nodes) (alive : m.stateOf victim ≠ .dead)
    (ends : Ends m m' victim code) : m'.Told nodes count := by
  obtain ⟨_, never⟩ := told.alive victim member alive
  refine ⟨fun p inside dead => ?_, fun p inside alive => ?_,
    fun pid first second left right => ?_, fun pid given is => ?_,
    fun pid given is => ?_⟩
  · rw [ends.pids, ends.events, List.mem_cons]
    by_cases same : p = victim
    · rw [same, ends.own]
      exact .inl rfl
    · rw [ends.codes p same]
      exact .inr (told.dead p inside
        (((ends.dead p).mp dead).resolve_right same))
  · have different : p ≠ victim :=
      fun same => alive ((ends.dead p).mpr (.inr same))
    obtain ⟨initial, never'⟩ := told.alive p inside
      fun dead => alive ((ends.dead p).mpr (.inl dead))
    rw [ends.codes p different, ends.pids, ends.events]
    refine ⟨initial, fun given is => ?_⟩
    rcases List.mem_cons.mp is with same | before
    · injection same with samePid
      exact different (core.pids p inside victim member samePid)
    · exact never' given before
  · rw [ends.events, List.mem_cons] at left right
    rcases left with left | left <;> rcases right with right | right
    · injection left with _ leftCode
      injection right with _ rightCode
      rw [leftCode, rightCode]
    · injection left with leftPid
      rw [leftPid] at right
      exact absurd right (never second)
    · injection right with rightPid
      rw [rightPid] at left
      exact absurd left (never first)
    · exact told.once pid first second left right
  · rw [ends.events, List.mem_cons] at is ⊢
    rcases is with is | is
    · simp at is
    · exact .inr (told.waited pid given is)
  · rw [ends.events, List.mem_cons] at is
    rcases is with is | is
    · injection is with samePid
      rw [samePid]
      exact numbered.used victim member
    · exact told.numbered pid given is

/-! ## The steps -/

theorem goTo_quiet (core : m.Core nodes) {next : Nat}
    (may : MayGo m nodes next) : Quiet m (m.goTo next) :=
  .of_inert (goTo_inert next) (goTo_dead core may) (goTo_rest next).1

theorem Blocks.quiet (blocks : Blocks m mid)
    (running : m.stateOf m.curr = .running) : Quiet m mid :=
  .of_inert blocks.inert (blocks.dead_iff running) blocks.events

theorem ticked_quiet : Quiet m (m.ticked nodes) := by
  refine ticked_induction (fun mid => Quiet m mid) ?_ ?_ ?_
  · exact .of_inert (fun _ => rfl) (fun _ => Iff.rfl) rfl
  · intro mid quiet p _ blocked _
    exact quiet.trans
      (.of_inert wokenUp_inert (wokenUp_dead blocked) rfl)
  · intro mid quiet p _ _ _ _
    refine quiet.trans ⟨(cleanedUp_same mid p).pids, fun q => ?_,
      fun q => ?_, fun pid code => ?_, fun pid code => ?_⟩
    · by_cases same : q = p
      · rw [same, exitOf, cleanedUp_self, exitOf]
      · rw [exitOf, cleanedUp_inert same, exitOf]
    · rw [(cleanedUp_same mid p).states]
    · simp [cleanedUp_events]
    · simp [cleanedUp_events]

theorem exited_ends (code : Int) :
    Ends m (m.exited nodes code) m.curr code := by
  have dies : Dies m (m.exited nodes code) nodes m.curr := exited_dies code
  refine ⟨dies.pids, fun p different => ?_, ?_, dies.dead_iff, rfl⟩
  · rw [exitOf, exited_inert code different, exitOf]
  · rw [exitOf, exited_curr]

theorem faulted_ends (initial : m.exitOf m.curr = -1) :
    Ends m (m.faulted nodes) m.curr (-1) := by
  have dies : Dies m (m.faulted nodes) nodes m.curr := faulted_dies
  refine ⟨dies.pids, fun p _ => ?_, ?_, dies.dead_iff, rfl⟩
  · rw [exitOf, faulted_inert, exitOf]
  · rw [exitOf, faulted_inert]
    exact initial

theorem killed_ends {victim : Nat} (alive : m.stateOf victim ≠ .dead)
    (initial : m.exitOf victim = -1) :
    Ends m (m.killed nodes victim) victim (-1) := by
  have dies : Dies m (m.killed nodes victim) nodes victim :=
    killed_dies victim
  refine ⟨dies.pids, fun p _ => ?_, ?_, dies.dead_iff, ?_⟩
  · rw [exitOf, killed_inert, exitOf]
  · rw [exitOf, killed_inert]
    exact initial
  · have notDead : m.tasks.stateOf victim ≠ .dead := alive
    rw [Machine.killed, if_pos notDead]
    rfl

theorem killed_quiet {victim : Nat} (dead : m.stateOf victim = .dead) :
    Quiet m (m.killed nodes victim) := by
  have dies : Dies m (m.killed nodes victim) nodes victim :=
    killed_dies victim
  refine .of_inert (killed_inert victim) (fun p => ?_) ?_
  · rw [dies.dead_iff]
    constructor
    · rintro (before | rfl)
      · exact before
      · exact dead
    · exact .inl
  · have isDead : ¬ m.tasks.stateOf victim ≠ .dead := not_not.mpr dead
    rw [Machine.killed, if_neg isDead]
    rfl

theorem Told.beforeSchedule (ok : m.Ok nodes) (numbered : m.Numbered nodes count)
    (told : m.Told nodes count) (isMid : Mid m nodes label mid) :
    mid.Told nodes count := by
  have running := ok.running
  have alive : m.stateOf m.curr ≠ .dead := by simp [running]
  have inside : m.curr ≠ m.tasks.idleProc → m.curr ∈ nodes :=
    fun program => ok.core.curr.resolve_right program
  cases isMid with
  | tick => exact told.quiet ticked_quiet
  | yieldHlt => exact told
  | fault program =>
      exact told.ends ok.core numbered (inside program) alive
        (faulted_ends (told.alive _ (inside program) alive).1)
  | exit program =>
      exact told.ends ok.core numbered (inside program) alive
        (exited_ends _)
  | kill program _ =>
      exact told.ends ok.core numbered (inside program) alive
        (killed_ends alive (told.alive _ (inside program) alive).1)
  | wait _ _ _ _ => exact told.quiet ((waiting_blocks _ _).quiet running)
  | sleep _ _ => exact told.quiet ((sleeping_blocks _).quiet running)
  | getchar _ _ => exact told.quiet (awaiting_blocks.quiet running)

/-- A recorded event. -/
theorem record_quiet {event : Event}
    (died : ∀ pid code, event ≠ .died pid code)
    (waited : ∀ pid code, event ≠ .waited pid code) :
    Quiet m (m.record event) := by
  refine .of_events rfl (fun pid code => ?_) fun pid code => ?_
  · simp [record, (died pid code).symm]
  · simp [record, (waited pid code).symm]

theorem Told.record_waited (told : m.Told nodes count)
    (died : .died pid code ∈ m.events) :
    (m.record (.waited pid code)).Told nodes count := by
  refine ⟨fun p member dead => ?_, fun p member alive => ?_,
    fun pid first second left right => ?_, fun pid' given is => ?_,
    fun pid given is => ?_⟩
  · exact List.mem_cons_of_mem _ (told.dead p member dead)
  · obtain ⟨initial, never⟩ := told.alive p member alive
    refine ⟨initial, fun given is => ?_⟩
    rcases List.mem_cons.mp is with same | before
    · simp at same
    · exact never given before
  · exact told.once pid first second (by simpa [record] using left)
      (by simpa [record] using right)
  · rcases List.mem_cons.mp is with same | before
    · injection same with samePid sameCode
      rw [samePid, sameCode]
      exact List.mem_cons_of_mem _ died
    · exact List.mem_cons_of_mem _ (told.waited pid' given before)
  · exact told.numbered pid given (by simpa [record] using is)

theorem Told.subset (told : m.Told nodes count) (inside : nodes' ⊆ nodes) :
    m.Told nodes' count :=
  ⟨fun p member => told.dead p (inside member),
    fun p member => told.alive p (inside member), told.once, told.waited,
    told.numbered⟩

theorem Told.spawn {child : Process} (ok : m.Ok nodes)
    (numbered : m.Numbered nodes count) (told : m.Told nodes count)
    (few : count ≤ 2 ^ 32) (created : m.Created child) :
    (m.sysSpawn child).Told (child.addr :: nodes) (count + 1) := by
  have fresh := created.unlinked nodes ok.core.listed.path
  have other : ∀ p ∈ nodes, (m.sysSpawn child).tasks.procs p =
      m.tasks.procs p := fun p member =>
    sysSpawn_other fun same => fresh (same ▸ member)
  have died : ∀ pid code, .died pid code ∈ (m.sysSpawn child).events ↔
      .died pid code ∈ m.events := by
    intro pid code
    simp [sysSpawn, record, setTasks, setPending, setProc]
  have waited : ∀ pid code, .waited pid code ∈ (m.sysSpawn child).events ↔
      .waited pid code ∈ m.events := by
    intro pid code
    simp [sysSpawn, record, setTasks, setPending, setProc]
  have same : ∀ p ∈ nodes, (m.sysSpawn child).pidOf p = m.pidOf p ∧
      (m.sysSpawn child).exitOf p = m.exitOf p ∧
      (m.sysSpawn child).stateOf p = m.stateOf p := by
    intro p member
    rw [pidOf, exitOf, inertOf, stateOf, Tasks.stateOf, other p member]
    exact ⟨rfl, rfl, rfl⟩
  have ready : (m.sysSpawn child).stateOf child.addr ≠ .dead := by
    rw [(sysSpawn_enters ok.core created).ready]
    simp
  refine ⟨fun p member dead => ?_, fun p member alive => ?_,
    fun pid first second left right => ?_, fun pid given is => ?_,
    fun pid given is => ?_⟩
  · rcases List.mem_cons.mp member with isChild | old
    · rw [isChild] at dead
      exact absurd dead ready
    · obtain ⟨pids, codes, states⟩ := same p old
      rw [pids, codes, died]
      exact told.dead p old (states ▸ dead)
  · rcases List.mem_cons.mp member with isChild | old
    · rw [isChild, exitOf, sysSpawn_inert, sysSpawn_pid, created.pid,
        numbered.next]
      refine ⟨created.exitCode, fun given is => ?_⟩
      obtain ⟨k, positive, below, named⟩ :=
        told.numbered _ given ((died _ _).mp is)
      rw [u32, u32] at named
      omega
    · obtain ⟨pids, codes, states⟩ := same p old
      obtain ⟨initial, never⟩ := told.alive p old (states ▸ alive)
      rw [pids, codes]
      exact ⟨initial, fun given is => never given ((died _ _).mp is)⟩
  · exact told.once pid first second ((died _ _).mp left)
      ((died _ _).mp right)
  · exact (died _ _).mpr (told.waited pid given ((waited _ _).mp is))
  · obtain ⟨k, positive, below, named⟩ :=
      told.numbered pid given ((died _ _).mp is)
    exact ⟨k, positive, by omega, named⟩

theorem Told.direct (ok : m.Ok nodes) (numbered : m.Numbered nodes count)
    (told : m.Told nodes count) (direct : Direct m nodes label m' nodes')
    (notSpawn : isSpawn label = false) : m'.Told nodes' count := by
  cases direct with
  | key _ =>
      exact told.quiet (.of_events rfl (fun _ _ => Iff.rfl) fun _ _ => Iff.rfl)
  | @keyWakes scancode proc _ _ awaits =>
      have both : m.stateOf proc = .blocked ∧ m.blockOf proc = .input :=
        of_decide_eq_true awaits
      have change : OneChange (m.keyed scancode)
          ((m.keyed scancode).awake proc) proc := oneChange_setProc rfl
      refine told.quiet (.of_inert (awake_inert proc) (fun p => ?_) rfl)
      by_cases same : p = proc
      · rw [same, both.1, stateOf, Tasks.stateOf, awake, setProc_same]
        simp
      · rw [change.stateOf same]
        rfl
  | killNobody _ => exact told
  | @kill pid proc member _ _ =>
      by_cases dead : m.stateOf proc = .dead
      · exact told.quiet (killed_quiet dead)
      · exact told.ends ok.core numbered member dead
          (killed_ends dead (told.alive proc member dead).1)
  | waitNobody _ => exact told
  | waitDead member named dead =>
      have died := told.dead _ member dead
      rw [named] at died
      exact told.record_waited died
  | getchar _ =>
      exact told.quiet (.of_events rfl (fun _ _ => by simp [record])
        fun _ _ => by simp [record])
  | getcharNb =>
      exact told.quiet (.of_events rfl (fun _ _ => Iff.rfl) fun _ _ => Iff.rfl)
  | spawn _ => simp [isSpawn] at notSpawn
  | «open» _ done => exact told.quiet (sysOpen_files done).quiet
  | close _ => exact told.quiet (sysClose_files _).quiet
  | read _ done => exact told.quiet (sysRead_files done).quiet
  | write _ done => exact told.quiet (sysWrite_files done).quiet
  | other =>
      exact told.quiet (.of_events rfl (fun _ _ => Iff.rfl) fun _ _ => Iff.rfl)
  | resumeGetchar _ =>
      exact told.quiet (.of_events rfl
        (fun _ _ => by simp [resumeGetchar, record, setPending])
        fun _ _ => by simp [resumeGetchar, record, setPending])
  | @resumeWait pid proc tasks pending member named unlinked =>
      obtain ⟨tasks', unlinked', _, procs, _⟩ :=
        ok.core.listed.procUnlink member
      rw [unlinked] at unlinked'
      obtain rfl := Option.some.inj unlinked'
      have dead : m.stateOf proc = .dead := by
        have running := ok.running
        rcases ok.core.curr with inside | isIdle
        · exact (ok.core.waits m.curr inside).woken pid pending
            (by simp [running]) (by simp [running]) proc member named
        · rw [isIdle, ok.core.idlePending] at pending
          simp at pending
      have died := told.dead proc member dead
      rw [named] at died
      have unlinkedQuiet : Quiet m
          (((m.setPending m.curr .none).setTasks tasks).record
            (.freed pid)) := by
        refine ⟨fun p => ?_, fun p => ?_, fun p => ?_, fun pid code => ?_,
          fun pid code => ?_⟩
        · change (tasks.procs p).pid = _
          rw [procs]
          rfl
        · change (Inert.of (tasks.procs p)).exitCode = _
          rw [procs]
          rfl
        · change (tasks.procs p).state = _ ↔ _
          rw [procs]
          rfl
        · simp [record, setTasks, setPending]
        · simp [record, setTasks, setPending]
      refine Told.record_waited
        ((told.quiet unlinkedQuiet).subset fun _ => List.mem_of_mem_erase) ?_
      exact (unlinkedQuiet.died _ _).mpr died

end Machine

end LoafOs
