import LoafOs.Multi.Execute
import LoafOs.Multi.InputWaits

/-!
# Runs in which every reader gets its key

The buffer holds a character for each woken reader, and no more than these
while some process is still blocked on input.
-/

namespace LoafOs

open Links Runs

namespace Machine

variable {m m' mid : Machine} {nodes nodes' : List Nat} {p q pid count : Nat}
  {label : Label} {labels : List Label}

/-! ## Counting -/

theorem countP_congr {f g : Nat → Bool} (same : ∀ p ∈ nodes, g p = f p) :
    nodes.countP g = nodes.countP f :=
  List.countP_congr fun p member => by rw [same p member]

/-- One more process counts. -/
theorem countP_succ {f g : Nat → Bool} (nodup : nodes.Nodup)
    (member : p ∈ nodes) (was : f p = false) (is : g p = true)
    (others : ∀ q ∈ nodes, q ≠ p → g q = f q) :
    nodes.countP g = nodes.countP f + 1 := by
  have perm := List.perm_cons_erase member
  have rest : (nodes.erase p).countP g = (nodes.erase p).countP f := by
    refine countP_congr fun q inside => ?_
    obtain ⟨different, there⟩ := nodup.mem_erase_iff.mp inside
    exact others q there different
  rw [perm.countP_eq, perm.countP_eq, List.countP_cons_of_pos is,
    List.countP_cons_of_neg (by simp [was]), rest]

/-! ## The invariant -/

structure KeysKept (m : Machine) (nodes : List Nat) : Prop where
  kbd : m.kbd.Ok
  waits : ∀ p ∈ nodes, m.InputOk p
  enough : m.wokenCount nodes ≤ m.kbd.stored
  noneLost : ∀ p ∈ nodes, m.awaitsInput p = true →
    m.kbd.stored ≤ m.wokenCount nodes
  answered : ∀ c, .got c ∈ m.events → c ≠ none

theorem KeysKept.waitsOk (kept : m.KeysKept nodes) : m.WaitsOk nodes :=
  kept.waits

/-- Keys and readers do not notice the change. -/
theorem KeysKept.calm (kept : m.KeysKept nodes)
    (calm : ∀ p ∈ nodes, Calm m m' p) (kbd : m'.kbd = m.kbd)
    (got : ∀ c, .got c ∈ m'.events → .got c ∈ m.events) :
    m'.KeysKept nodes := by
  have count : m'.wokenCount nodes = m.wokenCount nodes :=
    countP_congr fun p member => (calm p member).woken (kept.waits p member)
  refine ⟨kbd ▸ kept.kbd,
    fun p member => (calm p member).inputOk (kept.waits p member), ?_,
    fun p member awaits => ?_, fun c is => kept.answered c (got c is)⟩
  · rw [count, kbd]
    exact kept.enough
  · rw [count, kbd]
    exact kept.noneLost p member ((calm p member).awaits awaits)

theorem KeysKept.same (kept : m.KeysKept nodes) (same : SameTasks m m')
    (kbd : m'.kbd = m.kbd)
    (got : ∀ c, .got c ∈ m'.events → .got c ∈ m.events) :
    m'.KeysKept nodes :=
  kept.calm (fun p _ => same.calm p) kbd got

theorem KeysKept.goTo (kept : m.KeysKept nodes) (core : m.Core nodes)
    {next : Nat} (may : MayGo m nodes next) :
    (m.goTo next).KeysKept nodes := by
  obtain ⟨events, kbd, _⟩ := @goTo_rest m next
  exact kept.calm (fun p _ => goTo_calm core may p) kbd
    fun c is => events ▸ is

/-- The processes stay, and the buffer changes. -/
theorem KeysKept.kbd_change (kept : m.KeysKept nodes) {kbd : Keyboard}
    (ok : kbd.Ok) (enough : m.wokenCount nodes ≤ kbd.stored)
    (noneLost : ∀ p ∈ nodes, m.awaitsInput p = true →
      kbd.stored ≤ m.wokenCount nodes) :
    ({ m with kbd } : Machine).KeysKept nodes :=
  ⟨ok, fun p member => ⟨(kept.waits p member).input,
      (kept.waits p member).target⟩, enough, noneLost, kept.answered⟩

theorem KeysKept.subset (kept : m.KeysKept nodes)
    (inside : ∀ p ∈ nodes', p ∈ nodes)
    (count : m.wokenCount nodes' = m.wokenCount nodes) :
    m.KeysKept nodes' := by
  refine ⟨kept.kbd, fun p member => kept.waits p (inside p member), ?_,
    fun p member awaits => ?_, kept.answered⟩
  · rw [count]
    exact kept.enough
  · rw [count]
    exact kept.noneLost p (inside p member) awaits

/-! ## Which runs -/

/-- What a step must not do for no reader to lose its key. -/
def KeepsKeys (m : Machine) (label : Label) : Prop :=
  ∀ nodes, Path m.tasks.next (· = 0) m.tasks.procList nodes →
    match label with
    | .key scancode => (m.kbd.interrupt scancode).2 = true →
        m.kbd.stored + 1 < kbdBufferSize ∨ m.wokenCount nodes = 0
    | .call .getchar => 0 < m.kbd.stored →
        m.wokenCount nodes < m.kbd.stored
    | .call .getcharNb => 0 < m.kbd.stored →
        m.wokenCount nodes < m.kbd.stored
    | .call (.kill pid) => ∀ p ∈ nodes, m.pidOf p = pid →
        m.woken p = true → ∀ q ∈ nodes, m.awaitsInput q = false
    | .fault => m.pidOf m.curr ≠ noPid
    | _ => True

theorem interrupt_unstored {kbd : Keyboard} {scancode : UInt8}
    (notStored : (kbd.interrupt scancode).2 = false) :
    (kbd.interrupt scancode).1.stored = kbd.stored := by
  rw [Keyboard.interrupt] at notStored ⊢
  split
  case isTrue => rfl
  case isFalse =>
    split
    case isTrue => rfl
    case isFalse =>
      split
      case isTrue => rfl
      case isFalse =>
        split
        case isTrue => simp_all
        case isFalse => rfl

theorem interrupt_stored {kbd : Keyboard} {scancode : UInt8} (ok : kbd.Ok)
    (stored : (kbd.interrupt scancode).2 = true)
    (room : kbd.stored + 1 < kbdBufferSize) :
    (kbd.interrupt scancode).1.stored = kbd.stored + 1 := by
  rw [Keyboard.interrupt] at stored ⊢
  split
  case isTrue => simp_all
  case isFalse =>
    split
    case isTrue => simp_all
    case isFalse =>
      split
      case isTrue => simp_all
      case isFalse =>
        split
        case isTrue => exact Keyboard.stored_put ok room
        case isFalse => simp_all

/-! ## The steps -/

theorem KeysKept.ticked (kept : m.KeysKept nodes) :
    (m.ticked nodes).KeysKept nodes := by
  refine ticked_induction (fun mid => mid.KeysKept nodes) ?_ ?_ ?_
  · exact kept.same (.of_eq rfl rfl) rfl fun _ is => is
  · intro mid kept p member blocked sleeps
    exact kept.calm
      (fun q _ => wokenUp_calm (kept.waits p member) blocked sleeps q) rfl
      fun _ is => is
  · intro mid kept p _ _ _ _
    refine kept.same (cleanedUp_same mid p) rfl fun c is => ?_
    rw [cleanedUp_events] at is
    simpa using is

theorem KeysKept.awaiting (kept : m.KeysKept nodes) (ok : m.Ok nodes)
    (user : m.pending m.curr = .none)
    (empty : m.kbd.getchar = (none, m.kbd)) :
    m.awaiting.KeysKept nodes := by
  have blocks : Blocks m m.awaiting := awaiting_blocks
  have zero : m.kbd.stored = 0 := by
    by_contra nonzero
    have taken := (Keyboard.getchar_some kept.kbd (by omega)).1
    rw [empty] at taken
    simp at taken
  have count : m.awaiting.wokenCount nodes = m.wokenCount nodes := by
    refine countP_congr fun p member => ?_
    by_cases same : p = m.curr
    · rw [same, woken_blocked blocks.blocked,
        woken_eq_false (by simp [user])]
    · exact (blocks.change.calm same).woken (kept.waits p member)
  have enough := kept.enough
  refine ⟨kept.kbd, kept.waitsOk.awaiting ok.running, ?_,
    fun _ _ _ => ?_, kept.answered⟩
  · rw [count]
    exact enough
  · change m.kbd.stored ≤ _
    omega

theorem KeysKept.killed (kept : m.KeysKept nodes) {victim : Nat}
    (nodup : nodes.Nodup) (member : victim ∈ nodes)
    (safe : m.woken victim = true → ∀ q ∈ nodes, m.awaitsInput q = false) :
    (m.killed nodes victim).KeysKept nodes := by
  have kbd : (m.killed nodes victim).kbd = m.kbd := by
    rw [Machine.killed]
    split <;> rfl
  have got : ∀ c, .got c ∈ (m.killed nodes victim).events →
      .got c ∈ m.events := by
    intro c is
    rw [Machine.killed] at is
    split at is
    case isTrue =>
      rcases List.mem_cons.mp is with same | before
      · simp at same
      · exact before
    case isFalse => exact is
  cases woken : m.woken victim with
  | false => exact kept.calm (fun q _ => killed_calm woken q) kbd got
  | true =>
      have dies : Dies m (m.killed nodes victim) nodes victim :=
        killed_dies victim
      have others : ∀ q ∈ nodes, q ≠ victim →
          Calm m (m.killed nodes victim) q := fun q _ =>
        killed_others
      have count : m.wokenCount nodes =
          (m.killed nodes victim).wokenCount nodes + 1 :=
        countP_succ nodup member (woken_dead dies.dead) woken
          fun q there different =>
            ((others q there different).woken (kept.waits q there)).symm
      have enough := kept.enough
      refine ⟨kbd ▸ kept.kbd, kept.waitsOk.dies dies.dead others, ?_,
        fun q there is => ?_, fun c is => kept.answered c (got c is)⟩
      · rw [kbd]
        omega
      · have different : q ≠ victim := by
          rintro rfl
          simp [awaitsInput_iff, dies.dead] at is
        have before := (others q there different).awaits is
        rw [safe woken q there] at before
        simp at before

theorem KeysKept.beforeSchedule (ok : m.Ok nodes) (kept : m.KeysKept nodes)
    (enabled : m.Enabled label) (safe : m.KeepsKeys label)
    (isMid : Mid m nodes label mid) : mid.KeysKept nodes := by
  have keeps := safe nodes ok.core.listed.path
  have user : m.pending m.curr = .none :=
    enabled.user (by cases isMid <;> simp)
  have died : ∀ (events : List Event) pid code c,
      .got c ∈ (.died pid code :: events : List Event) →
      .got c ∈ events := by
    intro events pid code c is
    simpa using is
  cases isMid with
  | tick => exact kept.ticked
  | yieldHlt => exact kept
  | fault _ =>
      exact kept.calm (fun p member => faulted_calm user keeps
        (kept.waits p member)) rfl fun c is => died _ _ _ c is
  | exit _ =>
      exact kept.calm (fun p _ => exited_calm _ user p) rfl
        fun c is => died _ _ _ c is
  | kill program itself =>
      exact kept.killed ok.core.listed.path.nodup
        (ok.core.curr.resolve_right program)
        (keeps _ (ok.core.curr.resolve_right program) itself)
  | wait _ _ _ _ =>
      exact kept.calm (fun p _ => waiting_calm user _ _ p) rfl
        fun _ is => is
  | sleep _ _ =>
      refine kept.calm (fun p member => sleeping_calm user ok.running _
        fun _ => kept.waits p member) rfl fun _ is => is
  | getchar _ empty => exact kept.awaiting ok user empty

theorem KeysKept.keyed (kept : m.KeysKept nodes) {scancode : UInt8}
    (room : (m.kbd.interrupt scancode).2 = true →
      m.kbd.stored + 1 < kbdBufferSize ∨ m.wokenCount nodes = 0)
    (quiet : (m.kbd.interrupt scancode).2 = true →
      ∀ p ∈ nodes, ¬ m.awaitsInput p) : (m.keyed scancode).KeysKept nodes := by
  have enough := kept.enough
  cases stored : (m.kbd.interrupt scancode).2 with
  | false =>
      have same := interrupt_unstored stored
      refine kept.kbd_change kept.kbd.interrupt ?_ fun p member awaits => ?_
      · rw [same]
        exact enough
      · rw [same]
        exact kept.noneLost p member awaits
  | true =>
      refine kept.kbd_change kept.kbd.interrupt ?_ fun p member awaits =>
        absurd awaits (quiet stored p member)
      rcases room stored with room | none
      · rw [interrupt_stored kept.kbd stored room]
        omega
      · omega

/-- The key goes to a process that waits for it. -/
theorem KeysKept.wakes (kept : m.KeysKept nodes) (nodup : nodes.Nodup)
    {scancode : UInt8} (member : p ∈ nodes)
    (room : m.kbd.stored + 1 < kbdBufferSize ∨ m.wokenCount nodes = 0)
    (stored : (m.kbd.interrupt scancode).2 = true)
    (awaits : m.awaitsInput p = true) :
    ((m.keyed scancode).awake p).KeysKept nodes := by
  obtain ⟨blocked, isInput⟩ := awaitsInput_iff.mp awaits
  have change : OneChange (m.keyed scancode)
      ((m.keyed scancode).awake p) p := oneChange_setProc rfl
  have ready : ((m.keyed scancode).awake p).stateOf p = .ready := by
    rw [stateOf, Tasks.stateOf, awake, setProc_same]
  have keyed : (m.keyed scancode).WaitsOk nodes :=
    kept.waitsOk.same (.of_eq rfl rfl)
  have pending : ((m.keyed scancode).awake p).pending p = .getchar :=
    ((kept.waits p member).input blocked).mp isInput
  have lost := kept.noneLost p member awaits
  have enough := kept.enough
  have size : kbdBufferSize = 256 := rfl
  have grown : ((m.keyed scancode).awake p).kbd.stored = m.kbd.stored + 1 :=
    interrupt_stored kept.kbd stored (by omega)
  have count : ((m.keyed scancode).awake p).wokenCount nodes =
      m.wokenCount nodes + 1 := by
    refine countP_succ nodup member (woken_blocked blocked) ?_
      fun q there different => ?_
    · simp [woken, pending, ready]
    · exact (change.calm different).woken (keyed q there)
  exact ⟨kept.kbd.interrupt, keyed.awake awaits member, by omega,
    fun _ _ _ => by omega, kept.answered⟩

/-- A character is taken that no woken reader needs. -/
theorem KeysKept.taken (kept : m.KeysKept nodes)
    (spare : 0 < m.kbd.stored → m.wokenCount nodes < m.kbd.stored) :
    ({ m with kbd := m.kbd.getchar.2 } : Machine).KeysKept nodes := by
  by_cases empty : m.kbd.stored = 0
  · rw [Keyboard.getchar_none kept.kbd empty]
    exact kept
  · obtain ⟨_, less⟩ := Keyboard.getchar_some kept.kbd (by omega)
    have more := spare (by omega)
    refine kept.kbd_change kept.kbd.getchar (by omega) fun p member awaits => ?_
    have lost := kept.noneLost p member awaits
    omega

theorem KeysKept.record_got (kept : m.KeysKept nodes) (c : UInt8) :
    (m.record (.got (some c))).KeysKept nodes := by
  refine ⟨kept.kbd, fun p member => ⟨(kept.waits p member).input,
    (kept.waits p member).target⟩, kept.enough, kept.noneLost,
    fun c is => ?_⟩
  rcases List.mem_cons.mp is with same | before
  · injection same with same
    simp [same]
  · exact kept.answered c before

/-- The reader that a key has woken takes its character. -/
theorem KeysKept.resumes (kept : m.KeysKept nodes) (ok : m.Ok nodes)
    (pending : m.pending m.curr = .getchar) :
    (m.setPending m.curr .none).resumeGetchar.KeysKept nodes ∧
      0 < m.kbd.stored := by
  have running := ok.running
  have member : m.curr ∈ nodes := by
    refine ok.core.curr.resolve_right fun isIdle => ?_
    rw [isIdle, ok.core.idlePending] at pending
    simp at pending
  have user : (m.setPending m.curr .none).pending m.curr = .none :=
    setPending_same ..
  have others : ∀ q, q ≠ m.curr → Calm m (m.setPending m.curr .none) q :=
    fun q different => .stays rfl rfl rfl (setPending_other m _ different)
  have count : m.wokenCount nodes =
      (m.setPending m.curr .none).wokenCount nodes + 1 := by
    refine countP_succ ok.core.listed.path.nodup member
      (woken_eq_false (by simp [user])) ?_ fun q there different => ?_
    · simp [woken, pending, running]
    · exact ((others q different).woken (kept.waits q there)).symm
  have enough := kept.enough
  have nonempty : 0 < m.kbd.stored := by omega
  obtain ⟨got, less⟩ := Keyboard.getchar_some kept.kbd nonempty
  refine ⟨?_, nonempty⟩
  have same : (m.setPending m.curr .none).resumeGetchar =
      ({ m.setPending m.curr .none with
        kbd := m.kbd.getchar.2 } : Machine).record
          (.got (some (m.kbd.buffer m.kbd.readPos))) := by
    rw [← got]
    rfl
  have taken : ({ m.setPending m.curr .none with
      kbd := m.kbd.getchar.2 } : Machine).KeysKept nodes := by
    have cleared : ({ m.setPending m.curr .none with
        kbd := m.kbd.getchar.2 } : Machine).WaitsOk nodes :=
      (kept.waitsOk.cleared running).same (.of_eq rfl rfl)
    refine ⟨kept.kbd.getchar, cleared, ?_, fun q there awaits => ?_,
      kept.answered⟩
    · change (m.setPending m.curr .none).wokenCount nodes ≤
        m.kbd.getchar.2.stored
      omega
    · have lost := kept.noneLost q there awaits
      change m.kbd.getchar.2.stored ≤
        (m.setPending m.curr .none).wokenCount nodes
      omega
  rw [same]
  exact taken.record_got _

theorem KeysKept.waited (kept : m.KeysKept nodes) (ok : m.Ok nodes)
    {proc : Nat} {tasks : Tasks} {code : Int}
    (pending : m.pending m.curr = .wait pid) (member : proc ∈ nodes)
    (named : m.pidOf proc = pid)
    (unlinked : m.tasks.procUnlink proc = some tasks) :
    ((((m.setPending m.curr .none).setTasks tasks).record
      (.freed pid)).record (.waited pid code)).KeysKept
        (nodes.erase proc) := by
  obtain ⟨tasks', unlinked', _, procs, _⟩ :=
    ok.core.listed.procUnlink member
  rw [unlinked] at unlinked'
  obtain rfl := Option.some.inj unlinked'
  have running := ok.running
  have isDead : m.stateOf proc = .dead := by
    have inside : m.curr ∈ nodes := by
      refine ok.core.curr.resolve_right fun isIdle => ?_
      rw [isIdle, ok.core.idlePending] at pending
      simp at pending
    exact (ok.core.waits m.curr inside).woken pid pending (by simp [running])
      (by simp [running]) proc member named
  have cleared : (m.setPending m.curr .none).KeysKept nodes :=
    kept.calm (fun q _ => clear_calm running (by simp [pending]) q) rfl
      fun _ is => is
  have fewer : (m.setPending m.curr .none).wokenCount (nodes.erase proc) =
      (m.setPending m.curr .none).wokenCount nodes := by
    have none : (m.setPending m.curr .none).woken proc = false :=
      woken_dead isDead
    rw [wokenCount, wokenCount, (List.perm_cons_erase member).countP_eq,
      List.countP_cons_of_neg (by simp [none])]
  refine (cleared.subset (fun p => List.mem_of_mem_erase) fewer).calm
    (fun p _ => .stays ?_ ?_ ?_ rfl) rfl fun c is => ?_
  · change (tasks.procs p).state = _
    rw [procs]
    rfl
  · change (tasks.procs p).block = _
    rw [procs]
    rfl
  · change (tasks.procs p).targetPid = _
    rw [procs]
    rfl
  · simpa [record, setTasks] using is

theorem KeysKept.direct (ok : m.Ok nodes) (kept : m.KeysKept nodes)
    (safe : m.KeepsKeys label) (direct : Direct m nodes label m' nodes')
    (notSpawn : isSpawn label = false) : m'.KeysKept nodes' := by
  have keeps := safe nodes ok.core.listed.path
  have nodup := ok.core.listed.path.nodup
  have files : ∀ {m'}, FileCall m m' → m'.KeysKept nodes := fun call =>
    kept.same call.same call.kbd fun c is => call.events ▸ is
  cases direct with
  | key quiet => exact kept.keyed keeps quiet
  | keyWakes member stored awaits =>
      exact kept.wakes nodup member (keeps stored) stored awaits
  | killNobody _ => exact kept
  | kill member named _ =>
      exact kept.killed nodup member (keeps _ member named)
  | waitNobody _ => exact kept
  | waitDead _ _ _ =>
      exact kept.same (.of_eq rfl rfl) rfl fun c is => by
        simpa [record] using is
  | @getchar c kbd taken =>
      have same : kbd = m.kbd.getchar.2 := by rw [taken]
      rw [same]
      exact (kept.taken keeps).record_got c
  | getcharNb => exact kept.taken keeps
  | spawn _ => simp [isSpawn] at notSpawn
  | «open» _ done => exact files (sysOpen_files done)
  | close _ => exact files (sysClose_files _)
  | read _ done => exact files (sysRead_files done)
  | write _ done => exact files (sysWrite_files done)
  | other => exact kept.same (.of_eq rfl rfl) rfl fun _ is => is
  | resumeWait pending member named unlinked =>
      exact kept.waited ok pending member named unlinked
  | resumeGetchar pending => exact (kept.resumes ok pending).1

theorem KeysKept.spawn {child : Process} (core : m.Core nodes)
    (kept : m.KeysKept nodes) (created : m.Created child) :
    (m.sysSpawn child).KeysKept (child.addr :: nodes) := by
  have enters := sysSpawn_enters core created
  have fresh := created.unlinked nodes core.listed.path
  have calm : ∀ p ∈ nodes, Calm m (m.sysSpawn child) p := by
    intro p member
    have other : p ≠ child.addr := fun same => fresh (same ▸ member)
    refine .stays ?_ ?_ ?_ (enters.pending p other) <;>
    · simp only [stateOf, Tasks.stateOf, blockOf, targetOf,
        sysSpawn_other other]
  have old : (m.sysSpawn child).KeysKept nodes :=
    kept.calm calm rfl fun c is => by
      simpa [sysSpawn, record, setTasks, setPending, setProc] using is
  have notWoken : (m.sysSpawn child).woken child.addr = false :=
    woken_eq_false (by simp [enters.none])
  have notAwaits : (m.sysSpawn child).awaitsInput child.addr ≠ true := by
    simp [awaitsInput_iff, enters.ready]
  have count : (m.sysSpawn child).wokenCount (child.addr :: nodes) =
      (m.sysSpawn child).wokenCount nodes :=
    List.countP_cons_of_neg (by simp [notWoken])
  refine ⟨old.kbd, kept.waitsOk.spawn core created, ?_,
    fun p member awaits => ?_, old.answered⟩
  · rw [count]
    exact old.enough
  · rw [count]
    rcases List.mem_cons.mp member with isChild | inside
    · exact absurd (isChild ▸ awaits) notAwaits
    · exact old.noneLost p inside awaits

theorem keepsKeys_keeps :
    Keeps KeepsKeys fun m nodes _ => m.KeysKept nodes := by
  refine ⟨?_, ?_, ?_⟩
  · intro m mid nodes count label next ok _ kept enabled safe isMid core may
    exact (kept.beforeSchedule ok enabled safe isMid).goTo core may
  · intro m m' nodes nodes' count label ok _ kept _ safe direct notSpawn
    exact kept.direct ok safe direct notSpawn
  · intro m nodes count child ok _ kept created _
    exact kept.spawn ok.core created

theorem Booted.keysKept (booted : m.Booted) : m.KeysKept [m.curr] := by
  have running : m.stateOf m.curr = .running := booted.running
  have notWoken : m.woken m.curr = false :=
    woken_eq_false (by simp [booted.pending.1])
  refine ⟨booted.kbd, booted.waitsOk, ?_, fun p member awaits => ?_,
    fun c is => ?_⟩
  · have none : m.wokenCount [m.curr] = 0 := by
      simp [wokenCount, notWoken]
    omega
  · rw [List.mem_singleton.mp member, awaitsInput_iff] at awaits
    simp [running] at awaits
  · rw [booted.events] at is
    simp at is

/-- What holds of the readers in a reachable state. -/
structure KeyReads (m : Machine) (nodes : List Nat) : Prop where
  path : Path m.tasks.next (· = 0) m.tasks.procList nodes
  /-- No call has returned without a character. -/
  answered : ∀ c, .got c ∈ m.events → c ≠ none
  /-- A call that goes on takes the next character of the buffer. -/
  resumes : m.pending m.curr = .getchar →
    ∃ m', m.next .resume = some m' ∧
      m'.events = .got (some (m.kbd.buffer m.kbd.readPos)) :: m.events ∧
      m'.kbd.stored + 1 = m.kbd.stored
  /-- A character that a process still waits for has woken another one. -/
  woken : 0 < m.kbd.stored → ∀ p ∈ nodes, m.awaitsInput p = true →
    ∃ q ∈ nodes, q ≠ p ∧ m.woken q = true

theorem Ok.keyReads (ok : m.Ok nodes) (kept : m.KeysKept nodes) :
    m.KeyReads nodes := by
  refine ⟨ok.core.listed.path, kept.answered, fun pending => ?_,
    fun nonempty p member awaits => ?_⟩
  · obtain ⟨_, nonempty⟩ := kept.resumes ok pending
    obtain ⟨got, less⟩ := Keyboard.getchar_some kept.kbd nonempty
    refine ⟨(m.setPending m.curr .none).resumeGetchar, ?_, ?_, less⟩
    · rw [next, resume, pending]
    · rw [← got]
      rfl
  · have lost := kept.noneLost p member awaits
    obtain ⟨q, there, isWoken⟩ := List.countP_pos_iff.mp
      (show 0 < m.wokenCount nodes by omega)
    refine ⟨q, there, fun same => ?_, isWoken⟩
    rw [same, woken_blocked (awaitsInput_iff.mp awaits).1] at isWoken
    simp at isWoken

/-- Every `SYS_GETCHAR` returns a character in runs in which no one else
takes the character of a woken reader. -/
theorem keyReads_run (booted : m.Booted)
    (run : Run (StepWith KeepsKeys) m labels m')
    (few : labels.countP isSpawn < 2 ^ 32) :
    ∃ nodes, m'.KeyReads nodes := by
  obtain ⟨nodes, count, ok, _, kept⟩ :=
    keepsKeys_keeps.boot booted booted.keysKept run few
  exact ⟨nodes, ok.keyReads kept⟩

/-- `KeepsKeys`, computed. -/
def keysSafe (m : Machine) (label : Label) : Bool :=
  match listFrom m.tasks.next listFuel m.tasks.procList with
  | none => false
  | some nodes =>
      match label with
      | .key scancode => decide ((m.kbd.interrupt scancode).2 = true →
          m.kbd.stored + 1 < kbdBufferSize ∨ m.wokenCount nodes = 0)
      | .call .getchar => decide (0 < m.kbd.stored →
          m.wokenCount nodes < m.kbd.stored)
      | .call .getcharNb => decide (0 < m.kbd.stored →
          m.wokenCount nodes < m.kbd.stored)
      | .call (.kill pid) => decide (∀ p ∈ nodes, m.pidOf p = pid →
          m.woken p = true → ∀ q ∈ nodes, m.awaitsInput q = false)
      | .fault => decide (m.pidOf m.curr ≠ noPid)
      | _ => true

theorem keysSafe_keeps (m : Machine) (label : Label)
    (safe : m.keysSafe label = true) : m.KeepsKeys label := by
  intro nodes path
  rw [keysSafe] at safe
  split at safe
  case h_1 => simp at safe
  case h_2 nodes' found =>
    rw [path.unique (path_of_listFrom found)]
    split at safe
    case h_1 => exact of_decide_eq_true safe
    case h_2 => exact of_decide_eq_true safe
    case h_3 => exact of_decide_eq_true safe
    case h_4 => exact of_decide_eq_true safe
    case h_5 => exact of_decide_eq_true safe
    case h_6 => exact trivial

/-- `init` waits for a key; the process that it started runs when the key
comes, and `init` reads it. -/
def sampleKeyRun : List Label :=
  [.call (.spawn (sampleNew 0x3000 2)), .call .getchar, .key 30, .tick,
    .resume]

theorem sampleKeyRun_reads : ∃ m nodes,
    Run Step sampleBoot sampleKeyRun m ∧ m.KeyReads nodes ∧
      .got (some 97) ∈ m.events := by
  have done : (executeWith keysSafe sampleKeyRun sampleBoot).isSome =
      true := by
    decide +kernel
  have got : ((executeWith keysSafe sampleKeyRun sampleBoot).map
      fun m => m.events.contains (.got (some 97))) = some true := by
    decide +kernel
  obtain ⟨m, done⟩ := Option.isSome_iff_exists.mp done
  rw [done, Option.map_some, Option.some_inj] at got
  have run := run_of_executeWith keysSafe_keeps done
  obtain ⟨nodes, reads⟩ := keyReads_run sampleBoot_booted run (by decide)
  exact ⟨m, nodes, StepWith.forgets run, reads, by simpa using got⟩

/-- The running process takes the character that has woken `init`. -/
def sampleKeyTaken : List Label :=
  [.call (.spawn (sampleNew 0x3000 2)), .call .getchar, .key 30,
    .call .getcharNb, .tick, .resume]

/-- `SYS_GETCHAR` returns -1 to `init`. -/
theorem sampleKeyTaken_none : ∃ m,
    Run Step sampleBoot sampleKeyTaken m ∧ .got none ∈ m.events := by
  have done : ((execute sampleKeyTaken sampleBoot).map
      fun m => m.events.contains (.got none)) = some true := by
    decide +kernel
  obtain ⟨m, reached, got⟩ := Option.map_eq_some_iff.mp done
  exact ⟨m, run_of_execute reached, by simpa using got⟩

end Machine

end LoafOs
