import LoafOs.Multi.WaitRun

/-!
# What is left of a process that has ended

`process_cleanup` runs in the timer interrupt, and `SYS_WAIT` unlinks and
frees the structure of the process.  A process is released once and for all
in runs in which the timer comes before the waiting process goes on, and in
which nobody starts to wait for a process that has ended already.
-/

namespace LoafOs

open Links Runs

/-- `process_cleanup` for the process with this number. -/
def Event.cleans (pid : Nat) : Event → Bool
  | .cleaned other _ _ _ => decide (other = pid)
  | _ => false

/-- An event after which nothing more or less is held. -/
def Event.idle : Event → Bool
  | .died _ _ => true
  | .got _ => true
  | _ => false

/-- The calls of `process_cleanup` for a process. -/
def cleanups (events : List Event) (pid : Nat) : List Event :=
  events.filter (Event.cleans pid)

/-- One call of `process_cleanup`, for what `process_create` has taken. -/
def CleanedOnce (events : List Event) (pid : Nat) : Prop :=
  ∃ fds pd kstack, cleanups events pid = [.cleaned pid fds pd kstack] ∧
    .created pid pd kstack ∈ events

/-- A process is freed after its only cleanup. -/
def FreedClean (events : List Event) : Prop :=
  ∀ later pid earlier, events = later ++ .freed pid :: earlier →
    CleanedOnce earlier pid ∧ cleanups later pid = []

section Events

variable {events new : List Event} {event : Event} {pid : Nat}

theorem cleanups_append (new events : List Event) (pid : Nat) :
    cleanups (new ++ events) pid = cleanups new pid ++ cleanups events pid :=
  List.filter_append ..

theorem cleanups_idle (idle : ∀ event ∈ new, event.idle = true)
    (pid : Nat) : cleanups new pid = [] := by
  refine List.filter_eq_nil_iff.mpr fun event member cleans => ?_
  have isIdle := idle event member
  cases event with
  | cleaned _ _ _ _ => simp [Event.idle] at isIdle
  | _ => simp [Event.cleans] at cleans

theorem CleanedOnce.append (once : CleanedOnce events pid)
    (none : cleanups new pid = []) : CleanedOnce (new ++ events) pid := by
  obtain ⟨fds, pd, kstack, only, created⟩ := once
  refine ⟨fds, pd, kstack, ?_, List.mem_append_right _ created⟩
  rw [cleanups_append, none, List.nil_append, only]

theorem FreedClean.cons (clean : FreedClean events)
    (other : ∀ pid, .freed pid ∈ events → event.cleans pid = false)
    (freed : ∀ pid, event = .freed pid → CleanedOnce events pid) :
    FreedClean (event :: events) := by
  intro later pid earlier split
  cases later with
  | nil =>
      injection split with isFreed same
      exact ⟨same ▸ freed pid isFreed, rfl⟩
  | cons first later =>
      injection split with isFirst same
      obtain ⟨once, none⟩ := clean later pid earlier same
      refine ⟨once, ?_⟩
      have member : .freed pid ∈ events := by
        rw [same]
        exact List.mem_append_right _ List.mem_cons_self
      rw [cleanups, ← isFirst, List.filter_cons_of_neg
        (by simp [other pid member])]
      exact none

theorem FreedClean.idle (clean : FreedClean events)
    (idle : ∀ event ∈ new, event.idle = true) :
    FreedClean (new ++ events) := by
  induction new with
  | nil => exact clean
  | cons event new inductionHypothesis =>
      have here := idle event List.mem_cons_self
      refine (inductionHypothesis fun event member =>
        idle event (List.mem_cons_of_mem _ member)).cons ?_ ?_
      · intro pid _
        cases event with
        | cleaned _ _ _ _ => simp [Event.idle] at here
        | _ => rfl
      · rintro pid rfl
        simp [Event.idle] at here

end Events

namespace Machine

variable {m m' mid : Machine} {nodes nodes' : List Nat} {p q pid count : Nat}
  {label : Label} {labels : List Label}

/-- Nobody waits for a process that has ended already, and a call of
`SYS_WAIT` goes on when the timer has cleaned the process up. -/
def WaitsInTime (m : Machine) (label : Label) : Prop :=
  ∀ nodes, Path m.tasks.next (· = 0) m.tasks.procList nodes →
    ∀ proc ∈ nodes,
      (label = .call (.wait (m.pidOf proc)) → m.stateOf proc ≠ .dead) ∧
      (label = .resume → m.pending m.curr = .wait (m.pidOf proc) →
        (m.inertOf proc).cleanedUp = true)

/-- What the processes on the list and the others have released. -/
structure Disposal (m : Machine) (nodes : List Nat) (count : Nat) :
    Prop where
  unclean : ∀ p ∈ nodes, (m.inertOf p).cleanedUp = false →
    cleanups m.events (m.pidOf p) = [] ∧
      .created (m.pidOf p) (m.inertOf p).pd (m.inertOf p).kstack ∈ m.events
  clean : ∀ p ∈ nodes, (m.inertOf p).cleanedUp = true →
    CleanedOnce m.events (m.pidOf p)
  listed : ∀ p ∈ nodes, .freed (m.pidOf p) ∉ m.events
  freed : FreedClean m.events
  waited : ∀ pid code, .waited pid code ∈ m.events → .freed pid ∈ m.events
  numbered : ∀ pid, cleanups m.events pid ≠ [] ∨ .freed pid ∈ m.events →
    ∃ k, 1 ≤ k ∧ k < count ∧ pid = u32 k

/-- Nothing is taken or released. -/
structure Undisturbed (m m' : Machine) : Prop where
  pids : ∀ p, m'.pidOf p = m.pidOf p
  kept : ∀ p, (m'.inertOf p).pd = (m.inertOf p).pd ∧
    (m'.inertOf p).kstack = (m.inertOf p).kstack ∧
    (m'.inertOf p).cleanedUp = (m.inertOf p).cleanedUp
  events : ∃ new, (∀ event ∈ new, event.idle = true) ∧
    m'.events = new ++ m.events

theorem Undisturbed.of_inert (inert : ∀ p, m'.inertOf p = m.inertOf p)
    (events : m'.events = m.events) : Undisturbed m m' := by
  refine ⟨fun p => ?_, fun p => ?_, [], by simp, events⟩
  · rw [← inertOf_pid, inert, inertOf_pid]
  · rw [inert]
    exact ⟨rfl, rfl, rfl⟩

theorem Undisturbed.of_tasks (new : List Event)
    (tasks : m'.tasks = m.tasks) (idle : ∀ event ∈ new, event.idle = true)
    (events : m'.events = new ++ m.events) : Undisturbed m m' := by
  refine ⟨fun p => ?_, fun p => ?_, new, idle, events⟩
  · rw [pidOf, tasks]
    rfl
  · rw [inertOf, tasks]
    exact ⟨rfl, rfl, rfl⟩

theorem FileCall.undisturbed (call : FileCall m m') : Undisturbed m m' := by
  refine ⟨call.same.pids, fun p => ?_, [], by simp, call.events⟩
  obtain ⟨fds, same⟩ := call.inert p
  rw [same]
  exact ⟨rfl, rfl, rfl⟩

theorem mem_append_idle {new events : List Event} {event : Event}
    (idle : ∀ event ∈ new, event.idle = true)
    (busy : event.idle = false) :
    event ∈ new ++ events ↔ event ∈ events := by
  rw [List.mem_append]
  refine or_iff_right fun member => ?_
  rw [idle event member] at busy
  cases busy

theorem Disposal.undisturbed (disposal : m.Disposal nodes count)
    (same : Undisturbed m m') : m'.Disposal nodes count := by
  obtain ⟨new, idle, events⟩ := same.events
  have cleaned (pid : Nat) :
      cleanups m'.events pid = cleanups m.events pid := by
    rw [events, cleanups_append, cleanups_idle idle, List.nil_append]
  have isFreed (pid : Nat) : .freed pid ∈ m'.events ↔
      .freed pid ∈ m.events := by
    rw [events]
    exact mem_append_idle idle rfl
  refine ⟨fun p member unclean => ?_, fun p member clean => ?_,
    fun p member => ?_, ?_, fun pid code => ?_, fun pid => ?_⟩
  · obtain ⟨pd, kstack, cleanedUp⟩ := same.kept p
    rw [cleanedUp] at unclean
    obtain ⟨none, created⟩ := disposal.unclean p member unclean
    rw [cleaned, same.pids, pd, kstack, events]
    exact ⟨none, List.mem_append_right _ created⟩
  · rw [(same.kept p).2.2] at clean
    rw [same.pids, events]
    exact (disposal.clean p member clean).append (cleanups_idle idle _)
  · rw [same.pids, isFreed]
    exact disposal.listed p member
  · rw [events]
    exact disposal.freed.idle idle
  · rw [isFreed, events, mem_append_idle idle rfl]
    exact disposal.waited pid code
  · rw [cleaned, isFreed]
    exact disposal.numbered pid

/-! ## The steps -/

theorem goTo_undisturbed (next : Nat) : Undisturbed m (m.goTo next) :=
  .of_inert (goTo_inert next) (goTo_rest next).1

theorem Blocks.undisturbed (blocks : Blocks m mid) : Undisturbed m mid :=
  .of_inert blocks.inert blocks.events

theorem exited_undisturbed (code : Int) :
    Undisturbed m (m.exited nodes code) := by
  have dies : Dies m (m.exited nodes code) nodes m.curr := exited_dies code
  refine ⟨dies.pids, fun p => ?_, [.died (m.pidOf m.curr) code], ?_, rfl⟩
  · by_cases same : p = m.curr
    · rw [same, exited_curr]
      exact ⟨rfl, rfl, rfl⟩
    · rw [exited_inert code same]
      exact ⟨rfl, rfl, rfl⟩
  · intro event member
    rw [List.mem_singleton.mp member]
    rfl

theorem faulted_undisturbed : Undisturbed m (m.faulted nodes) := by
  have dies : Dies m (m.faulted nodes) nodes m.curr := faulted_dies
  refine ⟨dies.pids, fun p => ?_, [.died (m.pidOf m.curr) (-1)], ?_, rfl⟩
  · rw [faulted_inert]
    exact ⟨rfl, rfl, rfl⟩
  · intro event member
    rw [List.mem_singleton.mp member]
    rfl

theorem killed_undisturbed (victim : Nat) :
    Undisturbed m (m.killed nodes victim) := by
  have dies : Dies m (m.killed nodes victim) nodes victim :=
    killed_dies victim
  by_cases alive : m.tasks.stateOf victim ≠ .dead
  · refine ⟨dies.pids, fun p => ?_, [.died (m.pidOf victim) (-1)], ?_, ?_⟩
    · rw [killed_inert]
      exact ⟨rfl, rfl, rfl⟩
    · intro event member
      rw [List.mem_singleton.mp member]
      rfl
    · rw [Machine.killed, if_pos alive]
      rfl
  · refine .of_inert (killed_inert victim) ?_
    rw [Machine.killed, if_neg alive]
    rfl

/-- One pass of `pit_handler` over a process that has ended. -/
theorem Disposal.cleanedUp (disposal : m.Disposal nodes count)
    (pids : ∀ p ∈ nodes, ∀ q ∈ nodes, m.pidOf p = m.pidOf q → p = q)
    (used : ∃ k, 1 ≤ k ∧ k < count ∧ m.pidOf p = u32 k)
    (member : p ∈ nodes) (isUnclean : (m.inertOf p).cleanedUp = false) :
    (m.cleanedUp p).Disposal nodes count := by
  obtain ⟨none, created⟩ := disposal.unclean p member isUnclean
  have samePid := (cleanedUp_same m p).pids
  have other (pid : Nat) (different : pid ≠ m.pidOf p) :
      cleanups [.cleaned (m.pidOf p) ((m.inertOf p).fds.filter (· ≠ -1))
        (m.inertOf p).pd (m.inertOf p).kstack] pid = [] :=
    List.filter_cons_of_neg (by simpa [Event.cleans] using different.symm)
  have isFreed (pid : Nat) : .freed pid ∈ (m.cleanedUp p).events ↔
      .freed pid ∈ m.events := by
    simp [cleanedUp_events]
  refine ⟨fun q inside unclean => ?_, fun q inside clean => ?_,
    fun q inside => ?_, ?_, fun pid code => ?_, fun pid busy => ?_⟩
  · have different : q ≠ p := by
      rintro rfl
      rw [cleanedUp_self] at unclean
      cases unclean
    have numbers : m.pidOf q ≠ m.pidOf p :=
      fun same => different (pids q inside p member same)
    rw [cleanedUp_inert different] at unclean ⊢
    obtain ⟨before, made⟩ := disposal.unclean q inside unclean
    rw [samePid, cleanedUp_events, ← List.singleton_append,
      cleanups_append, other _ numbers, before]
    exact ⟨rfl, List.mem_cons_of_mem _ made⟩
  · rw [samePid, cleanedUp_events]
    by_cases same : q = p
    · subst same
      refine ⟨(m.inertOf q).fds.filter (· ≠ -1), (m.inertOf q).pd,
        (m.inertOf q).kstack, ?_, List.mem_cons_of_mem _ created⟩
      rw [cleanups, List.filter_cons_of_pos (by simp [Event.cleans])]
      exact congrArg (List.cons _) none
    · have numbers : m.pidOf q ≠ m.pidOf p :=
        fun equal => same (pids q inside p member equal)
      rw [cleanedUp_inert same] at clean
      exact (disposal.clean q inside clean).append (other _ numbers)
  · rw [samePid, isFreed]
    exact disposal.listed q inside
  · rw [cleanedUp_events]
    refine disposal.freed.cons (fun pid freed => ?_) fun pid same => ?_
    · have numbers : m.pidOf p ≠ pid :=
        fun same => disposal.listed p member (same ▸ freed)
      simpa [Event.cleans] using numbers
    · cases same
  · rw [isFreed]
    intro waited
    exact disposal.waited pid code (by simpa [cleanedUp_events] using waited)
  · by_cases same : pid = m.pidOf p
    · rw [same]
      exact used
    · rw [isFreed, cleanedUp_events, ← List.singleton_append,
        cleanups_append, other _ same, List.nil_append] at busy
      exact disposal.numbered pid busy

theorem Disposal.ticked (disposal : m.Disposal nodes count)
    (core : m.Core nodes) (numbered : m.Numbered nodes count) :
    (m.ticked nodes).Disposal nodes count := by
  suffices kept : (∀ p, (m.ticked nodes).pidOf p = m.pidOf p) ∧
      (m.ticked nodes).Disposal nodes count from kept.2
  refine ticked_induction (fun mid => (∀ p, mid.pidOf p = m.pidOf p) ∧
    mid.Disposal nodes count) ?_ ?_ ?_
  · exact ⟨fun _ => rfl, disposal.undisturbed
      (.of_inert (fun _ => rfl) rfl)⟩
  · rintro mid ⟨pids, held⟩ p _ _ _
    refine ⟨fun q => ?_, held.undisturbed (.of_inert wokenUp_inert rfl)⟩
    rw [(wokenUp_change mid p).pidOf, pids]
  · rintro mid ⟨pids, held⟩ p member _ unclean _
    refine ⟨fun q => ?_, held.cleanedUp ?_ ?_ member unclean⟩
    · rw [(cleanedUp_same mid p).pids, pids]
    · intro p left q right
      rw [pids, pids]
      exact core.pids p left q right
    · rw [pids]
      exact numbered.used p member

theorem Disposal.beforeSchedule (disposal : m.Disposal nodes count)
    (core : m.Core nodes) (numbered : m.Numbered nodes count)
    (isMid : Mid m nodes label mid) : mid.Disposal nodes count := by
  cases isMid with
  | tick => exact disposal.ticked core numbered
  | yieldHlt => exact disposal
  | fault _ => exact disposal.undisturbed faulted_undisturbed
  | exit _ => exact disposal.undisturbed (exited_undisturbed _)
  | kill _ _ => exact disposal.undisturbed (killed_undisturbed _)
  | wait _ _ _ _ =>
      exact disposal.undisturbed (waiting_blocks _ _).undisturbed
  | sleep _ _ => exact disposal.undisturbed (sleeping_blocks _).undisturbed
  | getchar _ _ => exact disposal.undisturbed awaiting_blocks.undisturbed

theorem Disposal.spawn {child : Process} (ok : m.Ok nodes)
    (numbered : m.Numbered nodes count) (disposal : m.Disposal nodes count)
    (few : count ≤ 2 ^ 32) (created : m.Created child) :
    (m.sysSpawn child).Disposal (child.addr :: nodes) (count + 1) := by
  have fresh := created.unlinked nodes ok.core.listed.path
  have events : (m.sysSpawn child).events =
      .created child.pid child.image.pdPhys child.kstack :: m.events := rfl
  have cleaned (pid : Nat) :
      cleanups (m.sysSpawn child).events pid = cleanups m.events pid := rfl
  have isFreed (pid : Nat) : .freed pid ∈ (m.sysSpawn child).events ↔
      .freed pid ∈ m.events := by
    simp [events]
  have unused : cleanups m.events child.pid = [] ∧
      .freed child.pid ∉ m.events := by
    by_contra busy
    rw [not_and_or, not_not] at busy
    obtain ⟨k, positive, below, named⟩ := disposal.numbered _ busy
    rw [created.pid, numbered.next, u32, u32] at named
    omega
  have same (p : Nat) (member : p ∈ nodes) :
      (m.sysSpawn child).inertOf p = m.inertOf p :=
    inertOf_eq (sysSpawn_other fun isChild => fresh (isChild ▸ member))
  have samePid (p : Nat) (member : p ∈ nodes) :
      (m.sysSpawn child).pidOf p = m.pidOf p := by
    rw [← inertOf_pid, same p member, inertOf_pid]
  refine ⟨fun p member unclean => ?_, fun p member clean => ?_,
    fun p member => ?_, ?_, fun pid code waited => ?_, fun pid busy => ?_⟩
  · rw [cleaned]
    rcases List.mem_cons.mp member with rfl | old
    · rw [sysSpawn_pid, sysSpawn_inert]
      exact ⟨unused.1, List.mem_cons_self⟩
    · rw [same p old] at unclean ⊢
      rw [samePid p old]
      obtain ⟨none, made⟩ := disposal.unclean p old unclean
      exact ⟨none, List.mem_cons_of_mem _ made⟩
  · rcases List.mem_cons.mp member with rfl | old
    · rw [sysSpawn_inert] at clean
      exact absurd clean (by simp [Inert.of, created.cleanedUp])
    · rw [same p old] at clean
      rw [samePid p old, events, ← List.singleton_append]
      exact (disposal.clean p old clean).append rfl
  · rw [isFreed]
    rcases List.mem_cons.mp member with rfl | old
    · rw [sysSpawn_pid]
      exact unused.2
    · rw [samePid p old]
      exact disposal.listed p old
  · refine disposal.freed.cons (fun _ _ => rfl) fun _ same => ?_
    cases same
  · rw [isFreed]
    exact disposal.waited pid code (by simpa [events] using waited)
  · rw [cleaned, isFreed] at busy
    obtain ⟨k, positive, below, named⟩ := disposal.numbered pid busy
    exact ⟨k, positive, Nat.lt_succ_of_lt below, named⟩

/-- `SYS_WAIT` goes on once the process is cleaned up. -/
theorem Disposal.resumeWait (disposal : m.Disposal nodes count)
    (core : m.Core nodes) (numbered : m.Numbered nodes count)
    {proc : Nat} {tasks : Tasks} {code : Int} (member : proc ∈ nodes)
    (named : m.pidOf proc = pid)
    (unlinked : m.tasks.procUnlink proc = some tasks)
    (isClean : (m.inertOf proc).cleanedUp = true) :
    ((((m.setPending m.curr .none).setTasks tasks).record
      (.freed pid)).record (.waited pid code)).Disposal
        (nodes.erase proc) count := by
  obtain ⟨tasks', unlinked', _, procs, _⟩ := core.listed.procUnlink member
  rw [unlinked] at unlinked'
  obtain rfl := Option.some.inj unlinked'
  generalize isAfter : (((m.setPending m.curr .none).setTasks tasks).record
    (.freed pid)).record (.waited pid code) = after
  have events : after.events =
      [.waited pid code, .freed pid] ++ m.events := by
    rw [← isAfter]
    rfl
  have inert (p : Nat) : after.inertOf p = m.inertOf p := by
    rw [← isAfter]
    change Inert.of (tasks.procs p) = _
    rw [procs]
    rfl
  have samePid (p : Nat) : after.pidOf p = m.pidOf p := by
    rw [← inertOf_pid, inert, inertOf_pid]
  have cleaned (pid : Nat) :
      cleanups after.events pid = cleanups m.events pid := by
    rw [events, cleanups_append]
    rfl
  have isFreed (other : Nat) : .freed other ∈ after.events ↔
      other = pid ∨ .freed other ∈ m.events := by
    simp [events]
  have once := disposal.clean proc member isClean
  rw [named] at once
  refine ⟨fun p inside unclean => ?_, fun p inside clean => ?_,
    fun p inside => ?_, ?_, fun other code' waited => ?_,
    fun other busy => ?_⟩
  · rw [inert] at unclean ⊢
    rw [cleaned, samePid, events]
    obtain ⟨none, created⟩ :=
      disposal.unclean p (List.mem_of_mem_erase inside) unclean
    exact ⟨none, List.mem_append_right _ created⟩
  · rw [inert] at clean
    rw [samePid, events]
    exact (disposal.clean p (List.mem_of_mem_erase inside) clean).append rfl
  · have old := List.mem_of_mem_erase inside
    have different : p ≠ proc := by
      rintro rfl
      exact core.listed.path.nodup.not_mem_erase inside
    rw [samePid, isFreed, not_or]
    refine ⟨fun same => different ?_, disposal.listed p old⟩
    exact core.pids p old proc member (same.trans named.symm)
  · rw [events]
    refine FreedClean.cons (FreedClean.cons disposal.freed ?_ ?_) ?_ ?_
    · exact fun _ _ => rfl
    · intro other same
      injection same with same
      exact same ▸ once
    · exact fun _ _ => rfl
    · intro other same
      cases same
  · rw [isFreed]
    have either : other = pid ∨ .waited other code' ∈ m.events := by
      rw [events] at waited
      rcases List.mem_append.mp waited with new | old
      · simp at new
        exact .inl new.1
      · exact .inr old
    exact either.imp_right (disposal.waited other code')
  · rw [cleaned, isFreed] at busy
    by_cases same : other = pid
    · rw [same, ← named]
      exact numbered.used proc member
    · exact disposal.numbered other
        (busy.imp_right fun freed => freed.resolve_left same)

theorem Disposal.direct (ok : m.Ok nodes) (numbered : m.Numbered nodes count)
    (disposal : m.Disposal nodes count) (inTime : m.WaitsInTime label)
    (direct : Direct m nodes label m' nodes')
    (notSpawn : isSpawn label = false) : m'.Disposal nodes' count := by
  have path := ok.core.listed.path
  cases direct with
  | key _ => exact disposal.undisturbed (.of_tasks [] rfl (by simp) rfl)
  | @keyWakes scancode proc _ _ _ =>
      exact disposal.undisturbed (.of_inert (awake_inert proc) rfl)
  | killNobody _ => exact disposal
  | kill _ _ _ => exact disposal.undisturbed (killed_undisturbed _)
  | waitNobody _ => exact disposal
  | @waitDead pid proc member named dead =>
      have alive := (inTime nodes path proc member).1 (by rw [named])
      exact absurd dead alive
  | @getchar c kbd _ =>
      exact disposal.undisturbed
        (.of_tasks [.got (some c)] rfl (by simp [Event.idle]) rfl)
  | getcharNb => exact disposal.undisturbed (.of_tasks [] rfl (by simp) rfl)
  | spawn _ => simp [isSpawn] at notSpawn
  | «open» _ done =>
      exact disposal.undisturbed (sysOpen_files done).undisturbed
  | close _ => exact disposal.undisturbed (sysClose_files _).undisturbed
  | read _ done =>
      exact disposal.undisturbed (sysRead_files done).undisturbed
  | write _ done =>
      exact disposal.undisturbed (sysWrite_files done).undisturbed
  | other => exact disposal.undisturbed (.of_tasks [] rfl (by simp) rfl)
  | resumeGetchar _ =>
      exact disposal.undisturbed
        (.of_tasks [.got m.kbd.getchar.1] rfl (by simp [Event.idle]) rfl)
  | @resumeWait pid proc tasks pending member named unlinked =>
      have clean := (inTime nodes path proc member).2 rfl
        (by rw [named]; exact pending)
      exact disposal.resumeWait ok.core numbered member named unlinked clean

theorem waitsInTime_keeps : Keeps WaitsInTime Disposal := by
  refine ⟨?_, ?_, ?_⟩
  · intro m mid nodes count label next ok numbered disposal _ _ isMid _ _
    exact (disposal.beforeSchedule ok.core numbered isMid).undisturbed
      (goTo_undisturbed next)
  · intro m m' nodes nodes' count label ok numbered disposal _ inTime
      direct notSpawn
    exact disposal.direct ok numbered inTime direct notSpawn
  · intro m nodes count child ok numbered disposal created few
    exact disposal.spawn ok numbered few created

theorem Booted.disposal (booted : m.Booted) : m.Disposal [m.curr] 2 := by
  obtain ⟨pid, _⟩ := booted.pids
  have pidOf : m.pidOf m.curr = 1 := pid
  have isUnclean : (m.inertOf m.curr).cleanedUp = false :=
    booted.fields.2.2.1
  have isEvent : m.events = [.created 1 (m.inertOf m.curr).pd
      (m.inertOf m.curr).kstack] := booted.events
  refine ⟨fun p member _ => ?_, fun p member clean => ?_,
    fun p member => ?_, fun later pid earlier split => ?_,
    fun pid code waited => ?_, fun pid busy => ?_⟩
  · rw [List.mem_singleton.mp member, pidOf, isEvent]
    exact ⟨rfl, List.mem_singleton_self _⟩
  · rw [List.mem_singleton.mp member, isUnclean] at clean
    cases clean
  · rw [isEvent]
    simp
  · have freed : .freed pid ∈ m.events := by
      rw [split]
      exact List.mem_append_right _ List.mem_cons_self
    rw [isEvent] at freed
    simp at freed
  · rw [isEvent] at waited
    simp at waited
  · rw [isEvent] at busy
    simp [cleanups, Event.cleans] at busy

/-- What holds of the processes that have ended in a reachable state. -/
structure NothingLost (m : Machine) (nodes : List Nat) : Prop where
  path : Path m.tasks.next (· = 0) m.tasks.procList nodes
  /-- A structure is freed after the only `process_cleanup`, which releases
  what `process_create` has taken. -/
  freed : FreedClean m.events
  /-- A process whose code `SYS_WAIT` has returned is gone. -/
  waited : ∀ pid code, .waited pid code ∈ m.events →
    .freed pid ∈ m.events ∧ ∀ p ∈ nodes, m.pidOf p ≠ pid

/-- No process is lost or released twice in runs in which every `SYS_WAIT`
comes before the end of its process and goes on after the timer. -/
theorem nothingLost_run (booted : m.Booted)
    (run : Run (StepWith WaitsInTime) m labels m')
    (few : labels.countP isSpawn < 2 ^ 32) :
    ∃ nodes, m'.NothingLost nodes := by
  obtain ⟨nodes, count, ok, _, disposal⟩ :=
    waitsInTime_keeps.boot booted booted.disposal run few
  refine ⟨nodes, ok.core.listed.path, disposal.freed,
    fun pid code waited => ?_⟩
  have freed := disposal.waited pid code waited
  exact ⟨freed, fun p member same =>
    disposal.listed p member (same ▸ freed)⟩

/-- `WaitsInTime`, computed. -/
def comesInTime (m : Machine) : Label → Bool
  | .call (.wait pid) =>
      match listFrom m.tasks.next listFuel m.tasks.procList with
      | none => false
      | some nodes => nodes.all fun p =>
          m.pidOf p ≠ pid ∨ m.tasks.stateOf p ≠ .dead
  | .resume =>
      match listFrom m.tasks.next listFuel m.tasks.procList with
      | none => false
      | some nodes => nodes.all fun p =>
          m.pending m.curr ≠ .wait (m.pidOf p) ∨ (m.tasks.procs p).cleanedUp
  | _ => true

theorem comesInTime_waits (inTime : m.comesInTime label = true) :
    m.WaitsInTime label := by
  intro nodes path proc member
  refine ⟨fun isWait dead => ?_, fun isResume pending => ?_⟩
  · rw [isWait, comesInTime] at inTime
    split at inTime
    case h_1 => simp at inTime
    case h_2 nodes' found =>
      rw [path.unique (path_of_listFrom found)] at member
      have one := of_decide_eq_true (List.all_eq_true.mp inTime proc member)
      exact one.elim (fun other => other rfl) fun alive => alive dead
  · rw [isResume, comesInTime] at inTime
    split at inTime
    case h_1 => simp at inTime
    case h_2 nodes' found =>
      rw [path.unique (path_of_listFrom found)] at member
      have one := of_decide_eq_true (List.all_eq_true.mp inTime proc member)
      exact one.resolve_left (not_not.mpr pending)

/-- `init` waits for a process that another one kills, and the timer comes
before `init` goes on. -/
def sampleInTime : List Label :=
  [.call (.spawn (sampleNew 0x3000 2)), .call (.spawn (sampleNew 0x5000 3)),
    .call (.wait 2), .call (.kill 2), .tick, .resume]

theorem sampleInTime_nothingLost : ∃ m nodes,
    Run Step sampleBoot sampleInTime m ∧ m.NothingLost nodes ∧
      .waited 2 (-1) ∈ m.events := by
  have told : ((executeWith comesInTime sampleInTime sampleBoot).map
      fun m => m.events.contains (.waited 2 (-1))) = some true := by
    decide +kernel
  obtain ⟨m, done, waited⟩ := Option.map_eq_some_iff.mp told
  have run := run_of_executeWith (fun _ _ => comesInTime_waits) done
  obtain ⟨nodes, kept⟩ := nothingLost_run sampleBoot_booted run (by decide)
  exact ⟨m, nodes, StepWith.forgets run, kept, by simpa using waited⟩

/-- A process exits while `init` waits for it, and `init` goes on at once. -/
def sampleEarly : List Label :=
  [.call (.spawn (sampleNew 0x3000 2)), .call (.wait 2), .call (.exit 7),
    .resume]

/-- `init` waits for a process that has exited before. -/
def sampleLate : List Label :=
  [.call (.spawn (sampleNew 0x3000 2)), .tick, .call (.exit 7),
    .call (.wait 2)]

/-- The process is freed without a cleanup, or stays on the list. -/
theorem sampleEarly_lost :
    (∃ m, Run Step sampleBoot sampleEarly m ∧
        ∀ nodes, ¬ m.NothingLost nodes) ∧
      ∃ m, Run Step sampleBoot sampleLate m ∧
        ∀ nodes, ¬ m.NothingLost nodes := by
  constructor
  · have told : (execute sampleEarly sampleBoot).map Machine.events =
        some [.waited 2 7, .freed 2, .died 2 7, .created 2 0x13000 0x23000,
          .created 1 0x11000 0x21000] := by
      decide +kernel
    obtain ⟨m, done, events⟩ := Option.map_eq_some_iff.mp told
    refine ⟨m, run_of_execute done, fun nodes kept => ?_⟩
    obtain ⟨⟨_, _, _, only, _⟩, _⟩ := kept.freed [.waited 2 7] 2 _ events
    cases only
  · have told : (execute sampleLate sampleBoot).map Machine.events =
        some [.waited 2 7, .died 2 7, .created 2 0x13000 0x23000,
          .created 1 0x11000 0x21000] := by
      decide +kernel
    obtain ⟨m, done, events⟩ := Option.map_eq_some_iff.mp told
    refine ⟨m, run_of_execute done, fun nodes kept => ?_⟩
    have freed := (kept.waited 2 7 (by simp [events])).1
    simp [events] at freed

end Machine

end LoafOs
