import LoafOs.Multi.Execute
import LoafOs.Multi.MachineRun
import LoafOs.Multi.WaitCodes

/-!
# Runs with one waiter for each process

The first of several processes that wait for one process unlinks and frees
it; the others look it up in vain.  In runs in which a call of `SYS_WAIT`
only goes on when it is the only one for its process, every lookup finds the
process.
-/

namespace LoafOs

open Links Runs

namespace Machine

variable {m m' mid : Machine} {nodes nodes' : List Nat} {p q pid count : Nat}
  {label : Label} {labels : List Label}

/-- The process that a living process waits for is on the list. -/
def TargetsListed (m : Machine) (nodes : List Nat) : Prop :=
  ∀ p ∈ nodes, m.stateOf p ≠ .dead → ∀ pid, m.pending p = .wait pid →
    ∃ q ∈ nodes, m.pidOf q = pid

theorem TargetsListed.steady (targets : m.TargetsListed nodes)
    (steady : Steady m m' nodes)
    (dead : ∀ p ∈ nodes, m.stateOf p = .dead → m'.stateOf p = .dead) :
    m'.TargetsListed nodes := by
  intro p member alive pid is
  have named : ∃ q ∈ nodes, m.pidOf q = pid := by
    rcases steady.waits p member pid is with before | found
    · exact targets p member (fun was => alive (dead p member was)) pid before
    · exact found
  obtain ⟨q, there, named⟩ := named
  exact ⟨q, there, (steady.pids q there).trans named⟩

theorem TargetsListed.spawn {child : Process}
    (targets : m.TargetsListed nodes) (core : m.Core nodes)
    (created : m.Created child) :
    (m.sysSpawn child).TargetsListed (child.addr :: nodes) := by
  have enters := sysSpawn_enters core created
  have fresh := created.unlinked nodes core.listed.path
  intro p member alive pid is
  rcases List.mem_cons.mp member with isChild | old
  · rw [isChild, enters.none] at is
    simp at is
  · have other : ∀ q ∈ nodes, q ≠ child.addr :=
      fun q there same => fresh (same ▸ there)
    rw [enters.pending p (other p old)] at is
    rw [stateOf, Tasks.stateOf, enters.procs p (other p old)] at alive
    obtain ⟨q, there, named⟩ := targets p old alive pid is
    refine ⟨q, List.mem_cons_of_mem _ there, ?_⟩
    rw [pidOf, enters.procs q (other q there)]
    exact named

/-- A call of `SYS_WAIT` that goes on is the only one for its process. -/
def SoleWaiter (m : Machine) (label : Label) : Prop :=
  label = .resume → ∀ nodes,
    Path m.tasks.next (· = 0) m.tasks.procList nodes →
    ∀ pid, m.pending m.curr = .wait pid → ∀ p ∈ nodes, p ≠ m.curr →
      m.stateOf p ≠ .dead → m.pending p ≠ .wait pid

theorem TargetsListed.resumeWait (ok : m.Ok nodes)
    (targets : m.TargetsListed nodes) (sole : m.SoleWaiter .resume)
    {proc : Nat} {tasks : Tasks} {code : Int}
    (pending : m.pending m.curr = .wait pid) (member : proc ∈ nodes)
    (named : m.pidOf proc = pid)
    (unlinked : m.tasks.procUnlink proc = some tasks) :
    ((((m.setPending m.curr .none).setTasks tasks).record
      (.freed pid)).record (.waited pid code)).TargetsListed
        (nodes.erase proc) := by
  obtain ⟨tasks', unlinked', _, procs, _⟩ :=
    ok.core.listed.procUnlink member
  rw [unlinked] at unlinked'
  obtain rfl := Option.some.inj unlinked'
  intro p inside alive pid' is
  have old := List.mem_of_mem_erase inside
  have before : m.pending p = .wait pid' := clear_waits is
  have living : m.stateOf p ≠ .dead := by
    change (tasks.procs p).state ≠ .dead at alive
    rwa [procs] at alive
  have notCurr : p ≠ m.curr := by
    intro same
    have none := setPending_same m m.curr .none
    rw [same] at is
    exact absurd (none.symm.trans is) (by simp)
  obtain ⟨q, there, target⟩ := targets p old living pid' before
  have different : q ≠ proc := by
    intro same
    rw [same, named] at target
    rw [← target] at before
    exact sole rfl nodes ok.core.listed.path pid pending p old notCurr living
      before
  refine ⟨q, (List.mem_erase_of_ne different).mpr there, ?_⟩
  change (tasks.procs q).pid = pid'
  rw [procs]
  exact target

theorem TargetsListed.direct (ok : m.Ok nodes)
    (targets : m.TargetsListed nodes) (sole : m.SoleWaiter label)
    (direct : Direct m nodes label m' nodes')
    (notSpawn : isSpawn label = false) : m'.TargetsListed nodes' := by
  obtain ⟨steady, _⟩ := ok.direct_steady direct notSpawn
  have dead : ∀ p ∈ nodes, m.stateOf p = .dead → m'.stateOf p = .dead :=
    fun p member => ok.direct_dead direct member
  cases direct with
  | spawn _ => simp [isSpawn] at notSpawn
  | resumeWait pending member named unlinked =>
      exact targets.resumeWait ok sole pending member named unlinked
  | _ => exact targets.steady steady dead

theorem soleWaiter_keeps :
    Keeps SoleWaiter fun m nodes count =>
      m.Told nodes count ∧ m.TargetsListed nodes := by
  refine ⟨?_, ?_, ?_⟩
  · intro m mid nodes count label next ok numbered held _ _ isMid core may
    refine ⟨(held.1.beforeSchedule ok numbered isMid).quiet
      (goTo_quiet core may), ?_⟩
    exact held.2.steady ((mid_steady isMid).goTo next) fun p _ dead =>
      (goTo_dead core may p).mpr (ok.mid_dead isMid dead)
  · intro m m' nodes nodes' count label ok numbered held _ sole direct
      notSpawn
    exact ⟨held.1.direct ok numbered direct notSpawn,
      held.2.direct ok sole direct notSpawn⟩
  · intro m nodes count child ok numbered held created few
    exact ⟨held.1.spawn ok numbered few created,
      held.2.spawn ok.core created⟩

theorem Booted.told (booted : m.Booted) : m.Told [m.curr] 2 := by
  have noDeath : ∀ pid code, .died pid code ∉ m.events := by
    intro pid code
    rw [booted.events]
    simp
  have running : m.stateOf m.curr = .running := booted.running
  refine ⟨fun p member dead => ?_, fun p member _ => ?_,
    fun pid code _ died => absurd died (noDeath pid code),
    fun pid code waited => ?_,
    fun pid code died => absurd died (noDeath pid code)⟩
  · rw [List.mem_singleton.mp member, running] at dead
    simp at dead
  · rw [List.mem_singleton.mp member]
    exact ⟨booted.fields.2.1, noDeath _⟩
  · rw [booted.events] at waited
    simp at waited

theorem Booted.targetsListed (booted : m.Booted) :
    m.TargetsListed [m.curr] := by
  intro p member _ pid is
  rw [List.mem_singleton.mp member, booted.pending.1] at is
  simp at is

/-- What holds of the calls of `SYS_WAIT` in a reachable state. -/
structure WaitsAnswered (m : Machine) (nodes : List Nat) : Prop where
  path : Path m.tasks.next (· = 0) m.tasks.procList nodes
  /-- The code is the one with which the process ended. -/
  codes : ∀ pid code, .waited pid code ∈ m.events →
    .died pid code ∈ m.events ∧
      ∀ code', .died pid code' ∈ m.events → code' = code
  /-- `process_find` finds the process, also after `schedule`. -/
  found : ∀ p ∈ nodes, m.stateOf p ≠ .dead → ∀ pid,
    m.pending p = .wait pid →
    ∃ proc, m.tasks.processFind pid = some proc ∧ proc ≠ 0
  /-- A call that goes on finds the process dead and returns its code. -/
  resumes : ∀ pid, m.pending m.curr = .wait pid →
    ∃ proc m', proc ∈ nodes ∧ m.pidOf proc = pid ∧
      m.stateOf proc = .dead ∧ m.next .resume = some m' ∧
      m'.events = .waited pid (m.exitOf proc) :: .freed pid :: m.events

theorem TargetsListed.find (core : m.Core nodes)
    (targets : m.TargetsListed nodes) (member : p ∈ nodes)
    (alive : m.stateOf p ≠ .dead) (pending : m.pending p = .wait pid) :
    ∃ proc ∈ nodes, m.tasks.processFind pid = some proc ∧ proc ≠ 0 ∧
      m.pidOf proc = pid := by
  obtain ⟨q, there, named⟩ := targets p member alive pid pending
  have done := core.listed.processFind pid
  rcases core.listed.found done with ⟨_, nobody⟩ | ⟨nonzero, inside, same⟩
  · exact absurd named (nobody q there)
  · exact ⟨_, inside, done, nonzero, same⟩

theorem Ok.waitsAnswered (ok : m.Ok nodes) (told : m.Told nodes count)
    (targets : m.TargetsListed nodes) : m.WaitsAnswered nodes := by
  have core := ok.core
  refine ⟨core.listed.path, fun pid code waited => ?_,
    fun p member alive pid pending => ?_, fun pid pending => ?_⟩
  · have died := told.waited pid code waited
    exact ⟨died, fun code' other => told.once pid code' code other died⟩
  · obtain ⟨proc, _, found, nonzero, _⟩ :=
      targets.find core member alive pending
    exact ⟨proc, found, nonzero⟩
  · have running := ok.running
    have alive : m.stateOf m.curr ≠ .dead := by simp [running]
    have member : m.curr ∈ nodes := by
      refine core.curr.resolve_right fun isIdle => ?_
      rw [isIdle, core.idlePending] at pending
      simp at pending
    obtain ⟨proc, inside, found, nonzero, named⟩ :=
      targets.find core member alive pending
    obtain ⟨tasks, unlinked, _, procs, _⟩ := core.listed.procUnlink inside
    have dead := (core.waits m.curr member).woken pid pending
      (by simp [running]) alive proc inside named
    have find : (m.setPending m.curr .none).tasks.processFind pid =
        some proc := found
    have unlink : (m.setPending m.curr .none).tasks.procUnlink proc =
        some tasks := unlinked
    have freed : ((m.setPending m.curr .none).tasks.procs proc).pid = pid :=
      named
    refine ⟨proc, (((m.setPending m.curr .none).setTasks tasks).record
      (.freed pid)).record (.waited pid (m.exitOf proc)), inside, named,
      dead, ?_, rfl⟩
    simp only [next, resume, pending, resumeWait, find, unlink, freed,
      Option.bind_eq_bind, Option.bind_some, if_neg nonzero,
      Option.pure_def]
    rfl

/-- Every `SYS_WAIT` returns the code of its process in runs in which no
other one for the same process is under way when one goes on. -/
theorem waitsAnswered_run (booted : m.Booted)
    (run : Run (StepWith SoleWaiter) m labels m')
    (few : labels.countP isSpawn < 2 ^ 32) :
    ∃ nodes, m'.WaitsAnswered nodes := by
  obtain ⟨nodes, count, ok, _, told, targets⟩ := soleWaiter_keeps.boot booted
    ⟨booted.told, booted.targetsListed⟩ run few
  exact ⟨nodes, ok.waitsAnswered told targets⟩

/-- `SoleWaiter`, computed. -/
def solelyWaits (m : Machine) : Label → Bool
  | .resume =>
      match listFrom m.tasks.next listFuel m.tasks.procList with
      | none => false
      | some nodes => nodes.all fun p =>
          p = m.curr ∨ m.tasks.stateOf p = .dead ∨
            m.pending p ≠ m.pending m.curr
  | _ => true

theorem solelyWaits_sole (solely : m.solelyWaits label = true) :
    m.SoleWaiter label := by
  rintro rfl nodes path pid pending p member other alive same
  rw [solelyWaits] at solely
  split at solely
  case h_1 => simp at solely
  case h_2 nodes' found =>
    rw [path.unique (path_of_listFrom found)] at member
    have one := of_decide_eq_true (List.all_eq_true.mp solely p member)
    rcases one with isCurr | dead | different
    · exact other isCurr
    · exact alive dead
    · exact different (same.trans pending.symm)

theorem sampleWait_answered : ∃ m nodes,
    Run Step sampleBoot sampleWait m ∧ m.WaitsAnswered nodes ∧
      .waited 2 7 ∈ m.events := by
  have done : (executeWith solelyWaits sampleWait sampleBoot).isSome = true := by
    decide +kernel
  have told : ((executeWith solelyWaits sampleWait sampleBoot).map
      fun m => m.events.contains (.waited 2 7)) = some true := by
    decide +kernel
  obtain ⟨m, done⟩ := Option.isSome_iff_exists.mp done
  rw [done, Option.map_some, Option.some_inj] at told
  have run := run_of_executeWith (fun _ _ => solelyWaits_sole) done
  obtain ⟨nodes, answered⟩ :=
    waitsAnswered_run sampleBoot_booted run (by decide)
  exact ⟨m, nodes, StepWith.forgets run, answered, by simpa using told⟩

/-- `init` and a process that it started both wait for another one, which
exits; the timer then switches from the first of them to the second. -/
def sampleTwoWaiters : List Label :=
  [.call (.spawn (sampleNew 0x3000 2)), .call (.spawn (sampleNew 0x5000 3)),
    .call (.wait 2), .call (.wait 2), .call (.exit 7), .resume, .tick]

/-- The second of two waiters looks for a process that is gone, and the
kernel reads the exit code at a null pointer. -/
theorem sampleTwoWaiters_null : ∃ m,
    Run Step sampleBoot sampleTwoWaiters m ∧
      m.pending m.curr = .wait 2 ∧ m.tasks.processFind 2 = some 0 ∧
      m.next .resume = none := by
  have done : ((execute sampleTwoWaiters sampleBoot).map fun m =>
      decide (m.pending m.curr = .wait 2 ∧
        m.tasks.processFind 2 = some 0 ∧ (m.next .resume).isNone)) =
      some true := by
    decide +kernel
  obtain ⟨m, reached, holds⟩ := Option.map_eq_some_iff.mp done
  obtain ⟨pending, found, crash⟩ := of_decide_eq_true holds
  exact ⟨m, run_of_execute reached, pending, found,
    Option.isNone_iff_eq_none.mp crash⟩

end Machine

end LoafOs
