import LoafOs.Lib.Ring
import LoafOs.Multi.Scheduler

/-!
# Round robin

`pick_next` goes once round the process list, starting behind the current
process, so a run of `schedule` calls gives every ready process its turn.
-/

namespace LoafOs

open Links Ring

/-- The process list is a path through these addresses. -/
structure Tasks.Listed (tasks : Tasks) (nodes : List Nat) : Prop where
  path : Path tasks.next (· = 0) tasks.procList nodes
  word : ∀ node ∈ nodes, node < listFuel

/-- The current process is on the list, or it is the idle process, which is
linked to nothing. -/
def Tasks.Current (tasks : Tasks) (nodes : List Nat) : Prop :=
  tasks.currProc ∈ nodes ∨
    (tasks.currProc = tasks.idleProc ∧ tasks.idleProc ∉ nodes ∧
      tasks.idleProc ≠ 0 ∧ tasks.next tasks.idleProc = 0)

namespace Tasks

variable {tasks tasks' : Tasks} {nodes : List Nat} {node start : Nat}

/-- A ready process. -/
def isReady (tasks : Tasks) (node : Nat) : Bool :=
  tasks.stateOf node = .ready

/-- The addresses that `pick_next` looks at, in its order. -/
def lap (tasks : Tasks) (nodes : List Nat) : List Nat :=
  after nodes tasks.currProc ++ self nodes tasks.currProc

/-! ## One call of `pick_next` -/

theorem Listed.length_le (listed : tasks.Listed nodes) :
    nodes.length ≤ listFuel := by
  have inside : nodes ⊆ List.range listFuel := fun node member =>
    List.mem_range.mpr (listed.word node member)
  have shorter := (List.subperm_of_subset listed.path.nodup inside).length_le
  rwa [List.length_range] at shorter

/-- The loop of `pick_next` on the rest of its lap. -/
theorem pickFrom_lap {p : Nat} {rest : List Nat}
    (chain : (p :: rest).IsChain fun node other =>
      tasks.following node = other)
    (closes : ∀ last ∈ (p :: rest).getLast?, tasks.following last = start)
    (fresh : start ∉ rest) (nonzero : ∀ node ∈ p :: rest, node ≠ 0)
    (fuel : Nat) :
    tasks.pickFrom start (rest.length + 1 + fuel) p =
      some (((p :: rest).find? tasks.isReady).getD 0) := by
  induction rest generalizing p with
  | nil =>
      have back := closes p rfl
      rw [show ([] : List Nat).length + 1 + fuel = fuel + 1 by simp; omega,
        pickFrom, if_neg (nonzero p (List.mem_cons_self ..)), back,
        if_pos rfl, List.find?_cons, isReady]
      by_cases ready : tasks.stateOf p = .ready
      · simp [ready]
      · simp [ready]
  | cons other rest inductionHypothesis =>
      obtain ⟨follows, tail⟩ := List.isChain_cons_cons.mp chain
      rw [List.mem_cons, not_or] at fresh
      have later := inductionHypothesis tail
        (fun last isLast => closes last (by
          rwa [List.getLast?_cons_cons]))
        fresh.2 fun node member =>
          nonzero node (List.mem_cons_of_mem _ member)
      rw [show (other :: rest).length + 1 + fuel =
          (rest.length + 1 + fuel) + 1 by rw [List.length_cons]; omega,
        pickFrom, if_neg (nonzero p (List.mem_cons_self ..)), follows,
        if_neg (Ne.symm fresh.1), later]
      by_cases ready : tasks.stateOf p = .ready
      · have here : tasks.isReady p = true := decide_eq_true ready
        rw [if_pos ready, List.find?_cons_of_pos here]
        rfl
      · have notHere : ¬ tasks.isReady p = true := by simp [isReady, ready]
        have skipped : (p :: other :: rest).find? tasks.isReady =
            (other :: rest).find? tasks.isReady :=
          List.find?_cons_of_neg notHere
        rw [if_neg ready, skipped]

theorem following_eq :
    tasks.following = succ tasks.next (· = 0) tasks.procList := rfl

/-- Behind the current process the lap begins. -/
theorem head_lap (listed : tasks.Listed nodes)
    (current : tasks.Current nodes) :
    ∀ first ∈ (tasks.lap nodes).head?,
      tasks.following tasks.currProc = first := by
  intro first isFirst
  obtain ⟨_, closes⟩ := isChain_after listed.path tasks.currProc
  rcases current with member | ⟨isIdle, absent, _, alone⟩
  · refine closes _ ?_ first isFirst
    rw [self, if_pos member]
    simp
  · rw [lap, isIdle, after_not_mem absent, self, if_neg absent,
      List.append_nil] at isFirst
    rw [isIdle, following, if_pos alone]
    cases nodes with
    | nil => simp at isFirst
    | cons other rest =>
        rw [← Option.some.inj isFirst]
        exact listed.path.head_eq.symm

/-- The scan of `pick_next` ends after one lap at most. -/
theorem pickFrom_eq (listed : tasks.Listed nodes)
    (current : tasks.Current nodes) (fuel : Nat)
    (enough : nodes.length ≤ fuel) (positive : 0 < fuel) :
    tasks.pickFrom (tasks.following tasks.currProc) fuel
      (tasks.following tasks.currProc) =
        some (((tasks.lap nodes).find? tasks.isReady).getD 0) := by
  obtain ⟨chain, closes⟩ := isChain_after listed.path tasks.currProc
  have head := head_lap listed current
  have round : (tasks.lap nodes).Perm nodes :=
    round_perm listed.path.nodup tasks.currProc
  have length := round.length_eq
  have nodup := round.nodup_iff.mpr listed.path.nodup
  have members : ∀ node ∈ tasks.lap nodes, node ∈ nodes :=
    fun node => round.mem_iff.mp
  change (tasks.lap nodes).IsChain _ at chain
  change ∀ last ∈ (tasks.lap nodes).getLast?,
    ∀ first ∈ (tasks.lap nodes).head?, _ at closes
  cases shape : tasks.lap nodes with
  | nil =>
      have empty : nodes = [] := by
        rw [shape] at length
        exact List.eq_nil_of_length_eq_zero length.symm
      subst empty
      have zero : tasks.following tasks.currProc = 0 := by
        rcases current with member | ⟨isIdle, _, _, alone⟩
        · simp at member
        · have nothing : tasks.procList = 0 := by
            cases listed.path with
            | done stopped => exact stopped
          rw [isIdle, following, if_pos alone, nothing]
      obtain ⟨fuel, rfl⟩ := Nat.exists_eq_add_of_lt positive
      rw [zero, show 0 + fuel + 1 = fuel + 1 by omega, pickFrom, if_pos rfl]
      rfl
  | cons first rest =>
      rw [shape] at chain closes length nodup members head
      have begins := head first rfl
      rw [begins]
      have grown : fuel = rest.length + 1 + (fuel - nodes.length) := by
        rw [List.length_cons] at length
        omega
      rw [grown]
      refine pickFrom_lap chain (fun last isLast =>
        closes last isLast first rfl) (List.nodup_cons.mp nodup).1
        (fun node member => listed.path.not_stop node (members node member))
        _

/-! ## One call of `schedule` -/

/-- The ready processes in the order of their turns. -/
def turns (tasks : Tasks) (nodes : List Nat) : List Nat :=
  (after nodes tasks.currProc).filter tasks.isReady

theorem Listed.switchTo (listed : tasks.Listed nodes) (next : Nat) :
    (tasks.switchTo next).Listed nodes := by
  obtain ⟨links, head, _, _⟩ := @switchTo_links tasks next
  exact ⟨by rw [links, head]; exact listed.path, listed.word⟩

/-- A call gives the first ready process its turn. -/
theorem schedule_first (listed : tasks.Listed nodes)
    (current : tasks.Current nodes)
    (enabled : tasks.schedulerReady = true)
    {first : Nat} {rest : List Nat}
    (order : tasks.turns nodes = first :: rest) :
    tasks.schedule = some (tasks.switchTo first) ∧ first ∈ nodes ∧
      first ≠ tasks.currProc := by
  have nodup := listed.path.nodup
  have inTurns : first ∈ tasks.turns nodes := by rw [order]; simp
  obtain ⟨inAfter, ready⟩ := List.mem_filter.mp inTurns
  obtain ⟨inNodes, different⟩ := mem_after nodup inAfter
  have nonzero : first ≠ 0 := listed.path.not_stop first inNodes
  have found : (tasks.lap nodes).find? tasks.isReady = some first := by
    have head : (after nodes tasks.currProc).find? tasks.isReady =
        some first := by
      rw [← List.head?_filter]
      exact congrArg List.head? order
    rw [lap, List.find?_append, head, Option.some_or]
  have currNonzero : tasks.currProc ≠ 0 := by
    rcases current with member | ⟨isIdle, _, idleNonzero, _⟩
    · exact listed.path.not_stop _ member
    · rw [isIdle]
      exact idleNonzero
  have picked : tasks.pickNext = some first := by
    rw [pickNext, if_neg currNonzero]
    simp only [pickFrom_eq listed current listFuel listed.length_le
        (by decide), found, Option.getD_some, Option.bind_eq_bind,
      Option.bind_some, nonzero, ne_eq, not_false_iff, if_true,
      Option.pure_def]
  refine ⟨?_, inNodes, different⟩
  rw [schedule, if_neg (by simp [enabled]), picked]
  simp only [Option.bind_eq_bind, Option.bind_some, if_neg different,
    Option.pure_def]

/-- The others keep their turns, and the one that gives way comes last. -/
theorem turns_switchTo (listed : tasks.Listed nodes)
    {first : Nat} {rest : List Nat}
    (order : tasks.turns nodes = first :: rest) :
    ∃ last, (tasks.switchTo first).turns nodes = rest ++ last := by
  have nodup := listed.path.nodup
  obtain ⟨before, behind, shape, passed, left⟩ :=
    List.filter_eq_cons_iff.mp order
  rw [turns, switchTo_curr, after_move nodup shape, List.append_assoc,
    List.filter_append]
  refine ⟨_, congrArg (· ++ _) ?_⟩
  rw [← left.2]
  refine List.filter_congr fun node member => ?_
  have inAfter : node ∈ after nodes tasks.currProc := by
    rw [shape]
    simp [member]
  have notCurr := (mem_after nodup inAfter).2
  have afterNodup := nodup_after nodup tasks.currProc
  have notFirst : node ≠ first := by
    rw [shape] at afterNodup
    rintro rfl
    exact (List.nodup_cons.mp (List.nodup_append.mp afterNodup).2.1).1 member
  rw [isReady, isReady, switchTo_other notFirst notCurr]

/-! ## Runs of calls -/

/-- So many calls of `schedule`, with the processes that they selected. -/
def scheduleTimes : Nat → Tasks → Option (Tasks × List Nat)
  | 0, tasks => some (tasks, [])
  | count + 1, tasks => do
      let tasks ← tasks.schedule
      let (last, selected) ← scheduleTimes count tasks
      return (last, tasks.currProc :: selected)

theorem scheduleTimes_turns (count : Nat) (listed : tasks.Listed nodes)
    (current : tasks.Current nodes)
    (enabled : tasks.schedulerReady = true)
    (few : count ≤ (tasks.turns nodes).length) :
    ∃ tasks', scheduleTimes count tasks =
        some (tasks', (tasks.turns nodes).take count) ∧
      tasks'.Listed nodes ∧ tasks'.Current nodes := by
  induction count generalizing tasks with
  | zero => exact ⟨tasks, rfl, listed, current⟩
  | succ count inductionHypothesis =>
      cases order : tasks.turns nodes with
      | nil =>
          rw [order] at few
          simp at few
      | cons first rest =>
          rw [order, List.length_cons] at few
          obtain ⟨scheduled, inside, _⟩ :=
            schedule_first listed current enabled order
          obtain ⟨last, later⟩ := turns_switchTo listed order
          obtain ⟨_, _, _, ready⟩ := @switchTo_links tasks first
          obtain ⟨tasks', runs, listed', current'⟩ :=
            inductionHypothesis (listed.switchTo first) (.inl inside)
              (ready.trans enabled) (by
                rw [later, List.length_append]
                omega)
          refine ⟨tasks', ?_, listed', current'⟩
          rw [scheduleTimes, scheduled]
          simp only [Option.bind_eq_bind, Option.bind_some, runs, later,
            Option.pure_def, List.take_succ_cons]
          rw [List.take_append_of_le_length (by omega)]
          rfl

/-- The scan of `pick_next` on this list ends within one lap. -/
def WithinLap (tasks : Tasks) (nodes : List Nat) : Prop :=
  ∃ found, tasks.pickFrom (tasks.following tasks.currProc)
    (max nodes.length 1) (tasks.following tasks.currProc) = some found

/-- As many calls as there are ready processes select each of them once, in
the order of the list behind the current process. -/
theorem schedule_roundRobin (listed : tasks.Listed nodes)
    (current : tasks.Current nodes)
    (enabled : tasks.schedulerReady = true)
    (yields : tasks.stateOf tasks.currProc ≠ .ready) :
    (∃ tasks', scheduleTimes (nodes.countP tasks.isReady) tasks =
      some (tasks', (after nodes tasks.currProc).filter tasks.isReady)) ∧
    ((after nodes tasks.currProc).filter tasks.isReady).Perm
      (nodes.filter tasks.isReady) ∧
    ∀ count ≤ nodes.countP tasks.isReady, ∃ tasks' selected,
      scheduleTimes count tasks = some (tasks', selected) ∧
        tasks'.WithinLap nodes := by
  have round := round_perm listed.path.nodup tasks.currProc
  have alone : (self nodes tasks.currProc).filter tasks.isReady = [] := by
    rw [self]
    split
    case isTrue => simp [isReady, yields]
    case isFalse => rfl
  have all : (tasks.turns nodes).Perm (nodes.filter tasks.isReady) := by
    have filtered := round.filter tasks.isReady
    rwa [List.filter_append, alone, List.append_nil] at filtered
  have length : (tasks.turns nodes).length =
      nodes.countP tasks.isReady := by
    rw [all.length_eq, List.countP_eq_length_filter]
  refine ⟨?_, all, fun count few => ?_⟩
  · obtain ⟨tasks', runs, _⟩ := scheduleTimes_turns
      (nodes.countP tasks.isReady) listed current enabled (by rw [length])
    rw [← length, List.take_length] at runs
    rw [← length]
    exact ⟨tasks', runs⟩
  · obtain ⟨tasks', runs, listed', current'⟩ := scheduleTimes_turns count
      listed current enabled (by rw [length]; exact few)
    exact ⟨tasks', _, runs, _, pickFrom_eq listed' current' _
      (Nat.le_max_left ..) (by omega)⟩

/-! Three processes, of which the middle one is running. -/

def sampleProc (pid : Nat) (state : ProcState) : Process where
  addr := 4096 * pid
  pid
  ppid := noPid
  targetPid := noPid
  image := ⟨0, 0, 0, 0, 0, 0⟩
  esp0 := 0
  kstack := 0
  savedEsp := 0
  resumeTick := noPid
  fds := List.replicate maxFdsPerProc (-1)
  dirsInUse := List.replicate maxDirsPerProc false
  exitCode := -1
  state
  block := .none
  name := []
  cwd := [0x2f]
  cleanedUp := false

def sampleTasks : Tasks where
  procs := fun addr =>
    sampleProc (addr / 4096) (if addr = 0x2000 then .running else .ready)
  next := fun addr =>
    if addr = 0x3000 then 0x2000 else if addr = 0x2000 then 0x1000 else 0
  procList := 0x3000
  currProc := 0x2000
  idleProc := 0x4000
  schedulerReady := true

theorem sampleTasks_listed : sampleTasks.Listed [0x3000, 0x2000, 0x1000] :=
  ⟨.more (by decide) (.more (by decide) (.more (by decide)
    (.done (by decide)))), by decide⟩

theorem sampleTasks_roundRobin :
    (∃ tasks', scheduleTimes 2 sampleTasks =
      some (tasks', [0x1000, 0x3000])) :=
  (schedule_roundRobin sampleTasks_listed (.inl (by decide)) rfl
    (by decide)).1

end Tasks

end LoafOs
