import LoafOs.Multi.Machine
import LoafOs.Multi.RoundRobin

/-!
# The functions of the process list

What the loops over a well-formed process list compute.
-/

namespace LoafOs

open Links Ring

theorem listFrom_path {next : Nat → Nat} {fuel head : Nat}
    {nodes : List Nat} (path : Path next (· = 0) head nodes)
    (enough : nodes.length ≤ fuel) : listFrom next fuel head = some nodes := by
  induction path generalizing fuel with
  | done stopped =>
      cases fuel with
      | zero => rw [listFrom, if_pos stopped]
      | succ fuel => rw [listFrom, if_pos stopped]
  | more going _ inductionHypothesis =>
      cases fuel with
      | zero => simp at enough
      | succ fuel =>
          rw [List.length_cons] at enough
          rw [listFrom, if_neg going, inductionHypothesis (by omega)]
          rfl

namespace Tasks

variable {tasks tasks' : Tasks} {nodes : List Nat} {proc node pid : Nat}

theorem Listed.listFrom (listed : tasks.Listed nodes) :
    listFrom tasks.next listFuel tasks.procList = some nodes :=
  listFrom_path listed.path listed.length_le

theorem Listed.zero (listed : tasks.Listed nodes) : 0 ∉ nodes :=
  fun member => listed.path.not_stop 0 member rfl

/-- `process_find` on a well-formed list. -/
theorem Listed.processFind (listed : tasks.Listed nodes) (pid : Nat) :
    tasks.processFind pid = some ((nodes.find? fun node =>
      (tasks.procs node).pid = pid).getD 0) := by
  simp only [Tasks.processFind, listed.listFrom, Option.bind_eq_bind,
    Option.bind_some, Option.pure_def]

/-- What `process_find` found. -/
theorem Listed.found (listed : tasks.Listed nodes)
    (done : tasks.processFind pid = some proc) :
    (proc = 0 ∧ ∀ node ∈ nodes, (tasks.procs node).pid ≠ pid) ∨
      (proc ≠ 0 ∧ proc ∈ nodes ∧ (tasks.procs proc).pid = pid) := by
  rw [listed.processFind, Option.some_inj] at done
  cases found : nodes.find? fun node => (tasks.procs node).pid = pid with
  | none =>
      rw [found] at done
      refine .inl ⟨done.symm, fun node member same => ?_⟩
      have absent := List.find?_eq_none.mp found node member
      simp [same] at absent
  | some other =>
      rw [found] at done
      change other = proc at done
      subst done
      have member := List.mem_of_find?_eq_some found
      have same := List.find?_some found
      refine .inr ⟨fun zero => listed.zero (zero ▸ member), member, ?_⟩
      simpa using same

theorem Listed.eachProc (listed : tasks.Listed nodes)
    (change : Process → Process) :
    tasks.eachProc change = some { tasks with
      procs := fun node =>
        if node ∈ nodes then change (tasks.procs node)
        else tasks.procs node } := by
  simp only [Tasks.eachProc, listed.listFrom, Option.bind_eq_bind,
    Option.bind_some, Option.pure_def]

/-- The list only depends on the links. -/
theorem Listed.congr (listed : tasks.Listed nodes)
    (next : tasks'.next = tasks.next)
    (head : tasks'.procList = tasks.procList) : tasks'.Listed nodes :=
  ⟨by rw [next, head]; exact listed.path, listed.word⟩

theorem Listed.schedulerAdd (listed : tasks.Listed nodes)
    (fresh : proc ∉ nodes) (nonzero : proc ≠ 0) (word : proc < listFuel) :
    (tasks.schedulerAdd proc).Listed (proc :: nodes) := by
  refine ⟨.more nonzero ?_, fun node member => ?_⟩
  · have kept : ∀ node ∈ nodes,
        (tasks.schedulerAdd proc).next node = tasks.next node :=
      fun node member =>
        Function.update_of_ne
          (fun same : node = proc => fresh (same ▸ member)) ..
    have head : (tasks.schedulerAdd proc).next proc = tasks.procList :=
      Function.update_self ..
    change Path _ _ ((tasks.schedulerAdd proc).next proc) nodes
    rw [head]
    exact listed.path.congr kept
  · rcases List.mem_cons.mp member with rfl | inside
    · exact word
    · exact listed.word node inside

/-- Taking a node out of a path. -/
theorem path_unlink {next : Nat → Nat} {head : Nat}
    (path : Path next (· = 0) head nodes) (notHead : head ≠ proc)
    (member : proc ∈ nodes) :
    ∃ before, nodes.find? (fun node => next node = proc) = some before ∧
      before ∈ nodes ∧
      Path (Function.update next before (next proc)) (· = 0) head
        (nodes.erase proc) := by
  induction path with
  | done _ => simp at member
  | @more node rest going tail inductionHypothesis =>
      have whole : Path next (· = 0) node (node :: rest) :=
        .more going tail
      obtain ⟨fresh, restNodup⟩ := List.nodup_cons.mp whole.nodup
      have inRest : proc ∈ rest := by
        rcases List.mem_cons.mp member with same | there
        · exact absurd same.symm notHead
        · exact there
      have erased : (node :: rest).erase proc = node :: rest.erase proc :=
        List.erase_cons_tail (by simpa using notHead)
      by_cases follows : next node = proc
      · refine ⟨node, List.find?_cons_of_pos (by simp [follows]),
          List.mem_cons_self .., ?_⟩
        rw [erased]
        refine .more going ?_
        rw [Function.update_self]
        rw [follows] at tail
        cases tail with
        | done stopped => simp at inRest
        | more procGoing later =>
            rename_i after
            rw [List.erase_cons_head]
            refine later.congr fun other there => ?_
            exact Function.update_of_ne (fun same : other = node =>
              fresh (same ▸ List.mem_cons_of_mem _ there)) ..
      · obtain ⟨before, found, inside, shorter⟩ :=
          inductionHypothesis follows inRest
        have skipped : (node :: rest).find? (fun node => next node = proc) =
            rest.find? fun node => next node = proc :=
          List.find?_cons_of_neg (by simpa using follows)
        refine ⟨before, skipped.trans found, List.mem_cons_of_mem _ inside,
          ?_⟩
        rw [erased]
        refine .more going ?_
        have different : node ≠ before := fun same => fresh (same ▸ inside)
        rw [Function.update_of_ne different]
        exact shorter

/-- `proc_unlink` takes a node off the list and touches no structure. -/
theorem Listed.procUnlink (listed : tasks.Listed nodes)
    (member : proc ∈ nodes) :
    ∃ tasks', tasks.procUnlink proc = some tasks' ∧
      tasks'.Listed (nodes.erase proc) ∧ tasks'.procs = tasks.procs ∧
      tasks'.currProc = tasks.currProc ∧
      tasks'.idleProc = tasks.idleProc ∧
      tasks'.schedulerReady = tasks.schedulerReady ∧
      ∀ node ∉ nodes, tasks'.next node = tasks.next node := by
  rw [Tasks.procUnlink]
  have word : ∀ node ∈ nodes.erase proc, node < listFuel :=
    fun node inside => listed.word node (List.mem_of_mem_erase inside)
  by_cases first : tasks.procList = proc
  · rw [if_pos first]
    refine ⟨_, rfl, ⟨?_, word⟩, rfl, rfl, rfl, rfl, fun _ _ => rfl⟩
    have path := listed.path
    rw [first] at path
    cases path with
    | done stopped => simp at member
    | more going tail =>
        rw [List.erase_cons_head]
        exact tail
  · rw [if_neg first]
    obtain ⟨before, found, inside, path⟩ :=
      path_unlink listed.path first member
    simp only [listed.listFrom, Option.bind_eq_bind, Option.bind_some,
      found]
    refine ⟨_, rfl, ⟨path, word⟩, rfl, rfl, rfl, rfl,
      fun node outside => ?_⟩
    exact Function.update_of_ne
      (fun same : node = before => outside (same ▸ inside)) ..

/-! ## The scheduler -/

/-- The idle process stands beside the list. -/
structure Idle (tasks : Tasks) (nodes : List Nat) : Prop where
  nonzero : tasks.idleProc ≠ 0
  unlisted : tasks.idleProc ∉ nodes
  alone : tasks.next tasks.idleProc = 0

/-- What `schedule` selects. -/
structure Selects (tasks : Tasks) (nodes : List Nat) (next : Nat) :
    Prop where
  choice : (next ∈ nodes ∧ tasks.stateOf next = .ready) ∨
    (next = tasks.idleProc ∧ ∀ node ∈ nodes, tasks.stateOf node ≠ .ready)

theorem schedule_selects (listed : tasks.Listed nodes)
    (idle : tasks.Idle nodes) (enabled : tasks.schedulerReady = true)
    (current : tasks.currProc ∈ nodes ∨ tasks.currProc = tasks.idleProc) :
    ∃ next, tasks.Selects nodes next ∧ tasks.schedule =
      some (if next = tasks.currProc then tasks else tasks.switchTo next) := by
  have currNonzero : tasks.currProc ≠ 0 := by
    rcases current with member | isIdle
    · exact fun zero => listed.zero (zero ▸ member)
    · rw [isIdle]
      exact idle.nonzero
  have round := round_perm listed.path.nodup tasks.currProc
  have scan := pickFrom_eq listed
    (current.imp_right fun isIdle =>
      ⟨isIdle, idle.unlisted, idle.nonzero, idle.alone⟩)
    listFuel listed.length_le (by decide)
  rw [schedule, if_neg (by simp [enabled])]
  simp only [pickNext, if_neg currNonzero, scan, Option.bind_eq_bind,
    Option.bind_some]
  cases found : (tasks.lap nodes).find? tasks.isReady with
  | none =>
      refine ⟨tasks.idleProc, ⟨.inr ⟨rfl, fun node member ready => ?_⟩⟩, ?_⟩
      · have inside : node ∈ tasks.lap nodes := round.mem_iff.mpr member
        have notReady := List.find?_eq_none.mp found node inside
        simp [isReady, ready] at notReady
      · simp only [Option.getD_none, ne_eq, not_true_eq_false, if_false,
          if_neg idle.nonzero, Option.bind_some, Option.pure_def]
        split <;> rfl
  | some next =>
      have inside := round.mem_iff.mp (List.mem_of_find?_eq_some found)
      have ready : tasks.stateOf next = .ready := by
        have here := List.find?_some found
        simpa [isReady] using here
      have nonzero : next ≠ 0 := fun zero => listed.zero (zero ▸ inside)
      refine ⟨next, ⟨.inl ⟨inside, ready⟩⟩, ?_⟩
      simp only [Option.getD_some, nonzero, ne_eq, not_false_iff, if_true,
        Option.pure_def, Option.bind_some]
      split <;> rfl

/-- The state of a process after the processor went to `next`. -/
def stateAfter (tasks : Tasks) (next node : Nat) : ProcState :=
  if node = next then .running
  else if node = tasks.currProc ∧ tasks.stateOf node = .running ∧ node ≠ 0
    then .ready
  else tasks.stateOf node

/-- A switch only changes states. -/
theorem switchTo_procs (next node : Nat) :
    (tasks.switchTo next).procs node =
      { tasks.procs node with state := tasks.stateAfter next node } := by
  by_cases isNext : node = next
  · subst isNext
    rw [stateAfter, if_pos rfl, switchTo, setState, setProc_same]
    split
    case isTrue gave =>
      by_cases isCurr : node = tasks.currProc
      · subst isCurr
        simp [setState, setProc]
      · simp [setState, setProc, Function.update_of_ne isCurr]
    case isFalse => rfl
  · rw [stateAfter, if_neg isNext, switchTo, setState,
      setProc_other isNext]
    by_cases isCurr : node = tasks.currProc
    · subst isCurr
      by_cases gave : tasks.currProc ≠ 0 ∧
          tasks.stateOf tasks.currProc = .running
      · rw [if_pos ⟨gave.1, gave.2⟩, if_pos ⟨rfl, gave.2, gave.1⟩]
        simp [setState, setProc]
      · rw [if_neg gave, if_neg fun all => gave ⟨all.2.2, all.2.1⟩]
        rfl
    · have stays : ¬ (node = tasks.currProc ∧
          tasks.stateOf node = .running ∧ node ≠ 0) :=
        fun all => isCurr all.1
      rw [if_neg stays]
      split
      · have kept : (tasks.setState tasks.currProc .ready).procs node =
            tasks.procs node := setProc_other isCurr
        exact kept
      · rfl

end Tasks

end LoafOs
