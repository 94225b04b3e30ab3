import LoafOs.Lib.Links
import Mathlib.Data.List.Chain
import Mathlib.Data.List.TakeWhile

/-!
# Going round a list

`after nodes node` is the order in which a ring visits the other nodes when
it starts behind `node`; a node outside the list stands before the first
one.  `Lap` is one round of a successor function.
-/

namespace Ring

universe u

variable {alpha : Type u}

section Order

variable [DecidableEq alpha] {nodes before behind : List alpha}
  {node other : alpha}

/-- The nodes behind `node`, then those before it. -/
def after (nodes : List alpha) (node : alpha) : List alpha :=
  (nodes.dropWhile (· ≠ node)).tail ++ nodes.takeWhile (· ≠ node)

theorem after_split (fresh : node ∉ before) :
    after (before ++ node :: behind) node = behind ++ before := by
  have all : ∀ other ∈ before, decide (other ≠ node) = true :=
    fun other member => decide_eq_true fun same => fresh (same ▸ member)
  rw [after, List.dropWhile_append_of_pos all,
    List.takeWhile_append_of_pos all]
  simp

theorem after_not_mem (fresh : node ∉ nodes) : after nodes node = nodes := by
  have all : ∀ other ∈ nodes, decide (other ≠ node) = true :=
    fun other member => decide_eq_true fun same => fresh (same ▸ member)
  rw [after, List.dropWhile_eq_nil_iff.mpr all,
    List.takeWhile_eq_self_iff.mpr all, List.tail_nil, List.nil_append]

/-- The node itself, if it is on the ring. -/
def self (nodes : List alpha) (node : alpha) : List alpha :=
  if node ∈ nodes then [node] else []

/-- A round visits every node of the list once. -/
theorem round_perm (nodup : nodes.Nodup) (node : alpha) :
    (after nodes node ++ self nodes node).Perm nodes := by
  by_cases member : node ∈ nodes
  · obtain ⟨front, back, rfl⟩ := List.append_of_mem member
    have fresh : node ∉ front := fun there =>
      (List.nodup_append.mp nodup).2.2 node there node
        (List.mem_cons_self ..) rfl
    have shape : front ++ node :: back = (front ++ [node]) ++ back := by simp
    rw [after_split fresh, self, if_pos member, List.append_assoc, shape]
    exact List.perm_append_comm
  · rw [after_not_mem member, self, if_neg member, List.append_nil]

theorem nodup_after (nodup : nodes.Nodup) (node : alpha) :
    (after nodes node).Nodup :=
  (List.nodup_append.mp
    ((round_perm nodup node).nodup_iff.mpr nodup)).1

theorem mem_after (nodup : nodes.Nodup) (member : other ∈ after nodes node) :
    other ∈ nodes ∧ other ≠ node := by
  have inside := (round_perm nodup node).mem_iff.mp
    (List.mem_append_left _ member)
  refine ⟨inside, fun same => ?_⟩
  subst same
  have whole := (round_perm nodup other).nodup_iff.mpr nodup
  rw [self, if_pos inside] at whole
  exact (List.nodup_append.mp whole).2.2 other member other
    (List.mem_singleton_self _) rfl

/-- Moving on to a later node of the round puts what was passed last. -/
theorem after_move (nodup : nodes.Nodup)
    (order : after nodes node = before ++ other :: behind) :
    after nodes other = behind ++ self nodes node ++ before := by
  by_cases member : node ∈ nodes
  · obtain ⟨front, back, rfl⟩ := List.append_of_mem member
    have parts := List.nodup_append.mp nodup
    have fresh : node ∉ front := fun there =>
      parts.2.2 node there node (List.mem_cons_self ..) rfl
    rw [self, if_pos member]
    rw [after_split fresh] at order
    rcases List.append_eq_append_iff.mp order with
      ⟨passed, rfl, rest⟩ | ⟨passed, rfl, rest⟩
    · -- the other node stands before `node`
      rw [rest, List.append_assoc] at nodup
      have otherFresh : other ∉ passed := by
        have there := (List.nodup_append.mp nodup)
        exact fun inside => there.2.2 other inside other
          (List.mem_cons_self ..) rfl
      rw [rest, List.append_assoc, List.cons_append,
        after_split otherFresh]
      simp
    · cases passed with
      | nil =>
          rw [List.nil_append] at rest
          subst rest
          have moved : after ([] ++ other :: (behind ++ node :: before))
              other = (behind ++ node :: before) ++ [] :=
            after_split (by simp)
          simpa using moved
      | cons first passed =>
          rw [List.cons_append] at rest
          injection rest with same rest
          subst same rest
          have otherFresh : other ∉ front ++ node :: before := by
            have shape : front ++ node :: (before ++ other :: passed) =
                (front ++ node :: before) ++ other :: passed := by simp
            rw [shape] at nodup
            exact fun inside => (List.nodup_append.mp nodup).2.2 other
              inside other (List.mem_cons_self ..) rfl
          have shape : front ++ node :: (before ++ other :: passed) =
              (front ++ node :: before) ++ other :: passed := by simp
          rw [shape, after_split otherFresh]
          simp
  · rw [after_not_mem member] at order
    rw [self, if_neg member, order, after_split]
    · simp
    · rw [order] at nodup
      exact fun inside => (List.nodup_append.mp nodup).2.2 other inside
        other (List.mem_cons_self ..) rfl

end Order

section Laps

open Links

variable {next : alpha → alpha} {stop : alpha → Prop} {start : alpha}
  {nodes : List alpha}

/-- A path is a chain of successors. -/
theorem isChain_path (path : Path next stop start nodes) :
    nodes.IsChain fun node other => next node = other := by
  induction path with
  | done _ => exact .nil
  | @more node rest going tail inductionHypothesis =>
      cases rest with
      | nil => exact .singleton _
      | cons other rest =>
          exact .cons_cons tail.head_eq.symm inductionHypothesis

/-- The successor on the ring that a path makes when its end is joined to
its start. -/
def succ (next : alpha → alpha) (stop : alpha → Prop) [DecidablePred stop]
    (start node : alpha) : alpha :=
  if stop (next node) then start else next node

variable [DecidablePred stop]

theorem isChain_succ (path : Path next stop start nodes) :
    nodes.IsChain fun node other => succ next stop start node = other := by
  refine List.IsChain.imp_of_mem_imp ?_ (isChain_path path)
  intro node other _ member follows
  rw [succ, if_neg (follows ▸ path.not_stop other member), follows]

theorem succ_getLast (path : Path next stop start nodes)
    (nonempty : nodes ≠ []) :
    succ next stop start (nodes.getLast nonempty) = start :=
  if_pos (path.next_getLast nonempty)

variable [DecidableEq alpha]

/-- One round behind a node is a chain that closes. -/
theorem isChain_after (path : Path next stop start nodes) (node : alpha) :
    (after nodes node ++ self nodes node).IsChain
      (fun node other => succ next stop start node = other) ∧
    ∀ last ∈ (after nodes node ++ self nodes node).getLast?,
      ∀ first ∈ (after nodes node ++ self nodes node).head?,
        succ next stop start last = first := by
  by_cases member : node ∈ nodes
  · obtain ⟨front, back, rfl⟩ := List.append_of_mem member
    have parts := List.nodup_append.mp path.nodup
    have fresh : node ∉ front := fun there =>
      parts.2.2 node there node (List.mem_cons_self ..) rfl
    have chain := isChain_succ path
    have closes := succ_getLast path (by simp)
    have head : (front ++ [node]).head? = some start := by
      have first := path.head_mem
      cases front with
      | nil => exact congrArg some path.head_eq
      | cons other rest => exact congrArg some path.head_eq
    rw [after_split fresh, self, if_pos member, List.append_assoc]
    have shape : front ++ node :: back = (front ++ [node]) ++ back := by simp
    simp only [shape] at chain closes
    obtain ⟨left, right, joint⟩ := List.isChain_append.mp chain
    refine ⟨List.isChain_append.mpr ⟨right, left, ?_⟩, ?_⟩
    · intro last isLast first isFirst
      rw [head] at isFirst
      have nonempty : back ≠ [] := by
        rintro rfl
        simp at isLast
      rw [List.getLast?_eq_some_getLast nonempty] at isLast
      rw [← Option.some.inj isFirst, ← Option.some.inj isLast]
      rw [List.getLast_append_of_ne_nil _ nonempty] at closes
      exact closes
    · intro last isLast first isFirst
      rw [List.getLast?_append] at isLast
      simp only [List.getLast?_append, List.getLast?_singleton,
        Option.some_or, Option.mem_some_iff] at isLast
      subst isLast
      cases back with
      | nil =>
          rw [List.nil_append, head] at isFirst
          rw [← Option.some.inj isFirst]
          simpa using closes
      | cons other rest =>
          rw [← Option.some.inj isFirst]
          exact joint node (by simp) other rfl
  · rw [after_not_mem member, self, if_neg member, List.append_nil]
    refine ⟨isChain_succ path, fun last isLast first isFirst => ?_⟩
    cases nodes with
    | nil => simp at isLast
    | cons other rest =>
        rw [List.getLast?_eq_some_getLast (by simp)] at isLast
        rw [← Option.some.inj isLast, ← Option.some.inj isFirst,
          succ_getLast path (by simp)]
        exact path.head_eq.symm

end Laps

end Ring
