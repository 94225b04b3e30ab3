import Mathlib.Data.List.Nodup
import Mathlib.Logic.Function.Basic
import Mathlib.Data.List.Basic

/-!
# Finite paths through a successor function

A table that stores, for every node, the node that follows it describes
singly linked lists.  `Path next stop start nodes` says that following
`next` from `start` visits exactly `nodes` and then reaches a value on which
`stop` holds.  Paths are unique and repeat no node, a table change away from
a path leaves it alone, and `relink` is the table in which a given list of
nodes has become a path.
-/

namespace Links

universe u

variable {alpha : Type u}

/-- Following `next` from the start visits `nodes` and then stops. -/
inductive Path (next : alpha → alpha) (stop : alpha → Prop) :
    alpha → List alpha → Prop
  | done {node : alpha} (stopped : stop node) : Path next stop node []
  | more {node : alpha} {rest : List alpha}
      (going : ¬ stop node) (tail : Path next stop (next node) rest) :
      Path next stop node (node :: rest)

/-- The node lies on the finite path from the start. -/
def OnPath (next : alpha → alpha) (stop : alpha → Prop)
    (start node : alpha) : Prop :=
  ∃ nodes, Path next stop start nodes ∧ node ∈ nodes

section Paths

variable {next next' : alpha → alpha} {stop : alpha → Prop}

theorem Path.unique {start : alpha} {nodes nodes' : List alpha}
    (left : Path next stop start nodes)
    (right : Path next stop start nodes') :
    nodes = nodes' := by
  induction left generalizing nodes' with
  | done stopped =>
      cases right with
      | done _ => rfl
      | more going _ => exact absurd stopped going
  | more going _ inductionHypothesis =>
      cases right with
      | done stopped => exact absurd stopped going
      | more _ tail => rw [inductionHypothesis tail]

theorem Path.not_stop {start : alpha} {nodes : List alpha}
    (path : Path next stop start nodes) :
    ∀ node ∈ nodes, ¬ stop node := by
  induction path with
  | done _ => simp
  | more going _ inductionHypothesis =>
      intro node member
      rcases List.mem_cons.mp member with rfl | tailMember
      · exact going
      · exact inductionHypothesis node tailMember

theorem Path.eq_nil_of_stop {start : alpha} {nodes : List alpha}
    (path : Path next stop start nodes) (stopped : stop start) :
    nodes = [] :=
  path.unique (.done stopped)

theorem Path.head_eq {start head : alpha} {rest : List alpha}
    (path : Path next stop start (head :: rest)) : head = start := by
  cases path
  rfl

theorem Path.head_mem {start : alpha} {nodes : List alpha}
    (path : Path next stop start nodes) (going : ¬ stop start) :
    start ∈ nodes := by
  cases path with
  | done stopped => exact absurd stopped going
  | more _ _ => exact List.mem_cons_self

/-- A node on a path starts a path of its own that is no longer. -/
theorem Path.from_mem {start : alpha} {nodes : List alpha}
    (path : Path next stop start nodes) {node : alpha}
    (member : node ∈ nodes) :
    ∃ rest, Path next stop node rest ∧ rest.length ≤ nodes.length := by
  induction path with
  | done _ => simp at member
  | @more head rest going tail inductionHypothesis =>
      rcases List.mem_cons.mp member with rfl | tailMember
      · exact ⟨_, .more going tail, Nat.le_refl _⟩
      · obtain ⟨found, foundPath, shorter⟩ :=
          inductionHypothesis tailMember
        exact ⟨found, foundPath, by
          simpa only [List.length_cons] using Nat.le_succ_of_le shorter⟩

/-- A finite path visits no node twice. -/
theorem Path.nodup {start : alpha} {nodes : List alpha}
    (path : Path next stop start nodes) : nodes.Nodup := by
  induction path with
  | done _ => exact List.nodup_nil
  | @more head rest going tail inductionHypothesis =>
      refine List.nodup_cons.mpr ⟨?_, inductionHypothesis⟩
      intro headMember
      obtain ⟨found, foundPath, shorter⟩ := tail.from_mem headMember
      have same : found = head :: rest :=
        foundPath.unique (.more going tail)
      rw [same, List.length_cons] at shorter
      omega

/-- A path only depends on the successors of the nodes it visits. -/
theorem Path.congr {start : alpha} {nodes : List alpha}
    (path : Path next stop start nodes)
    (agree : ∀ node ∈ nodes, next' node = next node) :
    Path next' stop start nodes := by
  induction path with
  | done stopped => exact .done stopped
  | @more head rest going tail inductionHypothesis =>
      refine .more going ?_
      rw [agree head List.mem_cons_self]
      exact inductionHypothesis fun node member =>
        agree node (List.mem_cons_of_mem head member)

/-- The node that follows a visited node is visited too, or stops. -/
theorem Path.next_mem_or_stop {start : alpha} {nodes : List alpha}
    (path : Path next stop start nodes) {node : alpha}
    (member : node ∈ nodes) :
    next node ∈ nodes ∨ stop (next node) := by
  induction path with
  | done _ => simp at member
  | @more head rest going tail inductionHypothesis =>
      rcases List.mem_cons.mp member with rfl | tailMember
      · by_cases stopped : stop (next node)
        · exact Or.inr stopped
        · exact Or.inl (List.mem_cons_of_mem node (tail.head_mem stopped))
      · exact (inductionHypothesis tailMember).imp_left
          (List.mem_cons_of_mem head)

/-- Two paths that meet in a node continue alike, so they share a node only
if one start lies on the other path. -/
theorem Path.drop {start : alpha} {nodes : List alpha}
    (path : Path next stop start nodes) :
    ∀ index (bound : index < nodes.length),
      Path next stop nodes[index] (nodes.drop index) := by
  induction path with
  | done _ =>
      intro index bound
      simp at bound
  | @more head rest going tail inductionHypothesis =>
      intro index bound
      cases index with
      | zero => simpa using Path.more going tail
      | succ index =>
          simpa using inductionHypothesis index (by simpa using bound)

theorem Path.next_getElem {start : alpha} {nodes : List alpha}
    (path : Path next stop start nodes) {index : Nat}
    (bound : index + 1 < nodes.length) :
    next nodes[index] = nodes[index + 1] := by
  have here := path.drop index (by omega)
  rw [List.drop_eq_getElem_cons (by omega)] at here
  cases here with
  | more _ tail =>
      rw [List.drop_eq_getElem_cons bound] at tail
      exact tail.head_eq.symm

theorem Path.next_getLast {start : alpha} {nodes : List alpha}
    (path : Path next stop start nodes) (nonempty : nodes ≠ []) :
    stop (next (nodes.getLast nonempty)) := by
  induction path with
  | done _ => exact absurd rfl nonempty
  | @more head rest going tail inductionHypothesis =>
      cases rest with
      | nil =>
          cases tail with
          | done stopped => exact stopped
      | cons second others =>
          rw [List.getLast_cons (by simp)]
          exact inductionHypothesis (by simp)

end Paths

section Relinking

variable [DecidableEq alpha]

/-- The table in which every node of the list is followed by the next one
and the last node by `finish`. -/
def relink (next : alpha → alpha) (finish : alpha) :
    List alpha → alpha → alpha
  | [], node => next node
  | head :: rest, node =>
      if node = head then rest.head?.getD finish
      else relink next finish rest node

@[simp]
theorem relink_nil (next : alpha → alpha) (finish : alpha) :
    relink next finish [] = next := by
  funext node
  rfl

theorem relink_of_not_mem {next : alpha → alpha} {finish node : alpha}
    {nodes : List alpha} (fresh : node ∉ nodes) :
    relink next finish nodes node = next node := by
  induction nodes with
  | nil => rfl
  | cons head rest inductionHypothesis =>
      rw [List.mem_cons, not_or] at fresh
      rw [relink, if_neg fresh.1, inductionHypothesis fresh.2]

theorem relink_mem {next : alpha → alpha} {finish node : alpha}
    {nodes : List alpha} (member : node ∈ nodes) :
    relink next finish nodes node ∈ nodes ∨
      relink next finish nodes node = finish := by
  induction nodes with
  | nil => simp at member
  | cons head rest inductionHypothesis =>
      by_cases same : node = head
      · rw [relink, if_pos same]
        cases rest with
        | nil => exact Or.inr rfl
        | cons second others => exact Or.inl (by simp)
      · have tailMember : node ∈ rest := by
          simpa [same] using member
        rw [relink, if_neg same]
        exact (inductionHypothesis tailMember).imp_left
          (List.mem_cons_of_mem head)

/-- Linking the nodes of a duplicate-free list makes the list a path. -/
theorem path_relink {next : alpha → alpha} {stop : alpha → Prop}
    {finish : alpha} (finished : stop finish) :
    ∀ {nodes : List alpha}, nodes.Nodup →
      (∀ node ∈ nodes, ¬ stop node) →
      Path (relink next finish nodes) stop
        (nodes.head?.getD finish) nodes
  | [], _, _ => .done finished
  | head :: rest, nodup, going => by
      have headFresh : head ∉ rest := (List.nodup_cons.mp nodup).1
      have tail :=
        @path_relink next stop finish finished rest
          (List.nodup_cons.mp nodup).2
          fun node member => going node (List.mem_cons_of_mem head member)
      refine .more (going head List.mem_cons_self) ?_
      have first : relink next finish (head :: rest) head =
          rest.head?.getD finish := if_pos rfl
      simp only [List.head?_cons, Option.getD_some]
      rw [first]
      refine tail.congr fun node member => ?_
      have different : node ≠ head := fun same => headFresh (same ▸ member)
      rw [relink, if_neg different]

/-- Appending a fresh node is one update at the last node and one at the
new node. -/
theorem relink_concat {next : alpha → alpha} {finish fresh : alpha}
    {nodes : List alpha} (nodup : (nodes ++ [fresh]).Nodup)
    (nonempty : nodes ≠ []) :
    relink next finish (nodes ++ [fresh]) =
      Function.update
        (Function.update (relink next finish nodes) fresh finish)
        (nodes.getLast nonempty) fresh := by
  induction nodes with
  | nil => exact absurd rfl nonempty
  | cons head rest inductionHypothesis =>
      have restNodup : (rest ++ [fresh]).Nodup :=
        (List.nodup_cons.mp nodup).2
      have headFresh : head ∉ rest ++ [fresh] :=
        (List.nodup_cons.mp nodup).1
      funext node
      rw [List.cons_append, relink]
      cases rest with
      | nil =>
          have different : head ≠ fresh := by
            simpa using headFresh
          by_cases atHead : node = head
          · simp [atHead]
          · by_cases atFresh : node = fresh
            · subst atFresh
              simp [relink, atHead]
            · simp [relink, atHead, atFresh, Function.update_of_ne]
      | cons second others =>
          have tail := inductionHypothesis restNodup (by simp)
          have headNotLast :
              head ≠ (second :: others).getLast (by simp) := by
            intro same
            apply headFresh
            rw [same]
            exact List.mem_append_left _ (List.getLast_mem _)
          have headNotFresh : head ≠ fresh := by
            intro same
            exact headFresh (same ▸ by simp)
          by_cases atHead : node = head
          · subst atHead
            simp [relink, Function.update_of_ne, headNotLast,
              headNotFresh]
          · have lastEq : (head :: second :: others).getLast nonempty =
                (second :: others).getLast (by simp) :=
              List.getLast_cons (by simp)
            rw [if_neg atHead, tail, lastEq]
            by_cases atLast :
                node = (second :: others).getLast (by simp)
            · rw [atLast, Function.update_self, Function.update_self]
            · rw [Function.update_of_ne atLast,
                Function.update_of_ne atLast]
              by_cases atFresh : node = fresh
              · rw [atFresh, Function.update_self, Function.update_self]
              · rw [Function.update_of_ne atFresh,
                  Function.update_of_ne atFresh]
                exact (if_neg atHead).symm

/-- A fresh node can be hung on the end of a path. -/
theorem Path.concat {next : alpha → alpha} {stop : alpha → Prop}
    {start finish fresh : alpha} {nodes : List alpha}
    (path : Path next stop start nodes) (nonempty : nodes ≠ [])
    (notVisited : fresh ∉ nodes) (going : ¬ stop fresh)
    (finished : stop finish) :
    Path
      (Function.update (Function.update next fresh finish)
        (nodes.getLast nonempty) fresh)
      stop start (nodes ++ [fresh]) := by
  induction path with
  | done _ => exact absurd rfl nonempty
  | @more head rest headGoing tail inductionHypothesis =>
      have nodup := (Path.more headGoing tail).nodup
      have headFresh : head ∉ rest := (List.nodup_cons.mp nodup).1
      have different : head ≠ fresh := by
        intro same
        exact notVisited (same ▸ List.mem_cons_self)
      rw [List.cons_append]
      refine .more headGoing ?_
      cases rest with
      | nil =>
          have last : [head].getLast nonempty = head := rfl
          rw [last, Function.update_self]
          refine .more going ?_
          rw [Function.update_of_ne different.symm, Function.update_self]
          exact .done finished
      | cons second others =>
          have last : (head :: second :: others).getLast nonempty =
              (second :: others).getLast (by simp) :=
            List.getLast_cons (by simp)
          have headNotLast :
              head ≠ (second :: others).getLast (by simp) := by
            intro same
            exact headFresh (same ▸ List.getLast_mem _)
          rw [last, Function.update_of_ne headNotLast,
            Function.update_of_ne different]
          exact inductionHypothesis (by simp) fun member =>
            notVisited (List.mem_cons_of_mem head member)

end Relinking

end Links
