import LoafOs.Lib.Links

/-!
# Walks that clear their nodes

A loop may follow a successor function and set the successor of every node
that it leaves to a value on which it stops.  The table changes under the
walk, so on a cycle it ends at the first node that it comes to again.  The
measure is the number of nodes still to be cleared, not the length of a
path.
-/

namespace Links

universe u

variable {alpha : Type u} {next : alpha → alpha} {stop : alpha → Prop}
  {start empty : alpha}

/-- The node is reached by following `next` from the start until a value on
which `stop` holds. -/
inductive Reached (next : alpha → alpha) (stop : alpha → Prop)
    (start : alpha) : alpha → Prop
  | start (going : ¬ stop start) : Reached next stop start start
  | next {node : alpha} (reached : Reached next stop start node)
      (going : ¬ stop (next node)) : Reached next stop start (next node)

theorem Reached.not_stop {node : alpha}
    (reached : Reached next stop start node) : ¬ stop node := by
  cases reached with
  | start going => exact going
  | next _ going => exact going

theorem not_reached (stopped : stop start) (node : alpha) :
    ¬ Reached next stop start node := by
  intro reached
  induction reached with
  | start going => exact going stopped
  | next _ _ inductionHypothesis => exact inductionHypothesis

theorem Reached.of_next {node : alpha}
    (reached : Reached next stop (next start) node)
    (going : ¬ stop start) : Reached next stop start node := by
  induction reached with
  | start more => exact .next (.start going) more
  | next _ more inductionHypothesis => exact .next inductionHypothesis more

/-- A finite path reaches its nodes and no others. -/
theorem Path.mem_iff_reached {nodes : List alpha}
    (path : Path next stop start nodes) (node : alpha) :
    node ∈ nodes ↔ Reached next stop start node := by
  constructor
  · intro member
    induction path with
    | done _ => simp at member
    | @more head rest going tail inductionHypothesis =>
        rcases List.mem_cons.mp member with rfl | inRest
        · exact .start going
        · exact (inductionHypothesis inRest).of_next going
  · intro reached
    induction reached with
    | start going => exact path.head_mem going
    | next _ going inductionHypothesis =>
        exact (path.next_mem_or_stop inductionHypothesis).resolve_right
          going

section Clear

variable [DecidableEq alpha] [DecidablePred stop]

variable (stop) in
/-- Follow the successors and clear every node on leaving it. -/
def clearWalk (empty : alpha) :
    (fuel : Nat) → alpha → (alpha → alpha) → Option (alpha → alpha)
  | 0, _, _ => none
  | fuel + 1, start, next =>
      if stop start then
        some next
      else
        clearWalk empty fuel (next start) (Function.update next start empty)

omit [DecidablePred stop] in
/-- Clearing the first node of a walk takes just that node from the nodes
still to be reached. -/
theorem reached_update (going : ¬ stop start) (stopped : stop empty)
    (node : alpha) :
    Reached next stop start node ↔
      node = start ∨
        Reached (Function.update next start empty) stop (next start)
          node := by
  constructor
  · intro reached
    induction reached with
    | start _ => exact .inl rfl
    | @next other _ more inductionHypothesis =>
        by_cases first : other = start
        · subst first
          exact .inr (.start more)
        · have same : Function.update next start empty other = next other :=
            Function.update_of_ne first _ _
          have inside := inductionHypothesis.resolve_left first
          rw [← same] at more ⊢
          exact .inr (.next inside more)
  · rintro (rfl | reached)
    · exact .start going
    · induction reached with
      | start more => exact .next (.start going) more
      | @next other _ more inductionHypothesis =>
          by_cases first : other = start
          · rw [first, Function.update_self] at more
            exact absurd stopped more
          · rw [Function.update_of_ne first] at more ⊢
            exact .next inductionHypothesis more

/-- The walk ends, has cleared the nodes reached, and no others.  `pending`
lists the nodes that are reached and not yet cleared. -/
theorem clearWalk_exact (stopped : stop empty) :
    ∀ {fuel : Nat} {start : alpha} {next : alpha → alpha}
      {pending : List alpha},
      (∀ node, Reached next stop start node → next node ≠ empty →
        node ∈ pending) →
      pending.length + 2 ≤ fuel →
        ∃ cleared, clearWalk stop empty fuel start next = some cleared ∧
          ∀ node,
            (Reached next stop start node → cleared node = empty) ∧
            (¬ Reached next stop start node → cleared node = next node)
  | 0, _, _, _, _, enough => by omega
  | fuel + 1, start, next, pending, complete, enough => by
      rw [clearWalk]
      by_cases ends : stop start
      · rw [if_pos ends]
        refine ⟨next, rfl, fun node => ⟨fun reached => ?_, fun _ => rfl⟩⟩
        exact absurd reached (not_reached ends node)
      rw [if_neg ends]
      by_cases already : next start = empty
      · -- The walk came back to a cleared node: the next pass stops.
        have same : Function.update next start empty = next := by
          rw [← already, Function.update_eq_self]
        obtain ⟨rest, rfl⟩ : ∃ rest, fuel = rest + 1 :=
          ⟨fuel - 1, by omega⟩
        rw [same, already, clearWalk, if_pos stopped]
        refine ⟨next, rfl, fun node => ⟨fun reached => ?_, fun _ => rfl⟩⟩
        rcases (reached_update ends stopped node).mp reached with
          rfl | later
        · exact already
        · exact absurd later (not_reached (already ▸ stopped) node)
      · have first : start ∈ pending :=
          complete start (.start ends) already
        have shorter : (pending.erase start).length + 2 ≤ fuel := by
          have := List.length_pos_of_mem first
          rw [List.length_erase_of_mem first]
          omega
        have still : ∀ node,
            Reached (Function.update next start empty) stop (next start)
              node →
            Function.update next start empty node ≠ empty →
              node ∈ pending.erase start := by
          intro node reached full
          have other : node ≠ start := by
            rintro rfl
            exact full (Function.update_self ..)
          rw [Function.update_of_ne other] at full
          refine (List.mem_erase_of_ne other).mpr (complete node ?_ full)
          exact (reached_update ends stopped node).mpr (.inr reached)
        obtain ⟨cleared, result, spec⟩ :=
          clearWalk_exact stopped still shorter
        refine ⟨cleared, result, fun node => ⟨fun reached => ?_, ?_⟩⟩
        · by_cases later : Reached (Function.update next start empty) stop
              (next start) node
          · exact (spec node).1 later
          · have isStart :=
              ((reached_update ends stopped node).mp reached).resolve_right
                later
            rw [(spec node).2 later, isStart, Function.update_self]
        · intro notReached
          rw [reached_update ends stopped node, not_or] at notReached
          rw [(spec node).2 notReached.2,
            Function.update_of_ne notReached.1]

end Clear

end Links
