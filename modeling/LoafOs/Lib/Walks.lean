import LoafOs.Lib.Links

/-!
# Walks with an exit

A loop that follows a successor function may leave at a node for a reason of
its own, before it comes to a value on which `stop` holds.  `Walk` is such
a loop with the nodes that it visits.  Where the reason depends on nothing
but the node, a walk that ends has visited no node twice, and it ends
exactly if following the successors leads to a stop or to an exit.
-/

namespace Links

universe u

variable {alpha : Type u} {next : alpha → alpha}
variable {stop exit : alpha → Prop}

/-- The walk from a node visits `nodes` and then ends, at a value on which
`stop` holds or in a node on which `exit` holds. -/
inductive Walk (next : alpha → alpha) (stop exit : alpha → Prop) :
    alpha → List alpha → Prop
  | stop {node : alpha} (stopped : stop node) : Walk next stop exit node []
  | exit {node : alpha} (going : ¬ stop node) (left : exit node) :
      Walk next stop exit node [node]
  | step {node : alpha} {rest : List alpha} (going : ¬ stop node)
      (stays : ¬ exit node) (tail : Walk next stop exit (next node) rest) :
      Walk next stop exit node (node :: rest)

/-- The nodes are the first ones that a walk from the node visits, as far
as its exits let it. -/
inductive Segment (next : alpha → alpha) (stop : alpha → Prop) :
    alpha → List alpha → Prop
  | nil {node : alpha} : Segment next stop node []
  | cons {node : alpha} {rest : List alpha} (going : ¬ stop node)
      (tail : Segment next stop (next node) rest) :
      Segment next stop node (node :: rest)

/-- The nodes before the exit form a path that stops at exits too. -/
theorem Walk.path {start : alpha} {nodes : List alpha}
    (walk : Walk next stop exit start nodes) :
    ∃ before, Path next (fun node => stop node ∨ exit node) start before ∧
      (nodes = before ∨
        ∃ last, ¬ stop last ∧ exit last ∧ nodes = before ++ [last]) := by
  induction walk with
  | stop stopped => exact ⟨[], .done (.inl stopped), .inl rfl⟩
  | exit going left =>
      exact ⟨[], .done (.inr left), .inr ⟨_, going, left, rfl⟩⟩
  | @step node rest going stays tail inductionHypothesis =>
      obtain ⟨before, path, same⟩ := inductionHypothesis
      have goesOn : ¬ (stop node ∨ exit node) := fun ended =>
        ended.elim going stays
      refine ⟨node :: before, .more goesOn path, ?_⟩
      rcases same with rfl | ⟨last, notStop, left, rfl⟩
      · exact .inl rfl
      · exact .inr ⟨last, notStop, left, rfl⟩

theorem Walk.nodup {start : alpha} {nodes : List alpha}
    (walk : Walk next stop exit start nodes) : nodes.Nodup := by
  obtain ⟨before, path, rfl | ⟨last, _, left, rfl⟩⟩ := walk.path
  · exact path.nodup
  · refine List.nodup_append.mpr ⟨path.nodup, List.nodup_singleton _, ?_⟩
    intro node member other isLast
    rw [List.mem_singleton.mp isLast]
    rintro rfl
    exact path.not_stop node member (.inr left)

theorem Walk.not_stop {start : alpha} {nodes : List alpha}
    (walk : Walk next stop exit start nodes) :
    ∀ node ∈ nodes, ¬ stop node := by
  obtain ⟨before, path, rfl | ⟨last, going, _, rfl⟩⟩ := walk.path
  · exact fun node member stopped =>
      path.not_stop node member (.inl stopped)
  · intro node member
    rcases List.mem_append.mp member with inside | isLast
    · exact fun stopped => path.not_stop node inside (.inl stopped)
    · rwa [List.mem_singleton.mp isLast]

/-- No path leaves a node that follows itself. -/
theorem Path.stop_of_loop {start : alpha} {nodes : List alpha}
    (path : Path next stop start nodes) (loop : next start = start) :
    stop start := by
  cases path with
  | done stopped => exact stopped
  | @more _ rest going tail =>
      have same := (Path.more going tail).unique (loop ▸ tail)
      have length := congrArg List.length same
      rw [List.length_cons] at length
      omega

/-- A path to a stop or an exit makes a walk. -/
theorem Path.walk {start : alpha} {before : List alpha}
    (path : Path next (fun node => stop node ∨ exit node) start before) :
    ∃ nodes, Walk next stop exit start nodes := by
  induction path with
  | @done node ended =>
      by_cases stopped : stop node
      · exact ⟨[], .stop stopped⟩
      · exact ⟨[node], .exit stopped (ended.resolve_left stopped)⟩
  | more going tail inductionHypothesis =>
      obtain ⟨nodes, walk⟩ := inductionHypothesis
      exact ⟨_, .step (fun stopped => going (.inl stopped))
        (fun left => going (.inr left)) walk⟩

/-- A walk ends exactly if the successors lead to a stop or an exit. -/
theorem walk_iff {start : alpha} :
    (∃ nodes, Walk next stop exit start nodes) ↔
      ∃ before,
        Path next (fun node => stop node ∨ exit node) start before :=
  ⟨fun ⟨_, walk⟩ => ⟨_, walk.path.choose_spec.1⟩,
    fun ⟨_, path⟩ => path.walk⟩

end Links
