/-!
# Runs with a log

A computation that may fail to return, with the events that it leaves
behind either way.  An event may grant keys and may need keys; a log is
guarded if every key was granted before it is needed.
-/

namespace LoafOs

/-- The events of a computation and its result, if it returns. -/
structure Logged (ε α : Type) where
  events : List ε
  result : Option α

namespace Logged

variable {ε α β : Type}

/-- Go on with the result; a computation that does not return ends. -/
def bind (run : Logged ε α) (next : α → Logged ε β) : Logged ε β :=
  match run.result with
  | none => ⟨run.events, none⟩
  | some value => ⟨run.events ++ (next value).events, (next value).result⟩

instance : Monad (Logged ε) where
  pure value := ⟨[], some value⟩
  bind := bind

/-- A computation that leaves no events. -/
def ofOption (result : Option α) : Logged ε α := ⟨[], result⟩

/-- One event. -/
def log (event : ε) : Logged ε Unit := ⟨[event], some ()⟩

@[simp] theorem events_pure (value : α) :
    (pure value : Logged ε α).events = [] := rfl

@[simp] theorem result_pure (value : α) :
    (pure value : Logged ε α).result = some value := rfl

variable {run : Logged ε α} {next : α → Logged ε β} {value : α}

theorem bind_returns (returns : run.result = some value) :
    run >>= next =
      ⟨run.events ++ (next value).events, (next value).result⟩ := by
  change run.bind next = _
  rw [bind, returns]

theorem bind_stops (stops : run.result = none) :
    run >>= next = ⟨run.events, none⟩ := by
  change run.bind next = _
  rw [bind, stops]

theorem result_bind :
    (run >>= next).result =
      run.result.bind fun value => (next value).result := by
  cases returns : run.result with
  | none => rw [bind_stops returns, Option.bind_none]
  | some value => rw [bind_returns returns, Option.bind_some]

/-- Every event of a run has a property. -/
def All (property : ε → Prop) (run : Logged ε α) : Prop :=
  ∀ event ∈ run.events, property event

variable {property : ε → Prop}

theorem all_pure : (pure value : Logged ε α).All property :=
  fun _ member => nomatch member

theorem all_ofOption {result : Option α} :
    (ofOption result : Logged ε α).All property :=
  fun _ member => nomatch member

/-- The rule for `>>=`. -/
theorem all_bind :
    (run >>= next).All property ↔
      run.All property ∧ ∀ value, run.result = some value →
        (next value).All property := by
  cases returns : run.result with
  | none =>
      rw [bind_stops returns]
      exact ⟨fun all => ⟨all, fun _ found => nomatch found⟩, And.left⟩
  | some value =>
      rw [bind_returns returns, All, List.forall_mem_append]
      refine and_congr_right fun _ => ⟨fun later => ?_, fun later => ?_⟩
      · rintro _ ⟨⟩
        exact later
      · exact later value rfl

end Logged

/-! ## GuardedLog logs -/

section Guarded

variable {ε κ α β : Type} (grants needs : ε → κ → Prop)

/-- Every key that an event needs is known at first or was granted by an
event before it. -/
def GuardedLog (known : κ → Prop) : List ε → Prop
  | [] => True
  | event :: events =>
      (∀ key, needs event key → known key) ∧
        GuardedLog (fun key => known key ∨ grants event key) events

variable {grants needs} {known known' : κ → Prop} {left right : List ε}

theorem GuardedLog.mono (guarded : GuardedLog grants needs known left)
    (more : ∀ key, known key → known' key) :
    GuardedLog grants needs known' left := by
  induction left generalizing known known' with
  | nil => trivial
  | cons event events inductionHypothesis =>
      obtain ⟨here, rest⟩ := guarded
      refine ⟨fun key need => more key (here key need), ?_⟩
      apply inductionHypothesis rest
      intro key isKnown
      exact isKnown.imp_left (more key)

theorem guarded_append :
    GuardedLog grants needs known (left ++ right) ↔
      GuardedLog grants needs known left ∧
        GuardedLog grants needs
          (fun key => known key ∨ ∃ event ∈ left, grants event key)
          right := by
  induction left generalizing known with
  | nil => simp [GuardedLog]
  | cons event events inductionHypothesis =>
      rw [List.cons_append, GuardedLog, GuardedLog, inductionHypothesis,
        and_assoc]
      simp only [List.mem_cons, exists_eq_or_imp, or_assoc]

/-- A key that is needed somewhere was granted somewhere. -/
theorem GuardedLog.granted {event : ε} {key : κ}
    (guarded : GuardedLog grants needs known left) (member : event ∈ left)
    (need : needs event key) :
    known key ∨ ∃ other ∈ left, grants other key := by
  induction left generalizing known with
  | nil => cases member
  | cons first events inductionHypothesis =>
      obtain ⟨here, rest⟩ := guarded
      rcases List.mem_cons.mp member with rfl | member
      · exact .inl (here key need)
      · rcases inductionHypothesis rest member with
          (isKnown | granted) | ⟨other, member, granted⟩
        · exact .inl isKnown
        · exact .inr ⟨first, List.mem_cons_self, granted⟩
        · exact .inr ⟨other, List.mem_cons_of_mem _ member, granted⟩

namespace Logged

variable {run : Logged ε α} {next : α → Logged ε β}

/-- The rule for `>>=`. -/
theorem guarded_bind
    (first : GuardedLog grants needs known run.events)
    (rest : ∀ value, run.result = some value →
      GuardedLog grants needs
        (fun key => known key ∨ ∃ event ∈ run.events, grants event key)
        (next value).events) :
    GuardedLog grants needs known (run >>= next).events := by
  cases returns : run.result with
  | none =>
      rw [bind_stops returns]
      exact first
  | some value =>
      rw [bind_returns returns]
      exact guarded_append.mpr ⟨first, rest value returns⟩

theorem guarded_of_bind
    (guarded : GuardedLog grants needs known (run >>= next).events) :
    GuardedLog grants needs known run.events := by
  cases returns : run.result with
  | none =>
      rw [bind_stops returns] at guarded
      exact guarded
  | some value =>
      rw [bind_returns returns] at guarded
      exact (guarded_append.mp guarded).1

end Logged

end Guarded

end LoafOs
