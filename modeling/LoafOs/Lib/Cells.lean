import Mathlib.Logic.Function.Basic

/-!
# Independent cells

A store whose cells are read and written one at a time.  A write may keep
only a part of the value that it is given.  If every write is seen by reads
of its own cell and by no other read, then any sequence of writes acts like
the same updates of the function from keys to values.
-/

namespace Cells

universe u v w x

variable {Store : Type u} {Key : Type v} {Given : Type w} {Value : Type x}
  [DecidableEq Key]

/-- A write sets its own cell to what is kept of the value, and no other. -/
def Independent (get : Store → Key → Value)
    (set : Store → Key → Given → Store) (keep : Given → Value) : Prop :=
  ∀ store key value other,
    get (set store key value) other =
      if other = key then keep value else get store other

variable {get : Store → Key → Value} {set : Store → Key → Given → Store}
  {keep : Given → Value}

theorem Independent.get_set (cells : Independent get set keep)
    (store : Store) (key : Key) (value : Given) :
    get (set store key value) =
      Function.update (get store) key (keep value) := by
  funext other
  rw [cells store key value other, Function.update_apply]

/-- A sequence of writes is a sequence of updates. -/
theorem Independent.get_writes (cells : Independent get set keep)
    (writes : List (Key × Given)) (store : Store) :
    get (writes.foldl (fun store write => set store write.1 write.2) store) =
      writes.foldl
        (fun table write => Function.update table write.1 (keep write.2))
        (get store) := by
  induction writes generalizing store with
  | nil => rfl
  | cons write writes inductionHypothesis =>
      rw [List.foldl_cons, List.foldl_cons, inductionHypothesis,
        cells.get_set]

end Cells
