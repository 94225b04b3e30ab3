import Mathlib.Logic.Function.Basic
import Mathlib.Data.Nat.ModEq

/-!
# Slices of a circular buffer

`slice buffer size start count` is what a reader finds that starts at
position `start` of a buffer of `size` cells and goes round at its end.
-/

namespace Circular

universe u

variable {alpha : Type u} {buffer : Nat → alpha}
  {size start count : Nat} {value : alpha}

def slice (buffer : Nat → alpha) (size start : Nat) :
    (count : Nat) → List alpha
  | 0 => []
  | count + 1 => buffer start :: slice buffer size ((start + 1) % size) count

@[simp]
theorem slice_length : (slice buffer size start count).length = count := by
  induction count generalizing start with
  | zero => rfl
  | succ count inductionHypothesis =>
      rw [slice, List.length_cons, inductionHypothesis]

theorem mod_next (start count : Nat) :
    ((start + 1) % size + count) % size = (start + (count + 1)) % size := by
  rw [Nat.mod_add_mod, Nat.add_assoc, Nat.add_comm 1]

/-- The last cell of a slice. -/
theorem slice_succ (inside : start < size) :
    slice buffer size start (count + 1) =
      slice buffer size start count ++ [buffer ((start + count) % size)] := by
  induction count generalizing start with
  | zero =>
      have first : (start + 0) % size = start := Nat.mod_eq_of_lt inside
      rw [first]
      rfl
  | succ count inductionHypothesis =>
      have next : (start + 1) % size < size := by
        apply Nat.mod_lt
        omega
      rw [slice, inductionHypothesis next, mod_next]
      rfl

/-- Two positions less than a round apart are different cells. -/
theorem mod_ne {offset other : Nat} (before : offset < other)
    (inside : other < size) :
    (start + offset) % size ≠ (start + other) % size := by
  intro same
  have congruent : offset ≡ other [MOD size] :=
    Nat.ModEq.add_left_cancel' start same
  have equal := congruent.eq_of_lt_of_lt (by omega) inside
  omega

/-- Writing behind a slice does not change it. -/
theorem slice_update (inside : start < size) {position : Nat}
    (room : count ≤ position) (within : position < size) :
    slice (Function.update buffer ((start + position) % size) value) size
      start count = slice buffer size start count := by
  induction count with
  | zero => rfl
  | succ count inductionHypothesis =>
      have other : (start + count) % size ≠ (start + position) % size := by
        apply mod_ne
        · omega
        · exact within
      rw [slice_succ inside, slice_succ inside,
        Function.update_of_ne other, inductionHypothesis (by omega)]

/-- Writing the cell behind a slice makes it one longer. -/
theorem slice_push (inside : start < size) (room : count < size) :
    slice (Function.update buffer ((start + count) % size) value) size
      start (count + 1) = slice buffer size start count ++ [value] := by
  rw [slice_succ inside, slice_update inside (Nat.le_refl count) room,
    Function.update_self]

end Circular
