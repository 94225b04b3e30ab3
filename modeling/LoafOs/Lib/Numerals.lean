import Mathlib.Data.Nat.Digits.Lemmas
import Mathlib.Data.List.TakeDrop

/-!
# Numerals

Reading a positional numeral over any alphabet, most significant symbol
first, and writing the shortest one of a number.
-/

namespace LoafOs

universe u

section Numerals

variable {alpha : Type u} {symbol : Nat → alpha}
  {symbolValue : alpha → Option Nat} {base value number : Nat}
  {text : List alpha} {letter zero : alpha}

/-- The value of a numeral whose symbols so far are worth `value`. -/
def readOnward (symbolValue : alpha → Option Nat) (base : Nat) :
    (value : Nat) → List alpha → Option Nat
  | value, [] => some value
  | value, letter :: text => do
      let digit ← symbolValue letter
      readOnward symbolValue base (value * base + digit) text

/-- The value of a numeral, which has a symbol at least. -/
def readNumeral (symbolValue : alpha → Option Nat) (base : Nat)
    (text : List alpha) : Option Nat :=
  if text.isEmpty then none else readOnward symbolValue base 0 text

/-- The symbols of a number, none for zero. -/
def writeNumeral (symbol : Nat → alpha) (base number : Nat) : List alpha :=
  ((Nat.digits base number).map symbol).reverse

theorem readOnward_append (front text : List alpha) :
    readOnward symbolValue base value (front ++ text) =
      (readOnward symbolValue base value front).bind fun value =>
        readOnward symbolValue base value text := by
  induction front generalizing value with
  | nil => rfl
  | cons letter front inductionHypothesis =>
      rw [List.cons_append, readOnward, readOnward]
      cases symbolValue letter with
      | none => rfl
      | some digit => exact inductionHypothesis

/-- A letter that is no symbol spoils the numeral. -/
theorem readOnward_foreign (isForeign : symbolValue letter = none)
    (inside : letter ∈ text) :
    readOnward symbolValue base value text = none := by
  induction text generalizing value with
  | nil => exact absurd inside List.not_mem_nil
  | cons first text inductionHypothesis =>
      rw [readOnward]
      cases isFirst : symbolValue first with
      | none => rfl
      | some digit =>
          apply inductionHypothesis
          apply List.mem_of_ne_of_mem _ inside
          intro same
          rw [same, isFirst] at isForeign
          contradiction

theorem readOnward_zeros (isZero : symbolValue zero = some 0)
    (count : Nat) :
    readOnward symbolValue base 0 (List.replicate count zero ++ text) =
      readOnward symbolValue base 0 text := by
  induction count with
  | zero => rfl
  | succ count inductionHypothesis =>
      rw [List.replicate_succ, List.cons_append, readOnward, isZero]
      simpa using inductionHypothesis

theorem writeNumeral_succ (large : 1 < base) (positive : 0 < number) :
    writeNumeral symbol base number =
      writeNumeral symbol base (number / base) ++
        [symbol (number % base)] := by
  rw [writeNumeral, Nat.digits_def' large positive, List.map_cons,
    List.reverse_cons]
  rfl

/-- A written number reads back. -/
theorem readOnward_writeNumeral (large : 1 < base)
    (isSymbol : ∀ digit < base, symbolValue (symbol digit) = some digit)
    (number : Nat) :
    readOnward symbolValue base 0 (writeNumeral symbol base number) =
      some number := by
  induction number using Nat.strongRecOn with
  | ind number inductionHypothesis =>
      cases number with
      | zero =>
          rw [writeNumeral, Nat.digits_zero]
          rfl
      | succ number =>
          have positive := Nat.succ_pos number
          have smaller := Nat.div_lt_self positive large
          have inside := Nat.mod_lt (number + 1)
            (show 0 < base from Nat.lt_trans Nat.zero_lt_one large)
          rw [writeNumeral_succ large positive, readOnward_append,
            inductionHypothesis _ smaller, Option.bind_some, readOnward,
            isSymbol _ inside]
          exact congrArg some (Nat.div_add_mod' (number + 1) base)

theorem writeNumeral_length (large : 1 < base) {count : Nat} :
    (writeNumeral symbol base number).length ≤ count ↔
      number < base ^ count := by
  rw [writeNumeral, List.length_reverse, List.length_map]
  exact Nat.digits_length_le_iff large number

theorem writeNumeral_forall {motive : alpha → Prop} (large : 1 < base)
    (each : ∀ digit < base, motive (symbol digit)) :
    ∀ letter ∈ writeNumeral symbol base number, motive letter := by
  intro letter inside
  rw [writeNumeral, List.mem_reverse, List.mem_map] at inside
  obtain ⟨digit, isDigit, rfl⟩ := inside
  exact each digit (Nat.digits_lt_base large isDigit)

end Numerals

end LoafOs
