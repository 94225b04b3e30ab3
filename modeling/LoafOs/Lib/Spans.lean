import Mathlib.Algebra.BigOperators.Group.Finset.Basic
import Mathlib.Algebra.Order.BigOperators.Group.Finset

/-!
# Spans laid end to end

Span number `i` is `length i` long and starts where the one before it
ends.  A value lies in one span only, and a scan that takes one span after
the other off the value finds it.
-/

namespace LoafOs

/-- Where span number `index` starts. -/
def spanStart (length : ℕ → ℕ) (index : ℕ) : ℕ :=
  ∑ i ∈ Finset.range index, length i

/-- The scan has passed the spans before `index`, and `rest` of `value` is
left. -/
def SpansPassed (length : ℕ → ℕ) (value index rest : ℕ) : Prop :=
  value = spanStart length index + rest

/-- `value` lies in span number `index`, `offset` after its start. -/
structure InSpan (length : ℕ → ℕ) (value index offset : ℕ) : Prop where
  passed : SpansPassed length value index offset
  inside : offset < length index

section Spans

variable {length : ℕ → ℕ} {value index other offset rest : ℕ}

@[simp]
theorem spanStart_zero : spanStart length 0 = 0 :=
  Finset.sum_range_zero length

theorem spanStart_succ (index : ℕ) :
    spanStart length (index + 1) = spanStart length index + length index :=
  Finset.sum_range_succ length index

theorem spanStart_mono (before : index ≤ other) :
    spanStart length index ≤ spanStart length other := by
  apply Finset.sum_le_sum_of_subset
  exact Finset.range_subset_range.mpr before

theorem spanStart_congr {length' : ℕ → ℕ}
    (same : ∀ i < index, length i = length' i) :
    spanStart length index = spanStart length' index := by
  apply Finset.sum_congr rfl
  intro i inside
  exact same i (Finset.mem_range.mp inside)

/-- Spans of `least` or more reach at least that far. -/
theorem spanStart_ge {least : ℕ} (long : ∀ i, least ≤ length i)
    (index : ℕ) : least * index ≤ spanStart length index := by
  induction index with
  | zero => simp
  | succ index inductionHypothesis =>
      have last := long index
      rw [spanStart_succ, Nat.mul_succ]
      omega

theorem SpansPassed.begin (value : ℕ) : SpansPassed length value 0 value := by
  rw [SpansPassed, spanStart_zero, Nat.zero_add]

theorem SpansPassed.next (passed : SpansPassed length value index rest)
    (room : length index ≤ rest) :
    SpansPassed length value (index + 1) (rest - length index) := by
  rw [SpansPassed] at *
  rw [spanStart_succ]
  omega

theorem SpansPassed.start_le (passed : SpansPassed length value index rest) :
    spanStart length index ≤ value := by
  rw [SpansPassed] at passed
  omega

/-- A value that lies in a span lies before the start of the next one. -/
theorem InSpan.before_next (inSpan : InSpan length value index offset) :
    value < spanStart length (index + 1) := by
  have passed : value = spanStart length index + offset := inSpan.passed
  have inside := inSpan.inside
  rw [spanStart_succ]
  omega

theorem InSpan.index_le (inSpan : InSpan length value index offset)
    (passed : SpansPassed length value other rest) : other ≤ index := by
  by_contra later
  have next : index + 1 ≤ other := Nat.lt_of_not_le later
  have order : spanStart length (index + 1) ≤ spanStart length other :=
    spanStart_mono next
  have before := inSpan.before_next
  have reached := passed.start_le
  omega

/-- A value lies in one span only. -/
theorem InSpan.unique (inSpan : InSpan length value index offset)
    (inSpan' : InSpan length value other rest) :
    index = other ∧ offset = rest := by
  have same : index = other := by
    apply Nat.le_antisymm
    · exact inSpan'.index_le inSpan.passed
    · exact inSpan.index_le inSpan'.passed
  subst same
  have passed : value = spanStart length index + offset := inSpan.passed
  have passed' : value = spanStart length index + rest := inSpan'.passed
  omega

end Spans

end LoafOs
