import Mathlib.Data.List.TakeWhile

/-!
# C strings in arrays

An array is the list of its bytes, and a pointer an index into it.  A load
or a store outside the array has no result.
-/

namespace CStrings

/-- A store to an array. -/
def store (array : List UInt8) (index : Nat) (value : UInt8) :
    Option (List UInt8) :=
  if index < array.length then some (array.set index value) else none

/-- How many bytes there are in front of the first one that stops the
scan. -/
def scanList (stop : UInt8 → Bool) : List UInt8 → Option Nat
  | [] => none
  | byte :: bytes =>
      if stop byte then some 0 else (scanList stop bytes).map (· + 1)

/-- `while (!stop(*p)) p++`. -/
def scanFor (stop : UInt8 → Bool) (array : List UInt8) (p : Nat) : Option Nat :=
  (scanList stop (array.drop p)).map (p + ·)

/-- The string at a pointer. -/
def stringAt (array : List UInt8) (p : Nat) : Option (List UInt8) := do
  let stop ← scanFor (· == 0) array p
  return (array.drop p).take (stop - p)

/-- The array holds a string and its NUL. -/
structure HoldsAt (array : List UInt8) (p : Nat) (text : List UInt8) :
    Prop where
  isString : (0 : UInt8) ∉ text
  present : ∃ rest, array.drop p = text ++ 0 :: rest

variable {stop : UInt8 → Bool} {array array' text rest : List UInt8}
  {p : Nat} {byte value : UInt8}

theorem scanList_append (skipped : ∀ byte ∈ text, stop byte = false)
    (found : stop byte = true) :
    scanList stop (text ++ byte :: rest) = some text.length := by
  induction text with
  | nil => exact if_pos found
  | cons first text inductionHypothesis =>
      have later : ∀ byte ∈ text, stop byte = false := fun byte member =>
        skipped byte (List.mem_cons_of_mem _ member)
      rw [List.cons_append, scanList,
        if_neg (by simp [skipped first List.mem_cons_self]),
        inductionHypothesis later]
      rfl

/-- A scan ends at the first byte that stops it. -/
theorem scanFor_eq (skipped : ∀ byte ∈ text, stop byte = false)
    (found : stop byte = true)
    (present : array.drop p = text ++ byte :: rest) :
    scanFor stop array p = some (p + text.length) := by
  rw [scanFor, present, scanList_append skipped found]
  rfl

theorem load_eq (present : array.drop p = byte :: rest) :
    array[p]? = some byte := by
  rw [← List.head?_drop, present, List.head?_cons]

theorem length_of_drop (present : array.drop p = text ++ byte :: rest) :
    p + text.length < array.length := by
  have length := congrArg List.length present
  rw [List.length_drop, List.length_append, List.length_cons] at length
  omega

/-- What lies behind a part of what a pointer points to. -/
theorem drop_add (present : array.drop p = text ++ rest) :
    array.drop (p + text.length) = rest := by
  rw [← List.drop_drop, present, List.drop_left]

/-- A store behind some bytes. -/
theorem store_eq (present : array.drop p = text ++ byte :: rest) :
    ∃ array', store array (p + text.length) value = some array' ∧
      array'.length = array.length ∧
      array'.take (p + text.length) = array.take (p + text.length) ∧
      array'.drop p = text ++ value :: rest := by
  have inside := length_of_drop present
  refine ⟨_, if_pos inside, List.length_set .., ?_, ?_⟩
  · exact List.take_set_of_le (Nat.le_refl _)
  · rw [List.drop_set, if_neg (by omega), present,
      List.set_append_right _ _ (by omega)]
    have zero : p + text.length - p - text.length = 0 := by omega
    rw [zero, List.set_cons_zero]

theorem store_append {front : List UInt8} :
    store (front ++ byte :: rest) front.length value =
      some (front ++ value :: rest) := by
  rw [store, if_pos (by simp), List.set_append_right _ _ (Nat.le_refl _),
    Nat.sub_self, List.set_cons_zero]

theorem HoldsAt.string (holds : HoldsAt array p text) :
    stringAt array p = some text := by
  obtain ⟨rest, present⟩ := holds.present
  have skipped : ∀ byte ∈ text, (byte == 0) = false := by
    intro byte member
    exact beq_false_of_ne fun zero => holds.isString (zero ▸ member)
  rw [stringAt, scanFor_eq skipped rfl present]
  have length : p + text.length - p = text.length := by omega
  simp only [Option.bind_eq_bind, Option.bind_some, length, present,
    List.take_left, Option.pure_def]

/-- A string at the start of an array. -/
theorem HoldsAt.front (isString : (0 : UInt8) ∉ text) :
    HoldsAt (text ++ 0 :: rest) 0 text :=
  ⟨isString, rest, rfl⟩

/-- The first character, or the NUL. -/
theorem HoldsAt.load (holds : HoldsAt array p text) :
    array[p]? = some (text.headD 0) := by
  obtain ⟨rest, present⟩ := holds.present
  cases text with
  | nil => exact load_eq present
  | cons first text => exact load_eq present

/-- A string does not depend on what lies behind it. -/
theorem HoldsAt.of_take (holds : HoldsAt array p text)
    (same : array'.take (p + text.length + 1) =
      array.take (p + text.length + 1)) : HoldsAt array' p text := by
  obtain ⟨rest, present⟩ := holds.present
  have inside := length_of_drop present
  have front : (array.take (p + text.length + 1)).drop p = text ++ [0] := by
    have length : p + text.length + 1 - p = (text ++ [0]).length := by
      rw [List.length_append, List.length_singleton]
      omega
    have shape : text ++ 0 :: rest = text ++ [0] ++ rest := by simp
    rw [List.drop_take, present, length, shape, List.take_left]
  refine ⟨holds.isString, array'.drop (p + text.length + 1), ?_⟩
  have whole := List.take_append_drop (p + text.length + 1) array'
  have reach : p ≤ (array'.take (p + text.length + 1)).length := by
    rw [same, List.length_take]
    omega
  have split : (array'.take (p + text.length + 1) ++
      array'.drop (p + text.length + 1)).drop p =
        (array'.take (p + text.length + 1)).drop p ++
          array'.drop (p + text.length + 1) :=
    List.drop_append_of_le_length reach
  rw [whole, same, front] at split
  rw [split, List.append_assoc, List.singleton_append]

/-! ## Fields between separators -/

/-- The longest parts of a list without separators. -/
def fields (separator : UInt8 → Bool) (bytes : List UInt8) :
    List (List UInt8) :=
  (bytes.splitOnP separator).filter (· ≠ [])

variable {separator : UInt8 → Bool} {field : List UInt8}

theorem fields_nil : fields separator [] = [] := rfl

theorem fields_separator (found : separator byte = true) :
    fields separator (byte :: rest) = fields separator rest := by
  rw [fields, ← List.nil_append (byte :: rest),
    List.splitOnP_append_cons_of_forall_mem (by simp) byte found]
  rfl

/-- Separators in front do not matter. -/
theorem fields_dropWhile (bytes : List UInt8) :
    fields separator (bytes.dropWhile separator) = fields separator bytes := by
  induction bytes with
  | nil => rfl
  | cons byte bytes inductionHypothesis =>
      by_cases found : separator byte = true
      · rw [List.dropWhile_cons_of_pos found, fields_separator found,
          inductionHypothesis]
      · rw [List.dropWhile_cons_of_neg found]

theorem fields_single (nonempty : field ≠ [])
    (solid : ∀ byte ∈ field, separator byte = false) :
    fields separator field = [field] := by
  rw [fields, List.splitOnP_eq_singleton solid,
    List.filter_cons_of_pos (by simpa using nonempty), List.filter_nil]

theorem fields_cons (nonempty : field ≠ [])
    (solid : ∀ byte ∈ field, separator byte = false)
    (found : separator byte = true) :
    fields separator (field ++ byte :: rest) =
      field :: fields separator rest := by
  rw [fields, List.splitOnP_append_cons_of_forall_mem solid byte found,
    List.filter_cons_of_pos (by simpa using nonempty), fields]

end CStrings
