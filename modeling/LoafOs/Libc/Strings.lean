import LoafOs.Lib.CStrings
import LoafOs.Fs.FatDirectory

/-!
# Strings in the C library

The functions of `src/libc/string.c` that the shell and the path functions
call, on arrays.
-/

namespace LoafOs

open CStrings

/-- `strlen`. -/
def strlen (array : List UInt8) (p : Nat) : Option Nat :=
  (scanFor (· == 0) array p).map (· - p)

/-- `while (n-- > 0) *p++ = '\0'`. -/
def padNul : (n : Nat) → (dst : List UInt8) → (p : Nat) →
    Option (List UInt8)
  | 0, dst, _ => some dst
  | n + 1, dst, p => do
      let dst ← store dst p 0
      padNul n dst (p + 1)

/-- `strncpy` with its pointers `p` and `s`. -/
def strncpy : (n : Nat) → (dst : List UInt8) → (p : Nat) →
    (src : List UInt8) → (s : Nat) → Option (List UInt8)
  | 0, dst, _, _, _ => some dst
  | n + 1, dst, p, src, s => do
      let c ← src[s]?
      if c = 0 then
        padNul (n + 1) dst p
      else
        let dst ← store dst p c
        strncpy n dst (p + 1) src (s + 1)

/-- The loop of `strncat`, with the terminator behind it. -/
def strncatLoop : (n : Nat) → (dst : List UInt8) → (p : Nat) →
    (src : List UInt8) → (s : Nat) → Option (List UInt8)
  | 0, dst, p, src, s => do
      let _ ← src[s]?
      store dst p 0
  | n + 1, dst, p, src, s => do
      let c ← src[s]?
      if c = 0 then
        store dst p 0
      else
        let dst ← store dst p c
        strncatLoop n dst (p + 1) src (s + 1)

/-- `strncat`. -/
def strncat (n : Nat) (dst : List UInt8) (d : Nat) (src : List UInt8)
    (s : Nat) : Option (List UInt8) := do
  let length ← strlen dst d
  strncatLoop n dst (d + length) src s

/-- `memcpy`. -/
def memcpy : (n : Nat) → (dst : List UInt8) → (d : Nat) →
    (src : List UInt8) → (s : Nat) → Option (List UInt8)
  | 0, dst, _, _, _ => some dst
  | n + 1, dst, d, src, s => do
      let c ← src[s]?
      let dst ← store dst d c
      memcpy n dst (d + 1) src (s + 1)

/-- `strchr` for a character that is not NUL. -/
def strchr (array : List UInt8) (p : Nat) (c : UInt8) :
    Option (Option Nat) := do
  let stop ← scanFor (fun byte => byte == c || byte == 0) array p
  let found ← array[stop]?
  return if found = c then some stop else none

/-- The loop of `strcmp`. -/
def strcmpLoop : (left right : List UInt8) → Option Int
  | x :: left, y :: right =>
      if x ≠ 0 ∧ x = y then
        strcmpLoop left right
      else
        some (x.toNat - y.toNat)
  | _, _ => none

/-- `strcmp`. -/
def strcmp (left : List UInt8) (p : Nat) (right : List UInt8) (q : Nat) :
    Option Int :=
  strcmpLoop (left.drop p) (right.drop q)

section Strings

variable {array left right src front old rest text text' : List UInt8}
  {p q s n : Nat} {c : UInt8}

theorem strlen_eq (holds : HoldsAt array p text) :
    strlen array p = some text.length := by
  obtain ⟨rest, present⟩ := holds.present
  have skipped : ∀ byte ∈ text, (byte == 0) = false := by
    intro byte member
    exact beq_false_of_ne fun zero => holds.isString (zero ▸ member)
  rw [strlen, scanFor_eq skipped rfl present, Option.map_some]
  congr 1
  omega

theorem padNul_eq (length : old.length = n) :
    padNul n (front ++ old ++ rest) front.length =
      some (front ++ List.replicate n 0 ++ rest) := by
  induction n generalizing front old with
  | zero =>
      rw [List.eq_nil_of_length_eq_zero length]
      rfl
  | succ n inductionHypothesis =>
      obtain ⟨byte, old, rfl⟩ := List.exists_cons_of_length_eq_add_one length
      rw [List.length_cons, Nat.add_right_cancel_iff] at length
      have stored := @store_append (old ++ rest) byte 0 front
      have step := @inductionHypothesis (front ++ [0]) old length
      rw [List.length_append, List.length_singleton] at step
      simp only [List.append_assoc, List.cons_append, List.nil_append]
        at step ⊢
      rw [padNul, stored]
      exact step

/-- `strncpy` of a string that fits. -/
theorem strncpy_eq (holds : HoldsAt src s text) (fits : text.length ≤ n)
    (length : old.length = n) :
    strncpy n (front ++ old ++ rest) front.length src s =
      some (front ++ (text ++ List.replicate (n - text.length) 0) ++
        rest) := by
  induction n generalizing front old text s with
  | zero =>
      rw [List.eq_nil_of_length_eq_zero length,
        List.eq_nil_of_length_eq_zero (Nat.le_zero.mp fits)]
      rfl
  | succ n inductionHypothesis =>
      have load := holds.load
      cases text with
      | nil =>
          rw [strncpy, load]
          exact padNul_eq length
      | cons first text =>
          obtain ⟨byte, old, rfl⟩ :=
            List.exists_cons_of_length_eq_add_one length
          obtain ⟨later, present⟩ := holds.present
          rw [List.length_cons, Nat.add_right_cancel_iff] at length
          rw [List.length_cons, Nat.add_le_add_iff_right] at fits
          have solid : first ≠ 0 := fun zero =>
            holds.isString (zero ▸ List.mem_cons_self)
          have next : HoldsAt src (s + 1) text :=
            ⟨fun member => holds.isString (List.mem_cons_of_mem _ member),
              later, @drop_add _ [first] _ s present⟩
          have stored := @store_append (old ++ rest) byte first front
          have step := @inductionHypothesis (front ++ [first]) old text
            (s + 1) next fits length
          rw [List.length_append, List.length_singleton] at step
          have count : n + 1 - (first :: text).length = n - text.length := by
            rw [List.length_cons]
            omega
          rw [count]
          simp only [List.append_assoc, List.cons_append, List.nil_append]
            at step ⊢
          rw [strncpy, load, List.headD_cons]
          simp only [Option.bind_eq_bind, Option.bind_some]
          rw [if_neg solid, stored]
          exact step

theorem strncatLoop_eq (holds : HoldsAt src s text) (fits : text.length ≤ n)
    (length : old.length = text.length + 1) :
    strncatLoop n (front ++ old ++ rest) front.length src s =
      some (front ++ text ++ 0 :: rest) := by
  induction text generalizing front old s n with
  | nil =>
      obtain ⟨byte, old, rfl⟩ := List.exists_cons_of_length_eq_add_one length
      have none : old = [] := List.eq_nil_of_length_eq_zero
        (by simpa using length)
      subst none
      have stored := @store_append rest byte 0 front
      have load := holds.load
      cases n with
      | zero =>
          rw [strncatLoop, load]
          simpa using stored
      | succ n =>
          rw [strncatLoop, load]
          simpa using stored
  | cons first text inductionHypothesis =>
      obtain ⟨byte, old, rfl⟩ := List.exists_cons_of_length_eq_add_one length
      obtain ⟨later, present⟩ := holds.present
      rw [List.length_cons, Nat.add_right_cancel_iff] at length
      have solid : first ≠ 0 := fun zero =>
        holds.isString (zero ▸ List.mem_cons_self)
      have next : HoldsAt src (s + 1) text :=
        ⟨fun member => holds.isString (List.mem_cons_of_mem _ member),
          later, @drop_add _ [first] _ s present⟩
      cases n with
      | zero => exact absurd fits (by simp)
      | succ n =>
          rw [List.length_cons, Nat.add_le_add_iff_right] at fits
          have stored := @store_append (old ++ rest) byte first front
          have step := @inductionHypothesis (front ++ [first]) old (s + 1) n
            next fits length
          rw [List.length_append, List.length_singleton] at step
          simp only [List.append_assoc, List.cons_append, List.nil_append]
            at step ⊢
          rw [strncatLoop, holds.load, List.headD_cons]
          simp only [Option.bind_eq_bind, Option.bind_some]
          rw [if_neg solid, stored]
          exact step

/-- `strncat` of a string that fits. -/
theorem strncat_eq (isString : (0 : UInt8) ∉ front)
    (holds : HoldsAt src s text) (fits : text.length ≤ n)
    (length : old.length = text.length) :
    strncat n (front ++ 0 :: old ++ rest) 0 src s =
      some (front ++ text ++ 0 :: rest) := by
  have first : HoldsAt (front ++ 0 :: old ++ rest) 0 front :=
    ⟨isString, old ++ rest, by simp⟩
  have loop := @strncatLoop_eq src front (0 :: old) rest text s n holds fits
    (by rw [List.length_cons, length])
  rw [strncat, strlen_eq first]
  simpa using loop

theorem memcpy_eq (present : src.drop s = text ++ right)
    (fits : text.length = n) (length : old.length = n) :
    memcpy n (front ++ old ++ rest) front.length src s =
      some (front ++ text ++ rest) := by
  induction n generalizing front old text s with
  | zero =>
      rw [List.eq_nil_of_length_eq_zero length,
        List.eq_nil_of_length_eq_zero fits]
      rfl
  | succ n inductionHypothesis =>
      obtain ⟨byte, old, rfl⟩ := List.exists_cons_of_length_eq_add_one length
      obtain ⟨first, text, rfl⟩ := List.exists_cons_of_length_eq_add_one fits
      rw [List.length_cons, Nat.add_right_cancel_iff] at length fits
      have stored := @store_append (old ++ rest) byte first front
      have step := @inductionHypothesis (front ++ [first]) old text (s + 1)
        (@drop_add _ [first] _ s present) fits length
      rw [List.length_append, List.length_singleton] at step
      simp only [List.append_assoc, List.cons_append, List.nil_append]
        at step ⊢
      rw [memcpy, load_eq present]
      simp only [Option.bind_eq_bind, Option.bind_some]
      rw [stored]
      exact step

/-- `strchr` finds exactly the characters of the string. -/
theorem strchr_eq (holds : HoldsAt array p text) (solid : c ≠ 0) :
    ∃ found, strchr array p c = some found ∧
      (found.isSome = true ↔ c ∈ text) := by
  obtain ⟨rest, present⟩ := holds.present
  have stops : ∀ byte : UInt8, byte ∈ text → byte ≠ c →
      (byte == c || byte == 0) = false := by
    intro byte member other
    have inside : byte ≠ 0 := fun zero => holds.isString (zero ▸ member)
    simp [other, inside]
  by_cases member : c ∈ text
  · obtain ⟨earlier, later, rfl, first⟩ := List.eq_append_cons_of_mem member
    have skipped : ∀ byte ∈ earlier, (byte == c || byte == 0) = false :=
      fun byte inside => stops byte (List.mem_append_left _ inside)
        fun same => first (same ▸ inside)
    rw [List.append_assoc, List.cons_append] at present
    refine ⟨some (p + earlier.length), ?_, by simp⟩
    rw [strchr, scanFor_eq skipped (by simp) present]
    simp only [Option.bind_eq_bind, Option.bind_some]
    rw [load_eq (drop_add present)]
    exact congrArg some (if_pos rfl)
  · have skipped : ∀ byte ∈ text, (byte == c || byte == 0) = false :=
      fun byte inside => stops byte inside fun same => member (same ▸ inside)
    refine ⟨none, ?_, by simpa using member⟩
    rw [strchr, scanFor_eq skipped (by simp) present]
    simp only [Option.bind_eq_bind, Option.bind_some]
    rw [load_eq (drop_add present)]
    exact congrArg some (if_neg solid.symm)

theorem strcmpLoop_eq (leftString : (0 : UInt8) ∉ text)
    (rightString : (0 : UInt8) ∉ text') :
    ∃ order, strcmpLoop (text ++ 0 :: left) (text' ++ 0 :: right) =
        some order ∧ (order = 0 ↔ text = text') := by
  induction text generalizing text' with
  | nil =>
      cases text' with
      | nil => exact ⟨0, rfl, by simp⟩
      | cons y text' =>
          have solid : y ≠ 0 := fun zero =>
            rightString (zero ▸ List.mem_cons_self)
          have positive : 0 < y.toNat := UInt8.pos_iff_ne_zero.mpr solid
          refine ⟨(0 : UInt8).toNat - y.toNat, rfl, ?_⟩
          have zero : ((0 : UInt8).toNat : Int) = 0 := rfl
          rw [zero]
          simp only [reduceCtorEq, iff_false]
          omega
  | cons x text inductionHypothesis =>
      have solid : x ≠ 0 := fun zero => leftString (zero ▸ List.mem_cons_self)
      have leftRest : (0 : UInt8) ∉ text := fun member =>
        leftString (List.mem_cons_of_mem _ member)
      cases text' with
      | nil =>
          have positive : 0 < x.toNat := UInt8.pos_iff_ne_zero.mpr solid
          refine ⟨x.toNat - (0 : UInt8).toNat, ?_, ?_⟩
          · exact if_neg fun same => solid same.2
          · have zero : ((0 : UInt8).toNat : Int) = 0 := rfl
            rw [zero]
            simp only [reduceCtorEq, iff_false]
            omega
      | cons y text' =>
          have rightRest : (0 : UInt8) ∉ text' := fun member =>
            rightString (List.mem_cons_of_mem _ member)
          rw [List.cons_append, List.cons_append, strcmpLoop]
          by_cases same : x = y
          · rw [if_pos ⟨solid, same⟩]
            obtain ⟨order, result, meaning⟩ :=
              inductionHypothesis leftRest rightRest
            exact ⟨order, result, by rw [meaning, same]; simp⟩
          · rw [if_neg fun both => same both.2]
            refine ⟨_, rfl, ?_⟩
            have different : x.toNat ≠ y.toNat := fun equal =>
              same (UInt8.toNat.inj equal)
            simp only [List.cons.injEq, same, false_and, iff_false]
            omega

/-- `strcmp` gives 0 exactly for equal strings. -/
theorem strcmp_eq (leftHolds : HoldsAt left p text)
    (rightHolds : HoldsAt right q text') :
    ∃ order, strcmp left p right q = some order ∧
      (order = 0 ↔ text = text') := by
  obtain ⟨leftRest, leftPresent⟩ := leftHolds.present
  obtain ⟨rightRest, rightPresent⟩ := rightHolds.present
  rw [strcmp, leftPresent, rightPresent]
  exact strcmpLoop_eq leftHolds.isString rightHolds.isString

end Strings

end LoafOs
