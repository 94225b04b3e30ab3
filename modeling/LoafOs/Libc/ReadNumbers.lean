import LoafOs.Libc.NumberText
import LoafOs.Libc.Specifiers
import Mathlib.Data.List.DropRight

/-!
# Reading numbers

`atoi` of `src/libc/stdlib.c`, numerals of a base with an optional sign, and
what is left of a padded text without its spaces.
-/

namespace LoafOs

/-! ## Reading -/

/-- What `atoi` skips. -/
def isBlank (c : UInt8) : Bool := c == 0x20 || c == 0x09 || c == 0x0a

/-- `atoi`, with the digit loop that it shares with the widths. -/
def atoi (str : List UInt8) : Int32 :=
  match str.dropWhile isBlank with
  | [] => 0
  | c :: str =>
      if c = 0x2d then (parseDigits 0 str).1 * -1
      else if c = 0x2b then (parseDigits 0 str).1 * 1
      else (parseDigits 0 (c :: str)).1 * 1

/-- The value of a digit in this base. -/
def digitValue (base : Nat) (c : UInt8) : Option Nat :=
  if 0x30 ≤ c ∧ c ≤ 0x39 ∧ c.toNat - 0x30 < base then
    some (c.toNat - 0x30)
  else if 0x61 ≤ c ∧ c ≤ 0x7a ∧ c.toNat - 0x61 + 10 < base then
    some (c.toNat - 0x61 + 10)
  else none

/-- An optional `-` and digits. -/
def readInteger (base : Nat) (text : List UInt8) : Option Int :=
  if text.head? = some 0x2d then
    (readNumeral (digitValue base) base text.tail).map
      fun number : Nat => -(number : Int)
  else
    (readNumeral (digitValue base) base text).map
      fun number : Nat => (number : Int)

def isSpace (c : UInt8) : Bool := c == 0x20

def stripSpaces (text : List UInt8) : List UInt8 :=
  (text.dropWhile isSpace).rdropWhile isSpace

/-! ## Numerals -/

theorem digitValue_utoaDigit {base digit : Nat} (small : base ≤ 16)
    (isDigit : digit < base) :
    digitValue base (utoaDigit digit) = some digit := by
  have each : ∀ digit < 16, ∀ base < 17, digit < base →
      digitValue base (utoaDigit digit) = some digit := by
    decide +kernel
  exact each digit (by omega) base (by omega) isDigit

/-- The digits of `utoa` denote its value. -/
theorem readOnward_utoa {base : Nat} (large : 1 < base)
    (small : base ≤ 16) (value : UInt32) :
    readOnward (digitValue base) base 0 (utoa value base) =
      some value.toNat := by
  have zero : digitValue base 0x30 = some 0 :=
    digitValue_utoaDigit small (Nat.lt_trans Nat.zero_lt_one large)
  rw [utoa_eq large]
  split
  case isTrue isZero =>
    rw [isZero, readOnward, zero, Option.bind_eq_bind, Option.bind_some,
      Nat.zero_mul, Nat.add_zero]
    rfl
  case isFalse nonzero =>
    apply readOnward_writeNumeral large
    intro digit isDigit
    exact digitValue_utoaDigit small isDigit

section Readers

variable {base number : Nat} {text : List UInt8}

/-- Neither a `-` nor a space is part of a numeral. -/
theorem numeral_foreign {c : UInt8} (foreign : c < 0x30)
    (isNumeral :
      readOnward (digitValue base) base 0 text = some number) :
    c ∉ text := by
  intro inside
  have noDigit : digitValue base c = none := by
    have low : ¬ 0x30 ≤ c := UInt8.not_le.mpr foreign
    have lower : ¬ 0x61 ≤ c := by
      intro letter
      exact low (UInt8.le_trans (by decide) letter)
    rw [digitValue, if_neg fun digit => low digit.1,
      if_neg fun letter => lower letter.1]
  rw [readOnward_foreign noDigit inside] at isNumeral
  contradiction

theorem readInteger_numeral (nonempty : text ≠ [])
    (isNumeral :
      readOnward (digitValue base) base 0 text = some number) :
    readInteger base text = some (number : Int) := by
  have noSign : text.head? ≠ some 0x2d := by
    intro isSign
    exact numeral_foreign (by decide) isNumeral
      (List.mem_of_mem_head? isSign)
  rw [readInteger, if_neg noSign, readNumeral,
    if_neg (by simpa using nonempty), isNumeral]
  rfl

theorem readInteger_negative (nonempty : text ≠ [])
    (isNumeral :
      readOnward (digitValue base) base 0 text = some number) :
    readInteger base (0x2d :: text) = some (-(number : Int)) := by
  rw [readInteger, if_pos List.head?_cons, List.tail_cons, readNumeral,
    if_neg (by simpa using nonempty), isNumeral]
  rfl

/-- Zeros in front of a sign. -/
theorem readInteger_displaced {count : Nat} (positive : 0 < count) :
    readInteger base (List.replicate count 0x30 ++ 0x2d :: text) =
      none := by
  obtain ⟨zeros, rfl⟩ := Nat.exists_eq_succ_of_ne_zero
    (Nat.ne_of_gt positive)
  have foreign : digitValue base 0x2d = none := by
    rw [digitValue, if_neg (by simp), if_neg (by simp)]
  have inside : 0x2d ∈ List.replicate (zeros + 1) 0x30 ++ 0x2d :: text :=
    List.mem_append_right _ List.mem_cons_self
  have noSign : (List.replicate (zeros + 1) (0x30 : UInt8) ++
      0x2d :: text).head? ≠ some 0x2d := by
    rw [List.replicate_succ]
    simp
  rw [readInteger, if_neg noSign, readNumeral, if_neg (by simp),
    readOnward_foreign foreign inside]
  rfl

theorem digitValue_ten {c : UInt8} {digit : Nat}
    (isDigit : digitValue 10 c = some digit) :
    (0x30 ≤ c ∧ c ≤ 0x39) ∧ (c - 0x30).toNat = digit := by
  rw [digitValue] at isDigit
  split at isDigit
  case isTrue range =>
    have value := Option.some.inj isDigit
    constructor
    · exact ⟨range.1, range.2.1⟩
    · rw [UInt8.toNat_sub_of_le _ _ range.1]
      exact value
  case isFalse =>
    split at isDigit
    case isTrue letter =>
      have tooLarge := letter.2.2
      omega
    case isFalse => contradiction

theorem parseDigits_numeral {value : Nat}
    (isNumeral :
      readOnward (digitValue 10) 10 value text = some number) :
    (parseDigits (Int32.ofNat value) text).1 = Int32.ofNat number := by
  induction text generalizing value with
  | nil =>
      have same : value = number := Option.some.inj isNumeral
      rw [parseDigits, same]
  | cons c text inductionHypothesis =>
      rw [readOnward] at isNumeral
      cases isDigit : digitValue 10 c with
      | none =>
          rw [isDigit] at isNumeral
          contradiction
      | some digit =>
          rw [isDigit] at isNumeral
          have read := digitValue_ten isDigit
          have next : Int32.ofNat value * 10 +
              (c - 0x30).toUInt32.toInt32 =
                Int32.ofNat (value * 10 + digit) := by
            have widened : (c - 0x30).toUInt32.toInt32 =
                Int32.ofNat (c - 0x30).toNat := by
              rw [← UInt32.ofNat_uInt8ToNat, UInt32.toInt32_ofNat']
            rw [Int32.ofNat_add, Int32.ofNat_mul, ← read.2, widened]
            rfl
          rw [parseDigits, if_pos read.1, next]
          exact inductionHypothesis isNumeral

theorem atoi_numeral (nonempty : text ≠ [])
    (isNumeral : readOnward (digitValue 10) 10 0 text = some number) :
    atoi text = Int32.ofNat number := by
  cases text with
  | nil => contradiction
  | cons c text =>
      have outside (other : UInt8) (low : other < 0x30) : c ≠ other := by
        intro same
        exact numeral_foreign low isNumeral (same ▸ List.mem_cons_self)
      have noBlank : ¬ isBlank c = true := by
        simp [isBlank, outside 0x20 (by decide), outside 0x09 (by decide),
          outside 0x0a (by decide)]
      rw [atoi, List.dropWhile_cons_of_neg noBlank]
      dsimp only
      rw [if_neg (outside 0x2d (by decide)),
        if_neg (outside 0x2b (by decide)), Int32.mul_one]
      exact parseDigits_numeral isNumeral

theorem atoi_negative
    (isNumeral : readOnward (digitValue 10) 10 0 text = some number) :
    atoi (0x2d :: text) = -Int32.ofNat number := by
  have noBlank : ¬ isBlank 0x2d = true := by decide
  have digits := parseDigits_numeral isNumeral
  rw [atoi, List.dropWhile_cons_of_neg noBlank]
  dsimp only
  rw [if_pos rfl, Int32.mul_neg, Int32.mul_one]
  exact congrArg (fun value => -value) digits

end Readers

/-! ## The padding -/

theorem rdropWhile_append {stops : UInt8 → Bool} {text : List UInt8}
    (count : Nat) (c : UInt8) (stop : stops c)
    (all : ∀ c ∈ text, stops c = false) :
    (text ++ List.replicate count c).rdropWhile stops = text := by
  induction count with
  | zero =>
      rw [List.replicate_zero, List.append_nil,
        List.rdropWhile_eq_self_iff]
      intro nonempty
      simpa using all _ (List.getLast_mem nonempty)
  | succ count inductionHypothesis =>
      rw [List.replicate_succ', ← List.append_assoc,
        List.rdropWhile_concat_pos _ _ _ stop]
      exact inductionHypothesis

theorem dropWhile_replicate {stops : UInt8 → Bool} {text : List UInt8}
    (count : Nat) (c : UInt8) (stop : stops c)
    (first : StopsAt stops text) :
    (List.replicate count c ++ text).dropWhile stops = text := by
  have all : ∀ other ∈ List.replicate count c, stops other := by
    intro other inside
    rw [List.eq_of_mem_replicate inside]
    exact stop
  exact (takeWhile_stops all first).2

/-- The spaces of the width go, and the text stays. -/
theorem stripSpaces_padded {text : List UInt8} (front back : Nat)
    (nonempty : text ≠ []) (noSpace : 0x20 ∉ text) :
    stripSpaces (List.replicate front 0x20 ++
      (text ++ List.replicate back 0x20)) = text := by
  have all (c : UInt8) (inside : c ∈ text) : isSpace c = false := by
    have other : c ≠ 0x20 := fun same => noSpace (same ▸ inside)
    simpa [isSpace] using other
  have first : StopsAt isSpace (text ++ List.replicate back 0x20) := by
    intro c isFirst
    cases text with
    | nil => contradiction
    | cons head text =>
        have same : head = c := Option.some.inj isFirst
        exact all c (same ▸ List.mem_cons_self)
  rw [stripSpaces, dropWhile_replicate front 0x20 rfl first]
  exact rdropWhile_append back 0x20 rfl all

/-- The zeros in front of a number that is padded with zeros. -/
def paddingZeros (directive : Directive) (length : Nat) : Nat :=
  if directive.zeroPad then
    (directive.width - Int32.ofNat length).toInt.toNat
  else 0

theorem stripSpaces_padAndPut {directive : Directive} {text : List UInt8}
    (oneSide : directive.zeroPad → directive.leftAlign = false)
    (nonempty : text ≠ []) (noSpace : 0x20 ∉ text) :
    stripSpaces (padAndPut directive text) =
      List.replicate (paddingZeros directive text.length) 0x30 ++
        text := by
  have stripped := @stripSpaces_padded text
  rw [padAndPut, paddingZeros]
  generalize (directive.width - Int32.ofNat text.length).toInt.toNat = pad
  cases isZero : directive.zeroPad with
  | true =>
      have zeros : 0x20 ∉ List.replicate pad 0x30 ++ text := by
        rw [List.mem_append]
        rintro (inZeros | inText)
        · exact absurd (List.eq_of_mem_replicate inZeros) (by decide)
        · exact noSpace inText
      have whole := stripSpaces_padded 0 0
        (List.append_ne_nil_of_right_ne_nil _ nonempty) zeros
      rw [List.replicate_zero, List.nil_append, List.append_nil] at whole
      rw [oneSide isZero, if_neg Bool.false_ne_true, if_pos rfl]
      exact whole
  | false =>
      cases directive.leftAlign with
      | true => exact stripped 0 pad nonempty noSpace
      | false =>
          have right := stripped pad 0 nonempty noSpace
          rw [List.replicate_zero, List.append_nil] at right
          exact right

end LoafOs
