import LoafOs.Libc.FormatBounds
import LoafOs.Libc.ReadNumbers
import Mathlib.Data.UInt

/-!
# Formatted integers

What `%d`, `%u`, `%x`, `%lu` and `%lx` put, and when it reads back as the
argument.
-/

namespace LoafOs

/-! ## The conversions -/

/-- `%d`, `%u` or `%x`, and `%lu` or `%lx`, with the argument. -/
inductive IntegerArg
  | signed (value : UInt32)
  | unsigned (isHex : Bool) (value : UInt32)
  | long (isHex : Bool) (value : UInt64)
  deriving DecidableEq, Repr

namespace IntegerArg

def conversion : IntegerArg → UInt8
  | signed _ => 0x64
  | unsigned isHex _ => if isHex then 0x78 else 0x75
  | long isHex _ => if isHex then 0x78 else 0x75

def isLong : IntegerArg → Bool
  | signed _ => false
  | unsigned _ _ => false
  | long _ _ => true

def base : IntegerArg → Nat
  | signed _ => 10
  | unsigned isHex _ => if isHex then 16 else 10
  | long isHex _ => if isHex then 16 else 10

def arg : IntegerArg → VaArg
  | signed value => .word value
  | unsigned _ value => .word value
  | long _ value => .long value

def value : IntegerArg → Int
  | signed value => value.toInt32.toInt
  | unsigned _ value => value.toNat
  | long _ value => value.toNat

/-- The text denotes the value, and `atoi` finds it for a `%d`. -/
def ReadsBack (integer : IntegerArg) (text : List UInt8) : Prop :=
  readInteger integer.base text = some integer.value ∧
    ∀ value, integer = signed value → atoi text = value.toInt32

/-- The characters of a negative number: the sign, and its digits or the
precision if that is more. -/
def negativeLength (precision : Int) (value : UInt32) : Nat :=
  1 + max (Nat.digits 10 (-value).toNat).length precision.toNat

/-- No zeros are put in front of a sign, and `utoa` takes the argument
whole. -/
def Exact (directive : Directive) : IntegerArg → Prop
  | signed value => ¬ (value.toInt32 < 0 ∧ directive.zeroPad ∧
      0 < directive.width - Int32.ofNat
        (negativeLength directive.precision.toInt value))
  | unsigned _ _ => True
  | long _ value => value.toNat < 2 ^ 32

end IntegerArg

/-- `vsnprintf` puts this text into each buffer that has the room. -/
def Produces (fmt : List UInt8) (args : List VaArg) (text : List UInt8) :
    Prop :=
  text.length + 1 < 2 ^ 32 ∧
    ∀ buf size, text.length < size → size < 2 ^ 32 →
      ∃ buf', vsnprintf buf size fmt args = some (buf', text.length) ∧
        HoldsString buf' text

theorem produces_formatText {fmt : List UInt8} {args : List VaArg}
    {text : List UInt8} (isText : formatText fmt args = some text)
    (short : text.length + 1 < 2 ^ 32) : Produces fmt args text := by
  constructor
  · exact short
  · intro buf size room isSize
    apply vsnprintf_whole buf size isText
    unfold u32
    omega


namespace IntegerArg

/-- The 32 bits that reach `utoa`. -/
def low : IntegerArg → UInt32
  | signed value => if value.toInt32 < 0 then -value else value
  | unsigned _ value => value
  | long _ value => value.toUInt32

def neg : IntegerArg → Bool
  | signed value => decide (value.toInt32 < 0)
  | unsigned _ _ => false
  | long _ _ => false

theorem hexBase_bounds (isHex : Bool) :
    10 ≤ (if isHex then 16 else 10) ∧ (if isHex then 16 else 10) ≤ 16 := by
  cases isHex <;> decide

theorem base_bounds (integer : IntegerArg) :
    10 ≤ integer.base ∧ integer.base ≤ 16 := by
  cases integer with
  | signed value =>
      constructor
      · exact Nat.le_refl 10
      · exact Nat.le_add_right 10 6
  | unsigned isHex value => exact hexBase_bounds isHex
  | long isHex value => exact hexBase_bounds isHex

theorem hexConversion_ends (isHex : Bool) :
    EndsSpecifier (if isHex then 0x78 else 0x75) := by
  cases isHex <;> constructor <;> decide

theorem conversion_ends (integer : IntegerArg) :
    EndsSpecifier integer.conversion := by
  cases integer with
  | signed value =>
      have ends : EndsSpecifier 0x64 := by constructor <;> decide
      exact ends
  | unsigned isHex value => exact hexConversion_ends isHex
  | long isHex value => exact hexConversion_ends isHex

/-- `%u` and `%x` on the 32 bits of their argument. -/
theorem convert_hexOrNot {directive : Directive} {args : List VaArg}
    {value : UInt32}
    (taken : unsignedArg directive args = some (value, []))
    (isHex : Bool) :
    convert directive (if isHex then 0x78 else 0x75) args =
      (putNumber directive false value (if isHex then 16 else 10)).map
        fun text => (text, []) := by
  cases isHex with
  | false =>
      rw [if_neg Bool.false_ne_true, convert_unsigned, taken]
      rfl
  | true =>
      rw [if_pos rfl, convert_hex, taken]
      rfl

theorem convert_eq {directive : Directive} (integer : IntegerArg)
    (isLong : directive.isLong = integer.isLong) :
    convert directive integer.conversion [integer.arg] =
      (putNumber directive integer.neg integer.low integer.base).map
        fun text => (text, []) := by
  cases integer with
  | signed value =>
      rw [conversion, arg, convert_signed]
      simp only [decide_eq_true_eq]
      rfl
  | unsigned isHex value =>
      apply convert_hexOrNot
      simp [unsignedArg, arg, low, isLong, IntegerArg.isLong]
  | long isHex value =>
      apply convert_hexOrNot
      simp [unsignedArg, arg, low, isLong, IntegerArg.isLong]

/-- The sign, the zeros of the precision and the digits. -/
def digits (integer : IntegerArg) (precision : Int) : List UInt8 :=
  signedDigits integer.neg precision (utoa integer.low integer.base)

section Text

variable {specifier : Specifier} {directive : Directive}
  {stars : List VaArg} {integer : IntegerArg}

/-- What a written integer conversion puts. -/
theorem formatText_eq (written : specifier.Written)
    (isLong : specifier.isLong = integer.isLong)
    (resolved : specifier.resolve stars = some (directive, []))
    (small : directive.precision.toInt ≤ 20) :
    formatText (0x25 :: (specifier.text ++ [integer.conversion]))
        (stars ++ [integer.arg]) =
      some (padAndPut directive
        (integer.digits directive.precision.toInt)) := by
  have parsed := parseDirective_text written integer.conversion_ends
    resolved [] [integer.arg]
  have long := (Specifier.resolve_flags resolved).1.trans isLong
  have sign : integer.neg.toNat ≤ 1 := Bool.toNat_le integer.neg
  have room : integer.neg.toNat + directive.precision.toInt < 32 := by
    omega
  rw [formatText, List.length_cons, formatLoop, if_neg (by decide),
    parsed, Option.bind_eq_bind, Option.bind_some]
  dsimp only
  rw [convert_eq integer long, putNumber_fits integer.base_bounds.1 room,
    Option.map_some, Option.bind_eq_bind, Option.bind_some]
  dsimp only
  rw [formatLoop, Option.bind_eq_bind, Option.bind_some,
    List.append_nil]
  rfl

end Text

end IntegerArg

/-! ## Signed words -/

/-- The `int` of a word. -/
theorem toInt32_cases (value : UInt32) :
    value.toInt32.toInt =
      if value.toNat < 2 ^ 31 then (value.toNat : Int)
      else (value.toNat : Int) - 2 ^ 32 := by
  have split := BitVec.toInt_eq_toNat_cond value.toBitVec
  have same : value.toBitVec.toNat = value.toNat := rfl
  rw [same] at split
  calc
    value.toInt32.toInt = value.toBitVec.toInt := rfl
    _ = _ := by
      rw [split]
      apply if_congr _ rfl rfl
      omega

theorem toInt32_lt_zero {value : UInt32} :
    value.toInt32 < 0 ↔ 2 ^ 31 ≤ value.toNat := by
  have zero : (0 : Int32).toInt = 0 := rfl
  have below := value.toNat_lt
  rw [Int32.lt_iff_toInt_lt, zero, toInt32_cases]
  split <;> omega

theorem toInt32_plain {value : UInt32} (plain : ¬ value.toInt32 < 0) :
    value.toInt32.toInt = value.toNat := by
  rw [toInt32_cases, if_pos (by
    rw [toInt32_lt_zero] at plain
    omega)]

theorem negated_toNat {value : UInt32} (negative : value.toInt32 < 0) :
    (-value).toNat = 2 ^ 32 - value.toNat := by
  rw [toInt32_lt_zero] at negative
  rw [UInt32.toNat_neg]
  change (2 ^ 32 - value.toNat) % 2 ^ 32 = _
  omega

/-- Also of the least value, which is its own negation. -/
theorem toInt32_negated {value : UInt32} (negative : value.toInt32 < 0) :
    value.toInt32.toInt = -((-value).toNat : Int) := by
  have negated := negated_toNat negative
  have below := value.toNat_lt
  rw [toInt32_lt_zero] at negative
  rw [toInt32_cases, if_neg (by omega), negated]
  omega

theorem ofNat_toNat_toInt32 (value : UInt32) :
    Int32.ofNat value.toNat = value.toInt32 := by
  rw [← UInt32.toInt32_ofNat', UInt32.ofNat_toNat]

namespace IntegerArg

section Digits

variable {integer : IntegerArg}

/-- Zeros in front of the digits do not count. -/
theorem zeros_numeral (integer : IntegerArg) (zeros more : Nat) :
    readOnward (digitValue integer.base) integer.base 0
      (List.replicate zeros 0x30 ++ (List.replicate more 0x30 ++
        utoa integer.low integer.base)) =
          some integer.low.toNat := by
  have bounds := integer.base_bounds
  have first : utoaDigit 0 = 0x30 := by decide
  have zero := digitValue_utoaDigit bounds.2
    (show 0 < integer.base by omega)
  rw [first] at zero
  rw [readOnward_zeros zero, readOnward_zeros zero]
  exact readOnward_utoa (by omega) bounds.2 integer.low

theorem zeros_ne_nil (integer : IntegerArg) (zeros more : Nat) :
    List.replicate zeros 0x30 ++ (List.replicate more 0x30 ++
      utoa integer.low integer.base) ≠ [] := by
  have bounds := integer.base_bounds
  apply List.append_ne_nil_of_right_ne_nil
  apply List.append_ne_nil_of_right_ne_nil
  exact utoa_ne_nil (by omega) integer.low

theorem digits_ne_nil (integer : IntegerArg) (precision : Int) :
    integer.digits precision ≠ [] := by
  apply List.append_ne_nil_of_right_ne_nil
  exact integer.zeros_ne_nil 0 _

theorem digits_noSpace (integer : IntegerArg) (precision : Int) :
    0x20 ∉ integer.digits precision := by
  have digits := numeral_foreign (show (0x20 : UInt8) < 0x30 by decide)
    (integer.zeros_numeral 0
      (precision - (utoa integer.low integer.base).length).toNat)
  rw [List.replicate_zero, List.nil_append] at digits
  rw [IntegerArg.digits, signedDigits, List.mem_append]
  rintro (isSign | inDigits)
  · cases isNeg : integer.neg with
    | false =>
        rw [isNeg] at isSign
        exact absurd isSign List.not_mem_nil
    | true =>
        rw [isNeg] at isSign
        exact absurd (List.mem_singleton.mp isSign) (by decide)
  · exact digits inDigits

/-- The length of a `%d` with a sign. -/
theorem negative_length {value : UInt32} {precision : Int}
    (negative : value.toInt32 < 0) :
    ((signed value).digits precision).length =
      negativeLength precision value := by
  have isNeg : (signed value).neg = true := decide_eq_true negative
  have isLow : (signed value).low = -value := if_pos negative
  have nonzero : ¬ -value = 0 := by
    intro isZero
    have negated := negated_toNat negative
    have below := value.toNat_lt
    rw [isZero] at negated
    change 0 = _ at negated
    omega
  have length : (utoa (-value) 10).length =
      (Nat.digits 10 (-value).toNat).length := by
    rw [utoa_eq (by decide), if_neg nonzero, writeNumeral,
      List.length_reverse, List.length_map]
  rw [digits, signedDigits, isNeg, isLow, if_pos rfl, negativeLength,
    ← length]
  change ([0x2d] ++ (List.replicate
    (precision - (utoa (-value) 10).length).toNat 0x30 ++
      utoa (-value) 10)).length = _
  rw [List.length_append, List.length_append, List.length_replicate,
    List.length_singleton]
  omega

/-- A text without a sign reads as the 32 bits that reached `utoa`. -/
theorem readsBack_unsigned (isPlain : integer.neg = false)
    (zeros : Nat) (precision : Int) :
    integer.ReadsBack
        (List.replicate zeros 0x30 ++ integer.digits precision) ↔
      (integer.low.toNat : Int) = integer.value := by
  have numeral := integer.zeros_numeral zeros
    (precision - (utoa integer.low integer.base).length).toNat
  have nonempty := integer.zeros_ne_nil zeros
    (precision - (utoa integer.low integer.base).length).toNat
  rw [digits, signedDigits, isPlain, if_neg Bool.false_ne_true,
    List.nil_append, ReadsBack, readInteger_numeral nonempty numeral,
    Option.some.injEq, and_iff_left]
  intro value isSigned
  subst isSigned
  have plain : ¬ value.toInt32 < 0 := of_decide_eq_false isPlain
  have isLow : (signed value).low = value := if_neg plain
  rw [atoi_numeral nonempty numeral, isLow]
  exact ofNat_toNat_toInt32 value

end Digits

/-- A sign is read in front of the digits only. -/
theorem readsBack_negative {value : UInt32} (negative : value.toInt32 < 0)
    (zeros : Nat) (precision : Int) :
    (signed value).ReadsBack
        (List.replicate zeros 0x30 ++ (signed value).digits precision) ↔
      zeros = 0 := by
  have isNeg : (signed value).neg = true := decide_eq_true negative
  have isLow : (signed value).low = -value := if_pos negative
  have numeral := (signed value).zeros_numeral 0
    (precision - (utoa (signed value).low (signed value).base).length).toNat
  have nonempty := (signed value).zeros_ne_nil 0
    (precision - (utoa (signed value).low (signed value).base).length).toNat
  rw [List.replicate_zero, List.nil_append] at numeral nonempty
  rw [digits, signedDigits, isNeg, if_pos rfl, List.singleton_append]
  generalize List.replicate (precision - (utoa (signed value).low
    (signed value).base).length).toNat 0x30 ++
      utoa (signed value).low (signed value).base = text at *
  constructor
  · rintro ⟨isInteger, -⟩
    apply Decidable.byContradiction
    intro positive
    rw [readInteger_displaced (Nat.pos_of_ne_zero positive)] at isInteger
    contradiction
  · intro isZero
    rw [isZero, List.replicate_zero, List.nil_append]
    constructor
    · rw [readInteger_negative nonempty numeral, isLow]
      exact congrArg some (toInt32_negated negative).symm
    · intro other same
      cases same
      rw [atoi_negative numeral, isLow, ofNat_toNat_toInt32,
        UInt32.toInt32_neg, Int32.neg_neg]

theorem long_low_iff (isHex : Bool) (value : UInt64) :
    ((long isHex value).low.toNat : Int) = (long isHex value).value ↔
      value.toNat < 2 ^ 32 := by
  have truncated : (long isHex value).low.toNat =
      value.toNat % 2 ^ 32 :=
    UInt64.toNat_toUInt32 value
  have whole : (long isHex value).value = value.toNat := rfl
  rw [truncated, whole]
  omega

theorem paddingZeros_iff (directive : Directive) (length : Nat) :
    paddingZeros directive length = 0 ↔
      ¬ (directive.zeroPad ∧
        0 < directive.width - Int32.ofNat length) := by
  have zero : (0 : Int32).toInt = 0 := rfl
  rw [paddingZeros, Int32.lt_iff_toInt_lt, zero]
  split
  case isTrue isZero =>
    simp only [isZero, true_and]
    omega
  case isFalse noZero =>
    exact iff_of_true rfl fun both => noZero both.1

/-- The text behind the padding reads back exactly if the conversion is
exact. -/
theorem readsBack_iff (integer : IntegerArg) (directive : Directive) :
    integer.ReadsBack (List.replicate (paddingZeros directive
        (integer.digits directive.precision.toInt).length) 0x30 ++
          integer.digits directive.precision.toInt) ↔
      integer.Exact directive := by
  cases integer with
  | signed value =>
      by_cases negative : value.toInt32 < 0
      · rw [readsBack_negative negative, negative_length negative,
          paddingZeros_iff, Exact]
        simp only [negative, true_and]
      · have plain : (signed value).neg = false :=
          decide_eq_false negative
        have isLow : (signed value).low = value := if_neg negative
        rw [readsBack_unsigned plain, isLow]
        apply iff_of_true (toInt32_plain negative).symm
        intro failing
        exact negative failing.1
  | unsigned isHex value =>
      rw [readsBack_unsigned rfl]
      exact iff_of_true rfl trivial
  | long isHex value =>
      rw [readsBack_unsigned rfl]
      exact long_low_iff isHex value

theorem digits_length (integer : IntegerArg) {precision : Int}
    (small : precision ≤ 20) : (integer.digits precision).length ≤ 31 := by
  have length := utoa_length integer.base_bounds.1 integer.low
  have sign : (if integer.neg then [0x2d] else [] : List UInt8).length ≤
      1 := by
    cases integer.neg <;> decide
  rw [digits, signedDigits, List.length_append, List.length_append,
    List.length_replicate]
  omega

end IntegerArg

theorem padAndPut_length (directive : Directive) (text : List UInt8) :
    (padAndPut directive text).length < text.length + 2 ^ 31 := by
  have below := (directive.width - Int32.ofNat text.length).toInt_lt
  rw [padAndPut]
  split <;> rw [List.length_append, List.length_replicate] <;> omega

/-- What `vsnprintf` puts for an integer denotes it exactly if no zeros come
in front of the sign of a `%d` and the argument of a `%lu` or `%lx` has no
more than 32 bits. -/
theorem integer_readsBack_iff {specifier : Specifier}
    {directive : Directive} {stars : List VaArg} (integer : IntegerArg)
    (written : specifier.Written)
    (isLong : specifier.isLong = integer.isLong)
    (resolved : specifier.resolve stars = some (directive, []))
    (small : directive.precision ≤ 20) :
    ∃ text, Produces (0x25 :: (specifier.text ++ [integer.conversion]))
        (stars ++ [integer.arg]) text ∧
      (integer.ReadsBack (stripSpaces text) ↔
        integer.Exact directive) := by
  have most : directive.precision.toInt ≤ 20 :=
    Int32.le_iff_toInt_le.mp small
  have isText := IntegerArg.formatText_eq written isLong resolved most
  have oneSide := (Specifier.resolve_flags resolved).2
  have length := integer.digits_length most
  have padded := padAndPut_length directive
    (integer.digits directive.precision.toInt)
  refine ⟨_, produces_formatText isText (by omega), ?_⟩
  rw [stripSpaces_padAndPut oneSide (integer.digits_ne_nil _)
    (integer.digits_noSpace _)]
  exact integer.readsBack_iff directive

/-- `"%-8.5d"` -/
theorem sampleInteger_readsBack :
    ∃ text, Produces [0x25, 0x2d, 0x38, 0x2e, 0x35, 0x64] [.word (-42)]
        text ∧
      (IntegerArg.signed (-42)).ReadsBack (stripSpaces text) := by
  have written : (Specifier.mk [0x2d] (.digits [0x38])
      (some (.digits [0x35])) false).Written := by
    constructor
    · decide +kernel
    · unfold Number.Written
      decide +kernel
    · decide +kernel
    · intro number isNumber
      cases isNumber
      unfold Number.Written
      decide +kernel
  have resolved : (Specifier.mk [0x2d] (.digits [0x38])
      (some (.digits [0x35])) false).resolve [] =
        some (⟨true, false, 8, 5, false⟩, []) := by
    decide
  obtain ⟨text, produced, readsBack⟩ :=
    integer_readsBack_iff (.signed (-42)) written rfl resolved (by decide)
  refine ⟨text, produced, readsBack.mpr ?_⟩
  rintro ⟨-, zeroPad, -⟩
  contradiction

/-- `"%05d"` of -3 is `"000-3"`, and `"%lu"` of 2 ^ 32 + 5 is `"5"`. -/
theorem displacedSign_misread :
    (Produces [0x25, 0x30, 0x35, 0x64] [.word (-3)]
        [0x30, 0x30, 0x30, 0x2d, 0x33] ∧
      ¬ (IntegerArg.signed (-3)).ReadsBack
        (stripSpaces [0x30, 0x30, 0x30, 0x2d, 0x33])) ∧
    (Produces [0x25, 0x6c, 0x75] [.long (2 ^ 32 + 5)] [0x35] ∧
      ¬ (IntegerArg.long false (2 ^ 32 + 5)).ReadsBack
        (stripSpaces [0x35])) := by
  have displaced : formatText [0x25, 0x30, 0x35, 0x64] [.word (-3)] =
      some [0x30, 0x30, 0x30, 0x2d, 0x33] := by
    decide +kernel
  have truncated : formatText [0x25, 0x6c, 0x75] [.long (2 ^ 32 + 5)] =
      some [0x35] := by
    decide +kernel
  refine ⟨⟨produces_formatText displaced (by decide), ?_⟩,
    ⟨produces_formatText truncated (by decide), ?_⟩⟩
  · rintro ⟨isInteger, -⟩
    revert isInteger
    decide +kernel
  · rintro ⟨isInteger, -⟩
    revert isInteger
    decide +kernel

end LoafOs
