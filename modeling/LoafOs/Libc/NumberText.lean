import LoafOs.Libc.Stdio
import LoafOs.Lib.Numerals

/-!
# The text of a number

What `vsnprintf` puts together in the `tmp` of a number conversion: the
sign, the zeros of the precision and the digits of `utoa`, and when all of
it fits.
-/

namespace LoafOs

/-! ## The digits of `utoa` -/

theorem utoaLoop_digits {base fuel value : Nat} (large : 1 < base)
    (small : value < base ^ fuel) :
    utoaLoop base fuel value =
      (Nat.digits base value).map utoaDigit := by
  induction fuel generalizing value with
  | zero =>
      have none : value = 0 := by
        rw [Nat.pow_zero] at small
        omega
      rw [none, Nat.digits_zero]
      rfl
  | succ fuel inductionHypothesis =>
      rw [utoaLoop]
      split
      case isTrue positive =>
        have quotient : value / base < base ^ fuel := by
          apply Nat.div_lt_of_lt_mul
          rwa [← Nat.pow_succ']
        rw [Nat.digits_def' large positive, List.map_cons,
          inductionHypothesis quotient]
      case isFalse isZero =>
        rw [Nat.eq_zero_of_not_pos isZero, Nat.digits_zero]
        rfl

/-- `utoa` writes the numeral of its 32-bit value. -/
theorem utoa_eq {base : Nat} (large : 1 < base) (value : UInt32) :
    utoa value base =
      if value = 0 then [0x30]
      else writeNumeral utoaDigit base value.toNat := by
  have small : value.toNat < base ^ 32 :=
    Nat.lt_of_lt_of_le value.toNat_lt (Nat.pow_le_pow_left large 32)
  rw [utoa, utoaLoop_digits large small]
  rfl

theorem utoa_ne_nil {base : Nat} (large : 1 < base) (value : UInt32) :
    utoa value base ≠ [] := by
  rw [utoa_eq large]
  split
  case isTrue => exact List.cons_ne_nil 0x30 []
  case isFalse nonzero =>
    have positive : 0 < value.toNat :=
      Nat.pos_of_ne_zero fun isZero => nonzero (UInt32.toNat_inj.mp isZero)
    rw [writeNumeral_succ large positive]
    exact List.append_ne_nil_of_right_ne_nil _ (List.cons_ne_nil _ _)

/-- At most ten digits from base ten on. -/
theorem utoa_length {base : Nat} (large : 10 ≤ base) (value : UInt32) :
    (utoa value base).length ≤ 10 := by
  have more : 1 < base := by omega
  rw [utoa_eq more]
  split
  case isTrue => exact Nat.one_le_ofNat
  case isFalse =>
    apply (writeNumeral_length more).mpr
    calc
      value.toNat < 2 ^ 32 := value.toNat_lt
      _ ≤ 10 ^ 10 := by decide
      _ ≤ base ^ 10 := Nat.pow_le_pow_left large 10

/-! ## Stores into the array -/

section Stores

variable {capacity : Nat} {tmp : Nat → UInt8}

theorem storeChar_fits {i : Nat} (inside : i < capacity) (c : UInt8) :
    storeChar capacity tmp i c = some (Function.update tmp i c) :=
  if_pos inside

theorem storeChars_fits {text : List UInt8} {i : Nat}
    (room : i + text.length ≤ capacity) :
    storeChars capacity text i tmp =
      some fun k => if i ≤ k then (text[k - i]?).getD (tmp k) else tmp k := by
  induction text generalizing i tmp with
  | nil =>
      rw [storeChars]
      apply congrArg some
      funext k
      simp
  | cons c text inductionHypothesis =>
      rw [List.length_cons] at room
      rw [storeChars, storeChar_fits (by omega), Option.bind_eq_bind,
        Option.bind_some, inductionHypothesis (by omega)]
      apply congrArg some
      funext k
      rcases Nat.lt_trichotomy k i with before | rfl | behind
      · simp only [if_neg (Nat.not_le.mpr before),
          if_neg (show ¬ i + 1 ≤ k by omega)]
        exact Function.update_of_ne (by omega) _ _
      · simp
      · have next : k - i = k - (i + 1) + 1 := by omega
        simp only [if_pos (Nat.le_of_lt behind),
          if_pos (show i + 1 ≤ k from behind), next,
          List.getElem?_cons_succ,
          Function.update_of_ne (show k ≠ i by omega)]

/-- The shift moves the characters from `first` on by `shift` places. -/
theorem shiftDigits_fits {shift first count : Nat}
    (room : first + count + shift ≤ capacity) :
    shiftDigits capacity shift first count tmp =
      some fun k =>
        if first + shift ≤ k ∧ k < first + count + shift then
          tmp (k - shift)
        else tmp k := by
  induction count generalizing tmp with
  | zero =>
      rw [shiftDigits]
      apply congrArg some
      funext k
      rw [if_neg (by omega)]
  | succ count inductionHypothesis =>
      rw [shiftDigits, storeChar_fits (by omega), Option.bind_eq_bind,
        Option.bind_some, inductionHypothesis (by omega)]
      apply congrArg some
      funext k
      rcases Nat.lt_trichotomy k (first + count + shift) with
        before | rfl | behind
      · rw [Function.update_of_ne (show k ≠ _ by omega),
          Function.update_of_ne (show k - shift ≠ _ by omega)]
        apply if_congr _ rfl rfl
        omega
      · rw [if_neg (by omega), if_pos (by omega), Function.update_self,
          Nat.add_sub_cancel]
      · rw [if_neg (by omega), if_neg (by omega),
          Function.update_of_ne (by omega)]

end Stores

/-! ## The whole number -/

/-- The sign, as many zeros as the precision asks for, and the digits. -/
def signedDigits (neg : Bool) (precision : Int) (digits : List UInt8) :
    List UInt8 :=
  (if neg then [0x2d] else []) ++
    (List.replicate (precision - digits.length).toNat 0x30 ++ digits)

theorem zeroExtend_fits {capacity : Nat} {sign digits : List UInt8}
    {precision : Int} {tmp : Nat → UInt8}
    (held : HoldsString tmp (sign ++ digits))
    (room : sign.length + precision < capacity) :
    ∃ tmp', zeroExtend capacity sign.length
        (sign.length + digits.length) precision tmp =
          some (tmp', (sign ++ (List.replicate
            (precision - digits.length).toNat 0x30 ++ digits)).length) ∧
      HoldsString tmp' (sign ++ (List.replicate
        (precision - digits.length).toNat 0x30 ++ digits)) := by
  have width : sign.length + digits.length - sign.length =
      digits.length :=
    Nat.add_sub_cancel_left _ _
  rw [zeroExtend, width]
  dsimp only
  split
  case isFalse enough =>
    have noZeros : (precision - digits.length).toNat = 0 := by omega
    rw [noZeros, List.replicate_zero, List.nil_append,
      List.length_append]
    exact ⟨tmp, rfl, held⟩
  case isTrue short =>
    have shifted : sign.length + (digits.length + 1) +
        (precision - digits.length).toNat ≤ capacity := by
      omega
    have zeros : sign.length + (List.replicate
        (precision - digits.length).toNat (0x30 : UInt8)).length ≤
          capacity := by
      rw [List.length_replicate]
      omega
    rw [shiftDigits_fits shifted, Option.bind_eq_bind, Option.bind_some,
      storeChars_fits zeros, Option.bind_some]
    generalize (precision - digits.length).toNat = count
    refine ⟨_, congrArg some (Prod.ext rfl ?_), ?_⟩
    · simp only [List.length_append, List.length_replicate]
      omega
    · intro k below
      simp only [List.length_append, List.length_replicate] at below
      dsimp only
      rcases Nat.lt_or_ge k sign.length with inSign | behindSign
      · have kept := held k (by rw [List.length_append]; omega)
        rw [List.getElem?_append_left inSign] at kept
        rw [if_neg (by omega), if_neg (by omega),
          List.getElem?_append_left inSign, kept]
      · rw [if_pos behindSign, List.getElem?_append_right behindSign]
        rcases Nat.lt_or_ge (k - sign.length) count with inZeros | behind
        · rw [List.getElem?_append_left (by simpa using inZeros),
            List.getElem?_replicate, if_pos inZeros]
          rfl
        · have moved := held (k - count) (by
            rw [List.length_append]
            omega)
          have place : k - count - sign.length =
              k - sign.length - count := by
            omega
          rw [List.getElem?_append_right (by omega), place] at moved
          rw [List.getElem?_append_right (by simpa using behind),
            List.getElem?_replicate, if_neg (by omega),
            List.length_replicate, if_pos (by omega), ← moved]
          rfl

/-- The first character of the shift is stored at `neg + precision`. -/
theorem zeroExtend_overflows {capacity neg count : Nat} {precision : Int}
    {tmp : Nat → UInt8} (short : count < precision)
    (large : capacity ≤ neg + precision) :
    zeroExtend capacity neg (neg + count) precision tmp = none := by
  have width : neg + count - neg = count := Nat.add_sub_cancel_left _ _
  have outside : ¬ neg + count + (precision - count).toNat < capacity := by
    omega
  rw [zeroExtend, width, if_pos short]
  dsimp only
  rw [shiftDigits, storeChar, if_neg outside]
  rfl

theorem range_map_holds {tmp : Nat → UInt8} {text : List UInt8}
    (held : HoldsString tmp text) :
    (List.range text.length).map tmp = text := by
  apply List.ext_getElem
  · rw [List.length_map, List.length_range]
  · intro i _ inside
    rw [List.getElem_map, List.getElem_range, held i (Nat.le_of_lt inside),
      List.getElem?_eq_getElem inside, Option.getD_some]

section PutNumber

variable {directive : Directive} {neg : Bool} {value : UInt32} {base : Nat}

/-- The digits behind the place of the sign, and the sign. -/
theorem storeSign_holds {digits : List UInt8} (neg : Bool)
    (length : digits.length ≤ 10) :
    ∃ tmp signed, storeChars 32 (digits ++ [0]) neg.toNat (fun _ => 0) =
        some tmp ∧
      (if neg then storeChar 32 tmp 0 0x2d else some tmp) = some signed ∧
      HoldsString signed ((if neg then [0x2d] else []) ++ digits) := by
  have atMost : neg.toNat ≤ 1 := Bool.toNat_le neg
  have room : neg.toNat + (digits ++ [0]).length ≤ 32 := by
    rw [List.length_append, List.length_singleton]
    omega
  have ended (k : Nat) :
      ((digits ++ [0])[k]?).getD (0 : UInt8) = (digits[k]?).getD 0 := by
    rcases Nat.lt_or_ge k digits.length with inside | behind
    · rw [List.getElem?_append_left inside]
    · rw [List.getElem?_append_right behind, List.getElem?_eq_none behind]
      cases k - digits.length <;> rfl
  cases neg with
  | false =>
      refine ⟨_, _, storeChars_fits room, rfl, ?_⟩
      intro k _
      simpa using ended k
  | true =>
      have first : 0 < 32 := by decide
      refine ⟨_, _, storeChars_fits room, storeChar_fits first 0x2d, ?_⟩
      intro k _
      cases k with
      | zero => rfl
      | succ k =>
          rw [Function.update_of_ne (Nat.succ_ne_zero k)]
          simpa using ended k

theorem putNumber_eq (large : 10 ≤ base) :
    ∃ tmp, HoldsString tmp
        ((if neg then [0x2d] else []) ++ utoa value base) ∧
      putNumber directive neg value base = do
        let (tmp, len) ← zeroExtend 32 neg.toNat
          (neg.toNat + (utoa value base).length)
          directive.precision.toInt tmp
        return padAndPut directive ((List.range len).map tmp) := by
  obtain ⟨tmp, signed, stored, isSigned, held⟩ :=
    storeSign_holds neg (utoa_length large value)
  refine ⟨signed, held, ?_⟩
  rw [putNumber]
  dsimp only
  rw [stored, Option.bind_eq_bind, Option.bind_some]
  cases neg with
  | false =>
      have same : tmp = signed := Option.some.inj isSigned
      rw [if_neg Bool.false_ne_true, same]
      rfl
  | true =>
      rw [if_pos rfl] at isSigned ⊢
      rw [isSigned]
      rfl

/-- The number fits into `tmp` as long as the sign and the precision leave a
place for the NUL. -/
theorem putNumber_fits (large : 10 ≤ base)
    (room : neg.toNat + directive.precision.toInt < 32) :
    putNumber directive neg value base =
      some (padAndPut directive (signedDigits neg
        directive.precision.toInt (utoa value base))) := by
  obtain ⟨tmp, held, isNumber⟩ :=
    @putNumber_eq directive neg value base large
  have sign : (if neg then [0x2d] else [] : List UInt8).length =
      neg.toNat := by
    cases neg <;> rfl
  rw [← sign] at room
  obtain ⟨extended, isExtended, whole⟩ := zeroExtend_fits held room
  rw [sign] at isExtended
  rw [isNumber, isExtended, Option.bind_eq_bind, Option.bind_some]
  exact congrArg (fun text => some (padAndPut directive text))
    (range_map_holds whole)

theorem putNumber_overflows (large : 10 ≤ base)
    (tooLong : 32 ≤ neg.toNat + directive.precision.toInt) :
    putNumber directive neg value base = none := by
  obtain ⟨tmp, held, isNumber⟩ :=
    @putNumber_eq directive neg value base large
  have atMost : neg.toNat ≤ 1 := Bool.toNat_le neg
  have length := utoa_length large value
  rw [isNumber, zeroExtend_overflows (by omega) tooLong]
  rfl

end PutNumber

end LoafOs
