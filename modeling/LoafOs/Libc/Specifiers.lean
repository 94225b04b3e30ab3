import LoafOs.Libc.Stdio

/-!
# Conversion specifiers

What stands between a `%` and its conversion, read off the format alone:
the flags, the width, the precision and the `l`.  The arguments are needed
for the stars only.
-/

namespace LoafOs

/-- A width or a precision as the format has it. -/
inductive Number
  | digits (text : List UInt8)
  | star
  deriving DecidableEq, Repr

structure Specifier where
  flags : List UInt8
  width : Number
  precision : Option Number
  isLong : Bool
  deriving DecidableEq, Repr

/-- `-` or `0`. -/
def isFlag (c : UInt8) : Bool := c == 0x2d || c == 0x30

def isDigit (c : UInt8) : Bool := decide (0x30 ≤ c ∧ c ≤ 0x39)

/-! ## Reading a specifier -/

def numberAt (fmt : List UInt8) : Number × List UInt8 :=
  if fmt.head? = some 0x2a then (.star, fmt.tail)
  else (.digits (fmt.takeWhile isDigit), fmt.dropWhile isDigit)

def precisionAt (fmt : List UInt8) : Option Number × List UInt8 :=
  if fmt.head? = some 0x2e then
    (some (numberAt fmt.tail).1, (numberAt fmt.tail).2)
  else (none, fmt)

/-- The specifier, and the format from its conversion on. -/
def specifierAt (fmt : List UInt8) : Specifier × List UInt8 :=
  let width := numberAt (fmt.dropWhile isFlag)
  let precision := precisionAt width.2
  let isLong := precision.2.head? == some 0x6c
  ({ flags := fmt.takeWhile isFlag, width := width.1,
     precision := precision.1, isLong },
    if isLong then precision.2.tail else precision.2)

/-- The number that the digits name, in 32 bits. -/
def decimalValue (text : List UInt8) : Int32 :=
  text.foldl (fun value c => value * 10 + (c - 0x30).toUInt32.toInt32) 0

/-- The number, and the arguments behind it. -/
def Number.resolve (args : List VaArg) : Number → Option (Int32 × List VaArg)
  | .digits text => some (decimalValue text, args)
  | .star =>
      match args with
      | .word value :: args => some (value.toInt32, args)
      | _ => none

def resolvePrecision (args : List VaArg) :
    Option Number → Option (Int32 × List VaArg)
  | none => some (-1, args)
  | some precision => precision.resolve args

/-- The directive that the specifier is with these arguments for its
stars. -/
def Specifier.resolve (specifier : Specifier) (args : List VaArg) :
    Option (Directive × List VaArg) := do
  let leftAlign := specifier.flags.contains 0x2d
  let zeroPad := specifier.flags.contains 0x30 && !leftAlign
  let (width, args) ← specifier.width.resolve args
  let (precision, args) ← resolvePrecision args specifier.precision
  return ({ leftAlign, zeroPad, width, precision,
            isLong := specifier.isLong }, args)

/-! ## The parser of `vsnprintf` -/

theorem parseFlags_eq (leftAlign zeroPad : Bool) (fmt : List UInt8) :
    parseFlags leftAlign zeroPad fmt =
      (leftAlign || (fmt.takeWhile isFlag).contains 0x2d,
        zeroPad || (fmt.takeWhile isFlag).contains 0x30,
        fmt.dropWhile isFlag) := by
  induction fmt generalizing leftAlign zeroPad with
  | nil => simp [parseFlags]
  | cons c fmt inductionHypothesis =>
      rw [parseFlags]
      split
      case isTrue isDash =>
        rw [inductionHypothesis, isDash]
        simp [isFlag]
      case isFalse noDash =>
        split
        case isTrue isZero =>
          rw [inductionHypothesis, isZero]
          simp [isFlag]
        case isFalse noZero =>
          have plain : isFlag c = false := by
            simp [isFlag, noDash, noZero]
          simp [plain]

theorem parseDigits_eq (value : Int32) (fmt : List UInt8) :
    parseDigits value fmt =
      ((fmt.takeWhile isDigit).foldl
          (fun value c => value * 10 + (c - 0x30).toUInt32.toInt32) value,
        fmt.dropWhile isDigit) := by
  induction fmt generalizing value with
  | nil => rfl
  | cons c fmt inductionHypothesis =>
      rw [parseDigits]
      split
      case isTrue digit =>
        have isTaken : isDigit c = true := decide_eq_true digit
        rw [inductionHypothesis, List.takeWhile_cons_of_pos isTaken,
          List.dropWhile_cons_of_pos isTaken, List.foldl_cons]
      case isFalse other =>
        have notTaken : ¬ isDigit c = true := by
          simpa [isDigit] using other
        rw [List.takeWhile_cons_of_neg notTaken,
          List.dropWhile_cons_of_neg notTaken, List.foldl_nil]

theorem parseNumber_eq (fmt : List UInt8) (args : List VaArg) :
    parseNumber fmt args = ((numberAt fmt).1.resolve args).map
      fun found => (found.1, (numberAt fmt).2, found.2) := by
  unfold parseNumber numberAt
  split
  case isTrue isStar =>
    cases args with
    | nil => rfl
    | cons arg args => cases arg <;> rfl
  case isFalse noStar =>
    rw [parseDigits_eq]
    rfl

theorem parsePrecision_eq (fmt : List UInt8) (args : List VaArg) :
    parsePrecision fmt args =
      (resolvePrecision args (precisionAt fmt).1).map
        fun found => (found.1, (precisionAt fmt).2, found.2) := by
  rw [parsePrecision, precisionAt]
  split
  case isTrue isPoint => exact parseNumber_eq fmt.tail args
  case isFalse noPoint => rfl

theorem parseDirective_eq (fmt : List UInt8) (args : List VaArg) :
    parseDirective fmt args = ((specifierAt fmt).1.resolve args).map
      fun found => (found.1, (specifierAt fmt).2, found.2) := by
  rw [parseDirective, parseFlags_eq, Specifier.resolve]
  simp only [Bool.false_or, parseNumber_eq, specifierAt]
  generalize numberAt (fmt.dropWhile isFlag) = width
  cases width.1.resolve args with
  | none => rfl
  | some found =>
      simp only [Option.map_some, Option.bind_eq_bind, Option.bind_some,
        parsePrecision_eq]
      cases resolvePrecision found.2 (precisionAt width.2).1 with
      | none => rfl
      | some read => rfl

/-! ## Writing a specifier -/

def Number.text : Number → List UInt8
  | .digits text => text
  | .star => [0x2a]

def precisionText : Option Number → List UInt8
  | none => []
  | some precision => 0x2e :: precision.text

def Specifier.text (specifier : Specifier) : List UInt8 :=
  specifier.flags ++ specifier.width.text ++
    precisionText specifier.precision ++
      if specifier.isLong then [0x6c] else []

def Number.Written : Number → Prop
  | .digits text => ∀ c ∈ text, isDigit c
  | .star => True

/-- The specifier reads as it is written.  A zero in front of the width
would be a flag. -/
structure Specifier.Written (specifier : Specifier) : Prop where
  flags : ∀ c ∈ specifier.flags, isFlag c
  width : specifier.width.Written
  noZero : specifier.width.text.head? ≠ some 0x30
  precision : ∀ number ∈ specifier.precision, number.Written

/-- No part of a specifier goes on with this character. -/
structure EndsSpecifier (c : UInt8) : Prop where
  noFlag : isFlag c = false
  noDigit : isDigit c = false
  noStar : c ≠ 0x2a
  noPoint : c ≠ 0x2e
  noLong : c ≠ 0x6c

/-- The first character, if there is one, is none of these. -/
def StopsAt (stops : UInt8 → Bool) (fmt : List UInt8) : Prop :=
  ∀ c ∈ fmt.head?, stops c = false

theorem takeWhile_stops {stops : UInt8 → Bool} {text rest : List UInt8}
    (all : ∀ c ∈ text, stops c) (stop : StopsAt stops rest) :
    (text ++ rest).takeWhile stops = text ∧
      (text ++ rest).dropWhile stops = rest := by
  rw [List.takeWhile_append_of_pos all, List.dropWhile_append_of_pos all]
  cases rest with
  | nil => simp
  | cons c rest =>
      have isStop : ¬ stops c = true := by
        simpa using stop c rfl
      rw [List.takeWhile_cons_of_neg isStop,
        List.dropWhile_cons_of_neg isStop, List.append_nil]
      exact ⟨rfl, rfl⟩

theorem numberAt_text {number : Number} {rest : List UInt8}
    (written : number.Written) (stop : StopsAt isDigit rest)
    (noStar : rest.head? ≠ some 0x2a) :
    numberAt (number.text ++ rest) = (number, rest) := by
  cases number with
  | star => rfl
  | digits text =>
      have first : (text ++ rest).head? ≠ some 0x2a := by
        cases text with
        | nil => exact noStar
        | cons c text =>
            intro isStar
            have digit := written c List.mem_cons_self
            rw [Option.some.inj isStar] at digit
            contradiction
      have halves := takeWhile_stops written stop
      rw [Number.text, numberAt, if_neg first, halves.1, halves.2]

theorem precisionAt_text {precision : Option Number} {rest : List UInt8}
    (written : ∀ number ∈ precision, number.Written)
    (stop : StopsAt isDigit rest) (noStar : rest.head? ≠ some 0x2a)
    (noPoint : rest.head? ≠ some 0x2e) :
    precisionAt (precisionText precision ++ rest) = (precision, rest) := by
  cases precision with
  | none =>
      rw [precisionText, List.nil_append, precisionAt, if_neg noPoint]
  | some number =>
      have found := numberAt_text (written number rfl) stop noStar
      rw [precisionText, precisionAt]
      simp only [List.cons_append, List.head?_cons, List.tail_cons, found,
        if_true]

theorem width_stops {number : Number} {rest : List UInt8}
    (written : number.Written) (noZero : number.text.head? ≠ some 0x30)
    (stop : StopsAt isFlag rest) :
    StopsAt isFlag (number.text ++ rest) := by
  intro first isFirst
  cases number with
  | star =>
      have isStar : 0x2a = first := Option.some.inj isFirst
      rw [← isStar]
      rfl
  | digits text =>
      cases text with
      | nil => exact stop first isFirst
      | cons digit text =>
          have same : digit = first := Option.some.inj isFirst
          have isDigit := written digit List.mem_cons_self
          have nonzero : digit ≠ 0x30 := fun isZero =>
            noZero (congrArg some isZero)
          have noDash : digit ≠ 0x2d := by
            intro isDash
            rw [isDash] at isDigit
            contradiction
          rw [← same]
          simp [isFlag, nonzero, noDash]

/-- The width ends in front of the point, the `l` or the conversion. -/
theorem afterWidth_stops {c first : UInt8} {fmt : List UInt8}
    (ends : EndsSpecifier c) (isFirst : fmt.head? = some first)
    (which : first = 0x2e ∨ first = 0x6c ∨ first = c) :
    StopsAt isDigit fmt ∧ StopsAt isFlag fmt ∧
      fmt.head? ≠ some 0x2a := by
  rw [StopsAt, StopsAt, isFirst]
  rcases which with rfl | rfl | rfl
  · exact ⟨by simp [isDigit], by simp [isFlag], by decide⟩
  · exact ⟨by simp [isDigit], by simp [isFlag], by decide⟩
  · have noStar : some first ≠ some 0x2a := fun isStar =>
      ends.noStar (Option.some.inj isStar)
    exact ⟨by simp [ends.noDigit], by simp [ends.noFlag], noStar⟩

/-- A written specifier is read back, up to its conversion. -/
theorem specifierAt_text {specifier : Specifier} {c : UInt8}
    (written : specifier.Written) (ends : EndsSpecifier c)
    (fmt : List UInt8) :
    specifierAt (specifier.text ++ c :: fmt) = (specifier, c :: fmt) := by
  have long : ∃ first,
      ((if specifier.isLong then [0x6c] else []) ++ c :: fmt).head? =
        some first ∧ (first = 0x6c ∨ first = c) := by
    cases specifier.isLong with
    | false => exact ⟨c, rfl, .inr rfl⟩
    | true => exact ⟨0x6c, rfl, .inl rfl⟩
  have whole : specifier.text ++ c :: fmt =
      specifier.flags ++ (specifier.width.text ++
        (precisionText specifier.precision ++
          ((if specifier.isLong then [0x6c] else []) ++ c :: fmt))) := by
    simp only [Specifier.text, List.append_assoc]
  have isLong : (((if specifier.isLong then [0x6c] else []) ++
      c :: fmt).head? == some 0x6c) = specifier.isLong := by
    cases specifier.isLong with
    | false => simpa using ends.noLong
    | true => rfl
  have isConversion : (if specifier.isLong then
      ((if specifier.isLong then [0x6c] else []) ++ c :: fmt).tail
      else (if specifier.isLong then [0x6c] else []) ++ c :: fmt) =
        c :: fmt := by
    cases specifier.isLong <;> rfl
  rw [whole]
  generalize (if specifier.isLong then [0x6c] else []) ++ c :: fmt =
    behind at *
  obtain ⟨first, isFirst, which⟩ := long
  have behindPrecision := afterWidth_stops ends isFirst (.inr which)
  have noPoint : behind.head? ≠ some 0x2e := by
    rw [isFirst]
    intro isPoint
    rcases which with rfl | rfl
    · contradiction
    · exact ends.noPoint (Option.some.inj isPoint)
  have isPrecision := precisionAt_text written.precision
    behindPrecision.1 behindPrecision.2.2 noPoint
  have behindWidth : ∃ first,
      (precisionText specifier.precision ++ behind).head? = some first ∧
        (first = 0x2e ∨ first = 0x6c ∨ first = c) := by
    cases specifier.precision with
    | none => exact ⟨first, isFirst, .inr which⟩
    | some number => exact ⟨0x2e, rfl, .inl rfl⟩
  obtain ⟨next, isNext, which⟩ := behindWidth
  have stops := afterWidth_stops ends isNext which
  have flags := takeWhile_stops written.flags
    (width_stops written.width written.noZero stops.2.1)
  have isWidth := numberAt_text written.width stops.1 stops.2.2
  unfold specifierAt
  simp only [flags.1, flags.2, isWidth, isPrecision, isLong,
    isConversion]

theorem Number.resolve_append {number : Number} {args rest : List VaArg}
    {value : Int32} (resolved : number.resolve args = some (value, rest))
    (more : List VaArg) :
    number.resolve (args ++ more) = some (value, rest ++ more) := by
  cases number with
  | digits text =>
      cases resolved
      rfl
  | star =>
      cases args with
      | nil => contradiction
      | cons arg args =>
          cases arg with
          | word value =>
              cases resolved
              rfl
          | long value => contradiction
          | string text => contradiction

theorem Specifier.resolve_append {specifier : Specifier}
    {args rest : List VaArg} {directive : Directive}
    (resolved : specifier.resolve args = some (directive, rest))
    (more : List VaArg) :
    specifier.resolve (args ++ more) = some (directive, rest ++ more) := by
  rw [Specifier.resolve] at resolved ⊢
  cases isWidth : specifier.width.resolve args with
  | none =>
      rw [isWidth] at resolved
      contradiction
  | some width =>
      rw [isWidth] at resolved
      rw [Number.resolve_append isWidth]
      cases hasPrecision : specifier.precision with
      | none =>
          rw [hasPrecision] at resolved
          cases resolved
          rfl
      | some number =>
          rw [hasPrecision] at resolved
          cases isPrecision : number.resolve width.2 with
          | none =>
              simp [resolvePrecision, isPrecision] at resolved
          | some precision =>
              have appended := Number.resolve_append isPrecision more
              simp only [resolvePrecision, isPrecision, appended,
                Option.bind_eq_bind, Option.bind_some] at resolved ⊢
              cases resolved
              rfl

theorem Specifier.resolve_flags {specifier : Specifier}
    {args rest : List VaArg} {directive : Directive}
    (resolved : specifier.resolve args = some (directive, rest)) :
    directive.isLong = specifier.isLong ∧
      (directive.zeroPad → directive.leftAlign = false) := by
  rw [Specifier.resolve] at resolved
  cases isWidth : specifier.width.resolve args with
  | none =>
      rw [isWidth] at resolved
      contradiction
  | some width =>
      cases isPrecision : resolvePrecision width.2 specifier.precision with
      | none =>
          simp [isWidth, isPrecision] at resolved
      | some precision =>
          simp only [isWidth, isPrecision, Option.bind_eq_bind,
            Option.bind_some, Option.pure_def, Option.some.injEq,
            Prod.mk.injEq] at resolved
          rw [← resolved.1]
          constructor
          · rfl
          · intro zeroPad
            simpa using (Bool.and_eq_true_iff.mp zeroPad).2

/-- `vsnprintf` parses a written specifier. -/
theorem parseDirective_text {specifier : Specifier} {directive : Directive}
    {stars : List VaArg} {c : UInt8} (written : specifier.Written)
    (ends : EndsSpecifier c)
    (resolved : specifier.resolve stars = some (directive, []))
    (fmt : List UInt8) (args : List VaArg) :
    parseDirective (specifier.text ++ c :: fmt) (stars ++ args) =
      some (directive, c :: fmt, args) := by
  rw [parseDirective_eq, specifierAt_text written ends,
    Specifier.resolve_append resolved]
  rfl

end LoafOs
