import LoafOs.Words
import Mathlib.Logic.Function.Basic

/-!
# Formatted output

`vsnprintf` and `printf` of `src/libc/stdio.c`, with `utoa` of
`src/libc/stdlib.c`.  Reading the format past its end, storing outside a
local array and taking an argument of another kind than the caller passed
have no result.
-/

namespace LoafOs

/-- One variable argument, as `va_arg` takes it: 32 bits, 64 bits, or a
string, which is `none` for a null pointer. -/
inductive VaArg
  | word (value : UInt32)
  | long (value : UInt64)
  | string (text : Option (List UInt8))
  deriving DecidableEq, Repr

/-- What stands between the `%` and the conversion. -/
structure Directive where
  leftAlign : Bool
  zeroPad : Bool
  width : Int32
  precision : Int32
  isLong : Bool
  deriving DecidableEq, Repr

/-! ## The parser -/

/-- The loop over `-` and `0`. -/
def parseFlags (leftAlign zeroPad : Bool) :
    List UInt8 → Bool × Bool × List UInt8
  | [] => (leftAlign, zeroPad, [])
  | c :: fmt =>
      if c = 0x2d then parseFlags true zeroPad fmt
      else if c = 0x30 then parseFlags leftAlign true fmt
      else (leftAlign, zeroPad, c :: fmt)

/-- The loop over the digits of a width or a precision. -/
def parseDigits (value : Int32) : List UInt8 → Int32 × List UInt8
  | [] => (value, [])
  | c :: fmt =>
      if 0x30 ≤ c ∧ c ≤ 0x39 then
        parseDigits (value * 10 + (c - 0x30).toUInt32.toInt32) fmt
      else (value, c :: fmt)

/-- A width or a precision: digits, or `*` for the next argument. -/
def parseNumber (fmt : List UInt8) (args : List VaArg) :
    Option (Int32 × List UInt8 × List VaArg) :=
  if fmt.head? = some 0x2a then
    match args with
    | .word value :: args => some (value.toInt32, fmt.tail, args)
    | _ => none
  else
    let (value, fmt) := parseDigits 0 fmt
    some (value, fmt, args)

/-- The precision, `-1` if there is none. -/
def parsePrecision (fmt : List UInt8) (args : List VaArg) :
    Option (Int32 × List UInt8 × List VaArg) :=
  if fmt.head? = some 0x2e then parseNumber fmt.tail args
  else some (-1, fmt, args)

/-- `vsnprintf` from behind the `%` up to the conversion. -/
def parseDirective (fmt : List UInt8) (args : List VaArg) :
    Option (Directive × List UInt8 × List VaArg) := do
  let (leftAlign, zeroPad, fmt) := parseFlags false false fmt
  let zeroPad := zeroPad && !leftAlign
  let (width, fmt, args) ← parseNumber fmt args
  let (precision, fmt, args) ← parsePrecision fmt args
  let isLong := fmt.head? == some 0x6c
  let fmt := if isLong then fmt.tail else fmt
  return ({ leftAlign, zeroPad, width, precision, isLong }, fmt, args)

/-! ## The conversions -/

/-- `digits[digit]` of `utoa`. -/
def utoaDigit (digit : Nat) : UInt8 :=
  if digit < 10 then 0x30 + digit.toUInt8 else 0x61 + (digit - 10).toUInt8

/-- The loop of `utoa`: the digits, the least one first. -/
def utoaLoop (base : Nat) : (fuel value : Nat) → List UInt8
  | 0, _ => []
  | fuel + 1, value =>
      if 0 < value then
        utoaDigit (value % base) :: utoaLoop base fuel (value / base)
      else []

/-- `utoa`, without the final NUL. -/
def utoa (value : UInt32) (base : Nat) : List UInt8 :=
  if value = 0 then [0x30] else (utoaLoop base 32 value.toNat).reverse

/-- `tmp[i] = c` for a local array. -/
def storeChar (capacity : Nat) (tmp : Nat → UInt8) (i : Nat) (c : UInt8) :
    Option (Nat → UInt8) :=
  if i < capacity then some (Function.update tmp i c) else none

/-- Characters stored from `i` on. -/
def storeChars (capacity : Nat) :
    (text : List UInt8) → (i : Nat) → (tmp : Nat → UInt8) →
      Option (Nat → UInt8)
  | [], _, tmp => some tmp
  | c :: text, i, tmp => do
      let tmp ← storeChar capacity tmp i c
      storeChars capacity text (i + 1) tmp

/-- `tmp[j + shift] = tmp[j]` for `j` from `first + count - 1` down to
`first`. -/
def shiftDigits (capacity shift first : Nat) :
    (count : Nat) → (tmp : Nat → UInt8) → Option (Nat → UInt8)
  | 0, tmp => some tmp
  | count + 1, tmp => do
      let tmp ← storeChar capacity tmp (first + count + shift)
        (tmp (first + count))
      shiftDigits capacity shift first count tmp

/-- The zeros of a precision, in front of the digits that start at `neg`:
the array and its length. -/
def zeroExtend (capacity neg len : Nat) (precision : Int)
    (tmp : Nat → UInt8) : Option ((Nat → UInt8) × Nat) :=
  if (len - neg : Nat) < precision then do
    let digitsNeeded := (precision - (len - neg : Nat)).toNat
    let tmp ← shiftDigits capacity digitsNeeded neg (len - neg + 1) tmp
    let tmp ← storeChars capacity (List.replicate digitsNeeded 0x30) neg tmp
    return (tmp, len + digitsNeeded)
  else some (tmp, len)

/-- `PAD_AND_PUT`. -/
def padAndPut (directive : Directive) (text : List UInt8) : List UInt8 :=
  let pad := (directive.width - Int32.ofNat text.length).toInt.toNat
  if directive.leftAlign then text ++ List.replicate pad 0x20
  else
    List.replicate pad (if directive.zeroPad then 0x30 else 0x20) ++ text

/-- The number conversions: a sign or not, and the digits. -/
def putNumber (directive : Directive) (neg : Bool) (value : UInt32)
    (base : Nat) : Option (List UInt8) := do
  let sign := neg.toNat
  let digits := utoa value base
  let tmp ← storeChars 32 (digits ++ [0]) sign fun _ => 0
  let tmp ← if neg then storeChar 32 tmp 0 0x2d else some tmp
  let (tmp, len) ← zeroExtend 32 sign (sign + digits.length)
    directive.precision.toInt tmp
  return padAndPut directive ((List.range len).map tmp)

/-- The argument of `%u` and `%x`, as `utoa` takes it. -/
def unsignedArg (directive : Directive) (args : List VaArg) :
    Option (UInt32 × List VaArg) :=
  match args with
  | .long value :: args =>
      if directive.isLong then some (value.toUInt32, args) else none
  | .word value :: args =>
      if directive.isLong then none else some (value, args)
  | _ => none

/-- The characters of `%s`. -/
def stringText (directive : Directive) (s : Option (List UInt8)) :
    List UInt8 :=
  -- `"(null)"`
  let s := s.getD [0x28, 0x6e, 0x75, 0x6c, 0x6c, 0x29]
  let precision := directive.precision.toInt
  if 0 ≤ precision ∧ precision < s.length then s.take precision.toNat else s

/-- The `switch` of `vsnprintf`: what is put, and the arguments that are
left. -/
def convert (directive : Directive) (conversion : UInt8)
    (args : List VaArg) : Option (List UInt8 × List VaArg) :=
  if conversion = 0x63 then
    match args with
    | .word value :: args => some (padAndPut directive [value.toUInt8], args)
    | _ => none
  else if conversion = 0x73 then
    match args with
    | .string s :: args =>
        some (padAndPut directive (stringText directive s), args)
    | _ => none
  else if conversion = 0x64 then
    match args with
    | .word value :: args => do
        let neg := decide (value.toInt32 < 0)
        let text ← putNumber directive neg (if neg then -value else value) 10
        return (text, args)
    | _ => none
  else if conversion = 0x75 then do
    let (value, args) ← unsignedArg directive args
    let text ← putNumber directive false value 10
    return (text, args)
  else if conversion = 0x78 then do
    let (value, args) ← unsignedArg directive args
    let text ← putNumber directive false value 16
    return (text, args)
  else if conversion = 0x70 then
    match args with
    | .word value :: args => do
        let text := 0x30 :: 0x78 :: utoa value 16
        let tmp ← storeChars 34 (text ++ [0]) 0 fun _ => 0
        return (padAndPut directive ((List.range text.length).map tmp), args)
    | _ => none
  else if conversion = 0x25 then some ([0x25], args)
  else some ([], args)

/-- The loop of `vsnprintf`: the characters that it puts. -/
def formatLoop :
    (fuel : Nat) → (fmt : List UInt8) → List VaArg → Option (List UInt8)
  | _, [], _ => some []
  | 0, _ :: _, _ => none
  | fuel + 1, c :: fmt, args =>
      if c ≠ 0x25 then (formatLoop fuel fmt args).map (c :: ·)
      else do
        let (directive, fmt, args) ← parseDirective fmt args
        match fmt with
        -- `*fmt++` steps over the final NUL here.
        | [] => none
        | conversion :: fmt => do
            let (text, args) ← convert directive conversion args
            let rest ← formatLoop fuel fmt args
            return text ++ rest

/-- The formatted text, however long.  Each round of the loop takes at least
one character of the format. -/
def formatText (fmt : List UInt8) (args : List VaArg) : Option (List UInt8) :=
  formatLoop fmt.length fmt args

/-- `PUT`. -/
def putChar (size : Nat) (out : (Nat → UInt8) × Nat) (c : UInt8) :
    (Nat → UInt8) × Nat :=
  if out.2 < u32 (size + 2 ^ 32 - 1) then
    (Function.update out.1 out.2 c, out.2 + 1)
  else out

/-- `vsnprintf`: the buffer afterwards and the result. -/
def vsnprintf (buf : Nat → UInt8) (size : Nat) (fmt : List UInt8)
    (args : List VaArg) : Option ((Nat → UInt8) × Nat) := do
  let text ← formatText fmt args
  let (buf, i) := text.foldl (putChar size) (buf, 0)
  return (Function.update buf i 0, i)

/-- `sizeof(buf)` of `printf`. -/
def printfSize : Nat := 1024

/-- `printf` up to `sys_print(buf)`. -/
def printf (buf : Nat → UInt8) (fmt : List UInt8) (args : List VaArg) :
    Option ((Nat → UInt8) × Nat) :=
  vsnprintf buf printfSize fmt args

/-! ## What the buffer holds -/

/-- The string `text` and its final NUL stand at `buf`. -/
def HoldsString (buf : Nat → UInt8) (text : List UInt8) : Prop :=
  ∀ i ≤ text.length, buf i = (text[i]?).getD 0

theorem foldl_putChar {size : Nat} {text : List UInt8}
    (buf : Nat → UInt8) (i : Nat)
    (room : i + text.length ≤ u32 (size + 2 ^ 32 - 1)) :
    text.foldl (putChar size) (buf, i) =
      (fun k => if i ≤ k then (text[k - i]?).getD (buf k) else buf k,
        i + text.length) := by
  induction text generalizing buf i with
  | nil =>
      refine Prod.ext (funext fun k => ?_) rfl
      simp
  | cons c text inductionHypothesis =>
      rw [List.length_cons] at room
      have here : putChar size (buf, i) c =
          (Function.update buf i c, i + 1) :=
        if_pos (by change i < _; omega)
      rw [List.foldl_cons, here, inductionHypothesis _ _ (by omega)]
      refine Prod.ext (funext fun k => ?_) (by
        rw [List.length_cons]
        change i + 1 + text.length = i + (text.length + 1)
        omega)
      rcases Nat.lt_trichotomy k i with before | rfl | behind
      · simp only [if_neg (Nat.not_le.mpr before),
          if_neg (show ¬ i + 1 ≤ k by omega)]
        exact Function.update_of_ne (by omega) _ _
      · simp only [if_neg (Nat.not_succ_le_self k), if_pos (Nat.le_refl k),
          Nat.sub_self, List.getElem?_cons_zero, Option.getD_some,
          Function.update_self]
      · have next : k - i = k - (i + 1) + 1 := by omega
        simp only [if_pos (Nat.le_of_lt behind), if_pos (show i + 1 ≤ k from behind),
          next,
          List.getElem?_cons_succ,
          Function.update_of_ne (show k ≠ i by omega)]

/-- A text that leaves room for the NUL is stored whole. -/
theorem vsnprintf_whole (buf : Nat → UInt8) (size : Nat)
    {fmt : List UInt8} {args : List VaArg} {text : List UInt8}
    (isText : formatText fmt args = some text)
    (room : text.length ≤ u32 (size + 2 ^ 32 - 1)) :
    ∃ buf', vsnprintf buf size fmt args = some (buf', text.length) ∧
      HoldsString buf' text := by
  have stored := foldl_putChar buf 0
    (show 0 + text.length ≤ u32 (size + 2 ^ 32 - 1) by omega)
  rw [Nat.zero_add] at stored
  refine ⟨_, by rw [vsnprintf, isText, Option.bind_eq_bind,
    Option.bind_some, stored]; rfl, ?_⟩
  intro i below
  rcases Nat.lt_or_eq_of_le below with inside | rfl
  · rw [Function.update_of_ne (Nat.ne_of_lt inside)]
    simp [List.getElem?_eq_getElem inside]
  · rw [Function.update_self, List.getElem?_eq_none (Nat.le_refl _)]
    rfl

end LoafOs
