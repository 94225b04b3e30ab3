import LoafOs.Libc.NumberText
import LoafOs.Libc.Specifiers

/-!
# The bounds of the formatter

Whether `vsnprintf` stays inside the format, inside its `tmp` and inside
the buffer, from what the format asks for and what the arguments are.
-/

namespace LoafOs

/-! ## What a format asks for -/

/-- A piece of a format: a character that is copied, a specifier with its
conversion, or one that the final NUL cuts short. -/
inductive Piece
  | plain (c : UInt8)
  | conversion (specifier : Specifier) (c : UInt8)
  | cut (specifier : Specifier)
  deriving DecidableEq, Repr

def piecesLoop : (fuel : Nat) → List UInt8 → List Piece
  | _, [] => []
  | 0, _ :: _ => []
  | fuel + 1, c :: fmt =>
      if c ≠ 0x25 then .plain c :: piecesLoop fuel fmt
      else
        match (specifierAt fmt).2 with
        | [] => [.cut (specifierAt fmt).1]
        | conversion :: rest =>
            .conversion (specifierAt fmt).1 conversion ::
              piecesLoop fuel rest

/-- Every piece takes at least one character. -/
def formatPieces (fmt : List UInt8) : List Piece :=
  piecesLoop fmt.length fmt

inductive ArgKind
  | word
  | long
  | string
  deriving DecidableEq, Repr

def VaArg.kind : VaArg → ArgKind
  | .word _ => .word
  | .long _ => .long
  | .string _ => .string

def Number.kinds : Number → List ArgKind
  | .digits _ => []
  | .star => [.word]

/-- The arguments for the stars of a specifier. -/
def Specifier.kinds (specifier : Specifier) : List ArgKind :=
  specifier.width.kinds ++
    match specifier.precision with
    | none => []
    | some precision => precision.kinds

/-- The argument that a conversion takes. -/
def conversionKinds (isLong : Bool) (c : UInt8) : List ArgKind :=
  if c = 0x63 then [.word]
  else if c = 0x73 then [.string]
  else if c = 0x64 then [.word]
  else if c = 0x75 then [if isLong then .long else .word]
  else if c = 0x78 then [if isLong then .long else .word]
  else if c = 0x70 then [.word]
  else []

def Piece.kinds : Piece → List ArgKind
  | .plain _ => []
  | .conversion specifier c =>
      specifier.kinds ++ conversionKinds specifier.isLong c
  | .cut specifier => specifier.kinds

/-- The arguments begin with those that the pieces take. -/
def PiecesMatch (pieces : List Piece) (args : List VaArg) : Prop :=
  pieces.flatMap Piece.kinds <+: args.map VaArg.kind

instance (pieces : List Piece) (args : List VaArg) :
    Decidable (PiecesMatch pieces args) :=
  inferInstanceAs (Decidable (_ <+: _))

/-! ## What fits -/

/-- `%d` puts a sign in front of this argument. -/
def takesSign (args : List VaArg) : Bool :=
  match args with
  | .word value :: _ => decide (value.toInt32 < 0)
  | _ => false

/-- `tmp` has 32 places, one of them for the NUL. -/
def ConversionFits (precision : Int32) (c : UInt8) (args : List VaArg) :
    Prop :=
  if c = 0x64 then (takesSign args).toNat + precision.toInt < 32
  else if c = 0x75 ∨ c = 0x78 then precision.toInt < 32
  else True

instance (precision : Int32) (c : UInt8) (args : List VaArg) :
    Decidable (ConversionFits precision c args) :=
  if isSigned : c = 0x64 then
    decidable_of_iff ((takesSign args).toNat + precision.toInt < 32)
      (by rw [ConversionFits, if_pos isSigned])
  else
    decidable_of_iff (c = 0x75 ∨ c = 0x78 → precision.toInt < 32)
      (by rw [ConversionFits, if_neg isSigned]; split <;> simp [*])

def ResolvedFits (c : UInt8) : Option (Directive × List VaArg) → Prop
  | none => False
  | some (directive, args) => ConversionFits directive.precision c args

def Piece.Fits (args : List VaArg) : Piece → Prop
  | .plain _ => True
  | .conversion specifier c => ResolvedFits c (specifier.resolve args)
  | .cut _ => False

/-- Each piece fits with the arguments that the ones before it leave. -/
def PiecesFit : List Piece → List VaArg → Prop
  | [], _ => True
  | piece :: pieces, args =>
      piece.Fits args ∧ PiecesFit pieces (args.drop piece.kinds.length)

instance ResolvedFits.decidable (c : UInt8) :
    (resolved : Option (Directive × List VaArg)) →
      Decidable (ResolvedFits c resolved)
  | none => inferInstanceAs (Decidable False)
  | some (directive, args) =>
      inferInstanceAs (Decidable (ConversionFits directive.precision c args))

instance Piece.decidableFits (args : List VaArg) :
    (piece : Piece) → Decidable (piece.Fits args)
  | .plain _ => inferInstanceAs (Decidable True)
  | .conversion specifier c =>
      inferInstanceAs (Decidable (ResolvedFits c (specifier.resolve args)))
  | .cut _ => inferInstanceAs (Decidable False)

instance PiecesFit.decidable :
    (pieces : List Piece) → (args : List VaArg) →
      Decidable (PiecesFit pieces args)
  | [], _ => inferInstanceAs (Decidable True)
  | piece :: pieces, args =>
      have := PiecesFit.decidable pieces (args.drop piece.kinds.length)
      inferInstanceAs (Decidable (_ ∧ _))

/-! ## The arguments that are taken -/

theorem prefix_append_split {alpha : Type} {front back whole : List alpha}
    (isPrefix : front ++ back <+: whole) :
    front <+: whole ∧ back <+: whole.drop front.length := by
  obtain ⟨rest, isWhole⟩ := isPrefix
  rw [← isWhole, List.append_assoc]
  constructor
  · exact List.prefix_append _ _
  · rw [List.drop_left]
    exact List.prefix_append _ _

theorem Number.resolve_matching {number : Number} {args : List VaArg}
    (matching : number.kinds <+: args.map VaArg.kind) :
    ∃ value, number.resolve args =
      some (value, args.drop number.kinds.length) := by
  cases number with
  | digits text => exact ⟨decimalValue text, rfl⟩
  | star =>
      cases args with
      | nil =>
          rw [List.map_nil] at matching
          exact absurd (List.prefix_nil.mp matching) (List.cons_ne_nil _ _)
      | cons arg args =>
          have kind := (List.cons_prefix_cons.mp matching).1
          cases arg with
          | word value => exact ⟨value.toInt32, rfl⟩
          | long value => contradiction
          | string text => contradiction

theorem Specifier.resolve_matching {specifier : Specifier}
    {args : List VaArg}
    (matching : specifier.kinds <+: args.map VaArg.kind) :
    ∃ directive, specifier.resolve args =
        some (directive, args.drop specifier.kinds.length) ∧
      directive.isLong = specifier.isLong := by
  have halves := prefix_append_split matching
  obtain ⟨width, isWidth⟩ := Number.resolve_matching halves.1
  have taken : specifier.kinds.length = specifier.width.kinds.length +
      (match specifier.precision with
        | none => []
        | some precision => precision.kinds).length :=
    List.length_append
  rw [Specifier.resolve, isWidth, taken, ← List.drop_drop]
  rw [← List.map_drop] at halves
  cases isPrecision : specifier.precision with
  | none => exact ⟨_, rfl, rfl⟩
  | some number =>
      rw [isPrecision] at halves
      obtain ⟨precision, found⟩ := Number.resolve_matching halves.2
      rw [Option.bind_eq_bind, Option.bind_some]
      dsimp only [resolvePrecision]
      rw [found]
      exact ⟨_, rfl, rfl⟩

theorem unsignedArg_matching {directive : Directive} {args : List VaArg}
    (matching : [if directive.isLong then ArgKind.long else .word] <+:
      args.map VaArg.kind) :
    ∃ value, unsignedArg directive args = some (value, args.drop 1) := by
  cases args with
  | nil =>
      rw [List.map_nil] at matching
      exact absurd (List.prefix_nil.mp matching) (List.cons_ne_nil _ _)
  | cons arg args =>
      have kind := (List.cons_prefix_cons.mp matching).1
      cases isLong : directive.isLong <;> rw [isLong] at kind <;>
        cases arg <;> simp_all [unsignedArg, VaArg.kind]

/-! ## One conversion -/

theorem convert_signed (directive : Directive) (value : UInt32)
    (args : List VaArg) :
    convert directive 0x64 (.word value :: args) =
      (putNumber directive (decide (value.toInt32 < 0))
        (if decide (value.toInt32 < 0) then -value else value) 10).map
          fun text => (text, args) := by
  rw [convert, if_neg (by decide), if_neg (by decide), if_pos rfl]
  dsimp only
  cases putNumber directive (decide (value.toInt32 < 0))
    (if decide (value.toInt32 < 0) then -value else value) 10 <;> rfl

theorem convert_unsigned (directive : Directive) (args : List VaArg) :
    convert directive 0x75 args = (unsignedArg directive args).bind
      fun found => (putNumber directive false found.1 10).map
        fun text => (text, found.2) := by
  unfold convert
  rw [if_neg (by decide), if_neg (by decide), if_neg (by decide),
    if_pos rfl]
  cases unsignedArg directive args with
  | none => rfl
  | some found =>
      rw [Option.bind_eq_bind, Option.bind_some, Option.bind_some]
      dsimp only
      cases putNumber directive false found.1 10 <;> rfl

theorem convert_hex (directive : Directive) (args : List VaArg) :
    convert directive 0x78 args = (unsignedArg directive args).bind
      fun found => (putNumber directive false found.1 16).map
        fun text => (text, found.2) := by
  unfold convert
  rw [if_neg (by decide), if_neg (by decide), if_neg (by decide),
    if_neg (by decide), if_pos rfl]
  cases unsignedArg directive args with
  | none => rfl
  | some found =>
      rw [Option.bind_eq_bind, Option.bind_some, Option.bind_some]
      dsimp only
      cases putNumber directive false found.1 16 <;> rfl

/-- The first argument is of the kind that is asked for. -/
theorem first_matching {kind : ArgKind} {args : List VaArg}
    (matching : [kind] <+: args.map VaArg.kind) :
    ∃ arg rest, args = arg :: rest ∧ arg.kind = kind := by
  cases args with
  | nil =>
      rw [List.map_nil] at matching
      exact absurd (List.prefix_nil.mp matching) (List.cons_ne_nil _ _)
  | cons arg rest =>
      exact ⟨arg, rest, rfl, (List.cons_prefix_cons.mp matching).1.symm⟩

theorem first_word {args : List VaArg}
    (matching : [ArgKind.word] <+: args.map VaArg.kind) :
    ∃ value rest, args = .word value :: rest := by
  obtain ⟨arg, rest, isFirst, kind⟩ := first_matching matching
  cases arg with
  | word value => exact ⟨value, rest, isFirst⟩
  | long value => contradiction
  | string text => contradiction

section Convert

variable {directive : Directive} {c : UInt8} {args : List VaArg}

/-- Each of the number conversions is one `putNumber`. -/
theorem convert_number
    (matching :
      conversionKinds directive.isLong c <+: args.map VaArg.kind)
    (isNumber : c = 0x64 ∨ c = 0x75 ∨ c = 0x78) :
    ∃ value base, 10 ≤ base ∧ convert directive c args =
      (putNumber directive (c == 0x64 && takesSign args) value base).map
        fun text => (text, args.drop
          (conversionKinds directive.isLong c).length) := by
  rcases isNumber with rfl | rfl | rfl
  · obtain ⟨value, rest, rfl⟩ := first_word matching
    exact ⟨_, 10, Nat.le_refl 10, convert_signed directive value rest⟩
  · obtain ⟨value, taken⟩ := unsignedArg_matching matching
    rw [convert_unsigned, taken]
    exact ⟨value, 10, Nat.le_refl 10, rfl⟩
  · obtain ⟨value, taken⟩ := unsignedArg_matching matching
    rw [convert_hex, taken]
    exact ⟨value, 16, by decide, rfl⟩

/-- The other conversions take their argument and put something. -/
theorem convert_other
    (matching :
      conversionKinds directive.isLong c <+: args.map VaArg.kind)
    (other : ¬ (c = 0x64 ∨ c = 0x75 ∨ c = 0x78)) :
    ∃ text, convert directive c args =
      some (text, args.drop
        (conversionKinds directive.isLong c).length) := by
  have notSigned : c ≠ 0x64 := fun same => other (.inl same)
  have notUnsigned : c ≠ 0x75 := fun same => other (.inr (.inl same))
  have notHex : c ≠ 0x78 := fun same => other (.inr (.inr same))
  unfold convert
  unfold conversionKinds at matching ⊢
  rw [if_neg notSigned, if_neg notUnsigned, if_neg notHex] at matching ⊢
  split
  case isTrue isChar =>
    rw [if_pos isChar] at matching
    obtain ⟨value, rest, rfl⟩ := first_word matching
    exact ⟨_, rfl⟩
  case isFalse notChar =>
    rw [if_neg notChar] at matching
    split
    case isTrue isString =>
      rw [if_pos isString] at matching
      obtain ⟨arg, rest, rfl, kind⟩ := first_matching matching
      cases arg with
      | word value => contradiction
      | long value => contradiction
      | string text => exact ⟨_, rfl⟩
    case isFalse notString =>
      rw [if_neg notString] at matching
      split
      case isTrue isPointer =>
        rw [if_pos isPointer] at matching
        obtain ⟨value, rest, rfl⟩ := first_word matching
        have length := utoa_length (show 10 ≤ 16 by decide) value
        have room : 0 + (0x30 :: 0x78 :: utoa value 16 ++ [0]).length ≤
            34 := by
          simp only [List.length_append, List.length_cons, List.length_nil]
          omega
        dsimp only
        rw [storeChars_fits room]
        exact ⟨_, rfl⟩
      case isFalse notPointer =>
        split
        case isTrue isPercent => exact ⟨_, rfl⟩
        case isFalse unknown => exact ⟨_, rfl⟩

theorem conversionFits_number (isNumber : c = 0x64 ∨ c = 0x75 ∨ c = 0x78)
    (precision : Int32) :
    ConversionFits precision c args ↔
      (c == 0x64 && takesSign args).toNat + precision.toInt < 32 := by
  rcases isNumber with rfl | rfl | rfl
  · rfl
  · simp [ConversionFits]
  · simp [ConversionFits]

/-- A conversion that fits puts its text and takes its argument. -/
theorem convert_fits
    (matching :
      conversionKinds directive.isLong c <+: args.map VaArg.kind)
    (fits : ConversionFits directive.precision c args) :
    ∃ text, convert directive c args =
      some (text, args.drop
        (conversionKinds directive.isLong c).length) := by
  by_cases isNumber : c = 0x64 ∨ c = 0x75 ∨ c = 0x78
  · obtain ⟨value, base, large, converted⟩ :=
      convert_number matching isNumber
    have room := (conversionFits_number isNumber _).mp fits
    rw [converted, putNumber_fits large room]
    exact ⟨_, rfl⟩
  · exact convert_other matching isNumber

/-- One that does not fit leaves `tmp`. -/
theorem convert_overflows
    (matching :
      conversionKinds directive.isLong c <+: args.map VaArg.kind)
    (tooLong : ¬ ConversionFits directive.precision c args) :
    convert directive c args = none := by
  have isNumber : c = 0x64 ∨ c = 0x75 ∨ c = 0x78 := by
    apply Decidable.byContradiction
    intro other
    apply tooLong
    have notSigned : c ≠ 0x64 := fun same => other (.inl same)
    rw [ConversionFits, if_neg notSigned,
      if_neg fun same => other (.inr same)]
    trivial
  obtain ⟨value, base, large, converted⟩ :=
    convert_number matching isNumber
  have outside := mt (conversionFits_number isNumber _).mpr tooLong
  rw [converted, putNumber_overflows large (Int.not_lt.mp outside)]
  rfl

end Convert

/-! ## A whole format -/

theorem specifierAt_length (fmt : List UInt8) :
    (specifierAt fmt).2.length ≤ fmt.length := by
  have number (fmt : List UInt8) : (numberAt fmt).2.length ≤ fmt.length := by
    unfold numberAt
    split
    case isTrue => simp
    case isFalse => exact (List.dropWhile_sublist _).length_le
  have precision (fmt : List UInt8) :
      (precisionAt fmt).2.length ≤ fmt.length := by
    unfold precisionAt
    split
    case isTrue =>
      have shorter := number fmt.tail
      rw [List.length_tail] at shorter
      exact Nat.le_trans shorter (Nat.sub_le _ _)
    case isFalse => exact Nat.le_refl _
  have behindFlags := (List.dropWhile_sublist isFlag (l := fmt)).length_le
  have behindWidth := number (fmt.dropWhile isFlag)
  have behindPrecision := precision (numberAt (fmt.dropWhile isFlag)).2
  unfold specifierAt
  dsimp only
  split
  case isTrue =>
    rw [List.length_tail]
    omega
  case isFalse => omega

theorem formatLoop_plain {fuel : Nat} {c : UInt8} {fmt : List UInt8}
    {args : List VaArg} (isPlain : c ≠ 0x25) :
    formatLoop (fuel + 1) (c :: fmt) args =
      (formatLoop fuel fmt args).map (c :: ·) := by
  rw [formatLoop, if_pos isPlain]

theorem formatLoop_specifier {fuel : Nat} {fmt : List UInt8}
    {args rest : List VaArg} {directive : Directive}
    (resolved : (specifierAt fmt).1.resolve args =
      some (directive, rest)) :
    formatLoop (fuel + 1) (0x25 :: fmt) args =
      match (specifierAt fmt).2 with
      | [] => none
      | conversion :: fmt => do
          let (text, args) ← convert directive conversion rest
          let after ← formatLoop fuel fmt args
          return text ++ after := by
  rw [formatLoop, if_neg (by decide), parseDirective_eq, resolved]
  rfl

/-- A whole specifier: it fits, and the loop ends behind it. -/
theorem formatLoop_conversion {fuel : Nat} {fmt rest : List UInt8}
    {args : List VaArg} {c : UInt8}
    (isBehind : (specifierAt fmt).2 = c :: rest)
    (matching : (Piece.conversion (specifierAt fmt).1 c).kinds <+:
      args.map VaArg.kind) :
    (∃ text, formatLoop (fuel + 1) (0x25 :: fmt) args = some text) ↔
      (Piece.conversion (specifierAt fmt).1 c).Fits args ∧
        ∃ text, formatLoop fuel rest (args.drop
          (Piece.conversion (specifierAt fmt).1 c).kinds.length) =
            some text := by
  have halves := prefix_append_split matching
  obtain ⟨directive, resolved, isLong⟩ :=
    Specifier.resolve_matching halves.1
  have fits : (Piece.conversion (specifierAt fmt).1 c).Fits args ↔
      ConversionFits directive.precision c
        (args.drop (specifierAt fmt).1.kinds.length) := by
    rw [Piece.Fits, resolved]
    rfl
  have own : conversionKinds directive.isLong c <+:
      (args.drop (specifierAt fmt).1.kinds.length).map VaArg.kind := by
    rw [isLong, List.map_drop]
    exact halves.2
  have taken : (args.drop (specifierAt fmt).1.kinds.length).drop
      (conversionKinds directive.isLong c).length =
        args.drop
          (Piece.conversion (specifierAt fmt).1 c).kinds.length := by
    rw [List.drop_drop, isLong, Piece.kinds, List.length_append]
  rw [formatLoop_specifier resolved, isBehind, fits]
  dsimp only
  by_cases inside : ConversionFits directive.precision c
      (args.drop (specifierAt fmt).1.kinds.length)
  · obtain ⟨text, converted⟩ := convert_fits own inside
    rw [converted, taken, Option.bind_eq_bind, Option.bind_some]
    dsimp only
    cases formatLoop fuel rest (args.drop
      (Piece.conversion (specifierAt fmt).1 c).kinds.length) with
    | none =>
        constructor
        · rintro ⟨whole, isWhole⟩
          contradiction
        · rintro ⟨-, after, isAfter⟩
          contradiction
    | some after =>
        exact iff_of_true ⟨_, rfl⟩ ⟨inside, after, rfl⟩
  · rw [convert_overflows own inside]
    constructor
    · rintro ⟨whole, isWhole⟩
      contradiction
    · rintro ⟨fit, -⟩
      contradiction

/-- Nothing ends behind a specifier that the NUL cuts short. -/
theorem formatLoop_cut {fuel : Nat} {fmt : List UInt8} {args : List VaArg}
    (isCut : (specifierAt fmt).2 = []) :
    formatLoop (fuel + 1) (0x25 :: fmt) args = none := by
  rw [formatLoop, if_neg (by decide), parseDirective_eq]
  cases (specifierAt fmt).1.resolve args with
  | none => rfl
  | some found =>
      rw [Option.map_some, Option.bind_eq_bind, Option.bind_some, isCut]

/-- With matching arguments, the loop ends exactly if each piece fits. -/
theorem formatLoop_ends_iff {fuel : Nat} {fmt : List UInt8}
    {args : List VaArg} (enough : fmt.length ≤ fuel)
    (matching : PiecesMatch (piecesLoop fuel fmt) args) :
    (∃ text, formatLoop fuel fmt args = some text) ↔
      PiecesFit (piecesLoop fuel fmt) args := by
  induction fuel generalizing fmt args with
  | zero =>
      rw [List.length_eq_zero_iff.mp (Nat.le_zero.mp enough)]
      exact iff_of_true ⟨[], rfl⟩ trivial
  | succ fuel inductionHypothesis =>
      cases fmt with
      | nil => exact iff_of_true ⟨[], rfl⟩ trivial
      | cons c fmt =>
          have shorter : fmt.length ≤ fuel := Nat.le_of_succ_le_succ enough
          by_cases isPlain : c ≠ 0x25
          · rw [piecesLoop, if_pos isPlain] at matching ⊢
            rw [formatLoop_plain isPlain]
            have rest := inductionHypothesis shorter matching
            constructor
            · rintro ⟨text, whole⟩
              obtain ⟨behind, isBehind, -⟩ := Option.map_eq_some_iff.mp whole
              exact ⟨trivial, rest.mp ⟨behind, isBehind⟩⟩
            · rintro ⟨-, fit⟩
              obtain ⟨behind, isBehind⟩ := rest.mpr fit
              rw [isBehind]
              exact ⟨_, rfl⟩
          · have isPercent : c = 0x25 := Decidable.not_not.mp isPlain
            subst isPercent
            rw [piecesLoop, if_neg isPlain] at matching ⊢
            have behind := specifierAt_length fmt
            cases isBehind : (specifierAt fmt).2 with
            | nil =>
                rw [formatLoop_cut isBehind]
                constructor
                · rintro ⟨text, isText⟩
                  contradiction
                · intro fit
                  exact absurd fit.1 id
            | cons conversion rest =>
                rw [isBehind, List.length_cons] at behind
                rw [isBehind] at matching
                have halves := prefix_append_split matching
                have left : PiecesMatch (piecesLoop fuel rest)
                    (args.drop (Piece.conversion (specifierAt fmt).1
                      conversion).kinds.length) := by
                  rw [PiecesMatch, List.map_drop]
                  exact halves.2
                rw [formatLoop_conversion isBehind halves.1,
                  inductionHypothesis (by omega) left]
                rfl

/-! ## The buffer -/

/-- `PUT` stores below the last byte of the buffer only. -/
theorem putChar_inside {size limit : Nat} {out : (Nat → UInt8) × Nat}
    (isLimit : u32 (size + 2 ^ 32 - 1) = limit) (inside : out.2 ≤ limit)
    (c : UInt8) :
    (putChar size out c).2 ≤ limit ∧
      ∀ k, limit ≤ k → (putChar size out c).1 k = out.1 k := by
  have put : putChar size out c =
      if out.2 < limit then (Function.update out.1 out.2 c, out.2 + 1)
      else out := by
    subst isLimit
    rfl
  rw [put]
  clear put isLimit
  split
  case isTrue room =>
    constructor
    · exact room
    · intro k behind
      exact Function.update_of_ne (by omega) _ _
  case isFalse full =>
    constructor
    · exact inside
    · intro k behind
      rfl

theorem putChars_inside {size limit : Nat} {out : (Nat → UInt8) × Nat}
    (isLimit : u32 (size + 2 ^ 32 - 1) = limit) (inside : out.2 ≤ limit)
    (text : List UInt8) :
    (text.foldl (putChar size) out).2 ≤ limit ∧
      ∀ k, limit ≤ k → (text.foldl (putChar size) out).1 k = out.1 k := by
  induction text generalizing out with
  | nil =>
      constructor
      · exact inside
      · intro k _
        rfl
  | cons c text inductionHypothesis =>
      have first := putChar_inside isLimit inside c
      have rest := inductionHypothesis first.1
      rw [List.foldl_cons]
      constructor
      · exact rest.1
      · intro k behind
        exact (rest.2 k behind).trans (first.2 k behind)

/-- `vsnprintf` ends with a NUL inside the buffer and nothing stored behind
it. -/
def StaysInBounds (buf : Nat → UInt8) (size : Nat) (fmt : List UInt8)
    (args : List VaArg) : Prop :=
  ∃ buf' i, vsnprintf buf size fmt args = some (buf', i) ∧
    i < size ∧ buf' i = 0 ∧ ∀ k, size ≤ k → buf' k = buf k

theorem vsnprintf_inside {buf : Nat → UInt8} {size : Nat}
    {fmt : List UInt8} {args : List VaArg} {text : List UInt8}
    (nonempty : 1 ≤ size) (isSize : size < 2 ^ 32)
    (isText : formatText fmt args = some text) :
    StaysInBounds buf size fmt args := by
  have isLimit : u32 (size + 2 ^ 32 - 1) = size - 1 := by
    unfold u32
    omega
  have start : (buf, 0).2 ≤ size - 1 := Nat.zero_le _
  have stored := putChars_inside isLimit start text
  have before := stored.1
  refine ⟨_, _, by rw [vsnprintf, isText]; rfl, by omega, ?_, ?_⟩
  · exact Function.update_self _ _ _
  · intro k behind
    rw [Function.update_of_ne (by omega)]
    exact stored.2 k (by omega)

/-- With the arguments that the format takes, `vsnprintf` stays in bounds
exactly if the NUL cuts no specifier short and the sign and the precision of
each number fit into `tmp`. -/
theorem vsnprintf_inBounds_iff {size : Nat} {fmt : List UInt8}
    {args : List VaArg} (buf : Nat → UInt8) (nonempty : 1 ≤ size)
    (isSize : size < 2 ^ 32)
    (matching : PiecesMatch (formatPieces fmt) args) :
    StaysInBounds buf size fmt args ↔
      PiecesFit (formatPieces fmt) args := by
  have ends : (∃ text, formatText fmt args = some text) ↔
      PiecesFit (formatPieces fmt) args :=
    formatLoop_ends_iff (Nat.le_refl _) matching
  rw [← ends]
  constructor
  · rintro ⟨buf', i, stored, -⟩
    rw [vsnprintf] at stored
    cases isText : formatText fmt args with
    | none =>
        rw [isText] at stored
        contradiction
    | some text => exact ⟨text, rfl⟩
  · rintro ⟨text, isText⟩
    exact vsnprintf_inside nonempty isSize isText

/-- `"%-8.30d|%*x"` -/
theorem sampleFormat_inBounds :
    StaysInBounds (fun _ => 0x53) 16
      [0x25, 0x2d, 0x38, 0x2e, 0x33, 0x30, 0x64, 0x7c, 0x25, 0x2a, 0x78]
      [.word (-5), .word 4, .word 255] := by
  have matching : PiecesMatch (formatPieces
      [0x25, 0x2d, 0x38, 0x2e, 0x33, 0x30, 0x64, 0x7c, 0x25, 0x2a, 0x78])
      [.word (-5), .word 4, .word 255] := by
    decide +kernel
  apply (vsnprintf_inBounds_iff _ (by decide) (by decide) matching).mpr
  decide +kernel

/-- `"%"` reads on behind the NUL and `"%.40d"` stores behind `tmp`. -/
theorem shortFormats_outside :
    (PiecesMatch (formatPieces [0x25]) [] ∧
      ¬ StaysInBounds (fun _ => 0) 16 [0x25] []) ∧
    (PiecesMatch (formatPieces [0x25, 0x2e, 0x34, 0x30, 0x64])
        [.word 7] ∧
      ¬ StaysInBounds (fun _ => 0) 16 [0x25, 0x2e, 0x34, 0x30, 0x64]
        [.word 7]) := by
  have cut : vsnprintf (fun _ => 0) 16 [0x25] [] = none := by
    rw [vsnprintf, show formatText [0x25] [] = none by decide +kernel]
    rfl
  have long : vsnprintf (fun _ => 0) 16 [0x25, 0x2e, 0x34, 0x30, 0x64]
      [.word 7] = none := by
    rw [vsnprintf, show formatText [0x25, 0x2e, 0x34, 0x30, 0x64]
      [.word 7] = none by decide +kernel]
    rfl
  refine ⟨⟨by decide, ?_⟩, ⟨by decide +kernel, ?_⟩⟩
  · rintro ⟨buf', i, stored, -⟩
    rw [cut] at stored
    contradiction
  · rintro ⟨buf', i, stored, -⟩
    rw [long] at stored
    contradiction

end LoafOs
