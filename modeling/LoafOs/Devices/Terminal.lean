import Mathlib.Data.Finset.Basic

/-!
# The terminal

`src/vga.c`: the text screen with its escape sequences.  An access outside
`term_buffer` or `esc_params` has no result, so a byte stream that the
model prints to its end has made none.  The writes to the cursor registers
change nothing that the driver reads and are left out.
-/

namespace LoafOs

/-- `VGA_WIDTH`, `VGA_HEIGHT` and `ESC_MAX_PARAMS`. -/
def vgaWidth : Nat := 80
def vgaHeight : Nat := 25
def escMaxParams : Int := 10

/-- `VGA_COLOR_BLACK` and `VGA_COLOR_WHITE`. -/
def vgaColorBlack : UInt8 := 0
def vgaColorWhite : UInt8 := 15

/-- `esc_state_t`. -/
inductive EscState where
  | none
  | start
  | params
  deriving DecidableEq, Repr

/-- The static variables of the driver and the screen memory. -/
structure Terminal where
  escState : EscState
  escParams : Int → Int32
  escParamCount : Int
  escCurParam : Int32
  escParamActive : Bool
  row : Nat
  column : Nat
  color : UInt8
  buffer : Nat → UInt16

/-- `vga_entry`. -/
def vgaEntry (uc color : UInt8) : UInt16 :=
  uc.toUInt16 ||| color.toUInt16 <<< 8

/-- `ansi_to_vga_color`. -/
def ansiToVgaColor (code : Int32) : UInt8 := (code &&& 0x7).toUInt32.toUInt8

namespace Terminal

/-- `term_buffer[index] = entry`. -/
def putCell (t : Terminal) (index : Nat) (entry : UInt16) :
    Option Terminal :=
  if index < vgaWidth * vgaHeight then
    some { t with buffer := Function.update t.buffer index entry }
  else none

/-- `term_buffer[index]`. -/
def cell (t : Terminal) (index : Nat) : Option UInt16 :=
  if index < vgaWidth * vgaHeight then some (t.buffer index) else none

/-- `esc_params[i]`. -/
def param (t : Terminal) (i : Int) : Option Int32 :=
  if 0 ≤ i ∧ i < escMaxParams then some (t.escParams i) else none

/-- `esc_param_count > i ? esc_params[i] : value`. -/
def paramOr (t : Terminal) (i : Int) (value : Int32) : Option Int32 :=
  if i < t.escParamCount then t.param i else some value

/-- `esc_params[esc_param_count++] = esc_param_active ? esc_cur_param : 0`,
if there is room. -/
def pushParam (t : Terminal) : Option Terminal :=
  if t.escParamCount < escMaxParams then
    if 0 ≤ t.escParamCount then
      some { t with
        escParams := Function.update t.escParams t.escParamCount
          (if t.escParamActive then t.escCurParam else 0)
        escParamCount := t.escParamCount + 1 }
    else none
  else some t

/-- A loop over `count` cells of a row from column `x` on; the entry may be
read from the buffer as it is by then. -/
def fillCells (entry : Terminal → Nat → Option UInt16) (base : Nat) :
    (count x : Nat) → Terminal → Option Terminal
  | 0, _, t => some t
  | count + 1, x, t => do
      let value ← entry t x
      let t ← t.putCell (base + x) value
      fillCells entry base count (x + 1) t

/-- `vga_entry(' ', term_color)`. -/
def blank (t : Terminal) (_ : Nat) : Option UInt16 :=
  some (vgaEntry 0x20 t.color)

/-- The first loop of `term_scroll`, from row `y` on. -/
def scrollRows : (count y : Nat) → Terminal → Option Terminal
  | 0, _, t => some t
  | count + 1, y, t => do
      let t ← fillCells (fun t x => t.cell (y * vgaWidth + x))
        ((y - 1) * vgaWidth) vgaWidth 0 t
      scrollRows count (y + 1) t

/-- `term_scroll`. -/
def scroll (t : Terminal) : Option Terminal := do
  let t ← scrollRows (vgaHeight - 1) 1 t
  fillCells blank ((vgaHeight - 1) * vgaWidth) vgaWidth 0 t

/-- `term_advance_row`. -/
def advanceRow (t : Terminal) : Option Terminal :=
  let t := { t with row := t.row + 1 }
  if vgaHeight ≤ t.row then
    t.scroll.map fun t => { t with row := vgaHeight - 1 }
  else some t

/-- `term_putentryat`. -/
def putEntryAt (t : Terminal) (c color : UInt8) (x y : Nat) :
    Option Terminal :=
  t.putCell (y * vgaWidth + x) (vgaEntry c color)

/-- `term_setcolor`. -/
def setColor (t : Terminal) (fg bg : UInt8) : Terminal :=
  { t with color := fg ||| bg <<< 4 }

/-- The loops of `term_clear`, from row `y` on. -/
def clearRows : (count y : Nat) → Terminal → Option Terminal
  | 0, _, t => some t
  | count + 1, y, t => do
      let t ← fillCells blank (y * vgaWidth) vgaWidth 0 t
      clearRows count (y + 1) t

/-- `term_clear`. -/
def clear (t : Terminal) : Option Terminal :=
  clearRows vgaHeight 0 { t with column := 0, row := 0 }

/-- `term_init`. -/
def init (t : Terminal) : Option Terminal :=
  ({ t with row := 0, column := 0 }.setColor vgaColorWhite
    vgaColorBlack).clear

/-- The loop of `ESC [ m` over the parameters from `i` on, with the colours
so far. -/
def selectColors (t : Terminal) :
    (count : Nat) → (i : Int) → (fg bg : UInt8) → Option (UInt8 × UInt8)
  | 0, _, fg, bg => some (fg, bg)
  | count + 1, i, fg, bg => do
      let p ← t.param i
      if p = 0 then
        selectColors t count (i + 1) vgaColorWhite vgaColorBlack
      else if 30 ≤ p ∧ p ≤ 37 then
        selectColors t count (i + 1) (ansiToVgaColor (p - 30)) bg
      else if 40 ≤ p ∧ p ≤ 47 then
        selectColors t count (i + 1) fg (ansiToVgaColor (p - 40))
      else selectColors t count (i + 1) fg bg

/-- A coordinate of `ESC [ H`, counted from 1, cut to the screen. -/
def clampCoordinate (value limit : Int32) : Int32 :=
  let value := if value < 1 then 1 else value
  if limit < value then limit else value

/-- `ESC [ H`. -/
def moveCursor (t : Terminal) : Option Terminal := do
  let row ← t.paramOr 0 1
  let col ← t.paramOr 1 1
  return { t with
    row := (clampCoordinate row 25 - 1).toUInt32.toNat
    column := (clampCoordinate col 80 - 1).toUInt32.toNat }

/-- `esc_execute`. -/
def escExecute (t : Terminal) (final : UInt8) : Option Terminal :=
  if final = 0x48 then t.moveCursor
  else if final = 0x4a then do
    let mode ← t.paramOr 0 0
    if mode = 2 ∨ mode = 3 then t.clear else return t
  else if final = 0x4b then
    fillCells blank (t.row * vgaWidth) (vgaWidth - t.column) t.column
      t
  else if final = 0x6d then
    if t.escParamCount = 0 then
      some (t.setColor vgaColorWhite vgaColorBlack)
    else do
      let (fg, bg) ← t.selectColors t.escParamCount.toNat 0
        (t.color &&& 0x0f) (t.color >>> 4 &&& 0x0f)
      return { t with color := fg ||| bg <<< 4 }
  else some t

/-- `(c >= '@' && c <= 'Z') || (c >= 'a' && c <= 'z')`. -/
def endsEscape (c : UInt8) : Bool :=
  (0x40 ≤ c && c ≤ 0x5a) || (0x61 ≤ c && c ≤ 0x7a)

/-- `term_putchar` after `ESC [`. -/
def putParam (t : Terminal) (c : UInt8) : Option Terminal :=
  if 0x30 ≤ c ∧ c ≤ 0x39 then
    some { t with
      escCurParam := t.escCurParam * 10 + (c - 0x30).toUInt32.toInt32
      escParamActive := true }
  else if c = 0x3b then do
    let t ← t.pushParam
    return { t with escCurParam := 0, escParamActive := false }
  else if endsEscape c then do
    let t ← t.pushParam
    let t := { t with escState := .none }
    t.escExecute c
  else some t

/-- `term_column = 0; term_advance_row();`. -/
def newLine (t : Terminal) : Option Terminal :=
  { t with column := 0 }.advanceRow

/-- `term_putchar` outside escape sequences. -/
def putText (t : Terminal) (c : UInt8) : Option Terminal :=
  if c = 0x1b then some { t with escState := .start }
  else if c = 0x0a then t.newLine
  else if c = 0x09 then
    -- `(term_column + 4) & ~3`
    let t := { t with column := (t.column + 4) / 4 * 4 }
    if vgaWidth ≤ t.column then t.newLine else some t
  else if c = 0x08 then
    let t :=
      if t.column = 0 then
        { t with
          row := if 0 < t.row then t.row - 1 else t.row
          column := vgaWidth - 1 }
      else { t with column := t.column - 1 }
    t.putEntryAt 0x20 t.color t.column t.row
  else do
    let t ← t.putEntryAt c t.color t.column t.row
    let t := { t with column := t.column + 1 }
    if vgaWidth ≤ t.column then t.newLine else some t

/-- `term_putchar`. -/
def putchar (t : Terminal) (c : UInt8) : Option Terminal :=
  match t.escState with
  | .start =>
      if c = 0x5b then
        some { t with
          escState := .params
          escParamCount := 0
          escCurParam := 0
          escParamActive := false }
      else some { t with escState := .none }
  | .params => t.putParam c
  | .none => t.putText c

/-- `term_putchar` for each byte in turn. -/
def putchars (t : Terminal) : List UInt8 → Option Terminal
  | [] => some t
  | c :: rest => (t.putchar c).bind fun t => t.putchars rest

/-! ## The bounds -/

structure InBounds (t : Terminal) : Prop where
  row : t.row < vgaHeight
  column : t.column < vgaWidth
  counted : 0 ≤ t.escParamCount
  count : t.escParamCount ≤ escMaxParams

section Bounds

variable {t t' : Terminal}

/-- Only the screen memory differs. -/
def Redrawn (t t' : Terminal) : Prop :=
  ∃ buffer, t' = { t with buffer }

theorem Redrawn.refl (t : Terminal) : Redrawn t t := ⟨t.buffer, rfl⟩

theorem Redrawn.trans {t'' : Terminal} (first : Redrawn t t')
    (second : Redrawn t' t'') : Redrawn t t'' := by
  obtain ⟨_, rfl⟩ := first
  obtain ⟨buffer, rfl⟩ := second
  exact ⟨buffer, rfl⟩

theorem Redrawn.inBounds (redrawn : Redrawn t t') (ok : t.InBounds) :
    t'.InBounds := by
  obtain ⟨_, rfl⟩ := redrawn
  exact ⟨ok.row, ok.column, ok.counted, ok.count⟩

theorem putCell_some {index : Nat} (inside : index < vgaWidth * vgaHeight)
    (entry : UInt16) :
    ∃ t', t.putCell index entry = some t' ∧ Redrawn t t' :=
  ⟨_, if_pos inside, _, rfl⟩

/-- A row and a column on the screen name a cell of the buffer. -/
theorem cell_inside {x y : Nat} (column : x < vgaWidth)
    (row : y < vgaHeight) : y * vgaWidth + x < vgaWidth * vgaHeight := by
  have below : (y + 1) * vgaWidth ≤ vgaHeight * vgaWidth :=
    Nat.mul_le_mul_right _ row
  rw [Nat.succ_mul, Nat.mul_comm vgaHeight] at below
  omega

theorem fillCells_some {entry : Terminal → Nat → Option UInt16}
    (readable : ∀ t x, x < vgaWidth → ∃ value, entry t x = some value)
    {y : Nat} (row : y < vgaHeight) {count x : Nat}
    (inside : x + count ≤ vgaWidth) (t : Terminal) :
    ∃ t', fillCells entry (y * vgaWidth) count x t = some t' ∧
      Redrawn t t' := by
  induction count generalizing x t with
  | zero => exact ⟨t, rfl, .refl t⟩
  | succ count inductionHypothesis =>
      have column : x < vgaWidth := by omega
      obtain ⟨value, isValue⟩ := readable t x column
      obtain ⟨next, written, first⟩ :=
        putCell_some (t := t) (cell_inside column row) value
      have rest : x + 1 + count ≤ vgaWidth := by omega
      obtain ⟨t', filled, second⟩ := inductionHypothesis rest next
      refine ⟨t', ?_, first.trans second⟩
      rw [fillCells, isValue]
      simp only [Option.bind_eq_bind, Option.bind_some, written]
      exact filled

theorem blank_some (t : Terminal) (x : Nat) (_ : x < vgaWidth) :
    ∃ value, blank t x = some value :=
  ⟨_, rfl⟩

theorem cell_some {y : Nat} (row : y < vgaHeight) (t : Terminal) (x : Nat)
    (column : x < vgaWidth) :
    ∃ value, t.cell (y * vgaWidth + x) = some value :=
  ⟨_, if_pos (cell_inside column row)⟩

theorem scrollRows_some {count y : Nat} (rows : y + count ≤ vgaHeight)
    (t : Terminal) :
    ∃ t', scrollRows count y t = some t' ∧ Redrawn t t' := by
  induction count generalizing y t with
  | zero => exact ⟨t, rfl, .refl t⟩
  | succ count inductionHypothesis =>
      obtain ⟨next, copied, first⟩ :=
        fillCells_some (cell_some (show y < vgaHeight by omega))
          (show y - 1 < vgaHeight by omega)
          (show 0 + vgaWidth ≤ vgaWidth by omega) t
      have rest : y + 1 + count ≤ vgaHeight := by omega
      obtain ⟨t', scrolled, second⟩ := inductionHypothesis rest next
      refine ⟨t', ?_, first.trans second⟩
      rw [scrollRows, copied]
      exact scrolled

theorem scroll_some (t : Terminal) :
    ∃ t', t.scroll = some t' ∧ Redrawn t t' := by
  obtain ⟨next, copied, first⟩ :=
    scrollRows_some (show 1 + (vgaHeight - 1) ≤ vgaHeight by
      rw [vgaHeight]) t
  obtain ⟨t', blanked, second⟩ :=
    fillCells_some blank_some
      (show vgaHeight - 1 < vgaHeight by rw [vgaHeight]; omega)
      (show 0 + vgaWidth ≤ vgaWidth by omega) next
  refine ⟨t', ?_, first.trans second⟩
  rw [scroll, copied]
  simp only [Option.bind_eq_bind, Option.bind_some]
  exact blanked

theorem advanceRow_some (ok : t.InBounds) :
    ∃ t', t.advanceRow = some t' ∧ t'.InBounds := by
  rw [advanceRow]
  split
  case isTrue =>
    obtain ⟨t', scrolled, redrawn⟩ :=
      scroll_some { t with row := t.row + 1 }
    refine ⟨_, by rw [scrolled]; rfl, ?_⟩
    obtain ⟨_, rfl⟩ := redrawn
    exact ⟨show vgaHeight - 1 < vgaHeight by rw [vgaHeight]; omega, ok.column, ok.counted,
      ok.count⟩
  case isFalse above =>
    exact ⟨_, rfl, Nat.lt_of_not_le above, ok.column, ok.counted, ok.count⟩

theorem clearRows_some {count y : Nat} (rows : y + count ≤ vgaHeight)
    (t : Terminal) :
    ∃ t', clearRows count y t = some t' ∧ Redrawn t t' := by
  induction count generalizing y t with
  | zero => exact ⟨t, rfl, .refl t⟩
  | succ count inductionHypothesis =>
      obtain ⟨next, blanked, first⟩ :=
        fillCells_some blank_some (show y < vgaHeight by omega)
          (show 0 + vgaWidth ≤ vgaWidth by omega) t
      have rest : y + 1 + count ≤ vgaHeight := by omega
      obtain ⟨t', cleared, second⟩ := inductionHypothesis rest next
      refine ⟨t', ?_, first.trans second⟩
      rw [clearRows, blanked]
      exact cleared

theorem clear_some (counted : 0 ≤ t.escParamCount)
    (count : t.escParamCount ≤ escMaxParams) :
    ∃ t', t.clear = some t' ∧ t'.InBounds ∧ t'.escState = t.escState := by
  obtain ⟨t', cleared, redrawn⟩ :=
    clearRows_some (show 0 + vgaHeight ≤ vgaHeight by omega)
      { t with column := 0, row := 0 }
  refine ⟨t', cleared, ?_⟩
  obtain ⟨_, rfl⟩ := redrawn
  exact ⟨⟨show 0 < vgaHeight by decide, show 0 < vgaWidth by decide,
    counted, count⟩, rfl⟩

theorem pushParam_some (ok : t.InBounds) :
    ∃ t', t.pushParam = some t' ∧ t'.InBounds := by
  rw [pushParam]
  split
  case isTrue room =>
    rw [if_pos ok.counted]
    refine ⟨_, rfl, ok.row, ok.column, ?_, ?_⟩
    · have counted := ok.counted
      change 0 ≤ t.escParamCount + 1
      omega
    · exact room
  case isFalse => exact ⟨t, rfl, ok⟩

theorem param_some (t : Terminal) {i : Int} (lower : 0 ≤ i)
    (upper : i < escMaxParams) : ∃ p, t.param i = some p :=
  ⟨t.escParams i, if_pos ⟨lower, upper⟩⟩

theorem paramOr_some (t : Terminal) {i : Int} (lower : 0 ≤ i)
    (upper : i < escMaxParams) (value : Int32) :
    ∃ p, t.paramOr i value = some p := by
  rw [paramOr]
  split
  case isTrue => exact t.param_some lower upper
  case isFalse => exact ⟨value, rfl⟩

theorem selectColors_some {count : Nat} {i : Int} (lower : 0 ≤ i)
    (upper : i + count ≤ escMaxParams) (fg bg : UInt8) :
    ∃ colors, t.selectColors count i fg bg = some colors := by
  induction count generalizing i fg bg with
  | zero => exact ⟨_, rfl⟩
  | succ count inductionHypothesis =>
      obtain ⟨p, isParam⟩ := t.param_some lower (by omega)
      have onward (fg bg : UInt8) :=
        inductionHypothesis (show 0 ≤ i + 1 by omega) (by omega) fg bg
      rw [selectColors, isParam]
      simp only [Option.bind_eq_bind, Option.bind_some]
      split
      case isTrue => exact onward _ _
      case isFalse =>
        split
        case isTrue => exact onward _ _
        case isFalse =>
          split
          case isTrue => exact onward _ _
          case isFalse => exact onward _ _

/-- A clamped coordinate, counted from 0. -/
theorem clampCoordinate_lt (value : Int32) {limit : Int32}
    (positive : 1 ≤ limit) :
    (clampCoordinate value limit - 1).toUInt32.toNat <
      limit.toInt.toNat := by
  have one : (1 : Int32).toInt = 1 := rfl
  have bound := limit.toInt_lt
  rw [Int32.le_iff_toInt_le, one] at positive
  have range : 1 ≤ (clampCoordinate value limit).toInt ∧
      (clampCoordinate value limit).toInt ≤ limit.toInt := by
    rw [clampCoordinate]
    simp only [Int32.lt_iff_toInt_lt, one]
    split <;> split <;> omega
  generalize clampCoordinate value limit = clamped at range
  have less : (clamped - 1).toInt = clamped.toInt - 1 := by
    rw [Int32.toInt_sub, one]
    exact Int.bmod_eq_of_le (by omega) (by omega)
  have nonnegative : (0 : Int32) ≤ clamped - 1 := by
    rw [Int32.le_iff_toInt_le, less]
    exact Int.sub_nonneg_of_le range.1
  rw [Int32.toNat_toUInt32_of_le nonnegative, ← Int32.toNat_toInt, less]
  omega

theorem moveCursor_some (ok : t.InBounds) :
    ∃ t', t.moveCursor = some t' ∧ t'.InBounds := by
  obtain ⟨row, isRow⟩ :=
    t.paramOr_some (show (0 : Int) ≤ 0 by decide) (by decide) 1
  obtain ⟨col, isCol⟩ :=
    t.paramOr_some (show (0 : Int) ≤ 1 by decide) (by decide) 1
  refine ⟨_, by rw [moveCursor, isRow, isCol]; rfl, ?_⟩
  exact ⟨clampCoordinate_lt row (show 1 ≤ (25 : Int32) by decide),
    clampCoordinate_lt col (show 1 ≤ (80 : Int32) by decide), ok.counted,
    ok.count⟩

theorem escExecute_some (ok : t.InBounds) (final : UInt8) :
    ∃ t', t.escExecute final = some t' ∧ t'.InBounds := by
  rw [escExecute]
  split
  case isTrue => exact moveCursor_some ok
  case isFalse =>
  split
  case isTrue =>
    obtain ⟨mode, isMode⟩ :=
      t.paramOr_some (show (0 : Int) ≤ 0 by decide) (by decide) 0
    rw [isMode]
    simp only [Option.bind_eq_bind, Option.bind_some]
    split
    case isTrue =>
      obtain ⟨t', cleared, bounds, _⟩ := clear_some ok.counted ok.count
      exact ⟨t', cleared, bounds⟩
    case isFalse => exact ⟨t, rfl, ok⟩
  case isFalse =>
  split
  case isTrue =>
    have column := ok.column
    obtain ⟨t', filled, redrawn⟩ :=
      fillCells_some blank_some ok.row
        (show t.column + (vgaWidth - t.column) ≤ vgaWidth by omega) t
    exact ⟨t', filled, redrawn.inBounds ok⟩
  case isFalse =>
  split
  case isTrue =>
    split
    case isTrue =>
      exact ⟨_, rfl, ok.row, ok.column, ok.counted, ok.count⟩
    case isFalse =>
      have counted := ok.counted
      have count := ok.count
      obtain ⟨⟨fg, bg⟩, selected⟩ :=
        selectColors_some (t := t) (show (0 : Int) ≤ 0 by decide)
          (show 0 + (t.escParamCount.toNat : Int) ≤ escMaxParams by omega)
          (t.color &&& 0x0f) (t.color >>> 4 &&& 0x0f)
      rw [selected]
      exact ⟨_, rfl, ok.row, ok.column, counted, count⟩
  case isFalse => exact ⟨t, rfl, ok⟩

theorem putParam_some (ok : t.InBounds) (c : UInt8) :
    ∃ t', t.putParam c = some t' ∧ t'.InBounds := by
  rw [putParam]
  split
  case isTrue => exact ⟨_, rfl, ok.row, ok.column, ok.counted, ok.count⟩
  case isFalse =>
  obtain ⟨pushed, isPushed, bounds⟩ := pushParam_some ok
  split
  case isTrue =>
    rw [isPushed]
    exact ⟨_, rfl, bounds.row, bounds.column, bounds.counted,
      bounds.count⟩
  case isFalse =>
  split
  case isTrue =>
    rw [isPushed]
    simp only [Option.bind_eq_bind, Option.bind_some]
    have ended : { pushed with escState := EscState.none }.InBounds :=
      ⟨bounds.row, bounds.column, bounds.counted, bounds.count⟩
    exact escExecute_some ended c
  case isFalse => exact ⟨t, rfl, ok⟩

theorem putEntryAt_some (ok : t.InBounds) (c color : UInt8) :
    ∃ t', t.putEntryAt c color t.column t.row = some t' ∧
      Redrawn t t' :=
  putCell_some (cell_inside ok.column ok.row) (vgaEntry c color)

/-- A column that has moved on, wrapped to the next row at the edge. -/
theorem wrapColumn_some (ok : t.InBounds) (column : Nat) :
    ∃ t', (if vgaWidth ≤ column then { t with column }.newLine
        else some { t with column }) = some t' ∧ t'.InBounds := by
  split
  case isTrue =>
    exact advanceRow_some
      ⟨ok.row, show 0 < vgaWidth by decide, ok.counted, ok.count⟩
  case isFalse inside =>
    exact ⟨_, rfl, ok.row, Nat.lt_of_not_le inside, ok.counted, ok.count⟩

theorem putText_some (ok : t.InBounds) (c : UInt8) :
    ∃ t', t.putText c = some t' ∧ t'.InBounds := by
  rw [putText]
  split
  case isTrue => exact ⟨_, rfl, ok.row, ok.column, ok.counted, ok.count⟩
  case isFalse =>
  split
  case isTrue =>
    exact advanceRow_some
      ⟨ok.row, show 0 < vgaWidth by decide, ok.counted, ok.count⟩
  case isFalse =>
  split
  case isTrue => exact wrapColumn_some ok ((t.column + 4) / 4 * 4)
  case isFalse =>
  split
  case isTrue =>
    have row := ok.row
    have column := ok.column
    have back : (if t.column = 0 then
          { t with
            row := if 0 < t.row then t.row - 1 else t.row
            column := vgaWidth - 1 }
        else { t with column := t.column - 1 }).InBounds := by
      split
      case isTrue =>
        refine ⟨?_, show vgaWidth - 1 < vgaWidth by decide, ok.counted,
          ok.count⟩
        change (if 0 < t.row then t.row - 1 else t.row) < vgaHeight
        split <;> omega
      case isFalse =>
        refine ⟨ok.row, ?_, ok.counted, ok.count⟩
        change t.column - 1 < vgaWidth
        omega
    obtain ⟨t', written, redrawn⟩ := putEntryAt_some back 0x20 t.color
    refine ⟨t', ?_, redrawn.inBounds back⟩
    rw [← written]
    split <;> rfl
  case isFalse =>
    obtain ⟨t', written, redrawn⟩ := putEntryAt_some ok c t.color
    rw [written]
    exact wrapColumn_some (redrawn.inBounds ok) (t'.column + 1)

/-- One byte. -/
theorem putchar_some (ok : t.InBounds) (c : UInt8) :
    ∃ t', t.putchar c = some t' ∧ t'.InBounds := by
  rw [putchar]
  split
  case h_1 =>
      split
      case isTrue =>
        exact ⟨_, rfl, ok.row, ok.column, show (0 : Int) ≤ 0 by decide,
          show (0 : Int) ≤ escMaxParams by decide⟩
      case isFalse =>
        exact ⟨_, rfl, ok.row, ok.column, ok.counted, ok.count⟩
  case h_2 => exact putParam_some ok c
  case h_3 => exact putText_some ok c

theorem putchars_some (ok : t.InBounds) (bytes : List UInt8) :
    ∃ t', t.putchars bytes = some t' ∧ t'.InBounds := by
  induction bytes generalizing t with
  | nil => exact ⟨t, rfl, ok⟩
  | cons c rest inductionHypothesis =>
      obtain ⟨next, printed, bounds⟩ := putchar_some ok c
      obtain ⟨t', done, bounds'⟩ := inductionHypothesis bounds
      exact ⟨t', by rw [putchars, printed]; exact done, bounds'⟩

/-- The static variables before `term_init`, with any screen memory. -/
def boot (buffer : Nat → UInt16) : Terminal where
  escState := .none
  escParams := fun _ => 0
  escParamCount := 0
  escCurParam := 0
  escParamActive := false
  row := 0
  column := 0
  color := 0
  buffer := buffer

theorem init_some (buffer : Nat → UInt16) :
    ∃ t, (boot buffer).init = some t ∧ t.InBounds := by
  obtain ⟨t, cleared, bounds, _⟩ :=
    clear_some (t := { boot buffer with row := 0, column := 0 }.setColor
        vgaColorWhite vgaColorBlack)
      (show (0 : Int) ≤ 0 by decide) (show (0 : Int) ≤ escMaxParams by decide)
  exact ⟨t, cleared, bounds⟩

end Bounds

end Terminal

/-- Every byte stream is printed to its end, without an access outside the
screen memory or the escape parameters, and leaves the state in bounds. -/
theorem terminal_inBounds (buffer : Nat → UInt16) (bytes : List UInt8) :
    ∃ t, ((Terminal.boot buffer).init.bind fun t => t.putchars bytes) =
        some t ∧
      t.row < vgaHeight ∧ t.column < vgaWidth ∧ 0 ≤ t.escParamCount ∧
        t.escParamCount ≤ escMaxParams := by
  obtain ⟨start, initialised, bounds⟩ := Terminal.init_some buffer
  obtain ⟨t, printed, ok⟩ := Terminal.putchars_some bounds bytes
  exact ⟨t, by rw [initialised]; exact printed, ok.row, ok.column,
    ok.counted, ok.count⟩

end LoafOs
