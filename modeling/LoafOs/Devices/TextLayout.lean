import LoafOs.Devices.Terminal

/-!
# Plain text on the screen

What the screen shows after plain text: the last rows of a layout without
end, which fills rows of `VGA_WIDTH` cells one after the other.
-/

namespace LoafOs

/-! ## The layout -/

/-- The finished rows of a text and the row that is being filled. -/
structure TextLayout where
  rows : List (List UInt8)
  line : List UInt8
  deriving DecidableEq, Repr

namespace TextLayout

def start : TextLayout := ⟨[], []⟩

/-- A newline starts a new row; any other byte takes the next cell, and a
full row is followed by a new one. -/
def put (layout : TextLayout) (c : UInt8) : TextLayout :=
  if c = 0x0a then
    ⟨layout.rows ++ [layout.line], []⟩
  else if layout.line.length + 1 = vgaWidth then
    ⟨layout.rows ++ [layout.line ++ [c]], []⟩
  else
    ⟨layout.rows, layout.line ++ [c]⟩

/-- The layout of a text. -/
def ofText (text : List UInt8) : TextLayout :=
  text.foldl put start

def allRows (layout : TextLayout) : List (List UInt8) :=
  layout.rows ++ [layout.line]

/-- The last rows of the layout, with blank ones below them if there are
too few. -/
def screen (layout : TextLayout) : List (List UInt8) :=
  layout.allRows.drop (layout.allRows.length - vgaHeight) ++
    List.replicate (vgaHeight - layout.allRows.length) []

/-- The byte in a cell of a row, a space where none is written. -/
def cellOf (row : List UInt8) (x : Nat) : UInt8 := row.getD x 0x20

end TextLayout

/-- A byte of plain text: no escape, tab or backspace. -/
def PlainByte (c : UInt8) : Prop :=
  c ≠ 0x1b ∧ c ≠ 0x09 ∧ c ≠ 0x08

instance (c : UInt8) : Decidable (PlainByte c) :=
  inferInstanceAs (Decidable (_ ∧ _ ∧ _))

namespace Terminal

/-- The screen shows a layout in one colour, with the cursor in its next
cell. -/
structure ShowsLayout (t : Terminal) (layout : TextLayout)
    (color : UInt8) : Prop where
  cells : ∀ y < vgaHeight, ∀ x < vgaWidth,
    t.buffer (y * vgaWidth + x) =
      vgaEntry (TextLayout.cellOf (layout.screen.getD y []) x) color
  row : t.row = min layout.rows.length (vgaHeight - 1)
  column : t.column = layout.line.length

end Terminal

/-! ## The rows of the screen -/

namespace TextLayout

variable {layout : TextLayout} {y x : Nat} {c : UInt8}

theorem allRows_length :
    layout.allRows.length = layout.rows.length + 1 := by
  rw [allRows, List.length_append, List.length_singleton]

theorem screen_getD (inside : y < vgaHeight) :
    layout.screen.getD y [] =
      layout.allRows.getD
        (y + (layout.allRows.length - vgaHeight)) [] := by
  have length := layout.allRows_length
  unfold screen
  simp only [List.getD_eq_getElem?_getD]
  by_cases above : y < (layout.allRows.drop
      (layout.allRows.length - vgaHeight)).length
  · rw [List.getElem?_append_left above, List.getElem?_drop, Nat.add_comm]
  · rw [List.getElem?_append_right (Nat.le_of_not_lt above)]
    rw [List.length_drop] at above
    have outside : layout.allRows.length ≤
        y + (layout.allRows.length - vgaHeight) := by omega
    rw [List.getElem?_eq_none outside]
    cases found : (List.replicate (vgaHeight - layout.allRows.length)
        ([] : List UInt8))[y - (layout.allRows.drop
          (layout.allRows.length - vgaHeight)).length]? with
    | none => rfl
    | some row =>
        have member := List.mem_of_getElem? found
        rw [List.eq_of_mem_replicate member]
        rfl

/-- A blank row below shows nothing. -/
theorem getD_append_blank (rows : List (List UInt8)) (index : Nat) :
    (rows ++ [[]]).getD index [] = rows.getD index [] := by
  simp only [List.getD_eq_getElem?_getD]
  by_cases inside : index < rows.length
  · rw [List.getElem?_append_left inside]
  · have outside := Nat.le_of_not_lt inside
    rw [List.getElem?_append_right outside, List.getElem?_eq_none outside]
    cases index - rows.length <;> rfl

theorem getD_last (rows : List (List UInt8)) (line : List UInt8) :
    (rows ++ [line]).getD rows.length [] = line := by
  simp

/-- The other rows do not depend on the last one. -/
theorem getD_other (rows : List (List UInt8)) (line line' : List UInt8)
    {index : Nat} (other : index ≠ rows.length) :
    (rows ++ [line]).getD index [] = (rows ++ [line']).getD index [] := by
  simp only [List.getD_eq_getElem?_getD]
  by_cases inside : index < rows.length
  · rw [List.getElem?_append_left inside, List.getElem?_append_left inside]
  · have beyond : rows.length + 1 ≤ index := by omega
    rw [List.getElem?_eq_none (by simpa using beyond),
      List.getElem?_eq_none (by simpa using beyond)]

theorem cellOf_append_self (row : List UInt8) :
    cellOf (row ++ [c]) row.length = c := by
  simp [cellOf]

theorem cellOf_append_other (row : List UInt8) (other : x ≠ row.length) :
    cellOf (row ++ [c]) x = cellOf row x := by
  unfold cellOf
  simp only [List.getD_eq_getElem?_getD]
  by_cases inside : x < row.length
  · rw [List.getElem?_append_left inside]
  · have outside := Nat.le_of_not_lt inside
    have beyond : (row ++ [c]).length ≤ x := by
      rw [List.length_append, List.length_singleton]
      omega
    rw [List.getElem?_eq_none outside, List.getElem?_eq_none beyond]

end TextLayout

/-! ## The loops over the cells -/

namespace Terminal

variable {t t' : Terminal}

/-- A loop over the cells of a row, where the entries do not depend on the
cells that it has written. -/
theorem fillCells_eq {entry : Terminal → Nat → Option UInt16}
    {source : Nat → UInt16} {base count x : Nat}
    (inside : x + count ≤ vgaWidth)
    (fits : base + vgaWidth ≤ vgaWidth * vgaHeight)
    (reads : ∀ buffer, (∀ i, base + vgaWidth ≤ i → buffer i = t.buffer i) →
      ∀ column < vgaWidth,
        entry { t with buffer } column = some (source column)) :
    fillCells entry base count x t = some { t with
      buffer := fun i =>
        if base + x ≤ i ∧ i < base + x + count then source (i - base)
        else t.buffer i } := by
  induction count generalizing x t with
  | zero =>
      have nothing : (fun i => if base + x ≤ i ∧ i < base + x + 0
          then source (i - base) else t.buffer i) = t.buffer := by
        funext i
        rw [if_neg]
        omega
      rw [nothing]
      rfl
  | succ count inductionHypothesis =>
      have first := reads t.buffer (fun _ _ => rfl) x (by omega)
      have cell : base + x < vgaWidth * vgaHeight := by omega
      rw [fillCells, first]
      simp only [Option.bind_eq_bind, Option.bind_some, putCell,
        if_pos cell]
      rw [inductionHypothesis (by omega)]
      · congr 2
        funext i
        dsimp only
        by_cases here : i = base + x
        · subst here
          rw [if_neg (by omega), if_pos (by omega), Function.update_self,
            Nat.add_sub_cancel_left]
        · rw [Function.update_of_ne here]
          by_cases behind : base + (x + 1) ≤ i ∧ i < base + (x + 1) + count
          · rw [if_pos behind, if_pos (by omega)]
          · rw [if_neg behind, if_neg (by omega)]
      · intro buffer same column inRow
        apply reads buffer _ column inRow
        intro i above
        have behind : i ≠ base + x := by omega
        exact (same i above).trans (Function.update_of_ne behind ..)

theorem fillBlank_eq {base count x : Nat} (inside : x + count ≤ vgaWidth)
    (fits : base + vgaWidth ≤ vgaWidth * vgaHeight) :
    fillCells blank base count x t = some { t with
      buffer := fun i =>
        if base + x ≤ i ∧ i < base + x + count then vgaEntry 0x20 t.color
        else t.buffer i } := by
  apply @fillCells_eq t blank (fun _ => vgaEntry 0x20 t.color) base count x
    inside fits
  intro buffer _ column _
  rfl

/-- A row is copied into the one above it. -/
theorem copyRow_eq {y : Nat} (below : y + 1 < vgaHeight) :
    fillCells (fun t x => t.cell ((y + 1) * vgaWidth + x)) (y * vgaWidth)
        vgaWidth 0 t = some { t with
      buffer := fun i =>
        if y * vgaWidth ≤ i ∧ i < (y + 1) * vgaWidth
        then t.buffer (i + vgaWidth) else t.buffer i } := by
  have fits : y * vgaWidth + vgaWidth ≤ vgaWidth * vgaHeight := by
    unfold vgaWidth vgaHeight at *
    omega
  have next : (y + 1) * vgaWidth = y * vgaWidth + vgaWidth :=
    Nat.succ_mul y vgaWidth
  rw [@fillCells_eq _ _ (fun x => t.buffer ((y + 1) * vgaWidth + x)) _ _ _
    (Nat.le_of_eq (Nat.zero_add _)) fits]
  · congr 2
    funext i
    rw [Nat.add_zero, next]
    by_cases inRow : y * vgaWidth ≤ i ∧ i < y * vgaWidth + vgaWidth
    · rw [if_pos inRow, if_pos inRow]
      congr 1
      omega
    · rw [if_neg inRow, if_neg inRow]
  · intro buffer same column inRow
    have cell : (y + 1) * vgaWidth + column < vgaWidth * vgaHeight :=
      cell_inside inRow below
    simp only [Terminal.cell, if_pos cell]
    rw [same _ (by omega)]

theorem scrollRows_eq {count y : Nat} (rows : y + count < vgaHeight) :
    scrollRows count (y + 1) t = some { t with
      buffer := fun i =>
        if y * vgaWidth ≤ i ∧ i < (y + count) * vgaWidth
        then t.buffer (i + vgaWidth) else t.buffer i } := by
  have width : vgaWidth = 80 := rfl
  induction count generalizing y t with
  | zero =>
      have nothing : (fun i => if y * vgaWidth ≤ i ∧ i < (y + 0) * vgaWidth
          then t.buffer (i + vgaWidth) else t.buffer i) = t.buffer := by
        funext i
        rw [Nat.add_zero, if_neg]
        omega
      rw [nothing]
      rfl
  | succ count inductionHypothesis =>
      have next : y + 1 + count < vgaHeight := by omega
      rw [scrollRows, Nat.add_sub_cancel, copyRow_eq (by omega)]
      simp only [Option.bind_eq_bind, Option.bind_some]
      rw [inductionHypothesis next]
      congr 2
      funext i
      simp only [width]
      split_ifs <;> first | rfl | omega

/-- `term_scroll` moves every row up and blanks the last one. -/
theorem scroll_eq :
    t.scroll = some { t with
      buffer := fun i =>
        if i < (vgaHeight - 1) * vgaWidth then t.buffer (i + vgaWidth)
        else if i < vgaHeight * vgaWidth then vgaEntry 0x20 t.color
        else t.buffer i } := by
  have height : vgaHeight = 25 := rfl
  have width : vgaWidth = 80 := rfl
  have fits : (vgaHeight - 1) * vgaWidth + vgaWidth ≤
      vgaWidth * vgaHeight := by
    decide
  rw [scroll, @scrollRows_eq t (vgaHeight - 1) 0 (by omega)]
  simp only [Option.bind_eq_bind, Option.bind_some]
  rw [fillBlank_eq (Nat.le_of_eq (Nat.zero_add _)) fits]
  congr 2
  funext i
  simp only [height, width]
  split_ifs <;> first | rfl | omega

theorem clearRows_eq {count y : Nat} (rows : y + count ≤ vgaHeight) :
    clearRows count y t = some { t with
      buffer := fun i =>
        if y * vgaWidth ≤ i ∧ i < (y + count) * vgaWidth
        then vgaEntry 0x20 t.color else t.buffer i } := by
  have width : vgaWidth = 80 := rfl
  induction count generalizing y t with
  | zero =>
      have nothing : (fun i => if y * vgaWidth ≤ i ∧ i < (y + 0) * vgaWidth
          then vgaEntry 0x20 t.color else t.buffer i) = t.buffer := by
        funext i
        rw [Nat.add_zero, if_neg]
        omega
      rw [nothing]
      rfl
  | succ count inductionHypothesis =>
      have next : y + 1 + count ≤ vgaHeight := by omega
      have fits : y * vgaWidth + vgaWidth ≤ vgaWidth * vgaHeight := by
        unfold vgaWidth vgaHeight at *
        omega
      rw [clearRows, fillBlank_eq (Nat.le_of_eq (Nat.zero_add _)) fits]
      simp only [Option.bind_eq_bind, Option.bind_some]
      rw [inductionHypothesis next]
      congr 2
      funext i
      simp only [width]
      split_ifs <;> first | rfl | omega

/-! ## The cells under the cursor -/

variable {layout : TextLayout} {color c : UInt8}

/-- The cells show a layout, in the normal state of the parser. -/
structure Drawn (t : Terminal) (layout : TextLayout) (color : UInt8) :
    Prop where
  cells : ∀ y < vgaHeight, ∀ x < vgaWidth,
    t.buffer (y * vgaWidth + x) =
      vgaEntry (TextLayout.cellOf (layout.screen.getD y []) x) color
  row : t.row = min layout.rows.length (vgaHeight - 1)
  color : t.color = color
  normal : t.escState = .none

/-- One more row is started while the screen has room for it. -/
theorem Drawn.nextRow (drawn : t.Drawn layout color)
    (room : layout.rows.length + 1 < vgaHeight) :
    Drawn { t with column := 0, row := t.row + 1 }
      ⟨layout.rows ++ [layout.line], []⟩ color := by
  have length := layout.allRows_length
  refine ⟨?_, ?_, drawn.color, drawn.normal⟩
  · intro y above x inRow
    have next : (⟨layout.rows ++ [layout.line], []⟩ : TextLayout).allRows =
        layout.allRows ++ [[]] := rfl
    have height : vgaHeight = 25 := rfl
    have unmoved : layout.allRows.length + 1 - vgaHeight =
        layout.allRows.length - vgaHeight := by omega
    rw [TextLayout.screen_getD above, next, List.length_append,
      List.length_singleton, TextLayout.getD_append_blank, unmoved,
      ← TextLayout.screen_getD above]
    exact drawn.cells y above x inRow
  · change t.row + 1 = min (layout.rows ++ [layout.line]).length _
    rw [drawn.row, List.length_append, List.length_singleton]
    omega

/-- One more row is started at the bottom of the screen. -/
theorem Drawn.scrolled (drawn : t.Drawn layout color)
    (full : vgaHeight ≤ layout.rows.length + 1) :
    Drawn { t with
      column := 0
      row := vgaHeight - 1
      buffer := fun i =>
        if i < (vgaHeight - 1) * vgaWidth then t.buffer (i + vgaWidth)
        else if i < vgaHeight * vgaWidth then vgaEntry 0x20 t.color
        else t.buffer i } ⟨layout.rows ++ [layout.line], []⟩ color := by
  have length := layout.allRows_length
  have height : vgaHeight = 25 := rfl
  have width : vgaWidth = 80 := rfl
  refine ⟨?_, ?_, drawn.color, drawn.normal⟩
  · intro y above x inRow
    have next : (⟨layout.rows ++ [layout.line], []⟩ : TextLayout).allRows =
        layout.allRows ++ [[]] := rfl
    rw [TextLayout.screen_getD above, next, List.length_append,
      List.length_singleton, TextLayout.getD_append_blank]
    dsimp only
    by_cases last : y + 1 < vgaHeight
    · have cell : y * vgaWidth + x < (vgaHeight - 1) * vgaWidth := by
        unfold vgaWidth vgaHeight at *
        omega
      have moved : y * vgaWidth + x + vgaWidth =
          (y + 1) * vgaWidth + x := by
        unfold vgaWidth
        omega
      have index : y + (layout.allRows.length + 1 - vgaHeight) =
          y + 1 + (layout.allRows.length - vgaHeight) := by
        omega
      rw [if_pos cell, moved, drawn.cells (y + 1) last x inRow,
        TextLayout.screen_getD last, index]
    · have cell : ¬y * vgaWidth + x < (vgaHeight - 1) * vgaWidth := by
        unfold vgaWidth vgaHeight at *
        omega
      have inside : y * vgaWidth + x < vgaHeight * vgaWidth := by
        unfold vgaWidth vgaHeight at *
        omega
      have outside : layout.allRows.length ≤
          y + (layout.allRows.length + 1 - vgaHeight) := by
        omega
      rw [if_neg cell, if_pos inside, List.getD_eq_getElem?_getD,
        List.getElem?_eq_none outside, drawn.color]
      rfl
  · change vgaHeight - 1 = min (layout.rows ++ [layout.line]).length _
    rw [List.length_append, List.length_singleton]
    omega

/-- A newline starts a new row, and the screen follows it. -/
theorem Drawn.newLine (drawn : t.Drawn layout color) :
    ∃ t', t.newLine = some t' ∧
      t'.Drawn ⟨layout.rows ++ [layout.line], []⟩ color ∧
      t'.column = 0 := by
  have height : vgaHeight = 25 := rfl
  have row := drawn.row
  rw [Terminal.newLine, advanceRow]
  split
  case isTrue full =>
    change vgaHeight ≤ t.row + 1 at full
    refine ⟨_, by rw [scroll_eq]; rfl, ?_, rfl⟩
    exact drawn.scrolled (by omega)
  case isFalse room =>
    change ¬vgaHeight ≤ t.row + 1 at room
    refine ⟨_, rfl, ?_, rfl⟩
    exact drawn.nextRow (by omega)

/-- A byte goes to the next cell. -/
theorem Drawn.putEntry (drawn : t.Drawn layout color)
    (column : t.column = layout.line.length)
    (inRow : layout.line.length < vgaWidth) :
    ∃ t', t.putEntryAt c t.color t.column t.row = some t' ∧
      t'.Drawn ⟨layout.rows, layout.line ++ [c]⟩ color ∧
      t'.column = t.column := by
  have length := layout.allRows_length
  have height : vgaHeight = 25 := rfl
  have width : vgaWidth = 80 := rfl
  have row := drawn.row
  have inside : t.row * vgaWidth + t.column < vgaWidth * vgaHeight :=
    cell_inside (column ▸ inRow) (by omega)
  refine ⟨_, if_pos inside, ⟨?_, drawn.row, drawn.color, drawn.normal⟩,
    rfl⟩
  intro y above x inRow'
  have next : (⟨layout.rows, layout.line ++ [c]⟩ : TextLayout).allRows =
      layout.rows ++ [layout.line ++ [c]] := rfl
  have length' : (layout.rows ++ [layout.line ++ [c]]).length =
      layout.allRows.length := by
    rw [length, List.length_append, List.length_singleton]
  have before := drawn.cells y above x inRow'
  rw [TextLayout.screen_getD above] at before ⊢
  rw [next, length']
  generalize isIndex : y + (layout.allRows.length - vgaHeight) = index
    at before
  change Function.update t.buffer (t.row * vgaWidth + t.column)
    (vgaEntry c t.color) (y * vgaWidth + x) = _
  by_cases isRow : y = t.row
  · have last : index = layout.rows.length := by omega
    rw [last, TextLayout.allRows, TextLayout.getD_last] at before
    rw [last, TextLayout.getD_last, isRow]
    by_cases isColumn : x = t.column
    · rw [isColumn, Function.update_self, column,
        TextLayout.cellOf_append_self, drawn.color]
    · have other : t.row * vgaWidth + x ≠
          t.row * vgaWidth + t.column := by omega
      rw [Function.update_of_ne other, ← isRow, before,
        TextLayout.cellOf_append_other _ (column ▸ isColumn)]
  · have notLast : index ≠ layout.rows.length := by omega
    have columns : t.column < vgaWidth := column ▸ inRow
    have other : y * vgaWidth + x ≠ t.row * vgaWidth + t.column := by
      unfold vgaWidth at *
      omega
    rw [Function.update_of_ne other, before, TextLayout.allRows,
      TextLayout.getD_other _ _ (layout.line ++ [c]) notLast]

theorem Drawn.putchar (drawn : t.Drawn layout color)
    (column : t.column = layout.line.length)
    (inRow : layout.line.length < vgaWidth) (plain : PlainByte c) :
    ∃ t', t.putchar c = some t' ∧ t'.Drawn (layout.put c) color ∧
      t'.column = (layout.put c).line.length ∧
      (layout.put c).line.length < vgaWidth := by
  obtain ⟨notEscape, notTab, notBackspace⟩ := plain
  have width : 0 < vgaWidth := by decide
  have normal : t.putchar c = t.putText c := by
    rw [Terminal.putchar, drawn.normal]
  rw [normal, putText, if_neg notEscape]
  by_cases isNewline : c = 0x0a
  · obtain ⟨t', advanced, drawn', column'⟩ := drawn.newLine
    rw [if_pos isNewline, TextLayout.put, if_pos isNewline]
    exact ⟨t', advanced, drawn', column', width⟩
  · obtain ⟨written, isWritten, drawn', column'⟩ :=
      drawn.putEntry (c := c) column inRow
    rw [if_neg isNewline, if_neg notTab, if_neg notBackspace, isWritten,
      TextLayout.put, if_neg isNewline]
    have moved : Drawn { written with column := written.column + 1 }
        ⟨layout.rows, layout.line ++ [c]⟩ color :=
      ⟨drawn'.cells, drawn'.row, drawn'.color, drawn'.normal⟩
    have length : (layout.line ++ [c]).length =
        layout.line.length + 1 := by
      rw [List.length_append, List.length_singleton]
    simp only [Option.bind_eq_bind, Option.bind_some]
    by_cases full : layout.line.length + 1 = vgaWidth
    · obtain ⟨t', advanced, drawn'', column''⟩ := moved.newLine
      have ended : vgaWidth ≤ written.column + 1 := by omega
      rw [if_pos ended, if_pos full]
      exact ⟨t', advanced, drawn'', column'', width⟩
    · have room : ¬vgaWidth ≤ written.column + 1 := by omega
      rw [if_neg room, if_neg full]
      refine ⟨_, rfl, moved, ?_, ?_⟩
      · change written.column + 1 = (layout.line ++ [c]).length
        omega
      · change (layout.line ++ [c]).length < vgaWidth
        omega

/-- A text after one that is on the screen. -/
theorem Drawn.putchars (drawn : t.Drawn layout color)
    (column : t.column = layout.line.length)
    (inRow : layout.line.length < vgaWidth) {text : List UInt8}
    (plain : ∀ c ∈ text, PlainByte c) :
    ∃ t', t.putchars text = some t' ∧
      t'.Drawn (text.foldl TextLayout.put layout) color ∧
      t'.column = (text.foldl TextLayout.put layout).line.length := by
  induction text generalizing t layout with
  | nil => exact ⟨t, rfl, drawn, column⟩
  | cons c rest inductionHypothesis =>
      obtain ⟨mid, first, drawn', column', inRow'⟩ :=
        drawn.putchar column inRow (plain c (.head _))
      obtain ⟨t', isRest, drawn'', column''⟩ := inductionHypothesis drawn'
        column' inRow' fun other member => plain other (.tail _ member)
      refine ⟨t', ?_, drawn'', column''⟩
      rw [Terminal.putchars, first]
      exact isRest

theorem clear_drawn (normal : t.escState = .none) :
    ∃ t', t.clear = some t' ∧ t'.Drawn .start t.color ∧ t'.column = 0 := by
  have whole : 0 + vgaHeight ≤ vgaHeight := by omega
  refine ⟨_, clearRows_eq whole, ⟨?_, rfl, rfl, normal⟩, rfl⟩
  intro y above x inRow
  have height : vgaHeight = 25 := rfl
  have width : vgaWidth = 80 := rfl
  have inside : 0 * vgaWidth ≤ y * vgaWidth + x ∧
      y * vgaWidth + x < (0 + vgaHeight) * vgaWidth := by
    unfold vgaWidth vgaHeight at *
    omega
  have blank : TextLayout.start.screen.getD y [] = [] := by
    rw [TextLayout.screen_getD above]
    exact TextLayout.getD_append_blank [] _
  dsimp only
  rw [if_pos inside, blank]
  rfl

/-- Plain text on a cleared screen is laid out in rows, and the screen
shows the last of them. -/
theorem plainText_layout (t : Terminal) (normal : t.escState = .none)
    (text : List UInt8) (plain : ∀ c ∈ text, PlainByte c) :
    ∃ cleared t', t.clear = some cleared ∧
      cleared.putchars text = some t' ∧
      t'.ShowsLayout (.ofText text) t.color := by
  obtain ⟨cleared, isCleared, drawn, column⟩ := clear_drawn normal
  obtain ⟨t', written, drawn', column'⟩ :=
    drawn.putchars column (by decide) plain
  exact ⟨cleared, t', isCleared, written, drawn'.cells, drawn'.row,
    column'⟩

/-- `hi` and a newline, on a screen that scrolled before. -/
theorem sampleText_layout :
    ∃ cleared t', (⟨.none, fun _ => 0, 0, 0, false, 24, 7, 15,
        fun _ => 0⟩ : Terminal).clear = some cleared ∧
      cleared.putchars [0x68, 0x69, 0x0a] = some t' ∧
      t'.ShowsLayout ⟨[[0x68, 0x69]], []⟩ 15 :=
  plainText_layout _ rfl [0x68, 0x69, 0x0a] (by decide +kernel)

end Terminal

end LoafOs
