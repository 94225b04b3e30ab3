import Mathlib.Logic.Function.Basic

/-!
# The keyboard

The buffer of `src/devices/kbd.c`: a ring of 256 characters between the
interrupt handler and `kbd_getchar`.
-/

namespace LoafOs

/-- `KBD_BUFFER_SIZE`. -/
def kbdBufferSize : Nat := 256

/-- `scancode_ascii`; the cells that are not listed hold 0. -/
def scancodeAscii : List UInt8 :=
  [0, 27, 49, 50, 51, 52, 53, 54, 55, 56, 57, 48, 45, 61, 8,
    9, 113, 119, 101, 114, 116, 121, 117, 105, 111, 112, 91, 93, 10,
    0, 97, 115, 100, 102, 103, 104, 106, 107, 108, 59, 39, 96,
    0, 92, 122, 120, 99, 118, 98, 110, 109, 44, 46, 47, 0,
    42, 0, 32, 0]

/-- `scancode_ascii_shift`. -/
def scancodeAsciiShift : List UInt8 :=
  [0, 27, 33, 64, 35, 36, 37, 94, 38, 42, 40, 41, 95, 43, 8,
    9, 81, 87, 69, 82, 84, 89, 85, 73, 79, 80, 123, 125, 10,
    0, 65, 83, 68, 70, 71, 72, 74, 75, 76, 58, 34, 126,
    0, 124, 90, 88, 67, 86, 66, 78, 77, 60, 62, 63, 0,
    42, 0, 32, 0]

/-- The static variables of the driver. -/
structure Keyboard where
  buffer : Nat → UInt8
  readPos : Nat
  writePos : Nat
  shiftPressed : Bool

namespace Keyboard

/-- The character that a scancode stands for, 0 for none. -/
def charOf (kbd : Keyboard) (scancode : UInt8) : UInt8 :=
  if kbd.shiftPressed then scancodeAsciiShift.getD scancode.toNat 0
  else scancodeAscii.getD scancode.toNat 0

/-- `kbd_buffer[kbd_write_pos] = c`, and the step forward. -/
def put (kbd : Keyboard) (c : UInt8) : Keyboard :=
  { kbd with
    buffer := Function.update kbd.buffer kbd.writePos c
    writePos := (kbd.writePos + 1) % kbdBufferSize }

/-- The part of `kbd_handler` before it looks for a waiting process: the
driver afterwards, and whether a character was stored. -/
def interrupt (kbd : Keyboard) (scancode : UInt8) : Keyboard × Bool :=
  if scancode = 0x2a ∨ scancode = 0x36 then
    ({ kbd with shiftPressed := true }, false)
  else if scancode = 0xaa ∨ scancode = 0xb6 then
    ({ kbd with shiftPressed := false }, false)
  else if scancode &&& 0x80 ≠ 0 then
    (kbd, false)
  else if kbd.charOf scancode ≠ 0 then
    (kbd.put (kbd.charOf scancode), true)
  else
    (kbd, false)

/-- `kbd_getchar`; no character is the result -1. -/
def getchar (kbd : Keyboard) : Option UInt8 × Keyboard :=
  if kbd.readPos = kbd.writePos then (none, kbd)
  else
    (some (kbd.buffer kbd.readPos),
      { kbd with readPos := (kbd.readPos + 1) % kbdBufferSize })

/-- The number of characters between the two positions. -/
def stored (kbd : Keyboard) : Nat :=
  (kbd.writePos + kbdBufferSize - kbd.readPos) % kbdBufferSize

/-- Both positions lie in the buffer. -/
structure Ok (kbd : Keyboard) : Prop where
  readPos : kbd.readPos < kbdBufferSize
  writePos : kbd.writePos < kbdBufferSize

variable {kbd : Keyboard} {c scancode : UInt8}

theorem Ok.put (ok : kbd.Ok) : (kbd.put c).Ok :=
  ⟨ok.readPos, Nat.mod_lt _ (by decide)⟩

theorem Ok.interrupt (ok : kbd.Ok) : (kbd.interrupt scancode).1.Ok := by
  rw [Keyboard.interrupt]
  split
  · exact ⟨ok.readPos, ok.writePos⟩
  split
  · exact ⟨ok.readPos, ok.writePos⟩
  split
  · exact ok
  split
  · exact ok.put
  · exact ok

theorem Ok.getchar (ok : kbd.Ok) : kbd.getchar.2.Ok := by
  rw [Keyboard.getchar]
  split
  case isTrue => exact ok
  case isFalse => exact ⟨Nat.mod_lt _ (by decide), ok.writePos⟩

theorem stored_lt : kbd.stored < kbdBufferSize :=
  Nat.mod_lt _ (by decide)

theorem stored_eq_zero_iff (ok : kbd.Ok) :
    kbd.stored = 0 ↔ kbd.readPos = kbd.writePos := by
  have size : kbdBufferSize = 256 := rfl
  have left := ok.readPos
  have right := ok.writePos
  rw [size] at left right
  rw [stored, size]
  omega

/-- A character in the buffer is handed out and leaves it. -/
theorem getchar_some (ok : kbd.Ok) (nonempty : 0 < kbd.stored) :
    kbd.getchar.1 = some (kbd.buffer kbd.readPos) ∧
      kbd.getchar.2.stored + 1 = kbd.stored := by
  have size : kbdBufferSize = 256 := rfl
  have left := ok.readPos
  have right := ok.writePos
  have different : kbd.readPos ≠ kbd.writePos := by
    intro same
    have zero := (stored_eq_zero_iff ok).mpr same
    omega
  rw [getchar, if_neg different]
  refine ⟨rfl, ?_⟩
  simp only [stored]
  rw [size] at left right ⊢
  omega

theorem getchar_none (ok : kbd.Ok) (empty : kbd.stored = 0) :
    kbd.getchar = (none, kbd) :=
  if_pos ((stored_eq_zero_iff ok).mp empty)

/-- A character is added as long as the buffer does not wrap. -/
theorem stored_put (ok : kbd.Ok) (room : kbd.stored + 1 < kbdBufferSize) :
    (kbd.put c).stored = kbd.stored + 1 := by
  have size : kbdBufferSize = 256 := rfl
  have left := ok.readPos
  have right := ok.writePos
  simp only [stored, put] at room ⊢
  rw [size] at left right room ⊢
  omega

end Keyboard

end LoafOs
