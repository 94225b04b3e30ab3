import Mathlib.Algebra.Group.Nat.Defs
import Mathlib.Data.Nat.Basic

/-!
# Flat byte memory

A memory is a function from addresses to bytes; a pointer is the memory seen
from its address.  Block copies, fills and little-endian words are the
operations that a C program applies to raw buffers.
-/

/-- Memory contents as seen through a byte pointer. -/
abbrev Bytes := Nat → UInt8

namespace Bytes

/-- The memory seen from a pointer moved forward by `offset`. -/
def shift (mem : Bytes) (offset : Nat) : Bytes :=
  fun index => mem (offset + index)

/-- Copy `count` bytes of `source` to offset `start`. -/
def copy (mem : Bytes) (start : Nat) (source : Bytes) (count : Nat) :
    Bytes :=
  fun index =>
    if start ≤ index ∧ index < start + count then
      source (index - start)
    else
      mem index

/-- Set `count` bytes from offset `start` to `value`. -/
def fill (mem : Bytes) (start : Nat) (value : UInt8) (count : Nat) :
    Bytes :=
  fun index =>
    if start ≤ index ∧ index < start + count then value else mem index

/-- Set one byte. -/
def put (mem : Bytes) (start : Nat) (value : UInt8) : Bytes :=
  fun index => if index = start then value else mem index

/-- The little-endian 16-bit word at offset `start`. -/
def word16 (mem : Bytes) (start : Nat) : Nat :=
  (mem start).toNat + 256 * (mem (start + 1)).toNat

/-- The little-endian 32-bit word at offset `start`. -/
def word32 (mem : Bytes) (start : Nat) : Nat :=
  mem.word16 start + 65536 * mem.word16 (start + 2)

/-- Store a little-endian 16-bit word. -/
def putWord16 (mem : Bytes) (start value : Nat) : Bytes :=
  (mem.put start (UInt8.ofNat value)).put (start + 1)
    (UInt8.ofNat (value / 256))

/-- Store a little-endian 32-bit word. -/
def putWord32 (mem : Bytes) (start value : Nat) : Bytes :=
  (mem.putWord16 start value).putWord16 (start + 2) (value / 65536)

/-- The `count` bytes from offset `start` as a list. -/
def slice (mem : Bytes) (start count : Nat) : List UInt8 :=
  (List.range count).map fun index => mem (start + index)

variable {mem mem' source : Bytes}

theorem copy_inside {start count index : Nat}
    (lower : start ≤ index) (upper : index < start + count) :
    mem.copy start source count index = source (index - start) :=
  if_pos ⟨lower, upper⟩

theorem copy_outside {start count index : Nat}
    (outside : index < start ∨ start + count ≤ index) :
    mem.copy start source count index = mem index :=
  if_neg fun inside => by omega

@[simp]
theorem copy_zero (start : Nat) : mem.copy start source 0 = mem := by
  funext index
  exact copy_outside (by omega)

/-- Two adjacent copies make one. -/
theorem copy_copy_adjacent (start first second : Nat) :
    (mem.copy start source first).copy (start + first)
        (source.shift first) second =
      mem.copy start source (first + second) := by
  funext index
  by_cases upper : start + first ≤ index ∧ index < start + first + second
  · rw [copy_inside upper.1 upper.2,
      copy_inside (by omega) (by omega), shift]
    congr 1
    omega
  · rw [copy_outside (by omega)]
    by_cases lower : start ≤ index ∧ index < start + first
    · rw [copy_inside lower.1 lower.2,
        copy_inside (by omega) (by omega)]
    · rw [copy_outside (by omega), copy_outside (by omega)]

/-- A copy only depends on the bytes that it moves. -/
theorem copy_congr {source' : Bytes} {start count : Nat}
    (agree : ∀ index < count, source index = source' index) :
    mem.copy start source count = mem.copy start source' count := by
  funext index
  by_cases inside : start ≤ index ∧ index < start + count
  · rw [copy_inside inside.1 inside.2, copy_inside inside.1 inside.2]
    exact agree _ (by omega)
  · rw [copy_outside (by omega), copy_outside (by omega)]

theorem put_same (start : Nat) (value : UInt8) :
    mem.put start value start = value :=
  if_pos rfl

theorem put_other {start index : Nat} {value : UInt8}
    (different : index ≠ start) :
    mem.put start value index = mem index :=
  if_neg different

theorem word16_lt (mem : Bytes) (start : Nat) :
    mem.word16 start < 65536 := by
  have low := (mem start).toNat_lt
  have high := (mem (start + 1)).toNat_lt
  simp only [word16]
  omega

theorem word32_lt (mem : Bytes) (start : Nat) :
    mem.word32 start < 2 ^ 32 := by
  have low := mem.word16_lt start
  have high := mem.word16_lt (start + 2)
  simp only [word32]
  omega

theorem word16_congr {start start' : Nat}
    (agree : ∀ index < 2, mem (start + index) = mem' (start' + index)) :
    mem.word16 start = mem'.word16 start' := by
  have first := agree 0 (by omega)
  have second := agree 1 (by omega)
  simp only [Nat.add_zero] at first
  rw [word16, word16, first, second]

theorem word32_congr {start start' : Nat}
    (agree : ∀ index < 4, mem (start + index) = mem' (start' + index)) :
    mem.word32 start = mem'.word32 start' := by
  have low : mem.word16 start = mem'.word16 start' :=
    word16_congr fun index bound => agree index (by omega)
  have high : mem.word16 (start + 2) = mem'.word16 (start' + 2) :=
    word16_congr fun index bound => by
      simpa only [Nat.add_assoc] using agree (2 + index) (by omega)
  rw [word32, word32, low, high]

theorem word16_putWord16 {start value : Nat} (bound : value < 65536) :
    (mem.putWord16 start value).word16 start = value := by
  have low : (mem.putWord16 start value) start = UInt8.ofNat value := by
    rw [putWord16, put_other (by omega), put_same]
  have high : (mem.putWord16 start value) (start + 1) =
      UInt8.ofNat (value / 256) := put_same _ _
  rw [word16, low, high]
  simp only [UInt8.toNat_ofNat']
  omega

theorem putWord16_other {start index value : Nat}
    (outside : index < start ∨ start + 2 ≤ index) :
    mem.putWord16 start value index = mem index := by
  rw [putWord16, put_other (by omega), put_other (by omega)]

theorem putWord32_other {start index value : Nat}
    (outside : index < start ∨ start + 4 ≤ index) :
    mem.putWord32 start value index = mem index := by
  rw [putWord32, putWord16_other (by omega), putWord16_other (by omega)]

theorem word32_putWord32 {start value : Nat} (bound : value < 2 ^ 32) :
    (mem.putWord32 start value).word32 start = value := by
  have low : (mem.putWord32 start value).word16 start =
      value % 65536 := by
    have same : (mem.putWord32 start value).word16 start =
        (mem.putWord16 start (value % 65536)).word16 start := by
      refine word16_congr fun index small => ?_
      rw [putWord32, putWord16_other (by omega), putWord16, putWord16]
      have wrap : UInt8.ofNat (value % 65536) = UInt8.ofNat value := by
        apply UInt8.toNat.inj
        simp only [UInt8.toNat_ofNat']
        omega
      have wrapHigh : UInt8.ofNat (value % 65536 / 256) =
          UInt8.ofNat (value / 256) := by
        apply UInt8.toNat.inj
        simp only [UInt8.toNat_ofNat']
        omega
      rw [wrap, wrapHigh]
    rw [same, word16_putWord16 (by omega)]
  have high : (mem.putWord32 start value).word16 (start + 2) =
      value / 65536 :=
    word16_putWord16 (by omega)
  rw [word32, low, high]
  omega

/-- Storing the word that is there changes nothing. -/
theorem putWord32_self (start : Nat) :
    mem.putWord32 start (mem.word32 start) = mem := by
  have bytes : ∀ value : UInt8, ∀ number, number % 256 = value.toNat →
      UInt8.ofNat number = value := fun value number same => by
    apply UInt8.toNat.inj
    rw [UInt8.toNat_ofNat']
    exact same
  have first := (mem start).toNat_lt
  have second := (mem (start + 1)).toNat_lt
  have third := (mem (start + 2)).toNat_lt
  have fourth := (mem (start + 2 + 1)).toNat_lt
  have word : mem.word32 start = (mem start).toNat +
      256 * (mem (start + 1)).toNat + 65536 * ((mem (start + 2)).toNat +
        256 * (mem (start + 2 + 1)).toNat) := rfl
  funext index
  simp only [putWord32, putWord16, put]
  rw [word]
  split
  · next here =>
      rw [here]
      exact bytes _ _ (by omega)
  · split
    · next here =>
        rw [here]
        exact bytes _ _ (by omega)
    · split
      · next here =>
          rw [here]
          exact bytes _ _ (by omega)
      · split
        · next here =>
            rw [here]
            exact bytes _ _ (by omega)
        · rfl

@[simp]
theorem length_slice (start count : Nat) :
    (mem.slice start count).length = count := by
  simp [slice]

theorem slice_congr {start start' count : Nat}
    (agree : ∀ index < count,
      mem (start + index) = mem' (start' + index)) :
    mem.slice start count = mem'.slice start' count := by
  refine List.map_congr_left fun index member => ?_
  exact agree index (List.mem_range.mp member)

theorem slice_eq_iff {start start' count : Nat} :
    mem.slice start count = mem'.slice start' count ↔
      ∀ index < count, mem (start + index) = mem' (start' + index) := by
  constructor
  · intro same index bound
    have entry := congrArg (·[index]?) same
    simpa [slice, bound] using entry
  · exact slice_congr

end Bytes
