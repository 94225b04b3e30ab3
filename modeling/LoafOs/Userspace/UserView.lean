import LoafOs.Mm.SpaceMap
import Mathlib.Order.Interval.Finset.Nat

/-!
# What a program sees

An address space seen from user mode: a byte with its access rights, or
nothing.  Loading a segment maps the pages that it meets, fills the bytes
that it covers and leaves what was there on the other bytes of its pages.
-/

namespace LoafOs

/-- The pages that a range of addresses meets. -/
def pagesOf (vaddr size : Nat) : Finset Nat :=
  if size = 0 then ∅
  else Finset.Icc (vaddr / 4096) ((vaddr + size - 1) / 4096)

theorem mem_pagesOf {vaddr size page : Nat} :
    page ∈ pagesOf vaddr size ↔
      ∃ addr, vaddr ≤ addr ∧ addr < vaddr + size ∧ addr / 4096 = page := by
  rw [pagesOf]
  split
  case isTrue empty =>
    simp only [Finset.notMem_empty, false_iff]
    rintro ⟨addr, lower, upper, _⟩
    omega
  case isFalse =>
    rw [Finset.mem_Icc]
    constructor
    · rintro ⟨lower, upper⟩
      by_cases before : page * 4096 < vaddr
      · exact ⟨vaddr, Nat.le_refl _, by omega, by omega⟩
      · exact ⟨page * 4096, by omega, by omega, by omega⟩
    · rintro ⟨addr, lower, upper, rfl⟩
      omega

/-- One byte of an address space. -/
structure Cell where
  byte : UInt8
  user : Bool
  writable : Bool
  deriving DecidableEq, Repr

abbrev UserView := Nat → Option Cell

/-- A range of addresses with the bytes that it starts out with, if any. -/
structure Segment where
  vaddr : Nat
  size : Nat
  bytes : Option (Nat → UInt8)
  writable : Bool

namespace Segment

variable {segment : Segment} {view : UserView} {addr stop : Nat}

def Covers (segment : Segment) (addr : Nat) : Prop :=
  segment.vaddr ≤ addr ∧ addr < segment.vaddr + segment.size

instance : Decidable (segment.Covers addr) :=
  inferInstanceAs (Decidable (_ ∧ _))

/-- The end of the pages that the segment meets. -/
def pageStop (segment : Segment) : Nat :=
  frameOf (segment.vaddr + segment.size + 0xfff)

/-- The page of the address meets the segment. -/
def Meets (segment : Segment) (addr : Nat) : Prop :=
  0 < segment.size ∧ frameOf segment.vaddr ≤ addr ∧
    addr < segment.pageStop

instance : Decidable (segment.Meets addr) :=
  inferInstanceAs (Decidable (_ ∧ _ ∧ _))

/-- What a byte becomes from what it was. -/
def byteAt (segment : Segment) (old : Option Cell) (addr : Nat) : UInt8 :=
  match segment.bytes with
  | some bytes =>
      if segment.Covers addr then bytes (addr - segment.vaddr)
      else (old.map Cell.byte).getD 0
  | none => (old.map Cell.byte).getD 0

def cellAt (segment : Segment) (old : Option Cell) (addr : Nat) : Cell where
  byte := segment.byteAt old addr
  user := true
  writable := segment.writable || old.any Cell.writable

/-- The pages below `stop` are loaded. -/
def loadTo (segment : Segment) (view : UserView) (stop : Nat) : UserView :=
  fun addr =>
    if frameOf segment.vaddr ≤ addr ∧ addr < stop then
      some (segment.cellAt (view addr) addr)
    else view addr

/-- The whole segment is loaded. -/
def load (segment : Segment) (view : UserView) : UserView := fun addr =>
  if segment.Meets addr then some (segment.cellAt (view addr) addr)
  else view addr

theorem byteAt_covers {bytes : Nat → UInt8} {old : Option Cell}
    (given : segment.bytes = some bytes) (covers : segment.Covers addr) :
    segment.byteAt old addr = bytes (addr - segment.vaddr) := by
  rw [byteAt, given]
  exact if_pos covers

theorem byteAt_other {old : Option Cell}
    (other : segment.bytes = none ∨ ¬ segment.Covers addr) :
    segment.byteAt old addr = (old.map Cell.byte).getD 0 := by
  rw [byteAt]
  split
  case h_1 given =>
    refine if_neg (other.resolve_left fun none => ?_)
    rw [none] at given
    simp at given
  case h_2 => rfl

theorem loadTo_inside
    (inside : frameOf segment.vaddr ≤ addr ∧ addr < stop) :
    segment.loadTo view stop addr =
      some (segment.cellAt (view addr) addr) :=
  if_pos inside

theorem loadTo_outside
    (outside : ¬ (frameOf segment.vaddr ≤ addr ∧ addr < stop)) :
    segment.loadTo view stop addr = view addr :=
  if_neg outside

theorem load_inside (meets : segment.Meets addr) :
    segment.load view addr = some (segment.cellAt (view addr) addr) :=
  if_pos meets

theorem load_outside (outside : ¬ segment.Meets addr) :
    segment.load view addr = view addr :=
  if_neg outside

theorem load_empty (empty : segment.size = 0) : segment.load view = view := by
  funext addr
  refine if_neg fun meets => ?_
  have positive := meets.1
  omega

theorem loadTo_pageStop (positive : 0 < segment.size) :
    segment.loadTo view segment.pageStop = segment.load view := by
  funext addr
  simp only [loadTo, load, Meets, positive, true_and]

theorem loadTo_start :
    segment.loadTo view (frameOf segment.vaddr) = view := by
  funext addr
  exact if_neg fun inside => by omega

theorem pageStop_aligned : segment.pageStop % 4096 = 0 :=
  by rw [pageStop, frameOf, Nat.mul_mod_left]

theorem meets_of_covers (covers : segment.Covers addr) :
    segment.Meets addr := by
  obtain ⟨lower, upper⟩ := covers
  refine ⟨by omega, ?_, ?_⟩
  · rw [frameOf]
    omega
  · rw [pageStop, frameOf]
    omega

theorem meets_iff :
    segment.Meets addr ↔
      addr / 4096 ∈ pagesOf segment.vaddr segment.size := by
  rw [Meets, pageStop, frameOf, frameOf, pagesOf]
  split
  case isTrue empty =>
    simp only [Finset.notMem_empty, iff_false]
    omega
  case isFalse =>
    rw [Finset.mem_Icc]
    omega

end Segment

namespace UserView

/-- Every byte of a view is open to user mode. -/
def AllUser (view : UserView) : Prop :=
  ∀ addr cell, view addr = some cell → cell.user = true

theorem AllUser.load {view : UserView} (all : view.AllUser)
    (segment : Segment) : (segment.load view).AllUser := by
  intro addr cell there
  rw [Segment.load] at there
  split at there
  · rw [← Option.some.inj there]
    rfl
  · exact all addr cell there

/-- The segments are loaded one after the other. -/
def loadAll (view : UserView) (segments : List Segment) : UserView :=
  segments.foldl (fun view segment => segment.load view) view

theorem AllUser.loadAll {view : UserView} (all : view.AllUser)
    (segments : List Segment) : (view.loadAll segments).AllUser := by
  induction segments generalizing view with
  | nil => exact all
  | cons segment segments inductionHypothesis =>
      exact inductionHypothesis (all.load segment)

/-- The byte at an address, 0 where nothing is mapped. -/
def byteOf (view : UserView) (addr : Nat) : UInt8 :=
  ((view addr).map Cell.byte).getD 0

def isWritable (view : UserView) (addr : Nat) : Bool :=
  (view addr).any Cell.writable

variable {view : UserView} {segment : Segment} {addr : Nat}

theorem load_isSome :
    (segment.load view addr).isSome = true ↔
      segment.Meets addr ∨ (view addr).isSome = true := by
  by_cases meets : segment.Meets addr
  · rw [Segment.load_inside meets]
    simp [meets]
  · rw [Segment.load_outside meets]
    simp [meets]

theorem byteOf_load_covers {bytes : Nat → UInt8}
    (given : segment.bytes = some bytes) (covers : segment.Covers addr) :
    byteOf (segment.load view) addr = bytes (addr - segment.vaddr) := by
  rw [byteOf, Segment.load_inside (Segment.meets_of_covers covers)]
  exact Segment.byteAt_covers given covers

theorem byteOf_load_other
    (other : segment.bytes = none ∨ ¬ segment.Covers addr) :
    byteOf (segment.load view) addr = byteOf view addr := by
  by_cases meets : segment.Meets addr
  · rw [byteOf, Segment.load_inside meets]
    exact Segment.byteAt_other other
  · rw [byteOf, Segment.load_outside meets, byteOf]

theorem isWritable_load :
    isWritable (segment.load view) addr = true ↔
      (segment.writable = true ∧ segment.Meets addr) ∨
        isWritable view addr = true := by
  by_cases meets : segment.Meets addr
  · rw [isWritable, Segment.load_inside meets]
    simp [Segment.cellAt, meets, isWritable]
  · rw [isWritable, Segment.load_outside meets, isWritable]
    simp [meets]

end UserView

/-- The cells of the address space in a page directory. -/
def userView (memory : Memory) (pd : Nat) : UserView := fun addr =>
  if isPresent (pteAt memory pd addr) then
    some
      { byte := memory.mem
          (physToVirt (frameOf (pteAt memory pd addr)) + addr % 4096)
        user := isUser (memory.entry pd (pdIndex addr)) &&
          isUser (pteAt memory pd addr)
        writable := isRw (memory.entry pd (pdIndex addr)) &&
          isRw (pteAt memory pd addr) }
  else none

end LoafOs
