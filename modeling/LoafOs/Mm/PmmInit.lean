import LoafOs.Mm.Pmm

/-!
# Setting up the frame bitmap

`pmm_init` of `src/mm/pmm.c`.  The bitmap lies in the pages after the
kernel image and is not cleared before use, so its words start with an
arbitrary content.
-/

namespace LoafOs

/-- `raw_boot_info_t`; `ebda_segment` is only copied. -/
structure RawBootInfo where
  convKb : UInt16
  extKb : UInt16

/-- `MEM_USABLE` and `MEM_RESERVED`. -/
inductive MemType where
  | usable
  | reserved
  deriving DecidableEq

/-- `mem_region_t`. -/
structure MemRegion where
  base : Nat
  length : Nat
  type : MemType

/-- `boot_info.regions`, up to `region_count`. -/
def memRegions (raw : RawBootInfo) : List MemRegion :=
  let convEnd := raw.convKb.toNat * 1024
  [⟨0, 0x500, .reserved⟩,
    ⟨0x500, u32 (convEnd + 2 ^ 32 - 0x500), .usable⟩] ++
  (if convEnd < 0xa0000 then
    [⟨convEnd, 0xa0000 - convEnd, .reserved⟩] else []) ++
  [⟨0xa0000, 0x20000, .reserved⟩, ⟨0xc0000, 0x8000, .reserved⟩,
    ⟨0xc8000, 0x28000, .reserved⟩, ⟨0xf0000, 0x10000, .reserved⟩] ++
  (if 0 < raw.extKb.toNat then
    [⟨0x100000, raw.extKb.toNat * 1024, .usable⟩] else [])

namespace Pmm

/-- The loops of `pmm_init` over the pages from `addr` up to `stop`. -/
def eachPage (visit : Pmm → Nat → Pmm) (stop : Nat) :
    Nat → Nat → Pmm → Pmm
  | 0, _, pmm => pmm
  | fuel + 1, addr, pmm =>
      if addr < stop then
        eachPage visit stop fuel (u32 (addr + pageSize)) (visit pmm addr)
      else pmm

/-- Fuel for those loops: an address is at most 32 bits long. -/
def pageFuel : Nat := 2 ^ 20

/-- The body of the loop over the regions. -/
def initRegion (pmm : Pmm) (region : MemRegion) : Pmm :=
  match region.type with
  | .reserved =>
      eachPage setFrame (u32 (region.base + region.length)) pageFuel
        region.base pmm
  | .usable =>
      eachPage clearFrame (u32 (region.base + region.length)) pageFuel
        (u32 (region.base + pageSize - 1) / pageSize * pageSize) pmm

end Pmm

/-- `bitmap_phys`. -/
def bitmapPhys (kend : Nat) : Nat := u32 (kend + 0xfff) / pageSize * pageSize

/-- `bitmap_end_phys`. -/
def bitmapEndPhys (kend highest : Nat) : Nat :=
  u32 (bitmapPhys kend + bitmapWords highest * 4)

/-- `pmm_init` over a bitmap with the given words. -/
def pmmInit (words : Nat → BitVec 32) (raw : RawBootInfo)
    (kend highest : Nat) : Pmm :=
  Pmm.eachPage Pmm.setFrame (bitmapEndPhys kend highest) Pmm.pageFuel
    (bitmapPhys kend)
    ((memRegions raw).foldl Pmm.initRegion ⟨words, bitmapWords highest⟩)

namespace Pmm

variable {pmm : Pmm} {addr stop fuel frame : Nat}

/-- The frames that a loop over pages visits. -/
def Visits (addr stop frame : Nat) : Prop :=
  addr / 4096 ≤ frame ∧ frame * 4096 + addr % 4096 < stop

theorem visits_step (below : addr < stop) (small : stop ≤ 2 ^ 32 - 4096) :
    Visits addr stop frame ↔
      frame = addr / 4096 ∨ Visits (u32 (addr + pageSize)) stop frame := by
  have next : u32 (addr + pageSize) = addr + 4096 := by
    simp only [u32, pageSize]
    omega
  rw [next, Visits, Visits]
  omega

theorem not_visits (done : ¬ addr < stop) : ¬ Visits addr stop frame := by
  intro visits
  have bounds := visits
  rw [Visits] at bounds
  omega

theorem eachPage_bitmapSize {visit : Pmm → Nat → Pmm}
    (keeps : ∀ pmm addr, (visit pmm addr).bitmapSize = pmm.bitmapSize) :
    (eachPage visit stop fuel addr pmm).bitmapSize = pmm.bitmapSize := by
  induction fuel generalizing addr pmm with
  | zero => rfl
  | succ fuel inductionHypothesis =>
      rw [eachPage]
      split
      · rw [inductionHypothesis, keeps]
      · rfl

theorem used_setPages (small : stop ≤ 2 ^ 32 - 4096)
    (enough : stop ≤ addr + fuel * 4096) :
    (eachPage setFrame stop fuel addr pmm).used frame = true ↔
      pmm.used frame = true ∨ Visits addr stop frame := by
  induction fuel generalizing addr pmm with
  | zero =>
      have done : ¬ Visits addr stop frame := not_visits (by omega)
      simp only [eachPage, done, or_false]
  | succ fuel inductionHypothesis =>
      rw [eachPage]
      by_cases below : addr < stop
      · have next : u32 (addr + pageSize) = addr + 4096 := by
          simp only [u32, pageSize]
          omega
        rw [if_pos below, inductionHypothesis (by rw [next]; omega),
          used_setFrame, Bool.or_eq_true, decide_eq_true_iff,
          visits_step below small, or_assoc]
        rfl
      · simp only [if_neg below, not_visits below, or_false]

theorem used_clearPages (small : stop ≤ 2 ^ 32 - 4096)
    (enough : stop ≤ addr + fuel * 4096) :
    (eachPage clearFrame stop fuel addr pmm).used frame = true ↔
      pmm.used frame = true ∧ ¬ Visits addr stop frame := by
  induction fuel generalizing addr pmm with
  | zero =>
      have done : ¬ Visits addr stop frame := not_visits (by omega)
      simp only [eachPage, done, not_false_iff, and_true]
  | succ fuel inductionHypothesis =>
      rw [eachPage]
      by_cases below : addr < stop
      · have next : u32 (addr + pageSize) = addr + 4096 := by
          simp only [u32, pageSize]
          omega
        rw [if_pos below, inductionHypothesis (by rw [next]; omega),
          used_clearFrame, Bool.and_eq_true, Bool.not_eq_true',
          decide_eq_false_iff_not, visits_step below small, not_or,
          and_assoc]
        rfl
      · simp only [if_neg below, not_visits below, not_false_iff, and_true]

theorem used_initReserved {base length : Nat}
    (small : base + length ≤ 2 ^ 32 - 4096) :
    (pmm.initRegion ⟨base, length, .reserved⟩).used frame = true ↔
      pmm.used frame = true ∨ Visits base (base + length) frame := by
  have stop : u32 (base + length) = base + length := by
    simp only [u32]
    omega
  have enough : base + length ≤ base + pageFuel * 4096 := by
    rw [pageFuel]
    omega
  simp only [initRegion, stop]
  exact used_setPages small enough

theorem used_initUsable {base length stop : Nat}
    (stopEq : u32 (base + length) = stop)
    (small : stop ≤ 2 ^ 32 - 4096) (low : base ≤ 2 ^ 32 - 4096) :
    (pmm.initRegion ⟨base, length, .usable⟩).used frame = true ↔
      pmm.used frame = true ∧
        ¬ ((base + 4095) / 4096 ≤ frame ∧ frame * 4096 < stop) := by
  have start : u32 (base + pageSize - 1) / pageSize * pageSize =
      (base + 4095) / 4096 * 4096 := by
    simp only [u32, pageSize]
    omega
  have enough : stop ≤ (base + 4095) / 4096 * 4096 + pageFuel * 4096 := by
    rw [pageFuel]
    omega
  simp only [initRegion, stopEq, start]
  rw [used_clearPages small enough, Visits]
  have first : (base + 4095) / 4096 * 4096 / 4096 =
      (base + 4095) / 4096 := by
    omega
  have rest : (base + 4095) / 4096 * 4096 % 4096 = 0 := by
    omega
  simp only [first, rest, Nat.add_zero]

theorem initRegion_bitmapSize (region : MemRegion) :
    (pmm.initRegion region).bitmapSize = pmm.bitmapSize := by
  rw [initRegion]
  split
  · exact eachPage_bitmapSize fun _ _ => rfl
  · exact eachPage_bitmapSize fun _ _ => rfl

theorem foldl_initRegion_bitmapSize (regions : List MemRegion) :
    (regions.foldl initRegion pmm).bitmapSize = pmm.bitmapSize := by
  induction regions generalizing pmm with
  | nil => rfl
  | cons region regions inductionHypothesis =>
      rw [List.foldl_cons, inductionHypothesis, initRegion_bitmapSize]

end Pmm

section Init

variable {words : Nat → BitVec 32} {raw : RawBootInfo}
  {kend frame : Nat}

theorem pmmInit_bitmapSize {highest : Nat} :
    (pmmInit words raw kend highest).bitmapSize = bitmapWords highest := by
  rw [pmmInit, Pmm.eachPage_bitmapSize Pmm.setFrame_bitmapSize,
    Pmm.foldl_initRegion_bitmapSize]

/-! The regions of `boot_info`, from the bottom of memory up. -/

theorem convRegion_end (raw : RawBootInfo) :
    u32 (0x500 + u32 (raw.convKb.toNat * 1024 + 2 ^ 32 - 0x500)) =
      raw.convKb.toNat * 1024 := by
  have convBound := raw.convKb.toNat_lt
  simp only [u32]
  omega

theorem extRegion_end (raw : RawBootInfo) :
    u32 (0x100000 + raw.extKb.toNat * 1024) = highestAddr raw.extKb := by
  have extBound := raw.extKb.toNat_lt
  simp only [u32, highestAddr]
  omega

theorem used_convRegions {pmm : Pmm} :
    (List.foldl Pmm.initRegion pmm [⟨0, 0x500, .reserved⟩,
      ⟨0x500, u32 (raw.convKb.toNat * 1024 + 2 ^ 32 - 0x500),
        .usable⟩]).used frame = true ↔
      frame = 0 ∨ (pmm.used frame = true ∧
        ¬ frame * 4096 < raw.convKb.toNat * 1024) := by
  have convBound := raw.convKb.toNat_lt
  rw [List.foldl_cons, List.foldl_cons, List.foldl_nil,
    Pmm.used_initUsable (convRegion_end raw) (by omega) (by omega),
    Pmm.used_initReserved (by omega), Pmm.Visits]
  by_cases first : frame = 0
  · simp only [first, true_or, iff_true]
    omega
  · have outside : ¬ (0 / 4096 ≤ frame ∧
        frame * 4096 + 0 % 4096 < 0 + 0x500) := by
      omega
    rw [or_iff_left outside, or_iff_right first]
    exact and_congr_right fun _ => by omega

/-- The rest of the first 640 KB, where conventional memory leaves any. -/
theorem used_gapRegion {pmm : Pmm} :
    (List.foldl Pmm.initRegion pmm
      (if raw.convKb.toNat * 1024 < 0xa0000 then
        [⟨raw.convKb.toNat * 1024, 0xa0000 - raw.convKb.toNat * 1024,
          .reserved⟩] else [])).used frame = true ↔
      pmm.used frame = true ∨
        (raw.convKb.toNat / 4 ≤ frame ∧ frame < 160) := by
  split
  · rw [List.foldl_cons, List.foldl_nil, Pmm.used_initReserved (by omega),
      Pmm.Visits]
    exact or_congr_right (by omega)
  · rw [List.foldl_nil]
    exact (or_iff_left (by omega)).symm

theorem used_adapterRegions {pmm : Pmm} :
    (List.foldl Pmm.initRegion pmm [⟨0xa0000, 0x20000, .reserved⟩,
      ⟨0xc0000, 0x8000, .reserved⟩, ⟨0xc8000, 0x28000, .reserved⟩,
      ⟨0xf0000, 0x10000, .reserved⟩]).used frame = true ↔
      pmm.used frame = true ∨ (160 ≤ frame ∧ frame < 256) := by
  rw [List.foldl_cons, List.foldl_cons, List.foldl_cons, List.foldl_cons,
    List.foldl_nil, Pmm.used_initReserved (by omega),
    Pmm.used_initReserved (by omega), Pmm.used_initReserved (by omega),
    Pmm.used_initReserved (by omega)]
  simp only [Pmm.Visits, or_assoc]
  exact or_congr_right (by omega)

theorem used_extRegion {pmm : Pmm} :
    (List.foldl Pmm.initRegion pmm
      (if 0 < raw.extKb.toNat then
        [⟨0x100000, raw.extKb.toNat * 1024, .usable⟩] else [])).used
        frame = true ↔
      pmm.used frame = true ∧
        ¬ (256 ≤ frame ∧ frame * 4096 < highestAddr raw.extKb) := by
  have extBound := raw.extKb.toNat_lt
  have top : highestAddr raw.extKb = 0x100000 + raw.extKb.toNat * 1024 :=
    rfl
  split
  · rw [List.foldl_cons, List.foldl_nil,
      Pmm.used_initUsable (extRegion_end raw) (by omega) (by omega)]
  · rw [List.foldl_nil]
    exact (and_iff_left (by omega)).symm

/-- The frames below 1 MB that the loop over the regions marks. -/
def ReservedFrame (raw : RawBootInfo) (frame : Nat) : Prop :=
  frame = 0 ∨ (raw.convKb.toNat / 4 ≤ frame ∧ frame < 160) ∨
    (160 ≤ frame ∧ frame < 256)

/-- The bits after the loop over the regions. -/
theorem used_memRegions {pmm : Pmm} :
    ((memRegions raw).foldl Pmm.initRegion pmm).used frame = true ↔
      ReservedFrame raw frame ∨
        (pmm.used frame = true ∧
          ¬ frame * 4096 < raw.convKb.toNat * 1024 ∧
          ¬ (256 ≤ frame ∧ frame * 4096 < highestAddr raw.extKb)) := by
  rw [memRegions, List.foldl_append, List.foldl_append, List.foldl_append,
    used_extRegion, used_adapterRegions, used_gapRegion, used_convRegions,
    ReservedFrame]
  by_cases marked : pmm.used frame = true
  · simp only [marked, true_and]
    omega
  · simp only [marked, Bool.false_eq_true, false_and, or_false]
    omega

/-- With at most 640 KB of conventional memory, an old bit stays set only
above all memory. -/
theorem used_regions {pmm : Pmm} (conv : raw.convKb.toNat ≤ 640) :
    ((memRegions raw).foldl Pmm.initRegion pmm).used frame = true ↔
      (frame = 0 ∨ (raw.convKb.toNat / 4 ≤ frame ∧ frame < 256)) ∨
        (256 ≤ frame ∧ highestAddr raw.extKb ≤ frame * 4096 ∧
          pmm.used frame = true) := by
  rw [used_memRegions, ReservedFrame]
  by_cases marked : pmm.used frame = true
  · simp only [marked, true_and, and_true]
    omega
  · simp only [marked, Bool.false_eq_true, and_false, false_and,
      or_false]
    omega

/-- The frame that holds the bitmap. -/
def bitmapFrame (kend : Nat) : Nat := (kend + 4095) / 4096

/-- The bits that `pmm_init` leaves. -/
theorem used_pmmInit (conv : raw.convKb.toNat ≤ 640)
    (low : 0x100000 < kend) (high : kend ≤ highestAddr raw.extKb) :
    (pmmInit words raw kend (highestAddr raw.extKb)).used frame = true ↔
      frame = 0 ∨ (raw.convKb.toNat / 4 ≤ frame ∧ frame < 256) ∨
        frame = bitmapFrame kend ∨
        (256 ≤ frame ∧ highestAddr raw.extKb ≤ frame * 4096 ∧
          Pmm.used ⟨words, bitmapWords (highestAddr raw.extKb)⟩ frame =
            true) := by
  have extBound := raw.extKb.toNat_lt
  have top : highestAddr raw.extKb = 0x100000 + raw.extKb.toNat * 1024 :=
    rfl
  have place : bitmapPhys kend = bitmapFrame kend * 4096 := by
    simp only [bitmapPhys, bitmapFrame, u32, pageSize]
    omega
  have size := bitmapWords_le raw.extKb
  have positive : 8 ≤ bitmapWords (highestAddr raw.extKb) := by
    simp only [bitmapWords, highestAddr, pageSize]
    omega
  have frameBound : bitmapFrame kend ≤ 16640 := by
    rw [bitmapFrame]
    omega
  have stop : bitmapEndPhys kend (highestAddr raw.extKb) =
      bitmapFrame kend * 4096 +
        bitmapWords (highestAddr raw.extKb) * 4 := by
    rw [bitmapEndPhys, place]
    simp only [u32]
    omega
  have frameEq : bitmapFrame kend = (kend + 4095) / 4096 := rfl
  rw [pmmInit, place, stop, Pmm.used_setPages (by omega) ?_,
    used_regions conv, Pmm.Visits]
  · generalize Pmm.used ⟨words, bitmapWords (highestAddr raw.extKb)⟩
      frame = before
    cases before with
    | false =>
        simp only [Bool.false_eq_true, and_false, or_false]
        omega
    | true =>
        simp only [and_true]
        omega
  · rw [Pmm.pageFuel]
    omega

end Init

end LoafOs
