import LoafOs.Mm.PmmSafety

/-!
# Which bitmap words `pmm_init` touches

`pmm_init` is a sequence of calls of `set_frame` and `clear_frame`.  The
size of the bitmap rounds the end of memory down to whole pages, while the
loop over a usable region rounds it up, and neither `conv_kb` nor the place
of the bitmap is compared with the end of memory.  So some boot information
sends a call past the last word.
-/

namespace LoafOs

/-- A call of `set_frame` or `clear_frame`. -/
inductive FrameCall where
  | set (addr : Nat)
  | clear (addr : Nat)

namespace FrameCall

def addr : FrameCall → Nat
  | set addr => addr
  | clear addr => addr

/-- The index into `phys_bitmap`. -/
def index (call : FrameCall) : Nat := Pmm.addrToFrame call.addr / 32

def apply (pmm : Pmm) : FrameCall → Pmm
  | set addr => pmm.setFrame addr
  | clear addr => pmm.clearFrame addr

end FrameCall

/-- The addresses that a loop over pages visits. -/
def pageAddrs (stop : Nat) : (fuel addr : Nat) → List Nat
  | 0, _ => []
  | fuel + 1, addr =>
      if addr < stop then addr :: pageAddrs stop fuel (u32 (addr + pageSize))
      else []

/-- The calls for one region. -/
def regionCalls (region : MemRegion) : List FrameCall :=
  match region.type with
  | .reserved =>
      (pageAddrs (u32 (region.base + region.length)) Pmm.pageFuel
        region.base).map .set
  | .usable =>
      (pageAddrs (u32 (region.base + region.length)) Pmm.pageFuel
        (u32 (region.base + pageSize - 1) / pageSize * pageSize)).map .clear

/-- The calls for the frames of the bitmap itself. -/
def bitmapCalls (kend highest : Nat) : List FrameCall :=
  (pageAddrs (bitmapEndPhys kend highest) Pmm.pageFuel
    (bitmapPhys kend)).map .set

/-- All calls that `pmm_init` makes, in order. -/
def pmmInitCalls (raw : RawBootInfo) (kend highest : Nat) :
    List FrameCall :=
  (memRegions raw).flatMap regionCalls ++ bitmapCalls kend highest

section Calls

variable {pmm : Pmm} {stop fuel addr frame : Nat}

theorem eachPage_eq_foldl {visit : Pmm → Nat → Pmm} :
    Pmm.eachPage visit stop fuel addr pmm =
      (pageAddrs stop fuel addr).foldl visit pmm := by
  induction fuel generalizing addr pmm with
  | zero => rfl
  | succ fuel inductionHypothesis =>
      rw [Pmm.eachPage, pageAddrs]
      split
      · rw [List.foldl_cons, inductionHypothesis]
      · rfl

theorem initRegion_eq_foldl (region : MemRegion) :
    pmm.initRegion region =
      (regionCalls region).foldl FrameCall.apply pmm := by
  obtain ⟨base, length, type⟩ := region
  cases type with
  | reserved =>
      simp only [Pmm.initRegion, regionCalls, List.foldl_map]
      exact eachPage_eq_foldl
  | usable =>
      simp only [Pmm.initRegion, regionCalls, List.foldl_map]
      exact eachPage_eq_foldl

/-- `pmm_init` makes exactly these calls. -/
theorem pmmInit_eq_calls (words : Nat → BitVec 32) (raw : RawBootInfo)
    (kend highest : Nat) :
    pmmInit words raw kend highest =
      (pmmInitCalls raw kend highest).foldl FrameCall.apply
        ⟨words, bitmapWords highest⟩ := by
  have region : Pmm.initRegion = fun pmm region =>
      (regionCalls region).foldl FrameCall.apply pmm := by
    funext pmm region
    exact initRegion_eq_foldl region
  rw [pmmInit, pmmInitCalls, List.foldl_append, List.foldl_flatMap,
    bitmapCalls, List.foldl_map, eachPage_eq_foldl, region]
  rfl

/-- The frames of the pages that a loop visits. -/
theorem frame_mem_pageAddrs (small : stop ≤ 2 ^ 32 - 4096)
    (enough : stop ≤ addr + fuel * 4096) :
    (∃ page ∈ pageAddrs stop fuel addr, Pmm.addrToFrame page = frame) ↔
      Pmm.Visits addr stop frame := by
  induction fuel generalizing addr with
  | zero => simp [pageAddrs, Pmm.not_visits (by omega : ¬ addr < stop)]
  | succ fuel inductionHypothesis =>
      rw [pageAddrs]
      by_cases below : addr < stop
      · have next : u32 (addr + pageSize) = addr + 4096 := by
          simp only [u32, pageSize]
          omega
        rw [if_pos below, Pmm.visits_step below small,
          ← inductionHypothesis (by rw [next]; omega)]
        simp [Pmm.addrToFrame, pageSize, eq_comm]
      · simp [if_neg below, Pmm.not_visits below]

/-- A loop visits its first page. -/
theorem mem_pageAddrs (below : addr < stop) :
    addr ∈ pageAddrs stop (fuel + 1) addr := by
  rw [pageAddrs, if_pos below]
  exact List.mem_cons_self

/-- A loop stays below a word exactly if its pages do. -/
theorem calls_below_iff {call : Nat → FrameCall} {words start : Nat}
    (address : ∀ page, (call page).addr = page) (aligned : addr = start * 4096)
    (small : stop ≤ 2 ^ 32 - 4096) (enough : stop ≤ addr + fuel * 4096) :
    (∀ made ∈ (pageAddrs stop fuel addr).map call, made.index < words) ↔
      stop ≤ words * 131072 ∨ stop ≤ addr := by
  have frames (frame : Nat) :
      (∃ page ∈ pageAddrs stop fuel addr, Pmm.addrToFrame page = frame) ↔
        Pmm.Visits addr stop frame :=
    frame_mem_pageAddrs small enough
  simp only [List.forall_mem_map, FrameCall.index, address]
  constructor
  · intro below
    by_contra outside
    -- The first frame past the words, or the first of all.
    obtain ⟨page, member, same⟩ :=
      (frames (max start (words * 32))).mpr (by
        rw [Pmm.Visits]
        omega)
    have := below page member
    rw [same] at this
    omega
  · intro bound page member
    have visits := (frames (Pmm.addrToFrame page)).mp ⟨page, member, rfl⟩
    rw [Pmm.Visits] at visits
    omega

/-- A reserved region below 1 MB stays in the first eight words. -/
theorem reserved_calls_below (words : Nat) {base length : Nat}
    (low : base + length ≤ 0x100000) (enough : 8 ≤ words) :
    ∀ call ∈ regionCalls ⟨base, length, .reserved⟩, call.index < words := by
  have stop : u32 (base + length) = base + length := by
    simp only [u32]
    omega
  simp only [regionCalls, stop, List.forall_mem_map]
  intro page member
  have visits :=
    (frame_mem_pageAddrs (by omega) (by rw [Pmm.pageFuel]; omega)).mp
      ⟨page, member, rfl⟩
  rw [Pmm.Visits] at visits
  simp only [FrameCall.index, FrameCall.addr]
  omega

theorem usable_calls_below (words : Nat) {base length stop : Nat}
    (stopEq : u32 (base + length) = stop)
    (small : stop ≤ 2 ^ 32 - 4096) (low : base ≤ 2 ^ 32 - 4096) :
    (∀ call ∈ regionCalls ⟨base, length, .usable⟩, call.index < words) ↔
      stop ≤ words * 131072 ∨ stop ≤ (base + 4095) / 4096 * 4096 := by
  have start : u32 (base + pageSize - 1) / pageSize * pageSize =
      (base + 4095) / 4096 * 4096 := by
    simp only [u32, pageSize]
    omega
  simp only [regionCalls, stopEq, start]
  exact calls_below_iff (fun _ => rfl) rfl small
    (by rw [Pmm.pageFuel]; omega)

end Calls

/-! ## The bitmap -/

section Bitmap

variable {raw : RawBootInfo} {kend : Nat}

theorem bitmapWords_eq (extKb : UInt16) :
    bitmapWords (highestAddr extKb) = (extKb.toNat + 1148) / 128 := by
  simp only [bitmapWords, highestAddr, pageSize]
  omega

/-- The frames of the bitmap have bits in it exactly if its first one
has. -/
theorem bitmapCalls_below :
    (∀ call ∈ bitmapCalls kend (highestAddr raw.extKb),
      call.index < bitmapWords (highestAddr raw.extKb)) ↔
      bitmapPhys kend < bitmapWords (highestAddr raw.extKb) * 131072 := by
  have few := bitmapWords_le raw.extKb
  have positive : 8 ≤ bitmapWords (highestAddr raw.extKb) := by
    rw [bitmapWords_eq]
    omega
  have aligned : bitmapPhys kend =
      u32 (kend + 0xfff) / 4096 * 4096 := rfl
  have stop : bitmapEndPhys kend (highestAddr raw.extKb) =
      bitmapPhys kend + bitmapWords (highestAddr raw.extKb) * 4 := by
    rw [bitmapEndPhys, aligned]
    simp only [u32]
    omega
  constructor
  · intro below
    have first : FrameCall.set (bitmapPhys kend) ∈
        bitmapCalls kend (highestAddr raw.extKb) := by
      have fuel : Pmm.pageFuel = (2 ^ 20 - 1) + 1 := rfl
      rw [bitmapCalls, fuel]
      exact List.mem_map_of_mem (mem_pageAddrs (by omega))
    have := below _ first
    simp only [FrameCall.index, FrameCall.addr, Pmm.addrToFrame,
      pageSize] at this
    omega
  · intro inside
    refine (calls_below_iff (fun _ => rfl) aligned (by omega)
      (by rw [Pmm.pageFuel]; omega)).mpr (.inl ?_)
    omega

/-- The boot information for which `pmm_init` stays inside the bitmap.  The
bitmap has bits for `(ext_kb + 1148) / 128 * 128` KB of memory: conventional
memory and the place of the bitmap lie below that, and `ext_kb` is not one,
two or three above a multiple of 128. -/
structure FitsBitmap (raw : RawBootInfo) (kend : Nat) : Prop where
  conv : raw.convKb.toNat ≤ (raw.extKb.toNat + 1148) / 128 * 128
  ext : raw.extKb.toNat % 128 = 0 ∨ 4 ≤ raw.extKb.toNat % 128
  kend : kend ≤ (raw.extKb.toNat + 1148) / 128 * 131072 - 4096 ∨
    2 ^ 32 - 4096 < kend

/-- The loops over the regions. -/
theorem regionCalls_below_iff :
    (∀ region ∈ memRegions raw, ∀ call ∈ regionCalls region,
      call.index < bitmapWords (highestAddr raw.extKb)) ↔
      raw.convKb.toNat ≤ (raw.extKb.toNat + 1148) / 128 * 128 ∧
        (raw.extKb.toNat % 128 = 0 ∨ 4 ≤ raw.extKb.toNat % 128) := by
  have convBound := raw.convKb.toNat_lt
  have extBound := raw.extKb.toNat_lt
  have top : highestAddr raw.extKb = 0x100000 + raw.extKb.toNat * 1024 :=
    rfl
  have size := bitmapWords_eq raw.extKb
  have conv := usable_calls_below (bitmapWords (highestAddr raw.extKb))
    (convRegion_end raw) (by omega) (by omega)
  have ext := usable_calls_below (bitmapWords (highestAddr raw.extKb))
    (extRegion_end raw) (by omega) (by omega)
  have low {base length : Nat} (inside : base + length ≤ 0x100000) :=
    reserved_calls_below (bitmapWords (highestAddr raw.extKb)) inside
      (by omega)
  simp only [memRegions, List.forall_mem_append, List.forall_mem_cons]
  constructor
  · rintro ⟨⟨⟨⟨_, convBelow, _⟩, _⟩, _⟩, extBelow⟩
    rw [conv] at convBelow
    refine ⟨by omega, ?_⟩
    by_cases some : 0 < raw.extKb.toNat
    · rw [if_pos some, List.forall_mem_singleton, ext] at extBelow
      omega
    · omega
  · rintro ⟨convFits, extFits⟩
    refine ⟨⟨⟨⟨low (by omega), conv.mpr (.inl (by omega)), ?_⟩, ?_⟩,
      low (by omega), low (by omega), low (by omega), low (by omega), ?_⟩,
      ?_⟩
    · exact List.forall_mem_nil _
    · split
      · rw [List.forall_mem_singleton]
        exact low (by omega)
      · exact List.forall_mem_nil _
    · exact List.forall_mem_nil _
    · split
      · rw [List.forall_mem_singleton]
        exact ext.mpr (.inl (by omega))
      · exact List.forall_mem_nil _

/-- Every word that a call of `pmm_init` touches is a word of the
bitmap. -/
theorem pmmInitCalls_below_iff (narrow : kend < 2 ^ 32) :
    (∀ call ∈ pmmInitCalls raw kend (highestAddr raw.extKb),
      call.index < bitmapWords (highestAddr raw.extKb)) ↔
      FitsBitmap raw kend := by
  have extBound := raw.extKb.toNat_lt
  have place : bitmapPhys kend =
      u32 (kend + 0xfff) / 4096 * 4096 := rfl
  have bitmap : bitmapPhys kend <
        bitmapWords (highestAddr raw.extKb) * 131072 ↔
      (kend ≤ (raw.extKb.toNat + 1148) / 128 * 131072 - 4096 ∨
        2 ^ 32 - 4096 < kend) := by
    rw [place, bitmapWords_eq]
    simp only [u32]
    omega
  rw [pmmInitCalls, List.forall_mem_append, bitmapCalls_below, bitmap,
    List.forall_mem_flatMap, regionCalls_below_iff]
  exact ⟨fun ⟨⟨conv, ext⟩, kend⟩ => ⟨conv, ext, kend⟩,
    fun ⟨conv, ext, kend⟩ => ⟨⟨conv, ext⟩, kend⟩⟩

/-! ## Reserved memory -/

/-- The frames of the reserved regions are those that the loop over the
regions marks. -/
theorem reserved_frame {frame : Nat} {region : MemRegion}
    (member : region ∈ memRegions raw) (reserved : region.type = .reserved)
    (overlaps : Overlaps (frame * 4096) region.base
      (region.base + region.length)) :
    ReservedFrame raw frame := by
  rw [Overlaps, pageSize] at overlaps
  rw [ReservedFrame]
  simp only [memRegions, List.mem_append, List.mem_cons, List.not_mem_nil,
    or_false] at member
  rcases member with (((rfl | rfl) | gap) | rfl | rfl | rfl | rfl) | ext
  · simp only at overlaps
    omega
  · simp at reserved
  · split at gap
    · rw [List.mem_singleton] at gap
      subst gap
      simp only at overlaps
      omega
    · cases gap
  · simp only at overlaps
    omega
  · simp only at overlaps
    omega
  · simp only at overlaps
    omega
  · simp only at overlaps
    omega
  · split at ext
    · rw [List.mem_singleton] at ext
      subst ext
      simp at reserved
    · cases ext

theorem used_eachPage_setFrame {pmm : Pmm} {stop fuel addr frame : Nat}
    (marked : pmm.used frame = true) :
    (Pmm.eachPage Pmm.setFrame stop fuel addr pmm).used frame = true := by
  induction fuel generalizing addr pmm with
  | zero => exact marked
  | succ fuel inductionHypothesis =>
      rw [Pmm.eachPage]
      split
      · refine inductionHypothesis ?_
        rw [Pmm.used_setFrame, marked, Bool.true_or]
      · exact marked

theorem memRegions_length (raw : RawBootInfo) :
    (memRegions raw).length ≤ 8 := by
  simp only [memRegions, List.length_append, List.length_cons,
    List.length_nil]
  split <;> split <;> simp

/-! ## The whole map -/

/-- What `pmm_init` should leave: no call outside the bitmap, a region for
each slot of `boot_info.regions` at most, and reserved memory marked. -/
structure MapInBitmap (words : Nat → BitVec 32) (raw : RawBootInfo)
    (kend : Nat) : Prop where
  inside : ∀ call ∈ pmmInitCalls raw kend (highestAddr raw.extKb),
    call.index < bitmapWords (highestAddr raw.extKb)
  regions : (memRegions raw).length ≤ 8
  reserved : ∀ region ∈ memRegions raw, region.type = .reserved →
    ∀ frame, Overlaps (frame * 4096) region.base
      (region.base + region.length) →
      (pmmInit words raw kend (highestAddr raw.extKb)).used frame = true

/-- The map stays inside the bitmap exactly if the boot information fits
it. -/
theorem pmmInit_inBitmap_iff (words : Nat → BitVec 32) (raw : RawBootInfo)
    (kend : UInt32) :
    MapInBitmap words raw kend.toNat ↔ FitsBitmap raw kend.toNat := by
  rw [← pmmInitCalls_below_iff kend.toNat_lt]
  refine ⟨MapInBitmap.inside, fun inside =>
    ⟨inside, memRegions_length raw, ?_⟩⟩
  intro region member reserved frame overlaps
  rw [pmmInit]
  exact used_eachPage_setFrame
    (used_memRegions.mpr (.inl (reserved_frame member reserved overlaps)))

/-- One KB past a multiple of 128 sends the loop over extended memory one
word past the bitmap. -/
theorem oddMemory_outside :
    ¬ ∀ (words : Nat → BitVec 32) (raw : RawBootInfo) (kend : UInt32),
      MapInBitmap words raw kend.toNat := by
  intro claim
  have fits := (pmmInit_inBitmap_iff (fun _ => 0) ⟨640, 15361⟩
    0x140000).mp (claim _ _ _)
  have odd := fits.ext
  revert odd
  decide

end Bitmap

end LoafOs
