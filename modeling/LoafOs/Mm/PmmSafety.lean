import LoafOs.Lib.Runs
import LoafOs.Mm.PmmInit

/-!
# Which frames the allocator hands out

`pmm_init` marks the reserved regions and the bitmap, but not the kernel
image, and the last bitmap word has bits for frames past the end of memory.
A frame is in order as long as the first fit stops before it reaches
either.
-/

namespace LoafOs

open Runs

/-- The allocator and the addresses that were handed out. -/
structure PmmUse where
  pmm : Pmm
  allocated : List Nat

/-- One call. -/
inductive PmmCall where
  | allocFrame
  | allocFrames (count : Nat)
  | freeFrame (addr : Nat)
  | freeFrames (addr count : Nat)

/-- The addresses of consecutive frames. -/
def frameAddrs (addr count : Nat) : List Nat :=
  (List.range count).map fun index => addr + index * pageSize

/-- A call with its effect; only frames that were handed out are freed. -/
inductive PmmStep : PmmUse → PmmCall → PmmUse → Prop
  | allocFrame {use : PmmUse} {pmm' : Pmm} {addr : Nat}
      (done : use.pmm.allocFrame = some (pmm', addr)) :
      PmmStep use .allocFrame ⟨pmm', addr :: use.allocated⟩
  | allocFrames {use : PmmUse} {pmm' : Pmm} {addr count : Nat}
      (done : use.pmm.allocFrames count = some (pmm', addr)) :
      PmmStep use (.allocFrames count)
        ⟨pmm', frameAddrs addr count ++ use.allocated⟩
  | freeFrame {use : PmmUse} {addr : Nat}
      (held : addr ∈ use.allocated) :
      PmmStep use (.freeFrame addr)
        ⟨use.pmm.freeFrame addr, use.allocated.erase addr⟩
  | freeFrames {use : PmmUse} {addr count : Nat}
      (held : ∀ frame ∈ frameAddrs addr count, frame ∈ use.allocated) :
      PmmStep use (.freeFrames addr count)
        ⟨use.pmm.freeFrames addr count,
          use.allocated.filter fun frame =>
            !(frameAddrs addr count).contains frame⟩

/-- The frame at an address meets a range of bytes. -/
def Overlaps (addr start stop : Nat) : Prop :=
  addr < stop ∧ start < addr + pageSize

/-- The frame at an address is free for use. -/
structure FrameSafe (raw : RawBootInfo) (kend addr : Nat) : Prop where
  image : ¬ Overlaps addr 0x100000 kend
  bitmap : ¬ Overlaps addr (bitmapPhys kend)
    (bitmapEndPhys kend (highestAddr raw.extKb))
  reserved : ∀ region ∈ memRegions raw, region.type = .reserved →
    ¬ Overlaps addr region.base (region.base + region.length)
  present : addr < highestAddr raw.extKb

/-- The first fit of a call stops before the kernel image, or passes it,
and before the end of memory; or the call finds nothing. -/
def PmmCall.Roomy (raw : RawBootInfo) (kend : Nat) (pmm : Pmm) :
    PmmCall → Prop
  | .allocFrame =>
      (∃ frame < 256, pmm.used frame = false) ∨
        ∀ frame < pmm.totalFrames, pmm.used frame = true
  | .allocFrames count =>
      (∃ start, start + count ≤ 256 ∧ pmm.FreeRun start count) ∨
        (bitmapFrame kend < 256 + count ∧ ∃ start, 256 ≤ start ∧
          (∀ frame < start + count,
            frame * 4096 < highestAddr raw.extKb) ∧
          pmm.FreeRun start count) ∨
        ∀ start, start + count ≤ pmm.totalFrames →
          ¬ pmm.FreeRun start count
  | .freeFrame _ => True
  | .freeFrames _ _ => True

/-- A call in a roomy bitmap. -/
def RoomyStep (raw : RawBootInfo) (kend : Nat) (before : PmmUse)
    (call : PmmCall) (after : PmmUse) : Prop :=
  call.Roomy raw kend before.pmm ∧ PmmStep before call after

/-- The frames below 1 MB that are memory, and those between the bitmap and
the end of memory. -/
def UsableFrame (raw : RawBootInfo) (kend frame : Nat) : Prop :=
  (1 ≤ frame ∧ frame < raw.convKb.toNat / 4) ∨
    (bitmapFrame kend < frame ∧ frame * 4096 < highestAddr raw.extKb)

/-- The invariant: what was handed out is usable, the frames of the image
are still free, and no other frame of memory is. -/
structure PmmUse.Ok (raw : RawBootInfo) (kend : Nat) (use : PmmUse) :
    Prop where
  size : use.pmm.bitmapSize = bitmapWords (highestAddr raw.extKb)
  allocated : ∀ addr ∈ use.allocated, ∃ frame, addr = frame * 4096 ∧
    UsableFrame raw kend frame
  image : ∀ frame, 256 ≤ frame → frame < bitmapFrame kend →
    use.pmm.used frame = false
  free : ∀ frame, use.pmm.used frame = false →
    frame * 4096 < highestAddr raw.extKb →
    UsableFrame raw kend frame ∨
      (256 ≤ frame ∧ frame < bitmapFrame kend)

section Safety

variable {raw : RawBootInfo} {kend : Nat} {use use' : PmmUse}
  {call : PmmCall} {words : Nat → BitVec 32} {addr count frame : Nat}

theorem usable_safe (conv : raw.convKb.toNat ≤ 640)
    (low : 0x100000 < kend) (high : kend ≤ highestAddr raw.extKb)
    (usable : UsableFrame raw kend frame) :
    FrameSafe raw kend (frame * 4096) := by
  have extBound := raw.extKb.toNat_lt
  have top : highestAddr raw.extKb = 0x100000 + raw.extKb.toNat * 1024 :=
    rfl
  have words := bitmapWords_le raw.extKb
  have place : bitmapPhys kend = bitmapFrame kend * 4096 := by
    simp only [bitmapPhys, bitmapFrame, u32, pageSize]
    omega
  have frameEq : bitmapFrame kend = (kend + 4095) / 4096 := rfl
  have stop : bitmapEndPhys kend (highestAddr raw.extKb) =
      bitmapFrame kend * 4096 +
        bitmapWords (highestAddr raw.extKb) * 4 := by
    rw [bitmapEndPhys, place]
    simp only [u32]
    omega
  rw [UsableFrame] at usable
  refine ⟨?_, ?_, fun region member reserved => ?_, ?_⟩
  · rw [Overlaps, pageSize]
    omega
  · rw [Overlaps, pageSize, stop, place]
    omega
  · have bounds : region.base + region.length ≤ 1280 ∨
        (raw.convKb.toNat * 1024 ≤ region.base ∧
          region.base + region.length ≤ 0x100000) := by
      rw [memRegions] at member
      simp only [List.mem_append, List.mem_cons, List.not_mem_nil,
        or_false] at member
      rcases member with (((rfl | rfl) | gap) | rfl | rfl | rfl | rfl) | ext
      · exact .inl (Nat.le_refl _)
      · simp at reserved
      · split at gap
        · rw [List.mem_singleton] at gap
          subst gap
          exact .inr ⟨Nat.le_refl _, by simp only; omega⟩
        · simp at gap
      · exact .inr ⟨by simp only; omega, by simp only; omega⟩
      · exact .inr ⟨by simp only; omega, by simp only; omega⟩
      · exact .inr ⟨by simp only; omega, by simp only; omega⟩
      · exact .inr ⟨by simp only; omega, by simp only; omega⟩
      · split at ext
        · rw [List.mem_singleton] at ext
          subst ext
          simp at reserved
        · simp at ext
    rw [Overlaps, pageSize]
    omega
  · omega

theorem pmmInit_ok (conv : raw.convKb.toNat ≤ 640)
    (low : 0x100000 < kend) (high : kend ≤ highestAddr raw.extKb) :
    PmmUse.Ok raw kend
      ⟨pmmInit words raw kend (highestAddr raw.extKb), []⟩ := by
  have frameEq : bitmapFrame kend = (kend + 4095) / 4096 := rfl
  refine ⟨pmmInit_bitmapSize, fun _ member => absurd member
    List.not_mem_nil, fun frame lower upper => ?_,
    fun frame unused below => ?_⟩
  · rw [← Bool.not_eq_true]
    intro marked
    rcases (used_pmmInit conv low high).mp marked with
      zero | middle | bitmap | ⟨_, past, _⟩
    · omega
    · omega
    · omega
    · omega
  · have unmarked : ¬ (pmmInit words raw kend
        (highestAddr raw.extKb)).used frame = true := by
      rw [unused]
      exact Bool.false_ne_true
    rw [used_pmmInit conv low high] at unmarked
    have nonzero : frame ≠ 0 := fun zero => unmarked (.inl zero)
    have middle : ¬ (raw.convKb.toNat / 4 ≤ frame ∧ frame < 256) :=
      fun inside => unmarked (.inr (.inl inside))
    have bitmap : frame ≠ bitmapFrame kend := fun same =>
      unmarked (.inr (.inr (.inl same)))
    rw [UsableFrame]
    omega

theorem usable_low (ok : use.Ok raw kend) (small : frame < 256)
    (free : use.pmm.used frame = false) : UsableFrame raw kend frame := by
  have top : highestAddr raw.extKb = 0x100000 + raw.extKb.toNat * 1024 :=
    rfl
  rcases ok.free frame free (by omega) with usable | image
  · exact usable
  · omega

theorem PmmUse.Ok.total (ok : use.Ok raw kend) :
    use.pmm.totalFrames ≤ 16640 := by
  have bound := bitmapWords_le raw.extKb
  have total : use.pmm.totalFrames = use.pmm.bitmapSize * 32 := rfl
  rw [total, ok.size]
  omega

/-- Handing out usable frames keeps the invariant. -/
theorem PmmUse.Ok.take (ok : use.Ok raw kend) {pmm' : Pmm}
    (size : pmm'.bitmapSize = use.pmm.bitmapSize)
    {taken : List Nat}
    (usable : ∀ addr ∈ taken, ∃ frame, addr = frame * 4096 ∧
      UsableFrame raw kend frame)
    (used : ∀ frame, pmm'.used frame = false →
      use.pmm.used frame = false)
    (image : ∀ frame, 256 ≤ frame → frame < bitmapFrame kend →
      pmm'.used frame = false) :
    PmmUse.Ok raw kend ⟨pmm', taken ++ use.allocated⟩ := by
  refine ⟨size.trans ok.size, fun addr member => ?_, image,
    fun frame free below => ok.free frame (used frame free) below⟩
  rcases List.mem_append.mp member with new | old
  · exact usable addr new
  · exact ok.allocated addr old

/-- Bits that only a free changes back. -/
theorem PmmUse.Ok.give (ok : use.Ok raw kend) {pmm' : Pmm}
    {kept : List Nat} (size : pmm'.bitmapSize = use.pmm.bitmapSize)
    (fewer : ∀ addr ∈ kept, addr ∈ use.allocated)
    (used : ∀ frame, pmm'.used frame = use.pmm.used frame ∨
      (pmm'.used frame = false ∧ UsableFrame raw kend frame)) :
    PmmUse.Ok raw kend ⟨pmm', kept⟩ := by
  refine ⟨size.trans ok.size,
    fun addr member => ok.allocated addr (fewer addr member),
    fun frame lower upper => ?_, fun frame free below => ?_⟩
  · rcases used frame with same | ⟨free, _⟩
    · rw [same]
      exact ok.image frame lower upper
    · exact free
  · rcases used frame with same | ⟨_, usable⟩
    · rw [same] at free
      exact ok.free frame free below
    · exact .inl usable

theorem usable_bound (conv : raw.convKb.toNat ≤ 640)
    (usable : UsableFrame raw kend frame) : frame < 2 ^ 18 := by
  have extBound := raw.extKb.toNat_lt
  have top : highestAddr raw.extKb = 0x100000 + raw.extKb.toNat * 1024 :=
    rfl
  rw [UsableFrame] at usable
  omega

theorem allocFrame_ok (ok : use.Ok raw kend) {pmm' : Pmm}
    (roomy : PmmCall.Roomy raw kend use.pmm .allocFrame)
    (done : use.pmm.allocFrame = some (pmm', addr)) :
    PmmUse.Ok raw kend ⟨pmm', addr :: use.allocated⟩ := by
  have total := ok.total
  rcases use.pmm.allocFrame_cases (by omega) with
    ⟨found, inside, free, first, result⟩ | ⟨_, result⟩
  · have low : found < 256 := by
      rcases roomy with ⟨frame, below, unused⟩ | full
      · rcases Nat.lt_or_ge frame found with before | after
        · rw [first frame before] at unused
          simp at unused
        · omega
      · rw [full found inside] at free
        simp at free
    rw [result] at done
    simp only [Option.some.injEq, Prod.mk.injEq] at done
    obtain ⟨pmmEq, addrEq⟩ := done
    have place : Pmm.frameToAddr found = found * 4096 :=
      Pmm.frameToAddr_eq (by omega)
    have bit : ∀ frame, pmm'.used frame =
        (use.pmm.used frame || decide (frame = found)) := fun frame => by
      rw [← pmmEq, Pmm.used_setFrame,
        Pmm.addrToFrame_frameToAddr (by omega)]
    have taken : ∀ other ∈ [addr], ∃ frame, other = frame * 4096 ∧
        UsableFrame raw kend frame := by
      intro other member
      rw [List.mem_singleton] at member
      exact ⟨found, by rw [member, ← addrEq, place],
        usable_low ok low free⟩
    refine ok.take (by rw [← pmmEq]; rfl) taken
      (fun frame unused => ?_) fun frame lower upper => ?_
    · rw [bit, Bool.or_eq_false_iff] at unused
      exact unused.1
    · rw [bit, ok.image frame lower upper, Bool.false_or,
        decide_eq_false_iff_not]
      omega
  · rw [result] at done
    simp at done

/-- A run that the first fit finds in a roomy bitmap is usable. -/
theorem run_usable (conv : raw.convKb.toNat ≤ 640)
    (ok : use.Ok raw kend) {start : Nat} (low : 0x100000 < kend)
    (roomy : PmmCall.Roomy raw kend use.pmm (.allocFrames count))
    (fits : start + count ≤ use.pmm.totalFrames)
    (free : use.pmm.FreeRun start count)
    (first : ∀ other < start, ¬ use.pmm.FreeRun other count) :
    ∀ frame, start ≤ frame → frame < start + count →
      UsableFrame raw kend frame := by
  have frameEq : bitmapFrame kend = (kend + 4095) / 4096 := rfl
  have top : highestAddr raw.extKb = 0x100000 + raw.extKb.toNat * 1024 :=
    rfl
  rcases roomy with ⟨other, below, run⟩ |
    ⟨long, other, above, inside, run⟩ | none
  · have early : start ≤ other := by
      rcases Nat.lt_or_ge other start with before | after
      · exact absurd run (first other before)
      · exact after
    intro frame lower upper
    exact usable_low ok (by omega) (free frame lower upper)
  · have early : start ≤ other := by
      rcases Nat.lt_or_ge other start with before | after
      · exact absurd run (first other before)
      · exact after
    have known : ∀ frame, start ≤ frame → frame < start + count →
        UsableFrame raw kend frame ∨
          (256 ≤ frame ∧ frame < bitmapFrame kend) := by
      intro frame lower upper
      exact ok.free frame (free frame lower upper)
        (inside frame (by omega))
    have odd : ∀ frame, 160 ≤ frame → frame ≤ 255 →
        ¬ UsableFrame raw kend frame := fun frame lower upper usable => by
      rw [UsableFrame] at usable
      omega
    rcases Nat.lt_or_ge start 256 with before | after
    · have short : start + count ≤ 256 := by
        rcases Nat.lt_or_ge 256 (start + count) with past | within
        · rcases known 255 (by omega) (by omega) with usable | image
          · exact absurd usable (odd 255 (by omega) (by omega))
          · omega
        · exact within
      intro frame lower upper
      exact usable_low ok (by omega) (free frame lower upper)
    · have beyond : bitmapFrame kend < start := by
        rcases Nat.lt_or_ge (bitmapFrame kend) start with past | image
        · exact past
        · rcases known (bitmapFrame kend) image (by omega) with
            usable | between
          · rw [UsableFrame] at usable
            omega
          · omega
      intro frame lower upper
      rcases known frame lower upper with usable | image
      · exact usable
      · omega
  · exact absurd free (none start fits)

theorem allocFrames_ok (conv : raw.convKb.toNat ≤ 640)
    (low : 0x100000 < kend) (ok : use.Ok raw kend) {pmm' : Pmm}
    (roomy : PmmCall.Roomy raw kend use.pmm (.allocFrames count))
    (done : use.pmm.allocFrames count = some (pmm', addr)) :
    PmmUse.Ok raw kend ⟨pmm', frameAddrs addr count ++ use.allocated⟩ := by
  have total := ok.total
  rcases use.pmm.allocFrames_cases count (by omega) with
    ⟨start, positive, fits, free, first, result⟩ | ⟨_, result⟩
  · have usable := run_usable conv ok low roomy fits free first
    rw [result] at done
    simp only [Option.some.injEq, Prod.mk.injEq] at done
    obtain ⟨pmmEq, addrEq⟩ := done
    have place : Pmm.frameToAddr start = start * 4096 :=
      Pmm.frameToAddr_eq (by omega)
    have bit : ∀ frame, pmm'.used frame = (use.pmm.used frame ||
        decide (start ≤ frame ∧ frame < start + count)) := fun frame => by
      rw [← pmmEq, Pmm.used_setRun (by omega)]
    have taken : ∀ other ∈ frameAddrs addr count, ∃ frame,
        other = frame * 4096 ∧ UsableFrame raw kend frame := by
      intro other member
      obtain ⟨index, inRange, same⟩ := List.mem_map.mp member
      have below := List.mem_range.mp inRange
      refine ⟨start + index, ?_, usable _ (by omega) (by omega)⟩
      rw [← same, ← addrEq, place, pageSize]
      omega
    refine ok.take (by rw [← pmmEq, Pmm.setRun_bitmapSize]) taken
      (fun frame unused => ?_) fun frame lower upper => ?_
    · rw [bit, Bool.or_eq_false_iff] at unused
      exact unused.1
    · rw [bit, ok.image frame lower upper, Bool.false_or,
        decide_eq_false_iff_not]
      intro inside
      have known := usable frame inside.1 inside.2
      rw [UsableFrame] at known
      omega
  · rw [result] at done
    simp at done

/-- Freeing consecutive frames clears exactly their bits. -/
theorem used_freeFrames {pmm : Pmm} {start : Nat}
    (bound : start + count ≤ 2 ^ 20) (frame : Nat) :
    (pmm.freeFrames (start * 4096) count).used frame =
      (pmm.used frame &&
        !decide (start ≤ frame ∧ frame < start + count)) := by
  induction count generalizing pmm start with
  | zero =>
      have outside : ¬ (start ≤ frame ∧ frame < start + 0) := by omega
      rw [Pmm.freeFrames, decide_eq_false outside]
      simp
  | succ count inductionHypothesis =>
      have here : Pmm.addrToFrame (start * 4096) = start := by
        rw [Pmm.addrToFrame, pageSize]
        omega
      have split : (start ≤ frame ∧ frame < start + (count + 1)) ↔
          frame = start ∨ start + 1 ≤ frame ∧ frame < start + 1 + count := by
        omega
      have onward : ((pmm.clearFrame (start * 4096)).freeFrames
          (u32 (start * 4096 + pageSize)) count).used frame =
          ((pmm.clearFrame (start * 4096)).used frame &&
            !decide (start + 1 ≤ frame ∧ frame < start + 1 + count)) := by
        cases count with
        | zero =>
            have outside : ¬ (start + 1 ≤ frame ∧ frame < start + 1 + 0) := by
              omega
            rw [Pmm.freeFrames, decide_eq_false outside]
            simp
        | succ count =>
            have next : u32 (start * 4096 + pageSize) =
                (start + 1) * 4096 := by
              simp only [u32, pageSize]
              omega
            rw [next]
            exact inductionHypothesis (by omega)
      rw [Pmm.freeFrames, onward, Pmm.used_clearFrame, here, Bool.and_assoc,
        ← Bool.not_or, ← Bool.decide_or, decide_eq_decide.mpr split]

theorem freeFrames_bitmapSize {pmm : Pmm} :
    (pmm.freeFrames addr count).bitmapSize = pmm.bitmapSize := by
  induction count generalizing pmm addr with
  | zero => rfl
  | succ count inductionHypothesis =>
      rw [Pmm.freeFrames, inductionHypothesis]
      rfl

/-- One call in a roomy bitmap keeps the invariant. -/
theorem PmmStep.ok (conv : raw.convKb.toNat ≤ 640)
    (low : 0x100000 < kend) (ok : use.Ok raw kend)
    (roomy : call.Roomy raw kend use.pmm) (step : PmmStep use call use') :
    use'.Ok raw kend := by
  cases step with
  | allocFrame done => exact allocFrame_ok ok roomy done
  | allocFrames done => exact allocFrames_ok conv low ok roomy done
  | @freeFrame addr held =>
      obtain ⟨frame, place, usable⟩ := ok.allocated addr held
      have here : Pmm.addrToFrame addr = frame := by
        rw [place, Pmm.addrToFrame, pageSize]
        omega
      refine ok.give rfl (fun other member => List.mem_of_mem_erase member)
        fun other => ?_
      rw [Pmm.freeFrame, Pmm.used_clearFrame, here]
      by_cases same : other = frame
      · exact .inr ⟨by simp [same], same ▸ usable⟩
      · exact .inl (by simp [same])
  | @freeFrames addr count held =>
      refine ok.give freeFrames_bitmapSize
        (fun other member => (List.mem_filter.mp member).1) fun other => ?_
      have owned : ∀ index < count, ∃ frame,
          addr + index * 4096 = frame * 4096 ∧
            UsableFrame raw kend frame := fun index below =>
        ok.allocated _ (held _ (List.mem_map.mpr
          ⟨index, List.mem_range.mpr below, rfl⟩))
      rcases Nat.eq_zero_or_pos count with none | some
      · subst none
        exact .inl rfl
      · obtain ⟨start, place, usable⟩ := owned 0 some
        have addrEq : addr = start * 4096 := by omega
        have run : ∀ frame, start ≤ frame → frame < start + count →
            UsableFrame raw kend frame := by
          intro frame lower upper
          obtain ⟨frame', place', usable'⟩ :=
            owned (frame - start) (by omega)
          have same : frame' = frame := by omega
          exact same ▸ usable'
        have bound : start + count < 2 ^ 20 := by
          have last := usable_bound conv
            (run (start + count - 1) (by omega) (by omega))
          omega
        rw [addrEq, used_freeFrames (Nat.le_of_lt bound)]
        by_cases inside : start ≤ other ∧ other < start + count
        · exact .inr ⟨by simp [inside],
            run other inside.1 inside.2⟩
        · exact .inl (by rw [decide_eq_false inside]; simp)

/-- As long as every call is made in a roomy bitmap, no frame of the
kernel, of the bitmap, of a reserved region or past the end of memory is
ever handed out. -/
theorem pmmRun_safe {calls : List PmmCall} (conv : raw.convKb.toNat ≤ 640)
    (low : 0x100000 < kend) (high : kend ≤ highestAddr raw.extKb)
    (run : Run (RoomyStep raw kend)
      ⟨pmmInit words raw kend (highestAddr raw.extKb), []⟩ calls use) :
    ∀ addr ∈ use.allocated, FrameSafe raw kend addr := by
  have kept := run.invariant (PmmUse.Ok raw kend)
    (fun before call after ok step => step.2.ok conv low ok step.1)
    (pmmInit_ok conv low high)
  intro addr held
  obtain ⟨frame, place, usable⟩ := kept.allocated addr held
  rw [place]
  exact usable_safe conv low high usable

end Safety

theorem PmmStep.ofFrame {pmm pmm' : Pmm} {addr : Nat}
    (allocated : List Nat) (done : pmm.allocFrame = some (pmm', addr)) :
    PmmStep ⟨pmm, allocated⟩ .allocFrame ⟨pmm', addr :: allocated⟩ :=
  .allocFrame done

theorem PmmStep.ofFrames {pmm pmm' : Pmm} {addr count : Nat}
    (allocated : List Nat)
    (done : pmm.allocFrames count = some (pmm', addr)) :
    PmmStep ⟨pmm, allocated⟩ (.allocFrames count)
      ⟨pmm', frameAddrs addr count ++ allocated⟩ :=
  .allocFrames done

theorem RoomyStep.ofFrame {raw : RawBootInfo} {kend addr : Nat}
    {pmm pmm' : Pmm} {allocated : List Nat}
    (roomy : PmmCall.Roomy raw kend pmm .allocFrame)
    (done : pmm.allocFrame = some (pmm', addr)) :
    RoomyStep raw kend ⟨pmm, allocated⟩ .allocFrame
      ⟨pmm', addr :: allocated⟩ :=
  ⟨roomy, .ofFrame allocated done⟩

/-- 639 KB of low memory and 15 MB above 1 MB. -/
def sampleRaw : RawBootInfo := ⟨639, 15360⟩

theorem sampleRaw_conv : sampleRaw.convKb.toNat ≤ 640 := by decide

theorem sampleRaw_high : 0x140000 ≤ highestAddr sampleRaw.extKb := by
  decide +kernel

/-- The allocator after boot with a kernel of 256 KB. -/
def sampleBoot : Pmm :=
  pmmInit (fun _ => 0) sampleRaw 0x140000 (highestAddr sampleRaw.extKb)

theorem sampleBoot_used (frame : Nat) :
    sampleBoot.used frame = true ↔
      frame = 0 ∨ (159 ≤ frame ∧ frame < 256) ∨ frame = 320 := by
  have zero : Pmm.used ⟨fun _ => 0, bitmapWords
      (highestAddr sampleRaw.extKb)⟩ frame = false := by
    simp [Pmm.used]
  rw [sampleBoot, used_pmmInit sampleRaw_conv (by decide) sampleRaw_high, zero]
  have conv : sampleRaw.convKb.toNat / 4 = 159 := rfl
  have place : bitmapFrame 0x140000 = 320 := rfl
  rw [conv, place]
  simp only [Bool.false_eq_true, and_false, or_false]

theorem sampleBoot_total : sampleBoot.totalFrames = 4096 := by
  rw [Pmm.totalFrames, sampleBoot, pmmInit_bitmapSize]
  rfl

theorem sampleBoot_free {frame : Nat} (lower : 1 ≤ frame)
    (upper : frame < 159) : sampleBoot.used frame = false := by
  rw [← Bool.not_eq_true, sampleBoot_used]
  omega

/-- The first frame that is handed out after boot is in order. -/
theorem sampleBoot_safe : ∃ use,
    Run (RoomyStep sampleRaw 0x140000) ⟨sampleBoot, []⟩ [.allocFrame]
      use ∧ use.allocated ≠ [] ∧
      ∀ addr ∈ use.allocated, FrameSafe sampleRaw 0x140000 addr := by
  have total := sampleBoot_total
  have free := sampleBoot_free (Nat.le_refl 1) (by decide)
  rcases sampleBoot.allocFrame_cases (by omega) with
    ⟨found, _, _, _, result⟩ | ⟨full, _⟩
  · have roomy : PmmCall.Roomy sampleRaw 0x140000 sampleBoot
        .allocFrame := .inl ⟨1, by decide, free⟩
    have run : Run (RoomyStep sampleRaw 0x140000) ⟨sampleBoot, []⟩
        [.allocFrame]
        ⟨sampleBoot.setFrame (Pmm.frameToAddr found),
          [Pmm.frameToAddr found]⟩ :=
      .cons (.ofFrame roomy result) .nil
    exact ⟨_, run, List.cons_ne_nil _ _,
      pmmRun_safe sampleRaw_conv (by decide) sampleRaw_high run⟩
  · rw [full 1 (by omega)] at free
    simp at free

/-- Once the low frames are gone, the next one is the start of the kernel
image. -/
theorem kernelImage_allocated :
    ¬ ∀ (raw : RawBootInfo) (kend : Nat) (words : Nat → BitVec 32)
      (calls : List PmmCall) (use : PmmUse),
      raw.convKb.toNat ≤ 640 → 0x100000 < kend →
      kend ≤ highestAddr raw.extKb →
      Run PmmStep
        ⟨pmmInit words raw kend (highestAddr raw.extKb), []⟩ calls use →
      ∀ addr ∈ use.allocated, FrameSafe raw kend addr := by
  intro claim
  have total := sampleBoot_total
  have low : sampleBoot.FreeRun 1 158 := fun frame lower upper =>
    sampleBoot_free lower (by omega)
  rcases sampleBoot.allocFrames_cases 158 (by omega) with
    ⟨start, _, _, run, first, result⟩ | ⟨none, _⟩
  · have startEq : start = 1 := by
      rcases Nat.lt_trichotomy start 1 with before | same | after
      · have used := (sampleBoot_used 0).mpr (.inl rfl)
        rw [run 0 (by omega) (by omega)] at used
        simp at used
      · exact same
      · exact absurd low (first 1 after)
    subst startEq
    have bit : ∀ frame, (sampleBoot.setRun 1 158).used frame =
        (sampleBoot.used frame ||
          decide (1 ≤ frame ∧ frame < 1 + 158)) :=
      Pmm.used_setRun (by decide)
    have image : (sampleBoot.setRun 1 158).used 256 = false := by
      rw [bit, ← Bool.not_eq_true, Bool.or_eq_true, sampleBoot_used]
      simp
    have full : ∀ frame < 256,
        (sampleBoot.setRun 1 158).used frame = true := fun frame below => by
      rw [bit, Bool.or_eq_true, sampleBoot_used, decide_eq_true_iff]
      omega
    have total' : (sampleBoot.setRun 1 158).totalFrames = 4096 := by
      rw [Pmm.totalFrames, Pmm.setRun_bitmapSize]
      exact total
    rcases (sampleBoot.setRun 1 158).allocFrame_cases (by omega) with
      ⟨found, _, free, lowest, result'⟩ | ⟨none, _⟩
    · have foundEq : found = 256 := by
        rcases Nat.lt_trichotomy found 256 with before | same | after
        · rw [full found before] at free
          simp at free
        · exact same
        · rw [lowest 256 after] at image
          simp at image
      subst foundEq
      have first : PmmStep ⟨sampleBoot, []⟩ (.allocFrames 158)
          ⟨sampleBoot.setRun 1 158,
            frameAddrs (Pmm.frameToAddr 1) 158 ++ []⟩ :=
        .ofFrames [] result
      have second : PmmStep
          ⟨sampleBoot.setRun 1 158,
            frameAddrs (Pmm.frameToAddr 1) 158 ++ []⟩ .allocFrame
          ⟨(sampleBoot.setRun 1 158).setFrame (Pmm.frameToAddr 256),
            Pmm.frameToAddr 256 ::
              (frameAddrs (Pmm.frameToAddr 1) 158 ++ [])⟩ :=
        .ofFrame _ result'
      have safe := claim sampleRaw 0x140000 (fun _ => 0) _ _
        sampleRaw_conv (by decide) sampleRaw_high
        (.cons first (.cons second .nil)) (Pmm.frameToAddr 256)
        (List.mem_cons_self ..)
      have place : Pmm.frameToAddr 256 = 0x100000 := by decide
      rw [place] at safe
      exact safe.image ⟨by decide, by decide⟩
    · rw [none 256 (by omega)] at image
      simp at image
  · rcases none with zero | none
    · simp at zero
    · exact none 1 (by omega) low

end LoafOs
