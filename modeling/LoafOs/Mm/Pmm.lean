import LoafOs.Words
import Mathlib.Data.Nat.Basic

/-!
# The physical frame allocator

`src/mm/pmm.c`: a bitmap with one bit a frame, in whole words.  A set bit
marks a frame that may not be handed out.  The words past `bitmap_size` are
kept as well, because `pmm_init` writes a few of them.
-/

namespace LoafOs

def pageSize : Nat := 4096

/-- `KERNEL_VIRT_BASE`. -/
def kernelVirtBase : Nat := 0xc0000000

/-- `phys_to_virt`. -/
def physToVirt (phys : Nat) : Nat := u32 (kernelVirtBase + phys)

/-- `phys_bitmap` and `bitmap_size`. -/
structure Pmm where
  words : Nat → BitVec 32
  bitmapSize : Nat

namespace Pmm

/-- `addr_to_frame`. -/
def addrToFrame (addr : Nat) : Nat := addr / pageSize

/-- `frame_to_addr`. -/
def frameToAddr (frame : Nat) : Nat := u32 (frame * pageSize)

/-- `set_frame`. -/
def setFrame (pmm : Pmm) (addr : Nat) : Pmm :=
  { pmm with
    words := fun index =>
      if index = addrToFrame addr / 32 then
        pmm.words index ||| (1#32 <<< (addrToFrame addr % 32))
      else pmm.words index }

/-- `clear_frame`. -/
def clearFrame (pmm : Pmm) (addr : Nat) : Pmm :=
  { pmm with
    words := fun index =>
      if index = addrToFrame addr / 32 then
        pmm.words index &&& ~~~(1#32 <<< (addrToFrame addr % 32))
      else pmm.words index }

/-- `test_frame`. -/
def testFrame (pmm : Pmm) (addr : Nat) : Bool :=
  pmm.words (addrToFrame addr / 32) &&&
    (1#32 <<< (addrToFrame addr % 32)) != 0

/-- Whether the bit of a frame is set. -/
def used (pmm : Pmm) (frame : Nat) : Bool :=
  (pmm.words (frame / 32)).getLsbD (frame % 32)

/-- The frames that the allocation loops look at. -/
def totalFrames (pmm : Pmm) : Nat := pmm.bitmapSize * 32

/-- The loop of `pmm_alloc_frame` with `remaining` frames to look at;
`none` is the `panic` after it. -/
def allocFrameFrom (pmm : Pmm) (frame : Nat) : Nat → Option (Pmm × Nat)
  | 0 => none
  | remaining + 1 =>
      if !pmm.testFrame (frameToAddr frame) then
        some (pmm.setFrame (frameToAddr frame), frameToAddr frame)
      else
        pmm.allocFrameFrom (frame + 1) remaining

/-- `pmm_alloc_frame`. -/
def allocFrame (pmm : Pmm) : Option (Pmm × Nat) :=
  pmm.allocFrameFrom 0 pmm.totalFrames

/-- `pmm_free_frame`. -/
def freeFrame (pmm : Pmm) (addr : Nat) : Pmm := pmm.clearFrame addr

/-- The inner loop of `pmm_alloc_frames`. -/
def setRun (pmm : Pmm) (frame : Nat) : Nat → Pmm
  | 0 => pmm
  | count + 1 =>
      (pmm.setFrame (frameToAddr frame)).setRun (frame + 1) count

/-- The outer loop of `pmm_alloc_frames` with `remaining` frames to look
at; `none` is the `panic` after it. -/
def allocFramesFrom (pmm : Pmm) (count frame runStart runLen : Nat) :
    Nat → Option (Pmm × Nat)
  | 0 => none
  | remaining + 1 =>
      if !pmm.testFrame (frameToAddr frame) then
        let runStart := if runLen = 0 then frame else runStart
        if runLen + 1 = count then
          some (pmm.setRun runStart count, frameToAddr runStart)
        else
          pmm.allocFramesFrom count (frame + 1) runStart (runLen + 1)
            remaining
      else
        pmm.allocFramesFrom count (frame + 1) runStart 0 remaining

/-- `pmm_alloc_frames`. -/
def allocFrames (pmm : Pmm) (count : Nat) : Option (Pmm × Nat) :=
  pmm.allocFramesFrom count 0 0 0 pmm.totalFrames

/-- `pmm_free_frames`. -/
def freeFrames (pmm : Pmm) (addr : Nat) : Nat → Pmm
  | 0 => pmm
  | count + 1 => (pmm.clearFrame addr).freeFrames (u32 (addr + pageSize)) count

variable {pmm : Pmm}

theorem testFrame_eq (addr : Nat) :
    pmm.testFrame addr = pmm.used (addrToFrame addr) := by
  have bound : addrToFrame addr % 32 < 32 := Nat.mod_lt _ (by decide)
  have bit : (1#32 <<< (addrToFrame addr % 32)) =
      BitVec.twoPow 32 (addrToFrame addr % 32) := rfl
  rw [testFrame, used, bit, BitVec.and_twoPow]
  cases (pmm.words (addrToFrame addr / 32)).getLsbD
      (addrToFrame addr % 32) with
  | false => simp
  | true =>
      have nonzero : BitVec.twoPow 32 (addrToFrame addr % 32) ≠ 0#32 := by
        intro zero
        have bitOne := congrArg
          (fun word => BitVec.getLsbD word (addrToFrame addr % 32)) zero
        simp only [BitVec.getLsbD_twoPow] at bitOne
        simp [bound] at bitOne
      simpa using nonzero

/-- The bit of one frame lies where the frame number says. -/
theorem frame_eq_of_split {frame frame' : Nat}
    (word : frame / 32 = frame' / 32) (bit : frame % 32 = frame' % 32) :
    frame = frame' := by
  omega

theorem used_setFrame (addr frame : Nat) :
    (pmm.setFrame addr).used frame =
      (pmm.used frame || decide (frame = addrToFrame addr)) := by
  have bound : frame % 32 < 32 := Nat.mod_lt _ (by decide)
  simp only [used, setFrame]
  by_cases word : frame / 32 = addrToFrame addr / 32
  · rw [if_pos word, BitVec.getLsbD_or]
    congr 1
    by_cases bit : frame % 32 = addrToFrame addr % 32
    · have same := frame_eq_of_split word bit
      rw [bit]
      simp [same, Nat.mod_lt]
    · have other : frame ≠ addrToFrame addr := by
        intro same
        exact bit (same ▸ rfl)
      simp only [BitVec.getLsbD_shiftLeft, other, decide_false]
      by_cases below : frame % 32 < addrToFrame addr % 32
      · simp [below]
      · have above : frame % 32 - addrToFrame addr % 32 ≠ 0 := by omega
        simp [above]
  · have other : frame ≠ addrToFrame addr := by
      intro same
      exact word (same ▸ rfl)
    rw [if_neg word]
    simp [other]

theorem used_clearFrame (addr frame : Nat) :
    (pmm.clearFrame addr).used frame =
      (pmm.used frame && !decide (frame = addrToFrame addr)) := by
  have bound : frame % 32 < 32 := Nat.mod_lt _ (by decide)
  simp only [used, clearFrame]
  by_cases word : frame / 32 = addrToFrame addr / 32
  · rw [if_pos word, BitVec.getLsbD_and, BitVec.getLsbD_not]
    congr 1
    by_cases bit : frame % 32 = addrToFrame addr % 32
    · have same := frame_eq_of_split word bit
      rw [bit]
      simp [same, Nat.mod_lt]
    · have other : frame ≠ addrToFrame addr := by
        intro same
        exact bit (same ▸ rfl)
      simp only [BitVec.getLsbD_shiftLeft, other, decide_false]
      by_cases below : frame % 32 < addrToFrame addr % 32
      · simp [below, bound]
      · have above : frame % 32 - addrToFrame addr % 32 ≠ 0 := by omega
        simp [above, bound]
  · have other : frame ≠ addrToFrame addr := by
      intro same
      exact word (same ▸ rfl)
    rw [if_neg word]
    simp [other]

/-- Frame numbers of 32-bit addresses survive the round trip. -/
theorem addrToFrame_frameToAddr {frame : Nat} (bound : frame < 2 ^ 20) :
    addrToFrame (frameToAddr frame) = frame := by
  simp only [addrToFrame, frameToAddr, pageSize, u32]
  omega

theorem frameToAddr_eq {frame : Nat} (bound : frame < 2 ^ 20) :
    frameToAddr frame = frame * 4096 := by
  simp only [frameToAddr, pageSize, u32]
  omega

@[simp]
theorem setFrame_bitmapSize (pmm : Pmm) (addr : Nat) :
    (pmm.setFrame addr).bitmapSize = pmm.bitmapSize := rfl

@[simp]
theorem clearFrame_bitmapSize (addr : Nat) :
    (pmm.clearFrame addr).bitmapSize = pmm.bitmapSize := rfl

@[simp]
theorem setRun_bitmapSize (frame count : Nat) :
    (pmm.setRun frame count).bitmapSize = pmm.bitmapSize := by
  induction count generalizing pmm frame with
  | zero => rfl
  | succ count inductionHypothesis =>
      rw [setRun, inductionHypothesis]
      rfl

theorem used_setRun {start count : Nat} (bound : start + count ≤ 2 ^ 20)
    (frame : Nat) :
    (pmm.setRun start count).used frame =
      (pmm.used frame ||
        decide (start ≤ frame ∧ frame < start + count)) := by
  induction count generalizing pmm start with
  | zero =>
      have outside : ¬ (start ≤ frame ∧ frame < start + 0) := by omega
      rw [setRun, decide_eq_false outside, Bool.or_false]
  | succ count inductionHypothesis =>
      rw [setRun, inductionHypothesis (by omega), used_setFrame,
        addrToFrame_frameToAddr (by omega), Bool.or_assoc,
        ← Bool.decide_or]
      congr 1
      refine decide_eq_decide.mpr ⟨fun inside => ?_, fun inside => ?_⟩
      · omega
      · omega

/-! ## The allocation loops -/

/-- A run of frames that may be handed out. -/
def FreeRun (pmm : Pmm) (start count : Nat) : Prop :=
  ∀ frame, start ≤ frame → frame < start + count →
    pmm.used frame = false

theorem testFrame_frameToAddr {frame : Nat} (bound : frame < 2 ^ 20) :
    pmm.testFrame (frameToAddr frame) = pmm.used frame := by
  rw [testFrame_eq, addrToFrame_frameToAddr bound]

/-- `pmm_alloc_frame` takes the lowest free frame. -/
theorem allocFrameFrom_cases {frame remaining : Nat}
    (bound : frame + remaining ≤ 2 ^ 20) :
    (∃ found, frame ≤ found ∧ found < frame + remaining ∧
        pmm.used found = false ∧
        (∀ earlier, frame ≤ earlier → earlier < found →
          pmm.used earlier = true) ∧
        pmm.allocFrameFrom frame remaining =
          some (pmm.setFrame (frameToAddr found), frameToAddr found)) ∨
      ((∀ other, frame ≤ other → other < frame + remaining →
          pmm.used other = true) ∧
        pmm.allocFrameFrom frame remaining = none) := by
  induction remaining generalizing frame with
  | zero => exact .inr ⟨fun other lower upper => by omega, rfl⟩
  | succ remaining inductionHypothesis =>
      rw [allocFrameFrom, testFrame_frameToAddr (by omega)]
      cases here : pmm.used frame with
      | false =>
          exact .inl ⟨frame, Nat.le_refl _, by omega, here,
            fun earlier lower upper => by omega, rfl⟩
      | true =>
          have later : frame + 1 + remaining ≤ 2 ^ 20 := by omega
          have step := inductionHypothesis later
          have widen : ∀ limit, (∀ other, frame + 1 ≤ other →
              other < limit → pmm.used other = true) →
              ∀ other, frame ≤ other → other < limit →
                pmm.used other = true := by
            intro limit above other lower upper
            by_cases same : other = frame
            · rw [same, here]
            · exact above other (by omega) upper
          rcases step with ⟨found, lower, upper, free, first, result⟩ |
            ⟨full, result⟩
          · exact .inl ⟨found, by omega, by omega, free,
              widen found first, result⟩
          · refine .inr ⟨fun other lower upper =>
              widen (frame + 1 + remaining) full other lower (by omega),
              result⟩

theorem allocFrame_cases (pmm : Pmm) (bound : pmm.totalFrames ≤ 2 ^ 20) :
    (∃ found, found < pmm.totalFrames ∧ pmm.used found = false ∧
        (∀ earlier < found, pmm.used earlier = true) ∧
        pmm.allocFrame =
          some (pmm.setFrame (frameToAddr found), frameToAddr found)) ∨
      ((∀ frame < pmm.totalFrames, pmm.used frame = true) ∧
        pmm.allocFrame = none) := by
  have whole : 0 + pmm.totalFrames ≤ 2 ^ 20 := by omega
  rcases allocFrameFrom_cases whole with
    ⟨found, _, upper, free, first, result⟩ | ⟨full, result⟩
  · exact .inl ⟨found, by omega, free,
      fun earlier below => first earlier (Nat.zero_le _) below, result⟩
  · exact .inr ⟨fun frame below =>
      full frame (Nat.zero_le _) (by omega), result⟩

/-- What the outer loop of `pmm_alloc_frames` knows at a frame: the last
`runLen` frames are free, the one before them is not, and no run of the
wanted length has ended yet. -/
structure Scanned (pmm : Pmm) (count frame runStart runLen : Nat) :
    Prop where
  short : runLen < count
  within : runLen ≤ frame
  start : 0 < runLen → runStart = frame - runLen
  free : pmm.FreeRun (frame - runLen) runLen
  blocked : frame = runLen ∨ pmm.used (frame - runLen - 1) = true
  earlier : ∀ start, start + count ≤ frame → ¬ pmm.FreeRun start count

/-- `pmm_alloc_frames` takes the lowest run of free frames. -/
theorem allocFramesFrom_cases {count frame runStart runLen remaining : Nat}
    (scanned : pmm.Scanned count frame runStart runLen)
    (bound : frame + remaining ≤ 2 ^ 20) :
    (∃ start, start + count ≤ frame + remaining ∧
        pmm.FreeRun start count ∧
        (∀ other < start, ¬ pmm.FreeRun other count) ∧
        pmm.allocFramesFrom count frame runStart runLen remaining =
          some (pmm.setRun start count, frameToAddr start)) ∨
      ((∀ start, start + count ≤ frame + remaining →
          ¬ pmm.FreeRun start count) ∧
        pmm.allocFramesFrom count frame runStart runLen remaining =
          none) := by
  induction remaining generalizing frame runStart runLen with
  | zero => exact .inr ⟨scanned.earlier, rfl⟩
  | succ remaining inductionHypothesis =>
      have positive := scanned.short
      have within := scanned.within
      rw [allocFramesFrom, testFrame_frameToAddr (by omega)]
      cases here : pmm.used frame with
      | false =>
          have runStartEq :
              (if runLen = 0 then frame else runStart) = frame - runLen := by
            by_cases none : runLen = 0
            · rw [if_pos none]
              omega
            · rw [if_neg none]
              exact scanned.start (by omega)
          have grown : pmm.FreeRun (frame - runLen) (runLen + 1) := by
            intro other lower upper
            by_cases same : other = frame
            · rw [same, here]
            · exact scanned.free other lower (by omega)
          simp only [Bool.not_false, if_true, runStartEq]
          by_cases full : runLen + 1 = count
          · rw [if_pos full]
            refine .inl ⟨frame - runLen, by omega, full ▸ grown,
              fun other below => scanned.earlier other (by omega), rfl⟩
          · rw [if_neg full]
            have next : pmm.Scanned count (frame + 1) (frame - runLen)
                (runLen + 1) := by
              refine ⟨by omega, by omega, fun _ => by omega, ?_, ?_, ?_⟩
              · have same : frame + 1 - (runLen + 1) = frame - runLen := by
                  omega
                rw [same]
                exact grown
              · have same : frame + 1 - (runLen + 1) = frame - runLen := by
                  omega
                rw [same]
                rcases scanned.blocked with all | stop
                · exact .inl (by omega)
                · exact .inr stop
              · intro start ends run
                rcases Nat.lt_or_ge frame (start + count) with last | before
                · rcases scanned.blocked with all | stop
                  · omega
                  · have free := run (frame - runLen - 1) (by omega)
                      (by omega)
                    rw [stop] at free
                    simp at free
                · exact scanned.earlier start before run
            have step := inductionHypothesis next (by omega)
            rw [Nat.add_right_comm, Nat.add_assoc] at step
            exact step
      | true =>
          have next : pmm.Scanned count (frame + 1) runStart 0 := by
            refine ⟨by omega, Nat.zero_le _, fun none => by omega, ?_, ?_, ?_⟩
            · intro other lower upper
              omega
            · exact .inr here
            · intro start ends run
              rcases Nat.lt_or_ge frame (start + count) with last | before
              · have free := run frame (by omega) last
                rw [here] at free
                simp at free
              · exact scanned.earlier start before run
          have step := inductionHypothesis next (by omega)
          rw [Nat.add_right_comm, Nat.add_assoc] at step
          exact step

/-- A request for no frames never finds its run. -/
theorem allocFramesFrom_zero {frame runStart runLen remaining : Nat} :
    pmm.allocFramesFrom 0 frame runStart runLen remaining = none := by
  induction remaining generalizing frame runStart runLen with
  | zero => rfl
  | succ remaining inductionHypothesis =>
      rw [allocFramesFrom]
      split
      · simp only [Nat.add_one_ne_zero, if_false]
        exact inductionHypothesis
      · exact inductionHypothesis

theorem allocFrames_cases (pmm : Pmm) (count : Nat)
    (bound : pmm.totalFrames ≤ 2 ^ 20) :
    (∃ start, 0 < count ∧ start + count ≤ pmm.totalFrames ∧
        pmm.FreeRun start count ∧
        (∀ other < start, ¬ pmm.FreeRun other count) ∧
        pmm.allocFrames count =
          some (pmm.setRun start count, frameToAddr start)) ∨
      ((count = 0 ∨ ∀ start, start + count ≤ pmm.totalFrames →
          ¬ pmm.FreeRun start count) ∧
        pmm.allocFrames count = none) := by
  rcases Nat.eq_zero_or_pos count with none | positive
  · subst none
    exact .inr ⟨.inl rfl, allocFramesFrom_zero⟩
  · have scanned : pmm.Scanned count 0 0 0 :=
      ⟨positive, Nat.le_refl _, fun none => by omega,
        fun other lower upper => by omega, .inl rfl,
        fun start ends => by omega⟩
    have whole : 0 + pmm.totalFrames ≤ 2 ^ 20 := by omega
    rcases allocFramesFrom_cases scanned whole with ⟨start, fits, free, first, result⟩ | ⟨full, result⟩
    · exact .inl ⟨start, positive, by omega, free, first, result⟩
    · exact .inr ⟨.inr fun start ends => full start (by omega), result⟩

end Pmm

/-- `highest_addr`, as `kmain` computes it from `raw->ext_kb`. -/
def highestAddr (extKb : UInt16) : Nat := 0x100000 + extKb.toNat * 1024

/-- `bitmap_size`, as `pmm_init` sets it. -/
def bitmapWords (highest : Nat) : Nat := (highest / pageSize + 31) / 32

/-- The direct map of the frames that a bitmap of boot size has. -/
theorem physToVirt_frameToAddr (frame : Nat) (bound : frame < 2 ^ 18) :
    physToVirt (Pmm.frameToAddr frame) = 3221225472 + frame * 4096 := by
  rw [Pmm.frameToAddr_eq (by omega), physToVirt, kernelVirtBase, u32]
  omega

/-- The bitmap stays far below the end of the direct map. -/
theorem bitmapWords_le (extKb : UInt16) :
    bitmapWords (highestAddr extKb) ≤ 520 := by
  have bound := extKb.toNat_lt
  simp only [bitmapWords, highestAddr, pageSize]
  omega

end LoafOs
