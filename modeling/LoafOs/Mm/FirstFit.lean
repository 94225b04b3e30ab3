import LoafOs.Mm.PmmSafety
import Mathlib.Data.List.Nodup

/-!
# First fit

What the frame allocator does in runs from any bitmap: the lowest frame or
run of frames that is free, and no frame for two owners.
-/

namespace LoafOs

open Runs

/-- What an allocation of `count` frames may return: the lowest run of free
frames, which it marks, or nothing if there is none. -/
def AllocSpec (pmm : Pmm) (count : Nat) : Option (Pmm × Nat) → Prop
  | none => ∀ start, start + count ≤ pmm.totalFrames →
      ¬ pmm.FreeRun start count
  | some (pmm', addr) => ∃ start, addr = start * 4096 ∧
      start + count ≤ pmm.totalFrames ∧ pmm.FreeRun start count ∧
      (∀ other < start, ¬ pmm.FreeRun other count) ∧
      pmm'.bitmapSize = pmm.bitmapSize ∧
      ∀ frame, pmm'.used frame =
        (pmm.used frame || decide (start ≤ frame ∧ frame < start + count))

/-- Exactly the frames at these addresses are cleared. -/
def FreeSpec (pmm pmm' : Pmm) (addrs : List Nat) : Prop :=
  ∀ frame, pmm'.used frame =
    (pmm.used frame && !decide (frame * 4096 ∈ addrs))

/-- Every frame that was handed out is marked, and has one owner. -/
structure PmmUse.Owned (use : PmmUse) : Prop where
  small : use.pmm.totalFrames ≤ 2 ^ 20
  once : use.allocated.Nodup
  held : ∀ addr ∈ use.allocated, ∃ frame, addr = frame * 4096 ∧
    frame < use.pmm.totalFrames ∧ use.pmm.used frame = true

/-- What holds of the allocator in a reachable state. -/
structure FrameCorrect (use : PmmUse) : Prop where
  once : use.allocated.Nodup
  held : ∀ addr ∈ use.allocated, ∃ frame, addr = frame * 4096 ∧
    frame < use.pmm.totalFrames ∧ use.pmm.used frame = true
  one : AllocSpec use.pmm 1 use.pmm.allocFrame
  many : ∀ count, 1 ≤ count →
    AllocSpec use.pmm count (use.pmm.allocFrames count)
  freed : ∀ addr ∈ use.allocated,
    FreeSpec use.pmm (use.pmm.freeFrame addr) [addr]
  freedMany : ∀ addr count,
    (∀ frame ∈ frameAddrs addr count, frame ∈ use.allocated) →
      FreeSpec use.pmm (use.pmm.freeFrames addr count)
        (frameAddrs addr count)

section Specs

variable {pmm pmm' : Pmm} {addr count frame start : Nat}

theorem freeRun_one : pmm.FreeRun start 1 ↔ pmm.used start = false := by
  constructor
  · intro run
    exact run start (Nat.le_refl _) (Nat.lt_succ_self _)
  · intro free frame lower upper
    rwa [show frame = start by omega]

theorem mem_frameAddrs :
    frame * 4096 ∈ frameAddrs (start * 4096) count ↔
      start ≤ frame ∧ frame < start + count := by
  have size : pageSize = 4096 := rfl
  rw [frameAddrs, List.mem_map]
  constructor
  · rintro ⟨index, member, same⟩
    rw [size] at same
    have below := List.mem_range.mp member
    omega
  · rintro ⟨lower, upper⟩
    refine ⟨frame - start, List.mem_range.mpr (by omega), ?_⟩
    rw [size]
    omega

theorem frameAddrs_nodup (addr count : Nat) :
    (frameAddrs addr count).Nodup := by
  have size : pageSize = 4096 := rfl
  refine List.Nodup.map_on (fun left _ right _ same => ?_) List.nodup_range
  rw [size] at same
  omega

theorem allocFrame_firstFit (small : pmm.totalFrames ≤ 2 ^ 20) :
    AllocSpec pmm 1 pmm.allocFrame := by
  rcases pmm.allocFrame_cases small with
    ⟨found, inside, free, first, result⟩ | ⟨full, result⟩
  · rw [result]
    refine ⟨found, Pmm.frameToAddr_eq (by omega), by omega,
      freeRun_one.mpr free, fun other below run => ?_, rfl, fun frame => ?_⟩
    · rw [freeRun_one, first other below] at run
      cases run
    · rw [Pmm.used_setFrame, Pmm.addrToFrame_frameToAddr (by omega)]
      congr 1
      exact decide_eq_decide.mpr (by omega)
  · rw [result]
    intro start inside run
    rw [freeRun_one, full start (by omega)] at run
    cases run

theorem allocFrames_spec (small : pmm.totalFrames ≤ 2 ^ 20)
    (some : 1 ≤ count) : AllocSpec pmm count (pmm.allocFrames count) := by
  rcases pmm.allocFrames_cases count small with
    ⟨start, _, fits, free, first, result⟩ | ⟨none, result⟩
  · rw [result]
    exact ⟨start, Pmm.frameToAddr_eq (by omega), fits, free, first,
      Pmm.setRun_bitmapSize .., Pmm.used_setRun (by omega)⟩
  · rw [result]
    exact none.resolve_left (by omega)

theorem freeFrame_spec (addr : Nat) (aligned : addr = frame * 4096) :
    FreeSpec pmm (pmm.freeFrame addr) [addr] := by
  intro other
  have here : Pmm.addrToFrame addr = frame := by
    rw [aligned, Pmm.addrToFrame, pageSize]
    omega
  rw [Pmm.freeFrame, Pmm.used_clearFrame, here, aligned]
  congr 2
  refine decide_eq_decide.mpr ?_
  rw [List.mem_singleton]
  omega

theorem PmmUse.Owned.freeFrames_spec {use : PmmUse} (owned : use.Owned)
    (held : ∀ frame ∈ frameAddrs addr count, frame ∈ use.allocated) :
    FreeSpec use.pmm (use.pmm.freeFrames addr count)
      (frameAddrs addr count) := by
  have size : pageSize = 4096 := rfl
  have small := owned.small
  intro other
  rcases Nat.eq_zero_or_pos count with rfl | many
  · simp [Pmm.freeFrames, frameAddrs]
  · have address (index : Nat) (below : index < count) :
        addr + index * 4096 ∈ frameAddrs addr count :=
      List.mem_map.mpr ⟨index, List.mem_range.mpr below, rfl⟩
    obtain ⟨start, place, _, _⟩ := owned.held _ (held _ (address 0 many))
    obtain ⟨last, isLast, inside, _⟩ :=
      owned.held _ (held _ (address (count - 1) (by omega)))
    rw [Nat.zero_mul, Nat.add_zero] at place
    subst place
    have bound : start + count ≤ 2 ^ 20 := by omega
    rw [used_freeFrames bound, decide_eq_decide.mpr mem_frameAddrs]

end Specs

section Steps

variable {use use' : PmmUse} {call : PmmCall}

/-- Taking a run that was free. -/
theorem PmmUse.Owned.take (owned : use.Owned) {pmm' : Pmm}
    {addr count : Nat}
    (spec : AllocSpec use.pmm count (some (pmm', addr))) :
    PmmUse.Owned ⟨pmm', frameAddrs addr count ++ use.allocated⟩ := by
  obtain ⟨start, rfl, fits, free, _, same, marked⟩ := spec
  have total : pmm'.totalFrames = use.pmm.totalFrames := by
    rw [Pmm.totalFrames, same, Pmm.totalFrames]
  refine ⟨total ▸ owned.small, ?_, fun addr member => ?_⟩
  · refine List.nodup_append.mpr ⟨frameAddrs_nodup _ _, owned.once, ?_⟩
    rintro addr new other old rfl
    obtain ⟨frame, rfl, _, used⟩ := owned.held addr old
    obtain ⟨lower, upper⟩ := mem_frameAddrs.mp new
    rw [free frame lower upper] at used
    cases used
  · rw [total]
    rcases List.mem_append.mp member with new | old
    · obtain ⟨index, inRange, rfl⟩ := List.mem_map.mp new
      have below := List.mem_range.mp inRange
      refine ⟨start + index, ?_, by omega, ?_⟩
      · rw [pageSize]
        omega
      · rw [marked, decide_eq_true (by omega), Bool.or_true]
    · obtain ⟨frame, place, inside, used⟩ := owned.held addr old
      exact ⟨frame, place, inside, by rw [marked, used, Bool.true_or]⟩

/-- Giving frames back. -/
theorem PmmUse.Owned.give (owned : use.Owned) {pmm' : Pmm}
    {addrs kept : List Nat} (same : pmm'.bitmapSize = use.pmm.bitmapSize)
    (spec : FreeSpec use.pmm pmm' addrs) (once : kept.Nodup)
    (rest : ∀ addr ∈ kept, addr ∈ use.allocated ∧ addr ∉ addrs) :
    PmmUse.Owned ⟨pmm', kept⟩ := by
  have total : pmm'.totalFrames = use.pmm.totalFrames := by
    rw [Pmm.totalFrames, same, Pmm.totalFrames]
  refine ⟨total ▸ owned.small, once, fun addr member => ?_⟩
  obtain ⟨old, other⟩ := rest addr member
  obtain ⟨frame, rfl, inside, used⟩ := owned.held addr old
  rw [total]
  refine ⟨frame, rfl, inside, ?_⟩
  rw [spec, used, decide_eq_false other]
  rfl

theorem PmmUse.Owned.step (owned : use.Owned)
    (step : PmmStep use call use') : use'.Owned := by
  cases step with
  | @allocFrame pmm' addr done =>
      have spec := allocFrame_firstFit owned.small
      rw [done] at spec
      have taken := owned.take spec
      rwa [show frameAddrs addr 1 = [addr] by simp [frameAddrs]] at taken
  | @allocFrames pmm' addr count done =>
      have some : 1 ≤ count := by
        by_contra none
        obtain rfl : count = 0 := by omega
        rw [Pmm.allocFrames, Pmm.allocFramesFrom_zero] at done
        cases done
      have spec := allocFrames_spec owned.small some
      rw [done] at spec
      exact owned.take spec
  | @freeFrame addr held =>
      obtain ⟨frame, place, _, _⟩ := owned.held addr held
      refine owned.give rfl (freeFrame_spec addr place)
        (owned.once.erase addr) fun other member => ?_
      refine ⟨List.mem_of_mem_erase member, fun same => ?_⟩
      rw [List.mem_singleton.mp same] at member
      exact owned.once.not_mem_erase member
  | freeFrames held =>
      refine owned.give freeFrames_bitmapSize (owned.freeFrames_spec held)
        (owned.once.filter _) fun other member => ?_
      obtain ⟨old, kept⟩ := List.mem_filter.mp member
      exact ⟨old, by simpa using kept⟩

theorem PmmUse.Owned.correct (owned : use.Owned) : FrameCorrect use := by
  refine ⟨owned.once, owned.held, allocFrame_firstFit owned.small,
    fun _ => allocFrames_spec owned.small, fun addr member => ?_,
    fun _ _ => owned.freeFrames_spec⟩
  obtain ⟨frame, place, _⟩ := owned.held addr member
  exact freeFrame_spec addr place

end Steps

/-- In every run from any bitmap of at most 2^20 frames, the calls are
correct and no frame has two owners. -/
theorem pmmRun_firstFit {pmm : Pmm} {use : PmmUse} {calls : List PmmCall}
    (small : pmm.totalFrames ≤ 2 ^ 20)
    (run : Run PmmStep ⟨pmm, []⟩ calls use) : FrameCorrect use := by
  have start : PmmUse.Owned ⟨pmm, []⟩ :=
    ⟨small, List.nodup_nil, fun _ member => nomatch member⟩
  exact (run.invariant PmmUse.Owned
    (fun _ _ _ owned step => owned.step step) start).correct

/-- The first frame of an empty bitmap. -/
theorem pmmRun_firstFit_sample : ∃ use,
    Run PmmStep ⟨⟨fun _ => 0, 1⟩, []⟩ [.allocFrame] use ∧
      use.allocated = [0] ∧ FrameCorrect use := by
  have done : Pmm.allocFrame ⟨fun _ => 0, 1⟩ =
      some (Pmm.setFrame ⟨fun _ => 0, 1⟩ 0, 0) := rfl
  have run : Run PmmStep ⟨⟨fun _ => 0, 1⟩, []⟩ [.allocFrame] _ :=
    .cons (.ofFrame [] done) .nil
  exact ⟨_, run, rfl, pmmRun_firstFit (by decide) run⟩

end LoafOs
