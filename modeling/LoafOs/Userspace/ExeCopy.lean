import LoafOs.Userspace.ExeMap
import LoafOs.Userspace.UserView

/-!
# The loop over the pages of a segment

An invariant of one pass holds after the loop.  The pass loads one page of
the segment into what the program sees.
-/

namespace LoafOs

open Memory

variable {start memory memory' : Memory}
  {pd va vaddr size flags frame fuel copied code : Nat} {src : Option Nat}

/-- `page_off`. -/
def pageOffset (vaddr va : Nat) : Nat :=
  if va = frameOf vaddr then vaddr - frameOf vaddr else 0

/-- `copy_len`. -/
def copyLength (vaddr size va copied : Nat) : Nat :=
  if u32 (size + 2 ^ 32 - copied) < pageSize - pageOffset vaddr va then
    u32 (size + 2 ^ 32 - copied)
  else pageSize - pageOffset vaddr va

/-- The bytes of one pass go into the page. -/
def fillPage (memory : Memory) (vaddr size : Nat) (src : Option Nat)
    (va copied frame : Nat) : Memory :=
  copySegment memory frame (pageOffset vaddr va) src copied
    (copyLength vaddr size va copied)

theorem mapAndCopyFrom_next :
    mapAndCopyFrom pd vaddr src size flags (fuel + 1) memory va copied =
      if va < segmentEnd vaddr size then
        (mapSegmentPage memory pd va flags).bind fun result =>
          match result with
          | (memory, none) => some (memory, 1)
          | (memory, some frame) =>
              mapAndCopyFrom pd vaddr src size flags fuel
                (fillPage memory vaddr size src va copied frame)
                (va + pageSize) (copied + copyLength vaddr size va copied)
      else some (memory, 0) := by
  rw [mapAndCopyFrom]
  split
  · rw [Option.bind_eq_bind]
    congr 1
    funext result
    obtain ⟨memory, _ | frame⟩ := result <;> rfl
  · rfl

/-- What one pass keeps holds after the loop, which does not fail. -/
theorem mapAndCopyFrom_rule (invariant : Memory → Nat → Nat → Prop)
    (pass : ∀ memory va copied memory' page, invariant memory va copied →
      va < segmentEnd vaddr size →
      mapSegmentPage memory pd va flags = some (memory', page) →
      ∃ frame, page = some frame ∧
        invariant (fillPage memory' vaddr size src va copied frame)
          (va + pageSize) (copied + copyLength vaddr size va copied))
    (first : invariant memory va copied)
    (done : mapAndCopyFrom pd vaddr src size flags fuel memory va copied =
      some (memory', code)) :
    code = 0 ∧ ∃ va' copied', segmentEnd vaddr size ≤ va' ∧
      invariant memory' va' copied' := by
  induction fuel generalizing memory va copied with
  | zero => simp [mapAndCopyFrom] at done
  | succ fuel inductionHypothesis =>
      rw [mapAndCopyFrom_next] at done
      split at done
      case isTrue inside =>
        simp only [Option.bind_eq_some_iff] at done
        obtain ⟨⟨mapped, page⟩, step, rest⟩ := done
        obtain ⟨frame, pageEq, next⟩ := pass _ _ _ _ _ first inside step
        subst pageEq
        exact inductionHypothesis next rest
      case isFalse outside =>
        simp only [Option.some.injEq, Prod.mk.injEq] at done
        obtain ⟨memoryEq, codeEq⟩ := done
        subst memoryEq
        exact ⟨codeEq.symm, va, copied, by omega, first⟩

/-- The loop ends when every pass finds its page. -/
theorem mapAndCopyFrom_total (invariant : Memory → Nat → Nat → Prop)
    (pass : ∀ memory va copied memory' page, invariant memory va copied →
      va < segmentEnd vaddr size →
      mapSegmentPage memory pd va flags = some (memory', page) →
      ∃ frame, page = some frame ∧
        invariant (fillPage memory' vaddr size src va copied frame)
          (va + pageSize) (copied + copyLength vaddr size va copied))
    (found : ∀ memory va copied, invariant memory va copied →
      va < segmentEnd vaddr size → ∃ memory' page,
        mapSegmentPage memory pd va flags = some (memory', page))
    (first : invariant memory va copied)
    (enough : segmentEnd vaddr size ≤ va + 4096 * fuel) :
    ∃ memory', mapAndCopyFrom pd vaddr src size flags (fuel + 1) memory va
      copied = some (memory', 0) := by
  induction fuel generalizing memory va copied with
  | zero =>
      rw [mapAndCopyFrom_next, if_neg (by omega)]
      exact ⟨memory, rfl⟩
  | succ fuel inductionHypothesis =>
      rw [mapAndCopyFrom_next]
      split
      case isTrue inside =>
        obtain ⟨mapped, page, step⟩ := found _ _ _ first inside
        obtain ⟨frame, pageEq, next⟩ := pass _ _ _ _ _ first inside step
        subst pageEq
        rw [step]
        refine inductionHypothesis next ?_
        rw [pageSize]
        omega
      case isFalse outside => exact ⟨memory, rfl⟩

/-! ## One pass -/

/-- What loading more pages leaves alone: the entries shared with the
kernel, and the frames that the address space does not own. -/
structure Extended (memory memory' : Memory) (pd : Nat) : Prop where
  shared : ∀ index, kernelPdeStart ≤ index → index < 1024 →
    memory'.entry pd index = memory.entry pd index
  kept : ∀ other, IsFrame other →
    (∀ role, roleFrame memory' pd role ≠ some other) →
    FrameKept memory memory' other
  grows : ∀ other, memory.pmm.used other = true →
    memory'.pmm.used other = true

theorem Extended.refl : Extended memory memory pd :=
  ⟨fun _ _ _ => rfl, fun _ _ _ _ _ => rfl, fun _ marked => marked⟩

/-- A frame with a role keeps one. -/
theorem Extended.owned (extended : Extended memory memory' pd)
    (ok : SpaceOk start pd memory) (ok' : SpaceOk start pd memory')
    (foreign : ∀ role, roleFrame memory' pd role ≠ some frame) :
    ∀ role, roleFrame memory pd role ≠ some frame := by
  intro role holds
  obtain ⟨isFrame, unmarked⟩ := ok.owned.frame role frame holds
  have marked := extended.grows _ (ok.owned.marked holds)
  have aligned := isFrame.aligned
  rcases (ok'.owned.used _).mp marked with old | ⟨role', holds'⟩
  · rw [unmarked] at old
    simp at old
  · refine foreign role' ?_
    rw [holds']
    congr 1
    omega

theorem Extended.trans {memory'' : Memory} (ok : SpaceOk start pd memory')
    (ok' : SpaceOk start pd memory'') (first : Extended memory memory' pd)
    (second : Extended memory' memory'' pd) : Extended memory memory'' pd :=
  ⟨fun index lower upper => (second.shared index lower upper).trans
      (first.shared index lower upper),
    fun other isFrame foreign =>
      (first.kept other isFrame (second.owned ok ok' foreign)).trans
        (second.kept other isFrame foreign),
    fun other marked => second.grows other (first.grows other marked)⟩

theorem pageOffset_lt (vaddr va : Nat) : pageOffset vaddr va < 4096 := by
  rw [pageOffset, frameOf]
  split <;> omega

theorem fillPage_bound (vaddr size va copied : Nat) :
    pageOffset vaddr va + copyLength vaddr size va copied ≤ 4096 := by
  have small := pageOffset_lt vaddr va
  rw [copyLength, pageSize]
  split <;> omega

theorem fillPage_pmm :
    (fillPage memory vaddr size src va copied frame).pmm = memory.pmm := by
  cases src <;> rfl

theorem fillPage_kernelDirectory :
    (fillPage memory vaddr size src va copied frame).kernelDirectory =
      memory.kernelDirectory := by
  cases src <;> rfl

theorem fillPage_kept (isFrame : IsFrame frame) {other : Nat}
    (isOther : IsFrame other) (different : other ≠ frame) :
    FrameKept memory (fillPage memory vaddr size src va copied frame)
      other := by
  intro offset small
  have apart := isOther.apart isFrame different
  have bound := fillPage_bound vaddr size va copied
  cases src with
  | none => rfl
  | some source => exact Bytes.copy_outside (by omega)

/-- The bytes of the page after the pass. -/
theorem fillPage_byte {offset : Nat} :
    (fillPage memory vaddr size src va copied frame).mem
        (physToVirt frame + offset) =
      match src with
      | none => memory.mem (physToVirt frame + offset)
      | some source =>
          if pageOffset vaddr va ≤ offset ∧ offset <
              pageOffset vaddr va + copyLength vaddr size va copied then
            memory.mem
              (source + copied + (offset - pageOffset vaddr va))
          else memory.mem (physToVirt frame + offset) := by
  cases src with
  | none => rfl
  | some source =>
      simp only [fillPage, copySegment]
      split
      case isTrue inside =>
        rw [Bytes.copy_inside (by omega) (by omega), Bytes.shift]
        congr 2
        omega
      case isFalse outside => exact Bytes.copy_outside (by omega)

/-- The page is there and holds its bytes of the segment. -/
theorem SpaceOk.fill (ok' : SpaceOk start pd memory')
    (vaddr size copied : Nat) (src : Option Nat) (user : va < kernelVirtBase)
    (ready : PageReady memory memory' pd va flags frame) :
    let after := fillPage memory' vaddr size src va copied frame
    SpaceOk start pd after ∧ Extended memory after pd ∧
      roleFrame after pd = roleFrame memory' pd ∧
      (∀ index < 1024, after.entry pd index = memory'.entry pd index) ∧
      ∀ other < kernelVirtBase,
        pteAt after pd other = pteAt memory' pd other := by
  have isFrame := (ok'.owned.frame _ _ ready.role).1
  have kept : ∀ other, IsFrame other → other ≠ frame →
      FrameKept memory' (fillPage memory' vaddr size src va copied frame)
        other :=
    fun other isOther different => fillPage_kept isFrame isOther different
  obtain ⟨ok'', roles, directory, entries⟩ := ok'.pageWrite ready.role kept
    fillPage_pmm fillPage_kernelDirectory
  have kernelLow : kernelPdeStart = 768 := rfl
  have low := pdIndex_lt user
  refine ⟨ok'', ⟨fun index lower upper => ?_, fun other isOther foreign => ?_,
    fun other marked => ?_⟩, roles, directory, entries⟩
  · rw [directory index upper, ready.directories index upper (by omega)]
  · rw [roles] at foreign
    exact (ready.kept other isOther foreign).trans
      (kept other isOther fun same =>
        foreign _ (by rw [same]; exact ready.role))
  · rw [fillPage_pmm]
    exact ready.grows other marked

/-- The state of an address space while pages are loaded into it. -/
structure Loading (start first memory : Memory) (pd : Nat)
    (pages : Finset Nat) : Prop where
  ok : SpaceOk start pd memory
  extended : Extended first memory pd
  within : Within memory pd pages

theorem Loading.trans {first : Memory} {pages : Finset Nat}
    (loading : Loading start first memory pd pages)
    (next : Loading start memory memory' pd pages) :
    Loading start first memory' pd pages :=
  ⟨next.ok, loading.extended.trans loading.ok next.ok next.extended,
    next.within⟩

/-- One pass with its page. -/
theorem Loading.pass {first : Memory} {pages : Finset Nat}
    {page : Option Nat} (loading : Loading start first memory pd pages)
    (vaddr size copied : Nat) (src : Option Nat)
    (user : va < kernelVirtBase) (wanted : va / 4096 ∈ pages)
    (done : mapSegmentPage memory pd va flags = some (memory', page)) :
    ∃ frame, page = some frame ∧ SpaceOk start pd memory' ∧
      PageReady memory memory' pd va flags frame ∧
      Loading start first
        (fillPage memory' vaddr size src va copied frame) pd pages := by
  obtain ⟨frame, pageEq, ok', ready⟩ := loading.ok.pageReady user done
  obtain ⟨ok'', extended, roles, _, _⟩ :=
    ok'.fill vaddr size copied src user ready
  refine ⟨frame, pageEq, ok', ready, ok'',
    loading.extended.trans loading.ok ok'' extended, ?_⟩
  rw [Within, roles]
  exact ready.within loading.within wanted

end LoafOs
