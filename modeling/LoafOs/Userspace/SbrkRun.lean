import LoafOs.Mm.SpaceLife
import LoafOs.Userspace.Sbrk
import Mathlib.Data.List.Nodup

/-!
# The break over a run

The heap of a process is mapped up to its break.  Every call keeps that,
shows zeros on the pages that it adds and gives back the frames of those
that it takes away.
-/

namespace LoafOs

open Memory Runs

variable {start memory memory' after : Memory}
  {pd va count frame addr stop : Nat} {proc proc' : Image}
  {delta : UInt32} {deltas : List UInt32}

/-! ## Growing -/

/-- What the new pages of `[va, stop)` leave of the address space. -/
structure PagesGrown (start memory after : Memory) (pd va stop : Nat) :
    Prop where
  ok : SpaceOk start pd after
  users : UserTables after pd
  rws : RwTables after pd
  view : ∀ addr < kernelVirtBase, userView after pd addr =
    if va ≤ addr ∧ addr < stop then some ⟨0, true, true⟩
    else userView memory pd addr
  grows : ∀ frame, memory.pmm.used frame = true →
    after.pmm.used frame = true

/-- A pass over a page that is not mapped is the mapping of a page of a
segment: neither error of the loop can strike. -/
theorem growHeap_pass (ok : SpaceOk start pd memory)
    (user : va < kernelVirtBase)
    (unmapped : pagingWalk memory pd va = none)
    (done : growHeap pd (count + 1) memory va = some after) :
    ∃ memory' frame,
      mapSegmentPage memory pd va dataFlags = some (memory', some frame) ∧
      growHeap pd count memory' (va + pageSize) = some after := by
  rw [growHeap] at done
  simp only [Option.bind_eq_bind, Option.pure_def,
    Option.bind_eq_some_iff] at done
  obtain ⟨⟨taken, frame⟩, alloc, rest⟩ := done
  obtain ⟨found, place, _, free, _⟩ := allocFrame_spec ok.total alloc
  have nonzero : frame ≠ 0 := by
    intro zero
    have same : found = 0 := by omega
    rw [same, ok.zeroMarked] at free
    simp at free
  simp only [nonzero, if_false, Option.bind_eq_some_iff] at rest
  obtain ⟨⟨mapped, code⟩, mapping, rest⟩ := rest
  obtain ⟨codeEq, _⟩ := ok.map user unmapped alloc mapping
  simp only [codeEq, ne_eq, not_true_eq_false, if_false] at rest
  have mapping' : pagingMapPage taken pd va frame dataFlags =
      some (mapped, code) := mapping
  refine ⟨mapped.clearPage frame, frame, ?_, rest⟩
  rw [mapSegmentPage, unmapped]
  simp only [Option.bind_eq_bind, Option.pure_def, alloc, Option.bind_some,
    nonzero, if_false, mapping', codeEq, ne_eq, not_true_eq_false]

/-- The loop maps its pages. -/
theorem growHeap_spec (ok : SpaceOk start pd memory)
    (users : UserTables memory pd) (rws : RwTables memory pd)
    (aligned : va % 4096 = 0) (top : va + count * 4096 ≤ kernelVirtBase)
    (unmapped : ∀ addr, va ≤ addr → addr < va + count * 4096 →
      pagingWalk memory pd addr = none)
    (done : growHeap pd count memory va = some after) :
    PagesGrown start memory after pd va (va + count * 4096) := by
  induction count generalizing memory va with
  | zero =>
      rw [growHeap, Option.some.injEq] at done
      subst done
      refine ⟨ok, users, rws, fun addr _ => ?_, fun _ marked => marked⟩
      rw [if_neg (by omega)]
  | succ count inductionHypothesis =>
      have user : va < kernelVirtBase := by omega
      have here := unmapped va (Nat.le_refl _) (by omega)
      obtain ⟨memory', frame, pass, rest⟩ :=
        growHeap_pass ok user here done
      obtain ⟨frame', same, ok', ready⟩ := ok.pageReady user pass
      rw [Option.some.injEq] at same
      subst same
      have users' := ready.users rfl users
      have rws' := ready.rws rws
      have elsewhere : ∀ addr < kernelVirtBase, addr / 4096 ≠ va / 4096 →
          userView memory' pd addr = userView memory pd addr := by
        intro addr addrUser different
        refine userView_kept users rws users' rws' addrUser
          (ready.elsewhere addr addrUser different) fun present => ?_
        exact ready.pages _ _ _ (pteAt_role addrUser present)
      have next : ∀ addr, va + pageSize ≤ addr →
          addr < va + pageSize + count * 4096 →
          pagingWalk memory' pd addr = none := by
        intro addr lower upper
        rw [pageSize] at lower upper
        have absent := absent_of_walk
          (unmapped addr (by omega) (by omega))
        refine walk_of_absent ?_
        rw [ready.elsewhere addr (by omega) (by omega), absent]
      have grown := inductionHypothesis ok' users' rws'
        (by rw [pageSize]; omega) (by rw [pageSize]; omega) next rest
      refine ⟨grown.ok, grown.users, grown.rws, fun addr addrUser => ?_,
        fun other marked => grown.grows other (ready.grows other marked)⟩
      rw [grown.view addr addrUser, pageSize]
      by_cases later : va + 4096 ≤ addr ∧ addr < va + 4096 + count * 4096
      · rw [if_pos later, if_pos (by omega)]
      · rw [if_neg later]
        by_cases page : addr / 4096 = va / 4096
        · rw [if_pos (by omega)]
          exact ready.view_fresh ok' users' rws' here addrUser page
        · rw [elsewhere addr addrUser page]
          exact (if_neg (by omega)).symm

/-! ## Shrinking -/

/-- The frames that the loop frees, in order. -/
def heapFrames (memory : Memory) (pd : Nat) : Nat → Nat → List Nat
  | 0, _ => []
  | count + 1, va =>
      match pagingWalk memory pd va with
      | some paddr =>
          frameOf paddr :: heapFrames memory pd count (va + pageSize)
      | none => heapFrames memory pd count (va + pageSize)

theorem heapFrames_congr
    (same : ∀ addr, va ≤ addr → addr < va + count * 4096 →
      pagingWalk memory' pd addr = pagingWalk memory pd addr) :
    heapFrames memory' pd count va = heapFrames memory pd count va := by
  induction count generalizing va with
  | zero => rfl
  | succ count inductionHypothesis =>
      have rest : heapFrames memory' pd count (va + pageSize) =
          heapFrames memory pd count (va + pageSize) :=
        inductionHypothesis fun addr lower upper => by
          rw [pageSize] at lower upper
          exact same addr (by omega) (by omega)
      rw [heapFrames, heapFrames, same va (Nat.le_refl _) (by omega), rest]

theorem mem_heapFrames :
    frame ∈ heapFrames memory pd count va ↔
      ∃ index < count, ∃ paddr,
        pagingWalk memory pd (va + index * 4096) = some paddr ∧
        frame = frameOf paddr := by
  induction count generalizing va with
  | zero => simp [heapFrames]
  | succ count inductionHypothesis =>
      have shift : (∃ index < count, ∃ paddr,
          pagingWalk memory pd (va + pageSize + index * 4096) =
            some paddr ∧ frame = frameOf paddr) ↔
          ∃ index < count + 1, 0 < index ∧ ∃ paddr,
            pagingWalk memory pd (va + index * 4096) = some paddr ∧
            frame = frameOf paddr := by
        constructor
        · rintro ⟨index, below, rest⟩
          refine ⟨index + 1, by omega, by omega, ?_⟩
          have place : va + (index + 1) * 4096 =
              va + pageSize + index * 4096 := by
            rw [pageSize]
            omega
          rw [place]
          exact rest
        · rintro ⟨index, below, positive, rest⟩
          refine ⟨index - 1, by omega, ?_⟩
          have place : va + pageSize + (index - 1) * 4096 =
              va + index * 4096 := by
            rw [pageSize]
            omega
          rw [place]
          exact rest
      have first : frame ∈ heapFrames memory pd (count + 1) va ↔
          (∃ paddr, pagingWalk memory pd va = some paddr ∧
            frame = frameOf paddr) ∨
          frame ∈ heapFrames memory pd count (va + pageSize) := by
        rw [heapFrames]
        cases walk : pagingWalk memory pd va with
        | none => simp
        | some paddr => simp
      rw [first, inductionHypothesis, shift]
      constructor
      · rintro (here | ⟨index, below, _, rest⟩)
        · refine ⟨0, by omega, ?_⟩
          rw [Nat.zero_mul, Nat.add_zero]
          exact here
        · exact ⟨index, below, rest⟩
      · rintro ⟨index, below, rest⟩
        rcases Nat.eq_zero_or_pos index with zero | positive
        · rw [zero, Nat.zero_mul, Nat.add_zero] at rest
          exact .inl rest
        · exact .inr ⟨index, below, positive, rest⟩

/-- No page shares its frame with another one. -/
theorem SpaceOk.walk_single (ok : SpaceOk start pd memory)
    {va' paddr paddr' : Nat} (user : va < kernelVirtBase)
    (user' : va' < kernelVirtBase)
    (mapped : pagingWalk memory pd va = some paddr)
    (mapped' : pagingWalk memory pd va' = some paddr')
    (same : frameOf paddr = frameOf paddr') : va / 4096 = va' / 4096 := by
  have clash := ok.owned.single _ _ _ (walk_role user mapped)
    (by rw [same]; exact walk_role user' mapped')
  simp only [Role.page.injEq, pdIndex, ptIndex] at clash
  omega

theorem SpaceOk.heapFrames_nodup (ok : SpaceOk start pd memory)
    (top : va + count * 4096 ≤ kernelVirtBase) :
    (heapFrames memory pd count va).Nodup := by
  induction count generalizing va with
  | zero => exact .nil
  | succ count inductionHypothesis =>
      have tail : (heapFrames memory pd count (va + pageSize)).Nodup :=
        inductionHypothesis (by rw [pageSize]; omega)
      rw [heapFrames]
      cases mapped : pagingWalk memory pd va with
      | none => exact tail
      | some paddr =>
          refine List.nodup_cons.mpr ⟨fun again => ?_, tail⟩
          obtain ⟨index, below, paddr', mapped', same⟩ :=
            mem_heapFrames.mp again
          rw [pageSize] at mapped'
          have page := ok.walk_single (by omega) (by omega) mapped mapped'
            same
          omega

theorem SpaceOk.heapFrames_marked (ok : SpaceOk start pd memory)
    (top : va + count * 4096 ≤ kernelVirtBase)
    (member : frame ∈ heapFrames memory pd count va) :
    IsFrame frame ∧ memory.pmm.used (frame / 4096) = true := by
  obtain ⟨index, below, paddr, mapped, same⟩ := mem_heapFrames.mp member
  have role := walk_role (by omega) mapped
  rw [same]
  exact ⟨(ok.owned.frame _ _ role).1, ok.owned.marked role⟩

/-- What taking away the pages of `[va, stop)` leaves of the address
space. -/
structure PagesCut (start memory after : Memory) (pd va stop : Nat)
    (frames : List Nat) : Prop where
  ok : SpaceOk start pd after
  users : UserTables after pd
  rws : RwTables after pd
  view : ∀ addr < kernelVirtBase, userView after pd addr =
    if va ≤ addr ∧ addr < stop then none else userView memory pd addr
  pmm : after.pmm = frames.foldl Pmm.freeFrame memory.pmm

/-- The loop unmaps its pages and frees their frames. -/
theorem shrinkHeap_spec (ok : SpaceOk start pd memory)
    (users : UserTables memory pd) (rws : RwTables memory pd)
    (aligned : va % 4096 = 0) (top : va + count * 4096 ≤ kernelVirtBase) :
    PagesCut start memory (shrinkHeap pd count memory va) pd va
      (va + count * 4096) (heapFrames memory pd count va) := by
  induction count generalizing memory va with
  | zero =>
      refine ⟨ok, users, rws, fun addr _ => ?_, rfl⟩
      rw [if_neg (by omega)]
      rfl
  | succ count inductionHypothesis =>
      have user : va < kernelVirtBase := by omega
      rw [shrinkHeap, heapFrames]
      cases mapped : pagingWalk memory pd va with
      | none =>
          have next : (va + pageSize) % 4096 = 0 := by
            rw [pageSize]
            omega
          have cut := inductionHypothesis ok users rws next
            (by rw [pageSize]; omega)
          refine ⟨cut.ok, cut.users, cut.rws, fun addr addrUser => ?_,
            cut.pmm⟩
          rw [cut.view addr addrUser, pageSize]
          by_cases later : va + 4096 ≤ addr ∧
              addr < va + 4096 + count * 4096
          · rw [if_pos later, if_pos (by omega)]
          · rw [if_neg later]
            by_cases page : addr / 4096 = va / 4096
            · rw [if_pos (by omega)]
              refine userView_none ?_
              rw [pteAt_page page]
              exact absent_of_walk mapped
            · exact (if_neg (by omega)).symm
      | some paddr =>
          obtain ⟨ok', set, directory⟩ := ok.unmap_pageSet user mapped
          have kernelLow : kernelPdeStart = 768 := rfl
          simp only
          generalize step : (pagingUnmapPage memory pd va).freeFrame
            (frameOf paddr) = memory' at ok' set directory ⊢
          have users' : UserTables memory' pd := by
            intro index low present
            rw [directory index (by omega)] at present ⊢
            exact users index low present
          have rws' := set.rws rws
          have pmm : memory'.pmm = memory.pmm.freeFrame (frameOf paddr) := by
            rw [← step, Memory.freeFrame, pagingUnmapPage]
            split <;> rfl
          have next : (va + pageSize) % 4096 = 0 := by
            rw [pageSize]
            omega
          have cut := inductionHypothesis ok' users' rws' next
            (by rw [pageSize]; omega)
          have frames : heapFrames memory' pd count (va + pageSize) =
              heapFrames memory pd count (va + pageSize) := by
            refine heapFrames_congr fun addr lower upper => ?_
            rw [pageSize] at lower upper
            rw [walk_eq, walk_eq,
              set.elsewhere addr (by omega) (by omega)]
          rw [frames] at cut
          refine ⟨cut.ok, cut.users, cut.rws, fun addr addrUser => ?_, ?_⟩
          · rw [cut.view addr addrUser, pageSize]
            by_cases later : va + 4096 ≤ addr ∧
                addr < va + 4096 + count * 4096
            · rw [if_pos later, if_pos (by omega)]
            · rw [if_neg later]
              by_cases page : addr / 4096 = va / 4096
              · rw [if_pos (by omega)]
                refine userView_none ?_
                rw [pteAt_page page, set.here, isPresent_zero]
              · have outside : ¬ (va ≤ addr ∧
                    addr < va + (count + 1) * 4096) := by omega
                rw [if_neg outside]
                refine userView_kept users rws users' rws' addrUser
                  (set.elsewhere addr addrUser page) fun present => ?_
                exact set.pages _ _ _ (pteAt_role addrUser present)
          · rw [cut.pmm, pmm]
            rfl

/-! ## The invariant -/

theorem pageCeil_eq (bound : addr ≤ kernelVirtBase) :
    pageCeil addr = (addr + 4095) / 4096 * 4096 := by
  rw [kernelVirtBase] at bound
  rw [pageCeil, frameOf, u32]
  omega

/-- A process whose directory maps, from the start of the heap to its
rounded bound, exactly the pages up to the rounded break. -/
structure BreakOk (start memory : Memory) (proc : Image) : Prop where
  space : SpaceOk start proc.pdPhys memory
  users : UserTables memory proc.pdPhys
  rws : RwTables memory proc.pdPhys
  aligned : proc.heapStart % 4096 = 0
  first : proc.heapStart ≤ proc.heapBreak
  last : proc.heapBreak ≤ proc.heapMax
  user : proc.heapMax ≤ kernelVirtBase
  mapped : ∀ addr, proc.heapStart ≤ addr → addr < pageCeil proc.heapMax →
    ((pagingWalk memory proc.pdPhys addr).isSome = true ↔
      addr < pageCeil proc.heapBreak)

/-- What a program sees after its break has moved. -/
def movedView (view : UserView) (oldTop newTop : Nat) : UserView :=
  fun addr =>
    if newTop ≤ addr ∧ addr < oldTop then none
    else if oldTop ≤ addr ∧ addr < newTop then
      some { byte := 0, user := true, writable := true }
    else view addr

/-- The frames of the pages that a call takes away. -/
def cutFrames (memory : Memory) (pd oldTop newTop : Nat) : List Nat :=
  heapFrames memory pd ((oldTop - newTop) / pageSize) newTop

/-- The break has moved and the pages with it. -/
structure BreakMoved (start before after : Memory) (proc : Image)
    (target : Nat) : Prop where
  ok : BreakOk start after { proc with heapBreak := target }
  view : ∀ addr < kernelVirtBase, userView after proc.pdPhys addr =
    movedView (userView before proc.pdPhys) (pageCeil proc.heapBreak)
      (pageCeil target) addr
  grown : pageCeil proc.heapBreak ≤ pageCeil target →
    ∀ frame, before.pmm.used frame = true → after.pmm.used frame = true
  cut : pageCeil target ≤ pageCeil proc.heapBreak →
    after.pmm = (cutFrames before proc.pdPhys (pageCeil proc.heapBreak)
      (pageCeil target)).foldl Pmm.freeFrame before.pmm
  frames : ∀ frame, frame ∈ cutFrames before proc.pdPhys
      (pageCeil proc.heapBreak) (pageCeil target) ↔
    ∃ addr paddr, pageCeil target ≤ addr ∧
      addr < pageCeil proc.heapBreak ∧
      pagingWalk before proc.pdPhys addr = some paddr ∧
      frame = frameOf paddr
  once : (cutFrames before proc.pdPhys (pageCeil proc.heapBreak)
    (pageCeil target)).Nodup
  marked : ∀ frame ∈ cutFrames before proc.pdPhys
      (pageCeil proc.heapBreak) (pageCeil target),
    before.pmm.used (frame / 4096) = true ∧
      after.pmm.used (frame / 4096) = false

/-- What a call does. -/
structure SbrkDone (start before after : Memory) (proc proc' : Image)
    (delta : UInt32) (eax : Nat) : Prop where
  refused : Outside proc delta →
    eax = 2 ^ 32 - 1 ∧ after = before ∧ proc' = proc
  moved : ¬ Outside proc delta →
    eax = proc.heapBreak ∧
      proc' = { proc with heapBreak := newBreak proc delta } ∧
      BreakMoved start before after proc (newBreak proc delta)

/-- The bits after some frames have been freed. -/
theorem used_foldl_freeFrame {pmm : Pmm} (frames : List Nat)
    (index : Nat) :
    (frames.foldl Pmm.freeFrame pmm).used index = true ↔
      pmm.used index = true ∧ ∀ frame ∈ frames, frame / 4096 ≠ index := by
  induction frames generalizing pmm with
  | nil => simp
  | cons first frames inductionHypothesis =>
      have place : Pmm.addrToFrame first = first / 4096 := rfl
      rw [List.foldl_cons, inductionHypothesis, Pmm.freeFrame,
        Pmm.used_clearFrame, Bool.and_eq_true, Bool.not_eq_true',
        decide_eq_false_iff_not, place, List.forall_mem_cons, and_assoc]
      exact and_congr Iff.rfl (and_congr ⟨Ne.symm, Ne.symm⟩ Iff.rfl)

/-- Where the pages lie that a call maps or unmaps. -/
theorem BreakOk.tops (ok : BreakOk start memory proc)
    (inside : ¬ Outside proc delta) :
    proc.heapStart ≤ pageCeil proc.heapBreak ∧
      proc.heapStart ≤ pageCeil (newBreak proc delta) ∧
      pageCeil proc.heapBreak ≤ pageCeil proc.heapMax ∧
      pageCeil (newBreak proc delta) ≤ pageCeil proc.heapMax ∧
      pageCeil proc.heapMax ≤ kernelVirtBase := by
  have aligned := ok.aligned
  have first := ok.first
  have last := ok.last
  have user := ok.user
  rw [Outside, not_or] at inside
  have base : kernelVirtBase = 786432 * 4096 := rfl
  rw [pageCeil_eq (by omega), pageCeil_eq (by omega), pageCeil_eq user]
  omega

theorem pageCeil_aligned (addr : Nat) : pageCeil addr % 4096 = 0 :=
  frameOf_aligned _

theorem userView_isSome :
    (userView memory pd addr).isSome = true ↔
      (pagingWalk memory pd addr).isSome = true := by
  rw [walk_isSome, userView]
  split
  case isTrue present => simp [present]
  case isFalse absent => simp [absent]

/-- The invariant follows from the view of the moved heap. -/
theorem BreakOk.moved (ok : BreakOk start memory proc)
    (inside : ¬ Outside proc delta)
    (space : SpaceOk start proc.pdPhys after)
    (users : UserTables after proc.pdPhys)
    (rws : RwTables after proc.pdPhys)
    (view : ∀ addr < kernelVirtBase, userView after proc.pdPhys addr =
      movedView (userView memory proc.pdPhys) (pageCeil proc.heapBreak)
        (pageCeil (newBreak proc delta)) addr) :
    BreakOk start after
      { proc with heapBreak := newBreak proc delta } := by
  obtain ⟨_, _, _, _, top⟩ := ok.tops inside
  rw [Outside, not_or] at inside
  refine ⟨space, users, rws, ok.aligned, Nat.le_of_not_lt inside.1,
    Nat.le_of_not_lt inside.2, ok.user, fun addr lower upper => ?_⟩
  have before := ok.mapped addr lower upper
  rw [← userView_isSome, view addr (Nat.lt_of_lt_of_le upper top),
    movedView]
  rw [← userView_isSome] at before
  split
  case isTrue cut =>
    simp only [Option.isSome_none, Bool.false_eq_true, false_iff]
    omega
  case isFalse kept =>
    split
    case isTrue new =>
      simp only [Option.isSome_some, true_iff]
      exact new.2
    case isFalse old =>
      rw [before]
      show addr < pageCeil proc.heapBreak ↔
        addr < pageCeil (newBreak proc delta)
      omega

theorem BreakOk.done_grow (ok : BreakOk start memory proc)
    (inside : ¬ Outside proc delta)
    (larger : pageCeil proc.heapBreak < pageCeil (newBreak proc delta))
    (done : growHeap proc.pdPhys
      ((pageCeil (newBreak proc delta) - pageCeil proc.heapBreak) /
        pageSize) memory (pageCeil proc.heapBreak) = some after) :
    BreakMoved start memory after proc (newBreak proc delta) := by
  obtain ⟨low, _, _, high, top⟩ := ok.tops inside
  have oldAligned := pageCeil_aligned proc.heapBreak
  have newAligned := pageCeil_aligned (newBreak proc delta)
  have whole : pageCeil proc.heapBreak +
      (pageCeil (newBreak proc delta) - pageCeil proc.heapBreak) /
        pageSize * 4096 = pageCeil (newBreak proc delta) := by
    rw [pageSize]
    omega
  have grown := growHeap_spec ok.space ok.users ok.rws oldAligned
    (by omega) (fun addr lower upper => by
      rw [← Option.not_isSome_iff_eq_none,
        ok.mapped addr (by omega) (by omega)]
      omega) done
  rw [whole] at grown
  have none : cutFrames memory proc.pdPhys (pageCeil proc.heapBreak)
      (pageCeil (newBreak proc delta)) = [] := by
    rw [cutFrames, Nat.sub_eq_zero_of_le (by omega)]
    rfl
  have view : ∀ addr < kernelVirtBase, userView after proc.pdPhys addr =
      movedView (userView memory proc.pdPhys) (pageCeil proc.heapBreak)
        (pageCeil (newBreak proc delta)) addr := by
    intro addr user
    rw [grown.view addr user, movedView]
    exact (if_neg (by omega)).symm
  refine ⟨ok.moved inside grown.ok grown.users grown.rws view, view,
    fun _ => grown.grows, fun smaller => ?_, fun frame => ?_, ?_,
    fun frame member => ?_⟩
  · omega
  · rw [none]
    refine ⟨fun member => absurd member (List.not_mem_nil), ?_⟩
    rintro ⟨addr, _, lower, upper, _⟩
    omega
  · rw [none]
    exact .nil
  · rw [none] at member
    exact absurd member (List.not_mem_nil)

theorem BreakOk.done_shrink (ok : BreakOk start memory proc)
    (inside : ¬ Outside proc delta)
    (smaller : pageCeil (newBreak proc delta) ≤ pageCeil proc.heapBreak) :
    BreakMoved start memory (shrinkHeap proc.pdPhys
      ((pageCeil proc.heapBreak - pageCeil (newBreak proc delta)) /
        pageSize) memory (pageCeil (newBreak proc delta))) proc
      (newBreak proc delta) := by
  obtain ⟨_, low, high, _, top⟩ := ok.tops inside
  have oldAligned := pageCeil_aligned proc.heapBreak
  have newAligned := pageCeil_aligned (newBreak proc delta)
  have whole : pageCeil (newBreak proc delta) +
      (pageCeil proc.heapBreak - pageCeil (newBreak proc delta)) /
        pageSize * 4096 = pageCeil proc.heapBreak := by
    rw [pageSize]
    omega
  have bound : pageCeil (newBreak proc delta) +
      (pageCeil proc.heapBreak - pageCeil (newBreak proc delta)) /
        pageSize * 4096 ≤ kernelVirtBase := by omega
  have cut := shrinkHeap_spec ok.space ok.users ok.rws newAligned bound
  rw [whole] at cut
  have view : ∀ addr < kernelVirtBase, userView (shrinkHeap proc.pdPhys
      ((pageCeil proc.heapBreak - pageCeil (newBreak proc delta)) /
        pageSize) memory (pageCeil (newBreak proc delta)))
        proc.pdPhys addr =
      movedView (userView memory proc.pdPhys) (pageCeil proc.heapBreak)
        (pageCeil (newBreak proc delta)) addr := by
    intro addr user
    rw [cut.view addr user, movedView]
    refine if_congr Iff.rfl rfl (if_neg ?_).symm
    omega
  refine ⟨ok.moved inside cut.ok cut.users cut.rws view, view,
    fun larger frame marked => ?_, fun _ => cut.pmm, fun frame => ?_,
    ok.space.heapFrames_nodup bound, fun frame member => ?_⟩
  · have same : pageCeil proc.heapBreak - pageCeil (newBreak proc delta) =
        0 := by omega
    rw [same]
    exact marked
  · rw [cutFrames, mem_heapFrames]
    constructor
    · rintro ⟨index, below, paddr, mapped, same⟩
      rw [pageSize] at below
      exact ⟨_, paddr, by omega, by omega, mapped, same⟩
    · rintro ⟨addr, paddr, lower, upper, mapped, same⟩
      refine ⟨(addr - pageCeil (newBreak proc delta)) / 4096, ?_,
        frameOf (pteAt memory proc.pdPhys addr) + 0, ?_, ?_⟩
      · rw [pageSize]
        omega
      · have place : (pageCeil (newBreak proc delta) +
            (addr - pageCeil (newBreak proc delta)) / 4096 * 4096) / 4096 =
              addr / 4096 := by omega
        have start : (pageCeil (newBreak proc delta) +
            (addr - pageCeil (newBreak proc delta)) / 4096 * 4096) % 4096 =
              0 := by omega
        rw [walk_eq, pteAt_page place, start,
          if_pos (isPresent_of_walk mapped).1]
      · rw [Nat.add_zero, frameOf_frameOf, (isPresent_of_walk mapped).2,
          same]
  · obtain ⟨isFrame, marked⟩ := ok.space.heapFrames_marked bound member
    refine ⟨marked, ?_⟩
    rw [← Bool.not_eq_true, cut.pmm, used_foldl_freeFrame]
    exact fun still => still.2 frame member rfl

/-- What one call does. -/
theorem BreakOk.sysSbrk {eax : Nat} (ok : BreakOk start memory proc)
    (done : sysSbrk memory proc delta = some (after, proc', eax)) :
    SbrkDone start memory after proc proc' delta eax := by
  rw [LoafOs.sysSbrk] at done
  split at done
  case isTrue outside =>
    simp only [Option.some.injEq, Prod.mk.injEq] at done
    obtain ⟨memoryEq, procEq, eaxEq⟩ := done
    exact ⟨fun _ => ⟨eaxEq.symm, memoryEq.symm, procEq.symm⟩,
      fun inside => absurd outside inside⟩
  case isFalse inside =>
    simp only [Option.bind_eq_bind, Option.pure_def,
      Option.bind_eq_some_iff, Option.some.injEq, Prod.mk.injEq] at done
    obtain ⟨result, moving, memoryEq, procEq, eaxEq⟩ := done
    subst memoryEq
    refine ⟨fun outside => absurd outside inside,
      fun _ => ⟨eaxEq.symm, procEq.symm, ?_⟩⟩
    rw [moveHeap] at moving
    split at moving
    case isTrue larger => exact ok.done_grow inside larger moving
    case isFalse smaller =>
      have cut := ok.done_shrink inside (Nat.le_of_not_lt smaller)
      split at moving
      case isTrue strict =>
        rw [← Option.some.inj moving]
        exact cut
      case isFalse same =>
        have none : pageCeil proc.heapBreak -
            pageCeil (newBreak proc delta) = 0 := by omega
        rw [none] at cut
        rw [← Option.some.inj moving]
        exact cut

/-- A call that returns. -/
def SbrkStep (state : Memory × Image) (delta : UInt32)
    (state' : Memory × Image) : Prop :=
  ∃ eax, sysSbrk state.1 state.2 delta = some (state'.1, state'.2, eax)

theorem SbrkDone.ok {eax : Nat} (ok : BreakOk start memory proc)
    (done : SbrkDone start memory after proc proc' delta eax) :
    BreakOk start after proc' := by
  by_cases outside : Outside proc delta
  · obtain ⟨_, memoryEq, procEq⟩ := done.refused outside
    rw [memoryEq, procEq]
    exact ok
  · obtain ⟨_, procEq, moved⟩ := done.moved outside
    rw [procEq]
    exact moved.ok

/-- Every call of every run keeps the heap mapped up to the break. -/
theorem sbrk_run {eax : Nat} (ok : BreakOk start memory proc)
    (run : Run SbrkStep (memory, proc) deltas (memory', proc'))
    {next : Image}
    (done : sysSbrk memory' proc' delta = some (after, next, eax)) :
    BreakOk start memory' proc' ∧
      SbrkDone start memory' after proc' next delta eax ∧
      BreakOk start after next := by
  have now : BreakOk start memory' proc' :=
    run.invariant (fun state => BreakOk start state.1 state.2)
      (fun _ _ _ before step => by
        obtain ⟨_, result⟩ := step
        exact (before.sysSbrk result).ok before) ok
  have effect := now.sysSbrk done
  exact ⟨now, effect, effect.ok now⟩

/-- A process starts out with an empty heap in a new address space. -/
theorem BreakOk.created {pd : Nat} (small : start.pmm.totalFrames ≤ 2 ^ 18)
    (created : pagingCreateAddressSpace start = some (memory, pd))
    (directory : proc.pdPhys = pd) (aligned : proc.heapStart % 4096 = 0)
    (first : proc.heapBreak = proc.heapStart)
    (last : proc.heapStart ≤ proc.heapMax)
    (user : proc.heapMax ≤ kernelVirtBase) :
    BreakOk start memory proc := by
  obtain ⟨_, _, _, _, _, _, _, _, empty, _⟩ :=
    pagingCreate_spec small created
  have absent : ∀ index < kernelPdeStart,
      isPresent (memory.entry pd index) = false := fun index below => by
    rw [empty index below]
    rfl
  have base : kernelVirtBase = 786432 * 4096 := rfl
  refine ⟨directory ▸ pagingCreate_ok small created,
    fun index low present => ?_, fun index low present => ?_, aligned,
    by omega, by omega, user, fun addr lower upper => ?_⟩
  · rw [directory, absent index low] at present
    simp at present
  · rw [directory, absent index low] at present
    simp at present
  · rw [pageCeil_eq user] at upper
    have below : addr < kernelVirtBase := by omega
    have none : isPresent (pteAt memory proc.pdPhys addr) = false := by
      rw [directory, pteAt_absent (absent _ (pdIndex_lt below))]
      rfl
    rw [walk_of_absent none, pageCeil_eq (by omega), first]
    simp only [Option.isSome_none, Bool.false_eq_true, false_iff]
    omega

/-- A process with an empty heap behind its first 4 MB. -/
def sampleProc (pd : Nat) : Image where
  pdPhys := pd
  entryPoint := 0x100000
  userStackTop := 0xbffff000
  heapStart := 0x400000
  heapBreak := 0x400000
  heapMax := userHeapMax

theorem sampleProc_ok (small : start.pmm.totalFrames ≤ 2 ^ 18)
    (created : pagingCreateAddressSpace start = some (memory, pd)) :
    BreakOk start memory (sampleProc pd) := by
  refine .created small created rfl ?_ rfl ?_ ?_
  · simp only [sampleProc]
  · simp only [sampleProc]
    decide
  · simp only [sampleProc]
    decide

/-- The heap grows to two pages, loses one and grows again. -/
theorem sampleSbrk_run : ∃ memory memory' after pd proc' next eax,
    BreakOk sampleMemory memory (sampleProc pd) ∧
    Run SbrkStep (memory, sampleProc pd) [5000, 0xfffff000]
      (memory', proc') ∧
    sysSbrk memory' proc' 0x2000 = some (after, next, eax) ∧
    BreakOk sampleMemory memory' proc' ∧
    SbrkDone sampleMemory memory' after proc' next 0x2000 eax ∧
    BreakOk sampleMemory after next := by
  have chain : (do
      let made ← pagingCreateAddressSpace sampleMemory
      let grown ← sysSbrk made.1 (sampleProc made.2) 5000
      let shrunk ← sysSbrk grown.1 grown.2.1 0xfffff000
      sysSbrk shrunk.1 shrunk.2.1 0x2000).isSome = true := by
    decide +kernel
  obtain ⟨⟨after, next, eax⟩, whole⟩ := Option.isSome_iff_exists.mp chain
  simp only [Option.bind_eq_bind, Option.bind_eq_some_iff] at whole
  obtain ⟨⟨memory, pd⟩, created, ⟨second, proc, eax'⟩, grow,
    ⟨memory', proc', eax''⟩, shrink, done⟩ := whole
  have ok := sampleProc_ok (by decide) created
  have up : SbrkStep (memory, sampleProc pd) 5000 (second, proc) :=
    ⟨eax', grow⟩
  have down : SbrkStep (second, proc) 0xfffff000 (memory', proc') :=
    ⟨eax'', shrink⟩
  have run : Run SbrkStep (memory, sampleProc pd) [5000, 0xfffff000]
      (memory', proc') := .cons up (.cons down .nil)
  exact ⟨memory, memory', after, pd, proc', next, eax, ok, run, done,
    sbrk_run ok run done⟩

end LoafOs
