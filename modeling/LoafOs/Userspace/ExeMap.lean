import LoafOs.Mm.FrameRoom
import LoafOs.Userspace.Exe

/-!
# The pages of a segment

One pass of the loop in `map_and_copy`: the page is there afterwards and
its frame belongs to the new address space.
-/

namespace LoafOs

open Memory

variable {start memory memory' : Memory}
  {pd va flags frame bound : Nat} {page : Option Nat} {pages : Finset Nat}

/-- What `map_and_copy` finds or makes for one page. -/
structure PageReady (memory memory' : Memory) (pd va flags frame : Nat) :
    Prop where
  role : roleFrame memory' pd (.page (pdIndex va) (ptIndex va)) = some frame
  fresh : pagingWalk memory pd va = none →
    (∀ offset < 4096, memory'.mem (physToVirt frame + offset) = 0) ∧
      pteAt memory' pd va = pageEntry frame flags
  reused : ∀ paddr, pagingWalk memory pd va = some paddr →
    frame = frameOf paddr ∧ FrameKept memory memory' frame ∧
      pteAt memory' pd va =
        if isRw flags then pageEntry frame flags else pteAt memory pd va
  elsewhere : ∀ other < kernelVirtBase, other / 4096 ≠ va / 4096 →
    pteAt memory' pd other = pteAt memory pd other
  users : isUser flags = true → UserTables memory pd →
    UserTables memory' pd
  rws : RwTables memory pd → RwTables memory' pd
  directories : ∀ index < 1024, index ≠ pdIndex va →
    memory'.entry pd index = memory.entry pd index
  pages : ∀ index entry addr,
    roleFrame memory pd (.page index entry) = some addr →
    FrameKept memory memory' addr
  kept : ∀ other, IsFrame other →
    (∀ role, roleFrame memory' pd role ≠ some other) →
    FrameKept memory memory' other
  grows : ∀ other, memory.pmm.used other = true →
    memory'.pmm.used other = true

theorem isPresent_of_walk {paddr : Nat}
    (mapped : pagingWalk memory pd va = some paddr) :
    isPresent (pteAt memory pd va) = true ∧
      frameOf (pteAt memory pd va) = frameOf paddr := by
  rw [walk_eq] at mapped
  split at mapped
  case isTrue present =>
      simp only [Option.some.injEq] at mapped
      refine ⟨present, ?_⟩
      rw [← mapped]
      simp only [frameOf]
      omega
  case isFalse => simp at mapped

theorem pteAt_role (user : va < kernelVirtBase)
    (present : isPresent (pteAt memory pd va) = true) :
    roleFrame memory pd (.page (pdIndex va) (ptIndex va)) =
      some (frameOf (pteAt memory pd va)) := by
  have mapped : pagingWalk memory pd va =
      some (frameOf (pteAt memory pd va) + va % 4096) := by
    rw [walk_eq, if_pos present]
  rw [(isPresent_of_walk mapped).2]
  exact walk_role user mapped

/-- A page that is mapped already. -/
theorem SpaceOk.reusePage (ok : SpaceOk start pd memory) (flags : Nat)
    (user : va < kernelVirtBase) {paddr : Nat}
    (mapped : pagingWalk memory pd va = some paddr) :
    ∃ memory', mapSegmentPage memory pd va flags =
        some (memory', some (frameOf paddr)) ∧
      memory'.pmm = memory.pmm ∧ SpaceOk start pd memory' ∧
      PageReady memory memory' pd va flags (frameOf paddr) := by
  have role := walk_role user mapped
  have absurdNone : pagingWalk memory pd va ≠ none := by simp [mapped]
  have sameFrame : ∀ other, pagingWalk memory pd va = some other →
      other = paddr := fun other same =>
    Option.some.inj (same.symm.trans mapped)
  cases writable : isRw flags with
  | true =>
      obtain ⟨after, result, pmmEq, ok', set⟩ :=
        ok.remap flags user mapped (frameOf_frameOf paddr)
      have present' : isPresent (pteAt after pd va) = true := by
        rw [set.here, isPresent_pageEntry]
      have frameEq' : frameOf (pteAt after pd va) = frameOf paddr := by
        rw [set.here, frameOf_pageEntry, frameOf_frameOf]
      have done : mapSegmentPage memory pd va flags =
          some (after, some (frameOf paddr)) := by
        rw [mapSegmentPage, mapped]
        simp only [writable, if_true, Option.bind_eq_bind,
          Option.pure_def, result, Option.bind_some]
      refine ⟨after, done, pmmEq, ok', ?_, fun none => absurd none absurdNone,
        fun other same => ?_, set.elsewhere, set.users, set.rws,
        set.directories, set.pages, set.kept,
        fun other marked => by rw [pmmEq]; exact marked⟩
      · rw [pteAt_role user present', frameEq']
      · rw [sameFrame other same]
        exact ⟨rfl, set.pages _ _ _ role, by
          rw [writable, if_pos rfl, set.here]⟩
  | false =>
      have done : mapSegmentPage memory pd va flags =
          some (memory, some (frameOf paddr)) := by
        rw [mapSegmentPage, mapped]
        simp only [writable, Bool.false_eq_true, if_false, Option.pure_def]
      refine ⟨memory, done, rfl, ok, role,
        fun none => absurd none absurdNone, fun other same => ?_,
        fun _ _ _ => rfl, fun _ users => users, fun rws => rws,
        fun _ _ _ => rfl, fun _ _ _ _ _ _ => rfl, fun _ _ _ _ _ => rfl,
        fun _ marked => marked⟩
      rw [sameFrame other same]
      exact ⟨rfl, fun _ _ => rfl, by
        rw [writable, if_neg Bool.false_ne_true]⟩

/-- A page that gets a new frame. -/
theorem SpaceOk.freshPage (ok : SpaceOk start pd memory)
    (user : va < kernelVirtBase)
    (unmapped : pagingWalk memory pd va = none)
    (done : mapSegmentPage memory pd va flags = some (memory', page)) :
    ∃ frame, page = some frame ∧ SpaceOk start pd memory' ∧
      PageReady memory memory' pd va flags frame := by
  rw [mapSegmentPage, unmapped] at done
  simp only [Option.bind_eq_bind, Option.pure_def,
    Option.bind_eq_some_iff] at done
  obtain ⟨⟨taken, frame⟩, alloc, rest⟩ := done
  obtain ⟨found, place, inside, free, _, total, used⟩ :=
    allocFrame_spec ok.total alloc
  have bound := ok.total
  have nonzero : frame ≠ 0 := by
    intro zero
    have same : found = 0 := by omega
    rw [same, ok.zeroMarked] at free
    simp at free
  simp only [nonzero, if_false, Option.bind_eq_some_iff] at rest
  obtain ⟨⟨after, code⟩, mapping, rest⟩ := rest
  obtain ⟨codeEq, ok', set⟩ := ok.map user unmapped alloc mapping
  simp only [codeEq, ne_eq, not_true_eq_false, if_false, Option.some.injEq,
    Prod.mk.injEq] at rest
  obtain ⟨memoryEq, pageEq⟩ := rest
  subst memoryEq pageEq
  have isFrame : IsFrame frame := by
    rw [place]
    exact isFrame_mul (by omega)
  have role : roleFrame after pd (.page (pdIndex va) (ptIndex va)) =
      some frame := by
    rw [pteAt_role user (by rw [set.here, isPresent_pageEntry]), set.here,
      frameOf_pageEntry, frameOf_frame isFrame]
  have cleared : ∀ other, IsFrame other → other ≠ frame →
      FrameKept after (after.clearPage frame) other :=
    fun other isOther different => clearPage_kept isFrame isOther different
  obtain ⟨ok'', roles, directory, entries⟩ :=
    ok'.pageWrite role cleared rfl rfl
  have pteHere : pteAt (after.clearPage frame) pd va =
      pageEntry frame flags := by
    rw [entries va user, set.here]
  have notNew : ∀ index entry addr,
      roleFrame memory pd (.page index entry) = some addr →
      addr ≠ frame := by
    intro index entry addr holds same
    have marked := ok.owned.marked holds
    have frameEq : addr / 4096 = found := by omega
    rw [frameEq, free] at marked
    simp at marked
  have kernelLow : kernelPdeStart = 768 := rfl
  refine ⟨frame, rfl, ok'', roles ▸ role,
    fun _ => ⟨fun offset small => clearPage_inside small, pteHere⟩,
    fun paddr mapped => by rw [unmapped] at mapped; simp at mapped,
    fun other otherUser different => ?_,
    fun userFlags users index low present => ?_,
    fun rws index low present => ?_,
    fun index below different => ?_,
    fun index entry addr holds => ?_,
    fun other isOther foreign => ?_, fun other marked => ?_⟩
  · rw [entries other otherUser, set.elsewhere other otherUser different]
  · rw [directory index (by omega)] at present ⊢
    exact set.users userFlags users index low present
  · rw [directory index (by omega)] at present ⊢
    exact set.rws rws index low present
  · rw [directory index below, set.directories index below different]
  · exact (set.pages index entry addr holds).trans
      (cleared addr (ok.owned.frame _ _ holds).1
        (notNew index entry addr holds))
  · rw [roles] at foreign
    exact (set.kept other isOther foreign).trans
      (cleared other isOther fun same =>
        foreign _ (by rw [same]; exact role))
  · have first := allocFrame_grows ok.total alloc marked
    have second : after.pmm.used other = true :=
      pagingMapPage_grows (by omega) mapping first
    exact second

/-- One page of a segment. -/
theorem SpaceOk.pageReady (ok : SpaceOk start pd memory)
    (user : va < kernelVirtBase)
    (done : mapSegmentPage memory pd va flags = some (memory', page)) :
    ∃ frame, page = some frame ∧ SpaceOk start pd memory' ∧
      PageReady memory memory' pd va flags frame := by
  cases mapped : pagingWalk memory pd va with
  | none => exact ok.freshPage user mapped done
  | some paddr =>
      obtain ⟨after, result, _, ok', ready⟩ :=
        ok.reusePage flags user mapped
      rw [result] at done
      simp only [Option.some.injEq, Prod.mk.injEq] at done
      obtain ⟨memoryEq, pageEq⟩ := done
      subst memoryEq
      exact ⟨_, pageEq.symm, ok', ready⟩

/-! ## Room for the page -/

/-- The address of the page behind a directory and a table entry. -/
theorem page_address {index entry : Nat} (low : index < kernelPdeStart)
    (small : entry < 1024) :
    index * 2 ^ 22 + entry * 2 ^ 12 < kernelVirtBase ∧
      pdIndex (index * 2 ^ 22 + entry * 2 ^ 12) = index ∧
      ptIndex (index * 2 ^ 22 + entry * 2 ^ 12) = entry := by
  rw [kernelPdeStart] at low
  simp only [kernelVirtBase, pdIndex, ptIndex]
  omega

theorem role_page_address {index entry addr : Nat}
    (holds : roleFrame memory pd (.page index entry) = some addr) :
    ∃ vaddr < kernelVirtBase, pdIndex vaddr = index ∧
      ptIndex vaddr = entry ∧
      isPresent (pteAt memory pd vaddr) = true := by
  simp only [roleFrame] at holds
  split at holds
  case isTrue all =>
      obtain ⟨low, small, present, inUse⟩ := all
      obtain ⟨user, sameIndex, sameEntry⟩ := page_address low small
      refine ⟨_, user, sameIndex, sameEntry, ?_⟩
      rw [pteAt_present (by rw [sameIndex, present]), sameIndex, sameEntry,
        inUse]
  case isFalse => simp at holds

/-- The new page stays within the pages that are wanted. -/
theorem PageReady.within (ready : PageReady memory memory' pd va flags frame)
    (within : Within memory pd pages) (wanted : va / 4096 ∈ pages) :
    Within memory' pd pages := by
  have kernelLow : kernelPdeStart = 768 := rfl
  intro role addr holds
  cases role with
  | directory => exact Finset.mem_insert_self ..
  | table index =>
      by_cases here : index = pdIndex va
      · refine mem_spaceRoles_table.mpr ⟨_, wanted, ?_⟩
        rw [here, pdIndex]
        omega
      · simp only [roleFrame] at holds
        split at holds
        case isTrue all =>
            have same := ready.directories index (by omega) here
            refine within _ _ (roleFrame_table all.1 ?_)
            rw [← same]
            exact all.2
        case isFalse => simp at holds
  | page index entry =>
      obtain ⟨vaddr, user, sameIndex, sameEntry, present⟩ :=
        role_page_address holds
      by_cases here : vaddr / 4096 = va / 4096
      · refine mem_spaceRoles_page.mpr ⟨_, wanted, ?_, ?_⟩
        · rw [← here, ← sameIndex, pdIndex]
          omega
        · rw [← here, ← sameEntry]
          rfl
      · rw [ready.elsewhere vaddr user here] at present
        have role := pteAt_role user present
        rw [sameIndex, sameEntry] at role
        exact within _ _ role

/-- There is a page when the room suffices. -/
theorem SpaceOk.mapSegmentPage_some (ok : SpaceOk start pd memory)
    (user : va < kernelVirtBase)
    (room : pagingWalk memory pd va = none →
      pageNeed memory pd va ≤
        (freeBelow memory.pmm memory.pmm.totalFrames).card) :
    ∃ memory' page,
      mapSegmentPage memory pd va flags = some (memory', page) := by
  cases mapped : pagingWalk memory pd va with
  | some paddr =>
      obtain ⟨after, result, _⟩ := ok.reusePage flags user mapped
      exact ⟨after, _, result⟩
  | none =>
      have need := room mapped
      have positive : 0 <
          (freeBelow memory.pmm memory.pmm.totalFrames).card := by
        rw [pageNeed] at need
        split at need <;> omega
      obtain ⟨taken, frame, alloc⟩ := allocFrame_some ok.total positive
      obtain ⟨mem, _, _⟩ := allocFrame_mem alloc
      obtain ⟨_, _, _, _, _, total, _⟩ := allocFrame_spec ok.total alloc
      obtain ⟨_, left⟩ := allocFrame_room ok.total positive alloc
      have entries : taken.entry pd (pdIndex va) =
          memory.entry pd (pdIndex va) := by
        simp only [Memory.entry, mem]
      have bound := ok.total
      have table : isPresent (taken.entry pd (pdIndex va)) = false →
          0 < (freeBelow taken.pmm taken.pmm.totalFrames).card := by
        intro absent
        rw [entries] at absent
        rw [pageNeed, absent] at need
        rw [total]
        simp only [Bool.false_eq_true, if_false] at need
        omega
      obtain ⟨after, code, mapping⟩ :=
        pagingMapPage_some frame flags (by omega) table
      rw [mapSegmentPage, mapped]
      simp only [Option.bind_eq_bind, Option.pure_def, alloc,
        Option.bind_some]
      split
      · exact ⟨_, _, rfl⟩
      · simp only [mapping, Option.bind_some]
        split <;> exact ⟨_, _, rfl⟩

/-- A frame stays free when the room below it suffices. -/
theorem SpaceOk.mapSegmentPage_avoids (ok : SpaceOk start pd memory)
    (user : va < kernelVirtBase) {other : Nat}
    (room : pagingWalk memory pd va = none →
      pageNeed memory pd va ≤ (freeBelow memory.pmm other).card)
    (done : mapSegmentPage memory pd va flags = some (memory', page))
    (free : memory.pmm.used other = false) :
    memory'.pmm.used other = false := by
  cases mapped : pagingWalk memory pd va with
  | some paddr =>
      obtain ⟨after, result, pmmEq, _⟩ :=
        ok.reusePage flags user mapped
      rw [result] at done
      simp only [Option.some.injEq, Prod.mk.injEq] at done
      rw [← done.1, pmmEq]
      exact free
  | none =>
      have need := room mapped
      have positive : 0 < (freeBelow memory.pmm other).card := by
        rw [pageNeed] at need
        split at need <;> omega
      rw [mapSegmentPage, mapped] at done
      simp only [Option.bind_eq_bind, Option.pure_def,
        Option.bind_eq_some_iff] at done
      obtain ⟨⟨taken, frame⟩, alloc, rest⟩ := done
      obtain ⟨mem, _, _⟩ := allocFrame_mem alloc
      obtain ⟨_, _, _, _, _, total, _⟩ := allocFrame_spec ok.total alloc
      obtain ⟨_, left⟩ := allocFrame_room ok.total positive alloc
      have still := allocFrame_avoids ok.total positive alloc free
      have entries : taken.entry pd (pdIndex va) =
          memory.entry pd (pdIndex va) := by
        simp only [Memory.entry, mem]
      have bound := ok.total
      split at rest
      · simp only [Option.some.injEq, Prod.mk.injEq] at rest
        exact rest.1 ▸ still
      · simp only [Option.bind_eq_some_iff] at rest
        obtain ⟨⟨after, code⟩, mapping, rest⟩ := rest
        have final : after.pmm.used other = false := by
          refine pagingMapPage_avoids (by omega) (fun absent => ?_) mapping
            still
          rw [entries] at absent
          rw [pageNeed, absent] at need
          simp only [Bool.false_eq_true, if_false] at need
          omega
        split at rest <;>
          simp only [Option.some.injEq, Prod.mk.injEq] at rest <;>
          exact rest.1 ▸ final

end LoafOs
