import LoafOs.Userspace.SbrkRun

/-!
# The break without room

Each new page takes a frame, and a table that is missing takes one more.
When there are fewer, `pmm_alloc_frame` stops the kernel before any test of
the loop can see it.
-/

namespace LoafOs

open Memory

variable {start memory memory' taken after : Memory}
  {pd va count frame addr first code paddr flags : Nat} {proc : Image}
  {delta : UInt32}

/-! ## The frames that a page takes -/

/-- The frames that the bitmap has left. -/
def freeFrames (memory : Memory) : Finset Nat :=
  freeBelow memory.pmm memory.pmm.totalFrames

theorem freeFrames_alloc (small : memory.pmm.totalFrames ≤ 2 ^ 18)
    (done : memory.allocFrame = some (taken, addr)) :
    taken.pmm.totalFrames = memory.pmm.totalFrames ∧
      (freeFrames taken).card + 1 ≤ (freeFrames memory).card := by
  obtain ⟨found, _, inside, free, _, total, used⟩ :=
    allocFrame_spec small done
  refine ⟨total, ?_⟩
  have unused : found ∉ freeFrames taken := by
    intro member
    have marked := (mem_freeBelow.mp member).2
    rw [used, free] at marked
    simp at marked
  rw [← Finset.card_insert_of_notMem unused]
  refine Finset.card_le_card fun other member => ?_
  rcases Finset.mem_insert.mp member with same | member
  · rw [same]
    exact mem_freeBelow.mpr ⟨inside, free⟩
  · obtain ⟨below, unmarked⟩ := mem_freeBelow.mp member
    rw [used, Bool.or_eq_false_iff] at unmarked
    rw [total] at below
    exact mem_freeBelow.mpr ⟨below, unmarked.1⟩

/-- Mapping a page takes a frame for a table that is missing. -/
theorem freeFrames_map (small : memory.pmm.totalFrames ≤ 2 ^ 18)
    (done : pagingMapPage memory pd va paddr flags =
      some (memory', code)) :
    memory'.pmm.totalFrames = memory.pmm.totalFrames ∧
      (freeFrames memory').card +
        (if isPresent (memory.entry pd (pdIndex va)) then 0 else 1) ≤
          (freeFrames memory).card := by
  rw [pagingMapPage] at done
  cases present : isPresent (memory.entry pd (pdIndex va)) with
  | false =>
      simp only [present, Bool.false_eq_true, not_false_iff, if_true,
        Option.bind_eq_bind, Option.pure_def,
        Option.bind_eq_some_iff] at done
      obtain ⟨⟨taken, pt⟩, alloc, rest⟩ := done
      obtain ⟨total, fewer⟩ := freeFrames_alloc small alloc
      split at rest <;>
        simp only [Option.some.injEq, Prod.mk.injEq] at rest <;>
        rw [← rest.1] <;>
        exact ⟨total, fewer⟩
  | true =>
      simp only [present, not_true_eq_false, if_false] at done
      split at done <;>
        simp only [Option.some.injEq, Prod.mk.injEq] at done <;>
        rw [← done.1] <;>
        exact ⟨rfl, Nat.le_refl _⟩

/-- A page that is not mapped takes what `pageNeed` says. -/
theorem SpaceOk.freeFrames_page (ok : SpaceOk start pd memory)
    (unmapped : pagingWalk memory pd va = none)
    (done : mapSegmentPage memory pd va flags =
      some (memory', some frame)) :
    (freeFrames memory').card + pageNeed memory pd va ≤
      (freeFrames memory).card := by
  rw [mapSegmentPage, unmapped] at done
  simp only [Option.bind_eq_bind, Option.pure_def,
    Option.bind_eq_some_iff] at done
  obtain ⟨⟨taken, fresh⟩, alloc, rest⟩ := done
  split at rest
  case isTrue => simp at rest
  case isFalse =>
    simp only [Option.bind_eq_some_iff] at rest
    obtain ⟨⟨mapped, code⟩, mapping, rest⟩ := rest
    split at rest
    case isTrue => simp at rest
    case isFalse =>
      simp only [Option.some.injEq, Prod.mk.injEq] at rest
      have small := ok.total
      obtain ⟨total, first⟩ := freeFrames_alloc small alloc
      obtain ⟨mem, _⟩ := allocFrame_mem alloc
      have entries : taken.entry pd (pdIndex va) =
          memory.entry pd (pdIndex va) := by
        simp only [Memory.entry, mem]
      obtain ⟨_, second⟩ := freeFrames_map (by omega) mapping
      have same : freeFrames memory' = freeFrames mapped := by
        rw [← rest.1]
        rfl
      rw [entries] at second
      rw [same, pageNeed]
      split at second
      case isTrue present =>
        rw [if_pos present]
        omega
      case isFalse absent =>
        rw [if_neg absent]
        omega

/-! ## The frames that a call needs -/

/-- The directory entries without a table under these pages. -/
def missingTables (memory : Memory) (pd : Nat) (pages : Finset Nat) :
    Finset Nat :=
  (pages.image (· / 1024)).filter fun index =>
    isPresent (memory.entry pd index) = false

/-- The frames that mapping these pages takes, page tables included. -/
def framesWanted (memory : Memory) (pd : Nat) (pages : Finset Nat) : Nat :=
  pages.card + (missingTables memory pd pages).card

theorem mem_missingTables {pages : Finset Nat} {index : Nat} :
    index ∈ missingTables memory pd pages ↔
      (∃ page ∈ pages, page / 1024 = index) ∧
        isPresent (memory.entry pd index) = false := by
  rw [missingTables, Finset.mem_filter, Finset.mem_image]

/-- What the first page takes is not needed again. -/
theorem framesWanted_succ
    (kept : ∀ index < 1024, index ≠ first / 1024 →
      memory'.entry pd index = memory.entry pd index)
    (place : pdIndex va = first / 1024)
    (top : first + count + 1 ≤ 2 ^ 20) :
    framesWanted memory pd (Finset.Ico first (first + (count + 1))) ≤
      pageNeed memory pd va + framesWanted memory' pd
        (Finset.Ico (first + 1) (first + 1 + count)) := by
  have later : ∀ index, index ≠ first / 1024 →
      index ∈ missingTables memory pd
        (Finset.Ico first (first + (count + 1))) →
      index ∈ missingTables memory' pd
        (Finset.Ico (first + 1) (first + 1 + count)) := by
    intro index different member
    obtain ⟨⟨page, inside, same⟩, absent⟩ := mem_missingTables.mp member
    rw [Finset.mem_Ico] at inside
    have other : page ≠ first := fun equal => different (equal ▸ same.symm)
    refine mem_missingTables.mpr ⟨⟨page, ?_, same⟩, ?_⟩
    · rw [Finset.mem_Ico]
      omega
    · rw [kept index (by omega) different]
      exact absent
  rw [framesWanted, framesWanted, Nat.card_Ico, Nat.card_Ico]
  rw [pageNeed, place]
  cases present : isPresent (memory.entry pd (first / 1024)) with
  | true =>
      have subset : missingTables memory pd
          (Finset.Ico first (first + (count + 1))) ⊆
          missingTables memory' pd
            (Finset.Ico (first + 1) (first + 1 + count)) := by
        intro index member
        refine later index (fun same => ?_) member
        have absent := (mem_missingTables.mp member).2
        rw [same, present] at absent
        simp at absent
      have fewer := Finset.card_le_card subset
      rw [if_pos rfl]
      omega
  | false =>
      have subset : missingTables memory pd
          (Finset.Ico first (first + (count + 1))) ⊆
          insert (first / 1024) (missingTables memory' pd
            (Finset.Ico (first + 1) (first + 1 + count))) := by
        intro index member
        rw [Finset.mem_insert]
        by_cases same : index = first / 1024
        · exact .inl same
        · exact .inr (later index same member)
      have fewer := (Finset.card_le_card subset).trans
        (Finset.card_insert_le _ _)
      rw [if_neg Bool.false_ne_true]
      omega

/-- The loop only gets through with the frames that its pages need. -/
theorem growHeap_room (ok : SpaceOk start pd memory)
    (aligned : va % 4096 = 0) (top : va + count * 4096 ≤ kernelVirtBase)
    (unmapped : ∀ addr, va ≤ addr → addr < va + count * 4096 →
      pagingWalk memory pd addr = none)
    (done : growHeap pd count memory va = some after) :
    framesWanted memory pd (Finset.Ico (va / 4096) (va / 4096 + count)) ≤
      (freeFrames memory).card := by
  induction count generalizing memory va with
  | zero =>
      rw [Nat.add_zero, Finset.Ico_self]
      exact Nat.zero_le _
  | succ count inductionHypothesis =>
      have base : kernelVirtBase = 786432 * 4096 := rfl
      have user : va < kernelVirtBase := by omega
      have here := unmapped va (Nat.le_refl _) (by omega)
      obtain ⟨memory', frame, pass, rest⟩ :=
        growHeap_pass ok user here done
      obtain ⟨frame', same, ok', ready⟩ := ok.pageReady user pass
      have fewer := ok.freeFrames_page here pass
      have next : ∀ addr, va + pageSize ≤ addr →
          addr < va + pageSize + count * 4096 →
          pagingWalk memory' pd addr = none := by
        intro addr lower upper
        rw [pageSize] at lower upper
        have absent := absent_of_walk
          (unmapped addr (by omega) (by omega))
        refine walk_of_absent ?_
        rw [ready.elsewhere addr (by omega) (by omega), absent]
      have room := inductionHypothesis ok' (by rw [pageSize]; omega)
        (by rw [pageSize]; omega) next rest
      have later : (va + pageSize) / 4096 = va / 4096 + 1 := by
        rw [pageSize]
        omega
      have place : pdIndex va = va / 4096 / 1024 := by
        rw [pdIndex]
        omega
      have step : framesWanted memory pd
          (Finset.Ico (va / 4096) (va / 4096 + (count + 1))) ≤
          pageNeed memory pd va + framesWanted memory' pd
            (Finset.Ico (va / 4096 + 1) (va / 4096 + 1 + count)) :=
        framesWanted_succ (fun index below different =>
          ready.directories index below (place ▸ different)) place
          (by omega)
      rw [later] at room
      omega

/-- The frames that a call needs for the growth that it asks for. -/
def sbrkWanted (memory : Memory) (proc : Image) (delta : UInt32) : Nat :=
  framesWanted memory proc.pdPhys
    (Finset.Ico (pageCeil proc.heapBreak / 4096)
      (pageCeil (newBreak proc delta) / 4096))

/-- A call that returns found all the frames that it needed. -/
theorem BreakOk.room {result : Memory × Image × Nat}
    (ok : BreakOk start memory proc) (inside : ¬ Outside proc delta)
    (done : LoafOs.sysSbrk memory proc delta = some result) :
    sbrkWanted memory proc delta ≤ (freeFrames memory).card := by
  obtain ⟨low, _, _, high, top⟩ := ok.tops inside
  have oldAligned := pageCeil_aligned proc.heapBreak
  have newAligned := pageCeil_aligned (newBreak proc delta)
  rw [LoafOs.sysSbrk, if_neg inside] at done
  simp only [Option.bind_eq_bind, Option.bind_eq_some_iff] at done
  obtain ⟨after, moving, _⟩ := done
  rw [moveHeap] at moving
  split at moving
  case isTrue larger =>
    have room := growHeap_room ok.space oldAligned
      (by rw [pageSize]; omega) (fun addr lower upper => by
        rw [pageSize] at upper
        rw [← Option.not_isSome_iff_eq_none,
          ok.mapped addr (by omega) (by omega)]
        omega) moving
    have last : pageCeil proc.heapBreak / 4096 +
        (pageCeil (newBreak proc delta) - pageCeil proc.heapBreak) /
          pageSize = pageCeil (newBreak proc delta) / 4096 := by
      rw [pageSize]
      omega
    rw [last] at room
    exact room
  case isFalse smaller =>
    rw [sbrkWanted, Finset.Ico_eq_empty (by omega)]
    exact Nat.zero_le _

end LoafOs
