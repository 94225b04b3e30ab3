import LoafOs.Mm.AddressSpace

/-!
# What mapping a page changes

The effect of `paging_create_address_space` and of the two branches of
`paging_map_page` on the entries and on all other frames.
-/

namespace LoafOs

open Memory

variable {memory memory' : Memory} {pd vaddr paddr flags index count : Nat}

theorem pdIndex_lt (user : vaddr < kernelVirtBase) :
    pdIndex vaddr < kernelPdeStart := by
  rw [kernelVirtBase] at user
  rw [pdIndex, kernelPdeStart]
  omega

theorem ptIndex_lt : ptIndex vaddr < 1024 :=
  Nat.mod_lt _ (by decide)

section Create

theorem copyEntries_pmm :
    (memory.copyEntries pd index count).pmm = memory.pmm ∧
      (memory.copyEntries pd index count).kernelDirectory =
        memory.kernelDirectory := by
  induction count generalizing memory index with
  | zero => exact ⟨rfl, rfl⟩
  | succ count inductionHypothesis =>
      rw [copyEntries]
      exact inductionHypothesis

theorem copyEntries_kept {frame : Nat} (isPd : IsFrame pd)
    (isFrame : IsFrame frame) (different : frame ≠ pd)
    (bound : index + count ≤ 1024) :
    FrameKept memory (memory.copyEntries pd index count) frame := by
  induction count generalizing memory index with
  | zero => exact fun _ _ => rfl
  | succ count inductionHypothesis =>
      rw [copyEntries]
      exact FrameKept.trans
        (putEntry_kept isPd isFrame (by omega) different)
        (inductionHypothesis (by omega))

theorem copyEntries_below {other : Nat} (below : other < index) :
    (memory.copyEntries pd index count).entry pd other =
      memory.entry pd other := by
  induction count generalizing memory index with
  | zero => rfl
  | succ count inductionHypothesis =>
      rw [copyEntries, inductionHypothesis (by omega),
        entry_putEntry_index (by omega)]

theorem copyEntries_entry {other : Nat} (isPd : IsFrame pd)
    (isKernel : IsFrame memory.kernelDirectory)
    (different : memory.kernelDirectory ≠ pd)
    (bound : index + count ≤ 1024) (lower : index ≤ other)
    (upper : other < index + count) :
    (memory.copyEntries pd index count).entry pd other =
      memory.entry memory.kernelDirectory other := by
  induction count generalizing memory index with
  | zero => omega
  | succ count inductionHypothesis =>
      rw [copyEntries]
      generalize stepEq : memory.putEntry pd index
        (memory.entry memory.kernelDirectory index) = step
      have base : step.kernelDirectory = memory.kernelDirectory := by
        rw [← stepEq]
        rfl
      have kept : FrameKept memory step memory.kernelDirectory := by
        rw [← stepEq]
        exact putEntry_kept isPd isKernel (by omega) different
      by_cases here : other = index
      · rw [copyEntries_below (by omega), here, ← stepEq,
          entry_putEntry_same entry_lt]
      · rw [inductionHypothesis (base ▸ isKernel) (base ▸ different)
          (by omega) (by omega) (by omega), base]
        exact kept.entry (by omega)

/-- A new address space has no user entries. -/
theorem pagingCreate_spec
    (small : memory.pmm.totalFrames ≤ 2 ^ 18)
    (done : pagingCreateAddressSpace memory = some (memory', pd)) :
    ∃ found, pd = found * 4096 ∧ found < memory.pmm.totalFrames ∧
      memory.pmm.used found = false ∧
      (∀ earlier < found, memory.pmm.used earlier = true) ∧
      memory'.pmm.totalFrames = memory.pmm.totalFrames ∧
      (∀ frame, memory'.pmm.used frame =
        (memory.pmm.used frame || decide (frame = found))) ∧
      memory'.kernelDirectory = memory.kernelDirectory ∧
      (∀ index < kernelPdeStart, memory'.entry pd index = 0) ∧
      (IsFrame memory.kernelDirectory → memory.kernelDirectory ≠ pd →
        ∀ index, kernelPdeStart ≤ index → index < 1024 →
          memory'.entry pd index =
            memory.entry memory.kernelDirectory index) ∧
      ∀ frame, IsFrame frame → frame ≠ pd →
        FrameKept memory memory' frame := by
  simp only [pagingCreateAddressSpace, Option.bind_eq_bind,
    Option.pure_def, Option.bind_eq_some_iff, Option.some.injEq,
    Prod.mk.injEq] at done
  obtain ⟨⟨taken, pd'⟩, alloc, memoryEq, pdEq⟩ := done
  subst pdEq
  obtain ⟨found, place, inside, free, first, total, used⟩ :=
    allocFrame_spec small alloc
  obtain ⟨mem, kernel, _⟩ := allocFrame_mem alloc
  have isPd : IsFrame pd' := by
    rw [place]
    exact isFrame_mul (by omega)
  have page : FrameKept memory taken pd' := .of_mem mem
  subst memoryEq
  refine ⟨found, place, inside, free, first, ?_, fun frame => ?_, ?_,
    fun index low => ?_, fun isKernel different index lower upper => ?_,
    fun frame isFrame different => ?_⟩
  · rw [Pmm.totalFrames, copyEntries_pmm.1]
    exact total
  · rw [copyEntries_pmm.1]
    exact used frame
  · rw [copyEntries_pmm.2]
    exact kernel
  · rw [copyEntries_below low]
    exact entry_clearPage_same (by
      rw [kernelPdeStart] at low
      omega)
  · have base : (taken.clearPage pd').kernelDirectory =
        memory.kernelDirectory := kernel
    rw [copyEntries_entry isPd (base ▸ isKernel) (base ▸ different)
      (by decide) lower (by rw [kernelPdeStart]; omega), base]
    exact ((FrameKept.of_mem mem).trans
      (clearPage_kept isPd isKernel different)).entry upper
  · exact ((FrameKept.of_mem mem).trans
      (clearPage_kept isPd isFrame different)).trans
      (copyEntries_kept isPd isFrame different (by decide))

end Create

/-- What storing a page entry through the directory entry `pde'` changes,
from the memory in which the directory still holds another entry. -/
structure Mapped (memory memory' : Memory) (pd table vaddr pde pte : Nat) :
    Prop where
  directory : memory'.entry pd (pdIndex vaddr) = pde
  directories : ∀ index < 1024, index ≠ pdIndex vaddr →
    memory'.entry pd index = memory.entry pd index
  page : memory'.entry table (ptIndex vaddr) = pte
  kernel : memory'.kernelDirectory = memory.kernelDirectory
  kept : ∀ frame, IsFrame frame → frame ≠ pd → frame ≠ table →
    FrameKept memory memory' frame

/-- Storing the two entries one after the other. -/
theorem mapEntry_mapped (memory : Memory) (paddr flags : Nat)
    {pde table : Nat} (isPd : IsFrame pd)
    (isTable : IsFrame table) (different : table ≠ pd)
    (target : frameOf pde = table) (bound : pde < 2 ^ 32)
    (small : pdIndex vaddr < 1024) (page : frameOf paddr < 2 ^ 32) :
    Mapped memory
      (mapEntry (memory.putEntry pd (pdIndex vaddr) pde) pd vaddr paddr
        flags) pd table vaddr pde (pageEntry paddr flags) ∧
      ∀ index < 1024, index ≠ ptIndex vaddr →
        (mapEntry (memory.putEntry pd (pdIndex vaddr) pde) pd vaddr paddr
          flags).entry table index = memory.entry table index := by
  have stored : (memory.putEntry pd (pdIndex vaddr) pde).entry pd
      (pdIndex vaddr) = pde := entry_putEntry_same bound
  have shape : mapEntry (memory.putEntry pd (pdIndex vaddr) pde) pd vaddr
      paddr flags = (memory.putEntry pd (pdIndex vaddr) pde).putEntry
        table (ptIndex vaddr) (pageEntry paddr flags) := by
    rw [mapEntry, stored, target]
    rfl
  have directory : ∀ frame, IsFrame frame → frame ≠ pd →
      FrameKept memory (memory.putEntry pd (pdIndex vaddr) pde) frame :=
    fun frame isFrame other => putEntry_kept isPd isFrame small other
  have table' : ∀ frame, IsFrame frame → frame ≠ table →
      FrameKept (memory.putEntry pd (pdIndex vaddr) pde)
        ((memory.putEntry pd (pdIndex vaddr) pde).putEntry table
          (ptIndex vaddr) (pageEntry paddr flags)) frame :=
    fun frame isFrame other => putEntry_kept isTable isFrame ptIndex_lt other
  rw [shape]
  refine ⟨⟨?_, fun index below other => ?_, ?_, rfl,
    fun frame isFrame notPd notTable => ?_⟩, fun index below other => ?_⟩
  · rw [(table' pd isPd different.symm).entry small, stored]
  · rw [(table' pd isPd different.symm).entry below,
      entry_putEntry_index other]
  · exact entry_putEntry_same (pageEntry_lt page)
  · exact (directory frame isFrame notPd).trans
      (table' frame isFrame notTable)
  · rw [entry_putEntry_index other]
    exact (directory table isTable different).entry below

/-- Mapping a page through a table that exists. -/
theorem pagingMapPage_present (flags : Nat) {pde table : Nat}
    (isPd : IsFrame pd)
    (isTable : IsFrame table) (different : table ≠ pd)
    (small : pdIndex vaddr < 1024)
    (entry : memory.entry pd (pdIndex vaddr) = pde)
    (target : frameOf pde = table) (present : isPresent pde = true)
    (page : frameOf paddr < 2 ^ 32) :
    ∃ memory', pagingMapPage memory pd vaddr paddr flags =
        some (memory', 0) ∧ memory'.pmm = memory.pmm ∧
      Mapped memory memory' pd table vaddr
        (if isUser flags then pde ||| pageUser else pde)
        (pageEntry paddr flags) ∧
      ∀ index < 1024, index ≠ ptIndex vaddr →
        memory'.entry table index = memory.entry table index := by
  have bound : pde < 2 ^ 32 := entry ▸ entry_lt
  rw [pagingMapPage]
  simp only [entry, present, not_true_eq_false, if_false]
  by_cases user : isUser flags = true
  · obtain ⟨mapped, others⟩ := mapEntry_mapped memory paddr flags isPd
      isTable different ((frameOf_or pde pageUser (by decide)).trans target)
      (Nat.or_lt_two_pow bound (by decide)) small page
    simp only [user, if_true]
    exact ⟨_, rfl, rfl, mapped, others⟩
  · obtain ⟨mapped, others⟩ := mapEntry_mapped memory paddr flags isPd
      isTable different target bound small page
    have same : memory.putEntry pd (pdIndex vaddr) pde = memory := by
      rw [← entry]
      exact putEntry_self
    rw [same] at mapped others
    simp only [user, if_false]
    exact ⟨_, rfl, rfl, mapped, others⟩

/-- Mapping a page through a table in a frame that has been taken for it. -/
theorem pagingMapPage_taken {taken : Memory} {pt : Nat} (flags : Nat)
    (isPd : IsFrame pd) (isTable : IsFrame pt) (different : pt ≠ pd)
    (nonzero : pt ≠ 0) (small : pdIndex vaddr < 1024)
    (absent : isPresent (memory.entry pd (pdIndex vaddr)) = false)
    (page : frameOf paddr < 2 ^ 32)
    (alloc : memory.allocFrame = some (taken, pt)) :
    ∃ memory', pagingMapPage memory pd vaddr paddr flags =
        some (memory', 0) ∧ memory'.pmm = taken.pmm ∧
      Mapped memory memory' pd pt vaddr (tableEntry pt flags)
        (pageEntry paddr flags) ∧
      ∀ index < 1024, index ≠ ptIndex vaddr →
        memory'.entry pt index = 0 := by
  obtain ⟨mem, kernel, _⟩ := allocFrame_mem alloc
  have bound : tableEntry pt flags < 2 ^ 32 := tableEntry_lt isTable
  obtain ⟨mapped, others⟩ := mapEntry_mapped (taken.clearPage pt) paddr
    flags isPd isTable different (frameOf_tableEntry isTable) bound small
    page
  have cleared : ∀ frame, IsFrame frame → frame ≠ pt →
      FrameKept memory (taken.clearPage pt) frame :=
    fun frame isFrame other =>
      (FrameKept.of_mem mem).trans (clearPage_kept isTable isFrame other)
  rw [pagingMapPage]
  simp only [absent, Bool.false_eq_true, not_false_iff, if_true, alloc,
    Option.bind_eq_bind, Option.bind_some, Option.pure_def, nonzero,
    if_false]
  refine ⟨_, rfl, rfl, ⟨mapped.directory, fun index below other => ?_,
      mapped.page, mapped.kernel.trans kernel,
      fun frame isFrame notPd notTable => ?_⟩,
    fun index below other => ?_⟩
  · exact (mapped.directories index below other).trans
      ((cleared pd isPd different.symm).entry below)
  · exact (cleared frame isFrame notTable).trans
      (mapped.kept frame isFrame notPd notTable)
  · exact (others index below other).trans (entry_clearPage_same below)

/-- A call that needs a new table returns zero only with a frame for it. -/
theorem pagingMapPage_alloc {code : Nat}
    (absent : isPresent (memory.entry pd (pdIndex vaddr)) = false)
    (done : pagingMapPage memory pd vaddr paddr flags =
      some (memory', code)) :
    ∃ taken pt, memory.allocFrame = some (taken, pt) ∧
      (code = 0 → pt ≠ 0) := by
  rw [pagingMapPage] at done
  simp only [absent, Bool.false_eq_true, not_false_iff, if_true,
    Option.bind_eq_bind, Option.pure_def, Option.bind_eq_some_iff] at done
  obtain ⟨⟨taken, pt⟩, alloc, rest⟩ := done
  refine ⟨taken, pt, alloc, fun zero none => ?_⟩
  simp only [none, if_true, Option.some.injEq, Prod.mk.injEq] at rest
  omega

/-- Mapping a page that needs a new table. -/
theorem pagingMapPage_absent {code : Nat} (isPd : IsFrame pd)
    (tables : memory.pmm.totalFrames ≤ 2 ^ 18)
    (marked : memory.pmm.used (pd / 4096) = true)
    (zero : memory.pmm.used 0 = true)
    (small : pdIndex vaddr < 1024)
    (absent : isPresent (memory.entry pd (pdIndex vaddr)) = false)
    (page : frameOf paddr < 2 ^ 32)
    (done : pagingMapPage memory pd vaddr paddr flags =
      some (memory', code)) :
    code = 0 ∧ ∃ found, found < memory.pmm.totalFrames ∧
      memory.pmm.used found = false ∧
      memory'.pmm.totalFrames = memory.pmm.totalFrames ∧
      (∀ frame, memory'.pmm.used frame =
        (memory.pmm.used frame || decide (frame = found))) ∧
      Mapped memory memory' pd (found * 4096) vaddr
        (tableEntry (found * 4096) flags) (pageEntry paddr flags) ∧
      ∀ index < 1024, index ≠ ptIndex vaddr →
        memory'.entry (found * 4096) index = 0 := by
  obtain ⟨taken, pt, alloc, _⟩ := pagingMapPage_alloc absent done
  obtain ⟨found, place, inside, free, first, total, used⟩ :=
    allocFrame_spec tables alloc
  have nonzero : pt ≠ 0 := by
    intro none
    have same : found = 0 := by omega
    rw [same, zero] at free
    simp at free
  have isTable : IsFrame pt := by
    rw [place]
    exact isFrame_mul (by omega)
  have different : pt ≠ pd := by
    intro same
    have frame : pd / 4096 = found := by omega
    rw [frame, free] at marked
    simp at marked
  obtain ⟨memory'', done', pmm, mapped, others⟩ := pagingMapPage_taken flags
    isPd isTable different nonzero small absent page alloc
  rw [done] at done'
  simp only [Option.some.injEq, Prod.mk.injEq] at done'
  obtain ⟨same, isCode⟩ := done'
  subst same
  refine ⟨isCode, found, inside, free, ?_, fun frame => ?_, ?_⟩
  · rw [Pmm.totalFrames, pmm]
    exact total
  · rw [pmm]
    exact used frame
  · rw [← place]
    exact ⟨mapped, others⟩

end LoafOs
