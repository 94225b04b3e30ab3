import LoafOs.Lib.Runs
import LoafOs.Mm.SpaceMap

/-!
# The life of an address space

An address space is created, pages are mapped into it, re-flagged, written
and unmapped in any order, and it is destroyed.  Then the bitmap is what it
was, and no frame that was marked before has changed on the way.
-/

namespace LoafOs

open Memory Runs

/-- One operation on an address space. -/
inductive SpaceCall where
  | map (vaddr flags : Nat)
  | remap (vaddr flags : Nat)
  | unmap (vaddr : Nat)
  | store (vaddr offset : Nat) (value : UInt8)

/-- An operation with its effect: a fresh frame is mapped where nothing is
mapped, a page is mapped again to its own frame, a page is unmapped and its
frame freed as `SYS_SBRK` does, or a byte of a page is written. -/
inductive SpaceStep (pd : Nat) : Memory → SpaceCall → Memory → Prop
  | map {memory taken memory' : Memory} {vaddr flags frame code : Nat}
      (user : vaddr < kernelVirtBase)
      (unmapped : pagingWalk memory pd vaddr = none)
      (alloc : memory.allocFrame = some (taken, frame))
      (done : pagingMapPage taken pd vaddr frame flags =
        some (memory', code)) :
      SpaceStep pd memory (.map vaddr flags) memory'
  | remap {memory memory' : Memory} {vaddr flags paddr code : Nat}
      (user : vaddr < kernelVirtBase)
      (mapped : pagingWalk memory pd vaddr = some paddr)
      (done : pagingMapPage memory pd vaddr (frameOf paddr) flags =
        some (memory', code)) :
      SpaceStep pd memory (.remap vaddr flags) memory'
  | unmap {memory : Memory} {vaddr paddr : Nat}
      (user : vaddr < kernelVirtBase)
      (mapped : pagingWalk memory pd vaddr = some paddr) :
      SpaceStep pd memory (.unmap vaddr)
        ((pagingUnmapPage memory pd vaddr).freeFrame (frameOf paddr))
  | store {memory : Memory} {vaddr paddr offset : Nat} {value : UInt8}
      (user : vaddr < kernelVirtBase)
      (mapped : pagingWalk memory pd vaddr = some paddr)
      (small : offset < 4096) :
      SpaceStep pd memory (.store vaddr offset value)
        { memory with
          mem := memory.mem.put (physToVirt (frameOf paddr) + offset) value }

variable {start memory memory' : Memory} {pd vaddr paddr index entry : Nat}

/-! ## Creation -/

theorem owned_empty (small : start.pmm.totalFrames ≤ 2 ^ 18) :
    Owned start.pmm start.pmm fun _ => none :=
  ⟨small, rfl, fun _ _ holds => by simp at holds,
    fun _ _ _ holds => by simp at holds, fun _ => by simp⟩

theorem pagingCreate_ok (small : start.pmm.totalFrames ≤ 2 ^ 18)
    (done : pagingCreateAddressSpace start = some (memory, pd)) :
    SpaceOk start pd memory := by
  obtain ⟨found, place, inside, free, first, total, used, kernel, empty, _,
    kept⟩ := pagingCreate_spec small done
  have absent : ∀ index < kernelPdeStart,
      isPresent (memory.entry pd index) = false := fun index below => by
    rw [empty index below]
    rfl
  have roles : roleFrame memory pd =
      setRole (fun _ => none) .directory (some (found * 4096)) := by
    funext role
    cases role with
    | directory => rw [setRole_same, ← place]; rfl
    | table index =>
        rw [setRole_other (by simp)]
        refine if_neg fun all => ?_
        rw [absent index all.1] at all
        simp at all
    | page index entry =>
        rw [setRole_other (by simp)]
        refine if_neg fun all => ?_
        rw [absent index all.1] at all
        simp at all
  refine ⟨?_, ?_, fun frame isFrame marked => kept frame isFrame ?_, kernel⟩
  · rw [roles]
    exact (owned_empty small).insert rfl inside free total used
  · rcases Nat.eq_zero_or_pos found with none | later
    · exact .inr (by omega)
    · exact .inl (first 0 later)
  · intro same
    have frameEq : frame / 4096 = found := by omega
    rw [frameEq, free] at marked
    simp at marked

/-! ## Writes to pages and unmapping -/

/-- A change to the bytes of one page. -/
theorem SpaceOk.pageWrite (ok : SpaceOk start pd memory)
    {addr : Nat} (role : roleFrame memory pd (.page index entry) = some addr)
    (kept : ∀ frame, IsFrame frame → frame ≠ addr →
      FrameKept memory memory' frame)
    (pmm : memory'.pmm = memory.pmm)
    (kernel : memory'.kernelDirectory = memory.kernelDirectory) :
    SpaceOk start pd memory' ∧
      roleFrame memory' pd = roleFrame memory pd ∧
      (∀ index < 1024, memory'.entry pd index = memory.entry pd index) ∧
      ∀ other < kernelVirtBase,
        pteAt memory' pd other = pteAt memory pd other := by
  have kernelLow : kernelPdeStart = 768 := rfl
  have notPd : pd ≠ addr := by
    intro same
    have clash := ok.owned.single _ .directory _ role (by rw [← same]; rfl)
    simp at clash
  have directory : ∀ index < 1024,
      memory'.entry pd index = memory.entry pd index :=
    fun index below => (kept pd ok.isPd notPd).entry below
  have tables : ∀ index < kernelPdeStart, ∀ entry < 1024,
      isPresent (memory.entry pd index) = true →
      memory'.entry (frameOf (memory.entry pd index)) entry =
        memory.entry (frameOf (memory.entry pd index)) entry := by
    intro index low entry below present
    refine (kept _ (ok.table low present).1 fun same => ?_).entry below
    have clash := ok.owned.single _ _ _ role
      (same ▸ roleFrame_table low present)
    simp at clash
  have roles : roleFrame memory' pd = roleFrame memory pd :=
    roleFrame_congr (fun index low => directory index (by omega)) tables
  refine ⟨ok.change ?_ kernel fun frame isFrame marked =>
    kept frame isFrame (ok.foreign role marked), roles, directory,
    fun other user => ?_⟩
  · rw [roles, pmm]
    exact ok.owned
  · have low := pdIndex_lt user
    have same := directory (pdIndex other) (by omega)
    cases present : isPresent (memory.entry pd (pdIndex other)) with
    | false => rw [pteAt_absent present, pteAt_absent (by rw [same, present])]
    | true =>
        rw [pteAt_present present, pteAt_present (by rw [same, present]),
          same]
        exact tables _ low _ ptIndex_lt present

/-- Taking a page out of the table changes that entry only. -/
theorem SpaceOk.unmap_pageSet (ok : SpaceOk start pd memory)
    (user : vaddr < kernelVirtBase)
    (mapped : pagingWalk memory pd vaddr = some paddr) :
    SpaceOk start pd
        ((pagingUnmapPage memory pd vaddr).freeFrame (frameOf paddr)) ∧
      PageSet memory
        ((pagingUnmapPage memory pd vaddr).freeFrame (frameOf paddr))
        pd vaddr 0 0 ∧
      ∀ index < 1024,
        ((pagingUnmapPage memory pd vaddr).freeFrame
          (frameOf paddr)).entry pd index = memory.entry pd index := by
  have low := pdIndex_lt user
  have kernelLow : kernelPdeStart = 768 := rfl
  obtain ⟨present, _, _⟩ := walk_some mapped
  have role := walk_role user mapped
  obtain ⟨isTable, notPd, _⟩ := ok.table low present
  have shape : pagingUnmapPage memory pd vaddr =
      memory.putEntry (frameOf (memory.entry pd (pdIndex vaddr)))
        (ptIndex vaddr) 0 := by
    rw [pagingUnmapPage]
    simp only [present, not_true_eq_false, if_false]
  have elsewhere : ∀ frame, IsFrame frame →
      frame ≠ frameOf (memory.entry pd (pdIndex vaddr)) →
      FrameKept memory (pagingUnmapPage memory pd vaddr) frame := by
    intro frame isFrame other
    rw [shape]
    exact putEntry_kept isTable isFrame ptIndex_lt other
  have directory := elsewhere pd ok.isPd notPd.symm
  have changed : Mapped memory (pagingUnmapPage memory pd vaddr) pd
      (frameOf (memory.entry pd (pdIndex vaddr))) vaddr
      (memory.entry pd (pdIndex vaddr)) 0 := by
    refine ⟨directory.entry (by omega),
      fun index below _ => directory.entry below, ?_, ?_,
      fun frame isFrame _ notTable => elsewhere frame isFrame notTable⟩
    · rw [shape, entry_putEntry_same (by decide)]
    · rw [shape]
      rfl
  have others : ∀ index < 1024, index ≠ ptIndex vaddr →
      (pagingUnmapPage memory pd vaddr).entry
        (frameOf (memory.entry pd (pdIndex vaddr))) index =
      memory.entry (frameOf (memory.entry pd (pdIndex vaddr))) index :=
    fun index below other => by rw [shape, entry_putEntry_index other]
  have roles := ok.mapped_roles low present changed sameFrame_refl others
  have pmm : (pagingUnmapPage memory pd vaddr).pmm = memory.pmm := by
    rw [shape]
    rfl
  refine ⟨ok.change ?_ changed.kernel fun frame isFrame marked =>
    elsewhere frame isFrame (ok.foreign (roleFrame_table low present) marked),
    ?_, fun index below => directory.entry below⟩
  · have unmapped : roleFrame ((pagingUnmapPage memory pd vaddr).freeFrame
        (frameOf paddr)) pd = roleFrame (pagingUnmapPage memory pd vaddr)
          pd :=
      roleFrame_congr (fun _ _ => rfl) fun _ _ _ _ _ => rfl
    rw [unmapped, roles]
    simp only [Memory.freeFrame, pmm, isPresent_zero, Bool.false_eq_true,
      if_false]
    exact ok.owned.remove role
  · have freed : Mapped memory
        ((pagingUnmapPage memory pd vaddr).freeFrame (frameOf paddr)) pd
        (frameOf (memory.entry pd (pdIndex vaddr))) vaddr
        (memory.entry pd (pdIndex vaddr)) 0 :=
      ⟨changed.directory, changed.directories, changed.page, changed.kernel,
        changed.kept⟩
    refine freed.pageSet ok low rfl present
      (fun other sameTable apart => ?_)
      (fun index below different isPresent' => ?_)
      (fun index entry holds => ?_) (fun absurdUser => ?_)
      fun writable => writable present
    · rw [pteAt, sameTable, present, if_pos rfl]
      exact others _ ptIndex_lt apart
    · exact ok.tables_apart below low isPresent' present different
    · have clash := ok.owned.single _ _ _ holds
        (roleFrame_table low present)
      simp at clash
    · simp [isUser] at absurdUser

theorem SpaceOk.unmap (ok : SpaceOk start pd memory)
    (user : vaddr < kernelVirtBase)
    (mapped : pagingWalk memory pd vaddr = some paddr) :
    SpaceOk start pd
      ((pagingUnmapPage memory pd vaddr).freeFrame (frameOf paddr)) :=
  (ok.unmap_pageSet user mapped).1

theorem SpaceStep.ok {call : SpaceCall} (ok : SpaceOk start pd memory)
    (step : SpaceStep pd memory call memory') : SpaceOk start pd memory' := by
  cases step with
  | map user unmapped alloc done =>
      exact (ok.map user unmapped alloc done).2.1
  | remap user mapped done =>
      obtain ⟨after, result, _, ok', _⟩ := ok.remap _ user mapped
        (frameOf_frameOf _)
      rw [result] at done
      simp only [Option.some.injEq, Prod.mk.injEq] at done
      exact done.1 ▸ ok'
  | unmap user mapped => exact ok.unmap user mapped
  | @store vaddr paddr offset value user mapped small =>
      have role := walk_role user mapped
      have isPage := (ok.owned.frame _ _ role).1
      have kept : ∀ frame, IsFrame frame → frame ≠ frameOf paddr →
          FrameKept memory { memory with
            mem := memory.mem.put
              (physToVirt (frameOf paddr) + offset) value } frame := by
        intro frame isFrame other at' below
        have apart := isFrame.apart isPage other
        exact Bytes.put_other (by omega)
      exact (ok.pageWrite role kept rfl rfl).1

/-! ## Destruction -/

/-- The frames that the inner loop frees. -/
def pageFrames (memory : Memory) (pt index : Nat) : Nat → List Nat
  | 0 => []
  | count + 1 =>
      (if isPresent (memory.entry pt index) then
        [frameOf (memory.entry pt index)] else []) ++
      pageFrames memory pt (index + 1) count

/-- The frames that the outer loop frees. -/
def tableFrames (memory : Memory) (pd index : Nat) : Nat → List Nat
  | 0 => []
  | count + 1 =>
      (if isPresent (memory.entry pd index) ∧ index < kernelPdeStart then
        pageFrames memory (frameOf (memory.entry pd index)) 0 1024 ++
          [frameOf (memory.entry pd index)]
      else []) ++
      tableFrames memory pd (index + 1) count

/-- The frames that destroying an address space frees, in order. -/
def spaceFrames (memory : Memory) (pd : Nat) : List Nat :=
  tableFrames memory pd 0 1024 ++ [pd]

theorem freeAll_mem (memory : Memory) (frames : List Nat) :
    (frames.foldl freeFrame memory).mem = memory.mem ∧
      (frames.foldl freeFrame memory).kernelDirectory =
        memory.kernelDirectory := by
  induction frames generalizing memory with
  | nil => exact ⟨rfl, rfl⟩
  | cons frame frames inductionHypothesis =>
      exact inductionHypothesis (memory.freeFrame frame)

theorem pageFrames_congr {pt count : Nat} (same : memory'.mem = memory.mem) :
    pageFrames memory' pt index count = pageFrames memory pt index count := by
  induction count generalizing index with
  | zero => rfl
  | succ count inductionHypothesis =>
      have entryEq : memory'.entry pt index = memory.entry pt index := by
        simp only [Memory.entry, same]
      rw [pageFrames, pageFrames, inductionHypothesis, entryEq]

theorem tableFrames_congr {count : Nat} (same : memory'.mem = memory.mem) :
    tableFrames memory' pd index count = tableFrames memory pd index count := by
  induction count generalizing index with
  | zero => rfl
  | succ count inductionHypothesis =>
      have entryEq : memory'.entry pd index = memory.entry pd index := by
        simp only [Memory.entry, same]
      rw [tableFrames, tableFrames, inductionHypothesis, entryEq,
        pageFrames_congr same]

theorem freeEntries_eq {pt count : Nat} :
    freeEntries memory pt index count =
      (pageFrames memory pt index count).foldl freeFrame memory := by
  induction count generalizing memory index with
  | zero => rfl
  | succ count inductionHypothesis =>
      rw [freeEntries, pageFrames]
      cases present : isPresent (memory.entry pt index) with
      | false =>
          simp only [Bool.false_eq_true, if_false, List.nil_append]
          exact inductionHypothesis
      | true =>
          simp only [if_true, List.singleton_append, List.foldl_cons]
          rw [inductionHypothesis]
          exact congrArg (List.foldl freeFrame _)
            (pageFrames_congr rfl)

theorem freeTables_eq {count : Nat} :
    freeTables memory pd index count =
      (tableFrames memory pd index count).foldl freeFrame memory := by
  induction count generalizing memory index with
  | zero => rfl
  | succ count inductionHypothesis =>
      rw [freeTables, tableFrames]
      cases present : isPresent (memory.entry pd index) with
      | false =>
          simp only [Bool.false_eq_true, not_false_iff, if_true,
            false_and, if_false, List.nil_append]
          exact inductionHypothesis
      | true =>
          by_cases high : kernelPdeStart ≤ index
          · have notLow : ¬ index < kernelPdeStart := by omega
            simp only [not_true_eq_false, if_false, high, if_true, notLow,
              and_false, List.nil_append]
            exact inductionHypothesis
          · have low : index < kernelPdeStart := by omega
            simp only [not_true_eq_false, if_false, high, low, and_self,
              if_true, List.foldl_append]
            rw [inductionHypothesis, freeEntries_eq]
            refine congrArg (List.foldl freeFrame _)
              (tableFrames_congr ?_)
            exact (freeAll_mem memory _).1

/-- Destroying an address space frees those frames and does nothing else. -/
theorem pagingDestroy_eq :
    pagingDestroyAddressSpace memory pd =
      (spaceFrames memory pd).foldl freeFrame memory := by
  rw [pagingDestroyAddressSpace, freeTables_eq, spaceFrames,
    List.foldl_append]
  rfl

theorem used_freeAll (frames : List Nat)
    (aligned : ∀ addr ∈ frames, IsFrame addr) (frame : Nat) :
    (frames.foldl freeFrame memory).pmm.used frame = true ↔
      memory.pmm.used frame = true ∧ frame * 4096 ∉ frames := by
  induction frames generalizing memory with
  | nil => simp
  | cons first frames inductionHypothesis =>
      have isFrame := (aligned first (List.mem_cons_self ..)).aligned
      have place : Pmm.addrToFrame first = first / 4096 := rfl
      rw [List.foldl_cons, inductionHypothesis fun addr member =>
        aligned addr (List.mem_cons_of_mem _ member), List.mem_cons]
      simp only [Memory.freeFrame, Pmm.freeFrame, Pmm.used_clearFrame,
        Bool.and_eq_true, Bool.not_eq_true', decide_eq_false_iff_not, place,
        not_or, and_assoc]
      refine and_congr Iff.rfl (and_congr ?_ Iff.rfl)
      omega

theorem mem_pageFrames {pt count addr : Nat} :
    addr ∈ pageFrames memory pt index count ↔
      ∃ entry, index ≤ entry ∧ entry < index + count ∧
        isPresent (memory.entry pt entry) = true ∧
        addr = frameOf (memory.entry pt entry) := by
  induction count generalizing index with
  | zero =>
      simp only [pageFrames, List.not_mem_nil, false_iff]
      rintro ⟨entry, lower, upper, _⟩
      omega
  | succ count inductionHypothesis =>
      rw [pageFrames, List.mem_append, inductionHypothesis]
      constructor
      · rintro (here | ⟨entry, lower, upper, rest⟩)
        · split at here
          · next present =>
              rw [List.mem_singleton] at here
              exact ⟨index, Nat.le_refl _, by omega, present, here⟩
          · simp at here
        · exact ⟨entry, by omega, by omega, rest⟩
      · rintro ⟨entry, lower, upper, present, same⟩
        by_cases here : entry = index
        · subst here
          rw [if_pos present]
          exact .inl (by rw [same]; exact List.mem_singleton_self _)
        · exact .inr ⟨entry, by omega, by omega, present, same⟩

/-- The frames freed are the tables and pages with a role. -/
theorem mem_tableFrames {count addr : Nat} :
    addr ∈ tableFrames memory pd index count ↔
      ∃ table, index ≤ table ∧ table < index + count ∧
        (roleFrame memory pd (.table table) = some addr ∨
          ∃ entry, roleFrame memory pd (.page table entry) = some addr) := by
  induction count generalizing index with
  | zero =>
      simp only [tableFrames, List.not_mem_nil, false_iff]
      rintro ⟨entry, lower, upper, _⟩
      omega
  | succ count inductionHypothesis =>
      rw [tableFrames, List.mem_append, inductionHypothesis]
      constructor
      · rintro (here | ⟨table, lower, upper, rest⟩)
        · split at here
          · next present =>
              refine ⟨index, Nat.le_refl _, by omega, ?_⟩
              rcases List.mem_append.mp here with inPages | isTable
              · obtain ⟨entry, _, small, page, same⟩ :=
                  mem_pageFrames.mp inPages
                refine .inr ⟨entry, ?_⟩
                rw [same]
                exact roleFrame_page present.2 (by omega) present.1 page
              · rw [List.mem_singleton] at isTable
                rw [isTable]
                exact .inl (roleFrame_table present.2 present.1)
          · simp at here
        · exact ⟨table, by omega, by omega, rest⟩
      · rintro ⟨table, lower, upper, role⟩
        by_cases here : table = index
        · subst here
          left
          rcases role with isTable | ⟨entry, isPage⟩
          · simp only [roleFrame] at isTable
            split at isTable
            · next all =>
                rw [if_pos ⟨all.2, all.1⟩]
                simp only [Option.some.injEq] at isTable
                rw [← isTable]
                exact List.mem_append_right _ (List.mem_singleton_self _)
            · simp at isTable
          · simp only [roleFrame] at isPage
            split at isPage
            · next all =>
                obtain ⟨low, small, present, page⟩ := all
                rw [if_pos ⟨present, low⟩]
                simp only [Option.some.injEq] at isPage
                exact List.mem_append_left _ (mem_pageFrames.mpr
                  ⟨entry, Nat.zero_le _, by omega, page, isPage.symm⟩)
            · simp at isPage
        · exact .inr ⟨table, by omega, by omega, role⟩

theorem role_table_lt {addr : Nat}
    (holds : roleFrame memory pd (.table index) = some addr) :
    index < 1024 := by
  simp only [roleFrame] at holds
  split at holds
  · next all =>
      have low := all.1
      rw [kernelPdeStart] at low
      omega
  · simp at holds

theorem role_page_lt {addr : Nat}
    (holds : roleFrame memory pd (.page index entry) = some addr) :
    index < 1024 := by
  simp only [roleFrame] at holds
  split at holds
  · next all =>
      have low := all.1
      rw [kernelPdeStart] at low
      omega
  · simp at holds

theorem mem_spaceFrames {addr : Nat} :
    addr ∈ spaceFrames memory pd ↔
      ∃ role, roleFrame memory pd role = some addr := by
  rw [spaceFrames, List.mem_append, mem_tableFrames, List.mem_singleton]
  constructor
  · rintro (⟨table, _, _, isTable | ⟨entry, isPage⟩⟩ | same)
    · exact ⟨_, isTable⟩
    · exact ⟨_, isPage⟩
    · exact ⟨.directory, by rw [same]; rfl⟩
  · rintro ⟨role, holds⟩
    cases role with
    | directory =>
        have same : pd = addr := Option.some.inj holds
        exact .inr same.symm
    | table index =>
        exact .inl ⟨index, Nat.zero_le _, by
          have bound := role_table_lt holds
          omega, .inl holds⟩
    | page index entry =>
        exact .inl ⟨index, Nat.zero_le _, by
          have bound := role_page_lt holds
          omega, .inr ⟨entry, holds⟩⟩

end LoafOs
