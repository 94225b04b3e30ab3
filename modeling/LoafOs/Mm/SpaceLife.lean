import LoafOs.Mm.SpaceRun

/-!
# What an address space leaves behind

Destroying an address space frees each of its frames once and brings the
bitmap back; the tables that other address spaces and the kernel hold in
marked frames keep their translations throughout.
-/

namespace LoafOs

open Memory Runs

variable {start memory memory' : Memory} {pd vaddr paddr index count : Nat}

theorem pageFrames_nodup {pt : Nat}
    (single : ∀ entry entry', entry < index + count →
      entry' < index + count →
      isPresent (memory.entry pt entry) = true →
      isPresent (memory.entry pt entry') = true →
      frameOf (memory.entry pt entry) = frameOf (memory.entry pt entry') →
      entry = entry') :
    (pageFrames memory pt index count).Nodup := by
  induction count generalizing index with
  | zero => exact .nil
  | succ count inductionHypothesis =>
      have tail : (pageFrames memory pt (index + 1) count).Nodup :=
        inductionHypothesis fun entry entry' below below' =>
          single entry entry' (by omega) (by omega)
      rw [pageFrames]
      split
      · next present =>
          refine List.nodup_cons.mpr ⟨fun again => ?_, tail⟩
          obtain ⟨entry, lower, upper, present', same⟩ :=
            mem_pageFrames.mp again
          have equal := single index entry (by omega) (by omega) present
            present' same
          omega
      · exact tail

/-- No frame is freed twice. -/
theorem SpaceOk.tableFrames_nodup (ok : SpaceOk start pd memory) :
    (tableFrames memory pd index count).Nodup := by
  induction count generalizing index with
  | zero => exact .nil
  | succ count inductionHypothesis =>
      rw [tableFrames]
      split
      · next here =>
          obtain ⟨present, low⟩ := here
          have role := roleFrame_table low present
          have pageRole : ∀ entry < 1024,
              isPresent (memory.entry (frameOf (memory.entry pd index))
                entry) = true →
              roleFrame memory pd (.page index entry) =
                some (frameOf (memory.entry
                  (frameOf (memory.entry pd index)) entry)) :=
            fun entry small page => roleFrame_page low small present page
          have pages : (pageFrames memory (frameOf (memory.entry pd index))
              0 1024).Nodup := by
            refine pageFrames_nodup fun entry entry' below below' page page'
              same => ?_
            have clash := ok.owned.single _ _ _
              (pageRole entry (by omega) page)
              (by rw [same]; exact pageRole entry' (by omega) page')
            simp only [Role.page.injEq, true_and] at clash
            exact clash
          have front : (pageFrames memory (frameOf (memory.entry pd index))
              0 1024 ++ [frameOf (memory.entry pd index)]).Nodup := by
            refine List.nodup_append.mpr ⟨pages, by simp,
              fun addr inPages other isTable same => ?_⟩
            rw [List.mem_singleton] at isTable
            obtain ⟨entry, _, small, page, pageEq⟩ :=
              mem_pageFrames.mp inPages
            have clash := ok.owned.single _ _ _
              (pageRole entry (by omega) page)
              (by rw [← pageEq, same, isTable]; exact role)
            simp at clash
          refine List.nodup_append.mpr ⟨front, inductionHypothesis,
            fun addr inFront other inRest same => ?_⟩
          obtain ⟨table, lower, _, later⟩ := mem_tableFrames.mp inRest
          rw [← same] at later
          have early : roleFrame memory pd (.table index) = some addr ∨
              ∃ entry,
                roleFrame memory pd (.page index entry) = some addr := by
            rcases List.mem_append.mp inFront with inPages | isTable
            · obtain ⟨entry, _, small, page, pageEq⟩ :=
                mem_pageFrames.mp inPages
              exact .inr ⟨entry, pageEq ▸ pageRole entry (by omega) page⟩
            · rw [List.mem_singleton] at isTable
              exact .inl (isTable ▸ role)
          rcases early with early | ⟨entry, early⟩
          · rcases later with later | ⟨entry', later⟩
            · have clash := ok.owned.single _ _ _ early later
              simp only [Role.table.injEq] at clash
              omega
            · have clash := ok.owned.single _ _ _ early later
              simp at clash
          · rcases later with later | ⟨entry', later⟩
            · have clash := ok.owned.single _ _ _ early later
              simp at clash
            · have clash := ok.owned.single _ _ _ early later
              simp only [Role.page.injEq] at clash
              omega
      · exact inductionHypothesis

theorem SpaceOk.spaceFrames_nodup (ok : SpaceOk start pd memory) :
    (spaceFrames memory pd).Nodup := by
  refine List.nodup_append.mpr ⟨ok.tableFrames_nodup,
    by simp, fun addr inTables other isPd same => ?_⟩
  rw [List.mem_singleton] at isPd
  obtain ⟨table, _, _, role⟩ := mem_tableFrames.mp inTables
  rw [same, isPd] at role
  rcases role with isTable | ⟨entry, isPage⟩
  · have clash := ok.owned.single _ .directory _ isTable rfl
    simp at clash
  · have clash := ok.owned.single _ .directory _ isPage rfl
    simp at clash

/-- Destroying the address space brings the bitmap back. -/
theorem SpaceOk.destroy (ok : SpaceOk start pd memory) :
    (pagingDestroyAddressSpace memory pd).pmm = start.pmm := by
  rw [pagingDestroy_eq]
  have frames : ∀ addr ∈ spaceFrames memory pd, IsFrame addr := by
    intro addr member
    obtain ⟨role, holds⟩ := mem_spaceFrames.mp member
    exact (ok.owned.frame role addr holds).1
  have bits : ∀ frame,
      ((spaceFrames memory pd).foldl freeFrame memory).pmm.used frame =
        start.pmm.used frame := by
    intro frame
    rw [Bool.eq_iff_iff, used_freeAll _ frames, mem_spaceFrames,
      ok.owned.used]
    constructor
    · rintro ⟨old | owned, free⟩
      · exact old
      · exact absurd owned free
    · intro old
      refine ⟨.inl old, fun ⟨role, holds⟩ => ?_⟩
      have unmarked := (ok.owned.frame role _ holds).2
      have frameEq : frame * 4096 / 4096 = frame := by omega
      rw [frameEq, old] at unmarked
      simp at unmarked
  have words := words_eq_of_used bits
  have size : ∀ (frames : List Nat) (memory : Memory),
      (frames.foldl freeFrame memory).pmm.bitmapSize =
        memory.pmm.bitmapSize := by
    intro frames
    induction frames with
    | nil => exact fun _ => rfl
    | cons frame frames inductionHypothesis =>
        exact fun memory => inductionHypothesis (memory.freeFrame frame)
  have total := ok.owned.total
  simp only [Pmm.totalFrames] at total
  have sizes : ((spaceFrames memory pd).foldl freeFrame
      memory).pmm.bitmapSize = start.pmm.bitmapSize := by
    rw [size]
    omega
  generalize ((spaceFrames memory pd).foldl freeFrame memory).pmm = final
    at words sizes
  obtain ⟨finalWords, finalSize⟩ := final
  simp only at words sizes
  rw [words, sizes]

/-- An address space whose directory and tables lie in marked frames. -/
structure SettledSpace (memory : Memory) (pd : Nat) : Prop where
  frame : IsFrame pd
  marked : memory.pmm.used (pd / 4096) = true
  tables : ∀ index < 1024, isPresent (memory.entry pd index) = true →
    IsFrame (frameOf (memory.entry pd index)) ∧
      memory.pmm.used (frameOf (memory.entry pd index) / 4096) = true

theorem SettledSpace.walk (settled : SettledSpace start pd)
    (word : vaddr < 2 ^ 32)
    (kept : ∀ frame, IsFrame frame →
      start.pmm.used (frame / 4096) = true →
      FrameKept start memory frame) :
    pagingWalk memory pd vaddr = pagingWalk start pd vaddr := by
  have small : pdIndex vaddr < 1024 := by
    rw [pdIndex]
    omega
  have directory := (kept pd settled.frame settled.marked).entry small
  rw [pagingWalk, pagingWalk, directory]
  cases present : isPresent (start.entry pd (pdIndex vaddr)) with
  | false => simp
  | true =>
      obtain ⟨isTable, marked⟩ := settled.tables _ small present
      rw [(kept _ isTable marked).entry ptIndex_lt]

/-- What the life of an address space leaves as it was. -/
structure SpaceRestored (start memory : Memory) (pd : Nat) : Prop where
  bitmap : (pagingDestroyAddressSpace memory pd).pmm = start.pmm
  frees : pagingDestroyAddressSpace memory pd =
    (spaceFrames memory pd).foldl freeFrame memory
  once : (spaceFrames memory pd).Nodup
  marked : ∀ addr ∈ spaceFrames memory pd,
    memory.pmm.used (addr / 4096) = true
  unmapped : ∀ vaddr paddr, vaddr < kernelVirtBase →
    pagingWalk memory pd vaddr = some paddr →
    memory.pmm.used (frameOf paddr / 4096) = true
  translations : ∀ other, SettledSpace start other →
    ∀ vaddr < 2 ^ 32,
      pagingWalk memory other vaddr = pagingWalk start other vaddr ∧
      pagingWalk (pagingDestroyAddressSpace memory pd) other vaddr =
        pagingWalk start other vaddr

theorem SpaceOk.restored (ok : SpaceOk start pd memory) :
    SpaceRestored start memory pd := by
  refine ⟨ok.destroy, pagingDestroy_eq, ok.spaceFrames_nodup,
    fun addr member => ?_, fun vaddr paddr user mapped => ?_,
    fun other settled vaddr word => ⟨settled.walk word ok.kept, ?_⟩⟩
  · obtain ⟨role, holds⟩ := mem_spaceFrames.mp member
    exact ok.owned.marked holds
  · exact ok.owned.marked (walk_role user mapped)
  · refine settled.walk word fun frame isFrame marked => ?_
    rw [pagingDestroy_eq]
    exact (ok.kept frame isFrame marked).trans
      (.of_mem (freeAll_mem memory _).1)

/-- An empty memory of 1 MB in which every frame is free. -/
def sampleMemory : Memory := ⟨fun _ => 0, ⟨fun _ => 0, 8⟩, 0⟩

end LoafOs
