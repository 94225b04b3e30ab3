import LoafOs.Mm.SpaceRun
import Mathlib.Data.Finset.Card
import Mathlib.Data.Finset.Image

/-!
# Room for the frames of an address space

The frames that an address space takes are counted by the roles they play,
so a bound on the pages it can hold bounds the frames it can take.  First
fit takes them from below: a frame above enough free ones stays free.
-/

namespace LoafOs

open Memory

variable {start memory memory' taken : Memory}
  {pd vaddr frame flags bound addr code page : Nat} {pages : Finset Nat}

/-- The frames below a bound that are not marked. -/
def freeBelow (pmm : Pmm) (bound : Nat) : Finset Nat :=
  (Finset.range bound).filter fun frame => pmm.used frame = false

theorem mem_freeBelow {pmm : Pmm} :
    frame ∈ freeBelow pmm bound ↔ frame < bound ∧ pmm.used frame = false := by
  rw [freeBelow, Finset.mem_filter, Finset.mem_range]

/-- An allocation takes one free frame, and a low one while there is one. -/
theorem allocFrame_room (small : memory.pmm.totalFrames ≤ 2 ^ 18)
    (room : 0 < (freeBelow memory.pmm bound).card)
    (done : memory.allocFrame = some (taken, addr)) :
    addr / 4096 < bound ∧ (freeBelow memory.pmm bound).card ≤
      (freeBelow taken.pmm bound).card + 1 := by
  obtain ⟨found, place, _, _, first, _, used⟩ := allocFrame_spec small done
  obtain ⟨low, member⟩ := Finset.card_pos.mp room
  obtain ⟨below, free⟩ := mem_freeBelow.mp member
  have least : found ≤ low := by
    by_contra later
    rw [first low (by omega)] at free
    simp at free
  refine ⟨by omega, ?_⟩
  have split : freeBelow memory.pmm bound ⊆
      insert found (freeBelow taken.pmm bound) := by
    intro frame member
    obtain ⟨inside, unmarked⟩ := mem_freeBelow.mp member
    rw [Finset.mem_insert, mem_freeBelow, used, unmarked]
    by_cases same : frame = found
    · exact .inl same
    · exact .inr ⟨inside, by simp [same]⟩
  exact (Finset.card_le_card split).trans (Finset.card_insert_le _ _)

/-- There is a frame to allocate when one is free. -/
theorem allocFrame_some (small : memory.pmm.totalFrames ≤ 2 ^ 18)
    (room : 0 < (freeBelow memory.pmm memory.pmm.totalFrames).card) :
    ∃ taken addr, memory.allocFrame = some (taken, addr) := by
  obtain ⟨low, member⟩ := Finset.card_pos.mp room
  obtain ⟨below, free⟩ := mem_freeBelow.mp member
  rcases memory.pmm.allocFrame_cases (by omega) with
    ⟨found, _, _, _, result⟩ | ⟨full, _⟩
  · rw [Memory.allocFrame, result]
    exact ⟨_, _, rfl⟩
  · rw [full low below] at free
    simp at free

theorem allocFrame_grows (small : memory.pmm.totalFrames ≤ 2 ^ 18)
    (done : memory.allocFrame = some (taken, addr))
    (marked : memory.pmm.used frame = true) :
    taken.pmm.used frame = true := by
  obtain ⟨_, _, _, _, _, _, used⟩ := allocFrame_spec small done
  rw [used, marked, Bool.true_or]

/-- A frame with a free one below it is not taken. -/
theorem allocFrame_avoids (small : memory.pmm.totalFrames ≤ 2 ^ 18)
    (room : 0 < (freeBelow memory.pmm frame).card)
    (done : memory.allocFrame = some (taken, addr))
    (free : memory.pmm.used frame = false) :
    taken.pmm.used frame = false := by
  obtain ⟨below, _⟩ := allocFrame_room small room done
  obtain ⟨found, place, _, _, _, _, used⟩ := allocFrame_spec small done
  have different : frame ≠ found := by omega
  rw [used, free]
  simp [different]

/-! ## The roles that an address space may use -/

/-- The roles of an address space in which only these pages are mapped. -/
def spaceRoles (pages : Finset Nat) : Finset Role :=
  insert .directory
    (pages.image (fun page => Role.table (page / 1024)) ∪
      pages.image fun page => Role.page (page / 1024) (page % 1024))

/-- The frames that these pages and their tables need, with the
directory. -/
def neededFrames (pages : Finset Nat) : Nat :=
  1 + (pages.image (· / 1024)).card + pages.card

theorem card_spaceRoles :
    (spaceRoles pages).card ≤ neededFrames pages := by
  have tables : pages.image (fun page => Role.table (page / 1024)) =
      (pages.image (· / 1024)).image Role.table := by
    rw [Finset.image_image]
    rfl
  refine (Finset.card_insert_le _ _).trans ?_
  have union := Finset.card_union_le
    (pages.image (fun page => Role.table (page / 1024)))
    (pages.image fun page => Role.page (page / 1024) (page % 1024))
  rw [tables] at union ⊢
  have left : ((pages.image (· / 1024)).image Role.table).card ≤ _ :=
    Finset.card_image_le
  have right : (pages.image fun page =>
      Role.page (page / 1024) (page % 1024)).card ≤ pages.card :=
    Finset.card_image_le
  rw [neededFrames]
  omega

/-- Only these pages are mapped, and only their tables exist. -/
def Within (memory : Memory) (pd : Nat) (pages : Finset Nat) : Prop :=
  ∀ role addr, roleFrame memory pd role = some addr →
    role ∈ spaceRoles pages

theorem mem_spaceRoles_table {index : Nat} :
    Role.table index ∈ spaceRoles pages ↔
      ∃ page ∈ pages, page / 1024 = index := by
  simp [spaceRoles]

theorem mem_spaceRoles_page {index entry : Nat} :
    Role.page index entry ∈ spaceRoles pages ↔
      ∃ page ∈ pages, page / 1024 = index ∧ page % 1024 = entry := by
  simp [spaceRoles]

/-- The frames with a role make up what has been taken from below a
bound. -/
theorem SpaceOk.room (ok : SpaceOk start pd memory) {roles : Finset Role}
    (within : ∀ role addr, roleFrame memory pd role = some addr →
      role ∈ roles) :
    (freeBelow start.pmm bound).card ≤
      (freeBelow memory.pmm bound).card + roles.card := by
  have cover : freeBelow start.pmm bound ⊆
      freeBelow memory.pmm bound ∪
        roles.image fun role => (roleFrame memory pd role).getD 0 / 4096 := by
    intro frame member
    obtain ⟨below, free⟩ := mem_freeBelow.mp member
    rw [Finset.mem_union, mem_freeBelow, Finset.mem_image]
    cases now : memory.pmm.used frame with
    | false => exact .inl ⟨below, rfl⟩
    | true =>
        rcases (ok.owned.used frame).mp now with old | ⟨role, holds⟩
        · rw [free] at old
          simp at old
        · refine .inr ⟨role, within role _ holds, ?_⟩
          rw [holds, Option.getD_some, Nat.mul_div_cancel _ (by decide)]
  refine (Finset.card_le_card cover).trans ?_
  refine (Finset.card_union_le _ _).trans ?_
  exact Nat.add_le_add_left Finset.card_image_le _

/-- The frames that mapping a page at an address takes. -/
def pageNeed (memory : Memory) (pd vaddr : Nat) : Nat :=
  if isPresent (memory.entry pd (pdIndex vaddr)) then 1 else 2

/-- A wanted page that is not mapped yet finds its frames below a bound that
has room for all of them. -/
theorem SpaceOk.room_page (ok : SpaceOk start pd memory)
    (within : Within memory pd pages)
    (wanted : vaddr / 4096 ∈ pages)
    (unmapped : pagingWalk memory pd vaddr = none)
    (room : neededFrames pages ≤ (freeBelow start.pmm bound).card) :
    pageNeed memory pd vaddr ≤ (freeBelow memory.pmm bound).card := by
  have pageRole : Role.page (pdIndex vaddr) (ptIndex vaddr) ∈
      spaceRoles pages := by
    refine mem_spaceRoles_page.mpr ⟨_, wanted, ?_, ?_⟩
    · simp only [pdIndex]
      omega
    · rfl
  have tableRole : Role.table (pdIndex vaddr) ∈ spaceRoles pages := by
    refine mem_spaceRoles_table.mpr ⟨_, wanted, ?_⟩
    simp only [pdIndex]
    omega
  have total : (spaceRoles pages).card ≤ neededFrames pages :=
    card_spaceRoles
  have notPage := walk_none unmapped
  rw [pageNeed]
  cases present : isPresent (memory.entry pd (pdIndex vaddr)) with
  | true =>
      have others : (freeBelow start.pmm bound).card ≤
          (freeBelow memory.pmm bound).card +
            ((spaceRoles pages).erase
              (.page (pdIndex vaddr) (ptIndex vaddr))).card :=
        ok.room fun role addr holds => Finset.mem_erase.mpr
          ⟨fun same => by rw [same, notPage] at holds; simp at holds,
            within role addr holds⟩
      rw [Finset.card_erase_of_mem pageRole] at others
      have positive := Finset.card_pos.mpr ⟨_, pageRole⟩
      rw [if_pos rfl]
      omega
  | false =>
      have notTable : roleFrame memory pd (.table (pdIndex vaddr)) =
          none := if_neg fun all => by simp [present] at all
      have others : (freeBelow start.pmm bound).card ≤
          (freeBelow memory.pmm bound).card +
            (((spaceRoles pages).erase
              (.page (pdIndex vaddr) (ptIndex vaddr))).erase
                (.table (pdIndex vaddr))).card :=
        ok.room fun role addr holds => Finset.mem_erase.mpr
          ⟨fun same => by rw [same, notTable] at holds; simp at holds,
            Finset.mem_erase.mpr
              ⟨fun same => by rw [same, notPage] at holds; simp at holds,
                within role addr holds⟩⟩
      have rest : Role.table (pdIndex vaddr) ∈ (spaceRoles pages).erase
          (.page (pdIndex vaddr) (ptIndex vaddr)) :=
        Finset.mem_erase.mpr ⟨by simp, tableRole⟩
      rw [Finset.card_erase_of_mem rest,
        Finset.card_erase_of_mem pageRole] at others
      have positive := Finset.card_pos.mpr ⟨_, rest⟩
      rw [Finset.card_erase_of_mem pageRole] at positive
      simp only [Bool.false_eq_true, if_false]
      omega

/-! ## Mapping a page within the room -/

/-- Mapping a page marks frames and clears none. -/
theorem pagingMapPage_grows {paddr : Nat}
    (small : memory.pmm.totalFrames ≤ 2 ^ 18)
    (done : pagingMapPage memory pd vaddr paddr flags =
      some (memory', code))
    (marked : memory.pmm.used frame = true) :
    memory'.pmm.used frame = true := by
  rw [pagingMapPage] at done
  simp only at done
  split at done
  · simp only [Option.bind_eq_bind, Option.pure_def,
      Option.bind_eq_some_iff] at done
    obtain ⟨⟨taken, pt⟩, alloc, rest⟩ := done
    have grown := allocFrame_grows small alloc marked
    split at rest <;>
      simp only [Option.some.injEq, Prod.mk.injEq] at rest <;>
      exact rest.1 ▸ grown
  · split at done <;>
      simp only [Option.some.injEq, Prod.mk.injEq] at done <;>
      exact done.1 ▸ marked

/-- Mapping a page succeeds when there is a frame for a new table. -/
theorem pagingMapPage_some (paddr flags : Nat)
    (small : memory.pmm.totalFrames ≤ 2 ^ 18)
    (room : isPresent (memory.entry pd (pdIndex vaddr)) = false →
      0 < (freeBelow memory.pmm memory.pmm.totalFrames).card) :
    ∃ memory' code, pagingMapPage memory pd vaddr paddr flags =
      some (memory', code) := by
  rw [pagingMapPage]
  cases present : isPresent (memory.entry pd (pdIndex vaddr)) with
  | false =>
      obtain ⟨taken, pt, alloc⟩ := allocFrame_some small (room present)
      simp only [Bool.false_eq_true, not_false_iff, if_true,
        Option.bind_eq_bind, Option.pure_def, alloc, Option.bind_some]
      split <;> exact ⟨_, _, rfl⟩
  | true =>
      simp only [not_true_eq_false, if_false]
      split <;> exact ⟨_, _, rfl⟩

/-- Mapping a page leaves a frame free when a free one lies below it. -/
theorem pagingMapPage_avoids {paddr : Nat}
    (small : memory.pmm.totalFrames ≤ 2 ^ 18)
    (room : isPresent (memory.entry pd (pdIndex vaddr)) = false →
      0 < (freeBelow memory.pmm frame).card)
    (done : pagingMapPage memory pd vaddr paddr flags =
      some (memory', code))
    (free : memory.pmm.used frame = false) :
    memory'.pmm.used frame = false := by
  rw [pagingMapPage] at done
  cases present : isPresent (memory.entry pd (pdIndex vaddr)) with
  | false =>
      simp only [present, Bool.false_eq_true, not_false_iff, if_true,
        Option.bind_eq_bind, Option.pure_def,
        Option.bind_eq_some_iff] at done
      obtain ⟨⟨taken, pt⟩, alloc, rest⟩ := done
      have still := allocFrame_avoids small (room present) alloc free
      split at rest <;>
        simp only [Option.some.injEq, Prod.mk.injEq] at rest <;>
        exact rest.1 ▸ still
  | true =>
      simp only [present, not_true_eq_false, if_false] at done
      split at done <;>
        simp only [Option.some.injEq, Prod.mk.injEq] at done <;>
        exact done.1 ▸ free

end LoafOs
