import LoafOs.Mm.PagingEntries

/-!
# The frames of an address space

A frame of an address space is its directory, one of its tables or one of
its pages.  Each frame plays one role only, and the frames with a role are
exactly those that were taken from the allocator since the space was
created.
-/

namespace LoafOs

/-- What a frame of an address space is used for. -/
inductive Role where
  | directory
  | table (index : Nat)
  | page (index entry : Nat)
  deriving DecidableEq

/-- The frame that plays a role, read off the tables in memory. -/
def roleFrame (memory : Memory) (pd : Nat) : Role → Option Nat
  | .directory => some pd
  | .table index =>
      let pde := memory.entry pd index
      if index < kernelPdeStart ∧ isPresent pde then some (frameOf pde)
      else none
  | .page index entry =>
      let pde := memory.entry pd index
      let pte := memory.entry (frameOf pde) entry
      if index < kernelPdeStart ∧ entry < 1024 ∧ isPresent pde ∧
          isPresent pte then
        some (frameOf pte)
      else none

/-- The frames with a role are distinct, and the bitmap marks them and the
frames that it marked before. -/
structure Owned (before pmm : Pmm) (roles : Role → Option Nat) : Prop where
  small : before.totalFrames ≤ 2 ^ 18
  total : pmm.totalFrames = before.totalFrames
  frame : ∀ role addr, roles role = some addr →
    IsFrame addr ∧ before.used (addr / 4096) = false
  single : ∀ role role' addr, roles role = some addr →
    roles role' = some addr → role = role'
  used : ∀ frame, pmm.used frame = true ↔
    before.used frame = true ∨ ∃ role, roles role = some (frame * 4096)

/-- The roles after one of them has changed. -/
def setRole (roles : Role → Option Nat) (role : Role)
    (addr : Option Nat) : Role → Option Nat :=
  fun role' => if role' = role then addr else roles role'

section Roles

variable {before pmm pmm' : Pmm} {roles : Role → Option Nat}
  {role role' : Role} {addr frame : Nat}

theorem setRole_same {result : Option Nat} :
    setRole roles role result role = result :=
  if_pos rfl

theorem setRole_other {result : Option Nat} (different : role' ≠ role) :
    setRole roles role result role' = roles role' :=
  if_neg different

theorem Owned.unmarked (owned : Owned before pmm roles)
    (free : pmm.used frame = false) :
    before.used frame = false ∧ ∀ role, roles role ≠ some (frame * 4096) := by
  refine ⟨?_, fun role holds => ?_⟩
  · rw [← Bool.not_eq_true]
    intro marked
    rw [(owned.used frame).mpr (.inl marked)] at free
    simp at free
  · rw [(owned.used frame).mpr (.inr ⟨role, holds⟩)] at free
    simp at free

/-- A frame that was free takes a new role. -/
theorem Owned.insert (owned : Owned before pmm roles)
    (vacant : roles role = none) (inside : frame < pmm.totalFrames)
    (free : pmm.used frame = false)
    (total : pmm'.totalFrames = pmm.totalFrames)
    (used : ∀ other, pmm'.used other =
      (pmm.used other || decide (other = frame))) :
    Owned before pmm' (setRole roles role (some (frame * 4096))) := by
  have small := owned.small
  have same := owned.total
  obtain ⟨unmarked, unowned⟩ := owned.unmarked free
  refine ⟨small, total.trans same, fun role' addr holds => ?_,
    fun left right addr holdsLeft holdsRight => ?_, fun other => ?_⟩
  · by_cases here : role' = role
    · rw [here, setRole_same, Option.some.injEq] at holds
      subst holds
      have back : frame * 4096 / 4096 = frame := by omega
      rw [back]
      exact ⟨isFrame_mul (by omega), unmarked⟩
    · rw [setRole_other here] at holds
      exact owned.frame role' addr holds
  · by_cases hereLeft : left = role
    · by_cases hereRight : right = role
      · exact hereLeft.trans hereRight.symm
      · rw [hereLeft, setRole_same] at holdsLeft
        rw [setRole_other hereRight, ← holdsLeft] at holdsRight
        exact absurd holdsRight (unowned right)
    · by_cases hereRight : right = role
      · rw [hereRight, setRole_same] at holdsRight
        rw [setRole_other hereLeft, ← holdsRight] at holdsLeft
        exact absurd holdsLeft (unowned left)
      · rw [setRole_other hereLeft] at holdsLeft
        rw [setRole_other hereRight] at holdsRight
        exact owned.single left right addr holdsLeft holdsRight
  · rw [used, Bool.or_eq_true, decide_eq_true_iff, owned.used, or_assoc]
    refine or_congr Iff.rfl ⟨fun holds => ?_, fun holds => ?_⟩
    · rcases holds with ⟨role', holds⟩ | same
      · refine ⟨role', ?_⟩
        by_cases here : role' = role
        · rw [here, vacant] at holds
          simp at holds
        · rw [setRole_other here]
          exact holds
      · exact ⟨role, by rw [setRole_same, same]⟩
    · obtain ⟨role', holds⟩ := holds
      by_cases here : role' = role
      · rw [here, setRole_same, Option.some.injEq] at holds
        exact .inr (by omega)
      · rw [setRole_other here] at holds
        exact .inl ⟨role', holds⟩

/-- A frame gives its role back. -/
theorem Owned.remove (owned : Owned before pmm roles)
    (holds : roles role = some addr) :
    Owned before (pmm.freeFrame addr) (setRole roles role none) := by
  obtain ⟨isFrame, unmarked⟩ := owned.frame role addr holds
  have aligned := isFrame.aligned
  refine ⟨owned.small, owned.total, fun role' addr' holds' => ?_,
    fun left right addr' holdsLeft holdsRight => ?_, fun other => ?_⟩
  · by_cases here : role' = role
    · rw [here, setRole_same] at holds'
      simp at holds'
    · rw [setRole_other here] at holds'
      exact owned.frame role' addr' holds'
  · by_cases hereLeft : left = role
    · rw [hereLeft, setRole_same] at holdsLeft
      simp at holdsLeft
    · by_cases hereRight : right = role
      · rw [hereRight, setRole_same] at holdsRight
        simp at holdsRight
      · rw [setRole_other hereLeft] at holdsLeft
        rw [setRole_other hereRight] at holdsRight
        exact owned.single left right addr' holdsLeft holdsRight
  · have place : Pmm.addrToFrame addr = addr / 4096 := rfl
    rw [Pmm.freeFrame, Pmm.used_clearFrame, Bool.and_eq_true,
      Bool.not_eq_true', decide_eq_false_iff_not, owned.used, place]
    refine ⟨fun ⟨marked, different⟩ => ?_, fun marked => ?_⟩
    · rcases marked with old | ⟨role', holds'⟩
      · exact .inl old
      · refine .inr ⟨role', ?_⟩
        by_cases here : role' = role
        · rw [here, holds, Option.some.injEq] at holds'
          exact absurd (by omega) different
        · rw [setRole_other here]
          exact holds'
    · rcases marked with old | ⟨role', holds'⟩
      · refine ⟨.inl old, fun same => ?_⟩
        rw [same, unmarked] at old
        simp at old
      · by_cases here : role' = role
        · rw [here, setRole_same] at holds'
          simp at holds'
        · rw [setRole_other here] at holds'
          refine ⟨.inr ⟨role', holds'⟩, fun same => ?_⟩
          have addrEq : other * 4096 = addr := by omega
          rw [addrEq] at holds'
          exact here (owned.single role' role addr holds' holds)

/-- A frame with a role is marked. -/
theorem Owned.marked (owned : Owned before pmm roles)
    (holds : roles role = some addr) : pmm.used (addr / 4096) = true := by
  have aligned := (owned.frame role addr holds).1.aligned
  refine (owned.used _).mpr (.inr ⟨role, ?_⟩)
  have same : addr / 4096 * 4096 = addr := by omega
  rw [same]
  exact holds

/-- Two bitmaps with the same bits are the same. -/
theorem words_eq_of_used (same : ∀ frame, pmm.used frame = pmm'.used frame) :
    pmm.words = pmm'.words := by
  funext index
  refine BitVec.eq_of_getLsbD_eq fun bit below => ?_
  have bits := same (index * 32 + bit)
  have word : (index * 32 + bit) / 32 = index := by omega
  have place : (index * 32 + bit) % 32 = bit := by omega
  simp only [Pmm.used, word, place] at bits
  exact bits

end Roles

/-! ## How the roles follow the entries -/

section Entries

variable {memory memory' : Memory} {pd index entry : Nat}

/-- Two entries that lead to the same frame. -/
def SameFrame (entry entry' : Nat) : Prop :=
  isPresent entry' = isPresent entry ∧ frameOf entry' = frameOf entry

theorem roleFrame_table_congr
    (same : index < kernelPdeStart →
      SameFrame (memory.entry pd index) (memory'.entry pd index)) :
    roleFrame memory' pd (.table index) =
      roleFrame memory pd (.table index) := by
  by_cases low : index < kernelPdeStart
  · simp only [roleFrame, (same low).1, (same low).2]
  · simp only [roleFrame, low, false_and, if_false]

theorem roleFrame_page_congr
    (same : index < kernelPdeStart →
      SameFrame (memory.entry pd index) (memory'.entry pd index))
    (target : index < kernelPdeStart → entry < 1024 →
      isPresent (memory.entry pd index) = true →
      SameFrame (memory.entry (frameOf (memory.entry pd index)) entry)
        (memory'.entry (frameOf (memory.entry pd index)) entry)) :
    roleFrame memory' pd (.page index entry) =
      roleFrame memory pd (.page index entry) := by
  by_cases user : index < kernelPdeStart ∧ entry < 1024 ∧
      isPresent (memory.entry pd index) = true
  · obtain ⟨low, small, present⟩ := user
    have inner := target low small present
    simp only [roleFrame, (same low).1, (same low).2, inner.1, inner.2]
  · have before : roleFrame memory pd (.page index entry) = none :=
      if_neg fun all => user ⟨all.1, all.2.1, all.2.2.1⟩
    have after : roleFrame memory' pd (.page index entry) = none :=
      if_neg fun all => user ⟨all.1, all.2.1,
        (same all.1).1.symm.trans all.2.2.1⟩
    rw [before, after]

theorem roleFrame_table (low : index < kernelPdeStart)
    (present : isPresent (memory.entry pd index) = true) :
    roleFrame memory pd (.table index) =
      some (frameOf (memory.entry pd index)) :=
  if_pos ⟨low, present⟩

theorem roleFrame_page (low : index < kernelPdeStart)
    (small : entry < 1024)
    (present : isPresent (memory.entry pd index) = true)
    (page : isPresent (memory.entry (frameOf (memory.entry pd index))
      entry) = true) :
    roleFrame memory pd (.page index entry) =
      some (frameOf (memory.entry (frameOf (memory.entry pd index))
        entry)) :=
  if_pos ⟨low, small, present, page⟩

theorem sameFrame_refl {value : Nat} : SameFrame value value :=
  ⟨rfl, rfl⟩

/-- Memories with the same directory entries and tables below the kernel
give the same roles. -/
theorem roleFrame_congr
    (directory : ∀ index < kernelPdeStart,
      memory'.entry pd index = memory.entry pd index)
    (tables : ∀ index < kernelPdeStart, ∀ entry < 1024,
      isPresent (memory.entry pd index) = true →
      memory'.entry (frameOf (memory.entry pd index)) entry =
        memory.entry (frameOf (memory.entry pd index)) entry) :
    roleFrame memory' pd = roleFrame memory pd := by
  funext role
  cases role with
  | directory => rfl
  | table index =>
      refine roleFrame_table_congr fun low => ?_
      rw [directory index low]
      exact sameFrame_refl
  | page index entry =>
      refine roleFrame_page_congr (fun low => ?_)
        fun low small present => ?_
      · rw [directory index low]
        exact sameFrame_refl
      · rw [tables index low entry small present]
        exact sameFrame_refl

end Entries

end LoafOs
