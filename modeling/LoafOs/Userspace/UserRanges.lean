import LoafOs.Userspace.UserReads

/-!
# Validated ranges

`paging_validate_user_range` computes with 32-bit words: the end of the
range, the test for a wrap and the next page of the loop.
-/

namespace LoafOs

/-- The page of an address is present and accessible from user mode, and
writable if it should be. -/
structure PageAllows (memory : Memory) (pd addr : Nat) (needWrite : Bool) :
    Prop where
  table : isPresent (memory.entry pd (pdIndex addr)) = true ∧
    isUser (memory.entry pd (pdIndex addr)) = true
  page : isPresent (pteAt memory pd addr) = true ∧
    isUser (pteAt memory pd addr) = true
  write : needWrite = true → isRw (pteAt memory pd addr) = true

/-- The passes of the loop from `page` on, which ends with a result. -/
inductive ValidateLoop (memory : Memory) (pd stop : Nat)
    (needWrite : Bool) : Nat → Bool → Prop
  | past {page : Nat} (behind : stop < page) :
      ValidateLoop memory pd stop needWrite page true
  | refused {page : Nat} (within : page ≤ stop)
      (bad : validateUserPage memory pd page needWrite = false) :
      ValidateLoop memory pd stop needWrite page false
  | top {page : Nat} (within : page ≤ stop)
      (good : validateUserPage memory pd page needWrite = true)
      (last : 0xfffff000 - pageSize < page) :
      ValidateLoop memory pd stop needWrite page true
  | next {page : Nat} {result : Bool} (within : page ≤ stop)
      (good : validateUserPage memory pd page needWrite = true)
      (notLast : page ≤ 0xfffff000 - pageSize)
      (rest : ValidateLoop memory pd stop needWrite
        (u32 (page + pageSize)) result) :
      ValidateLoop memory pd stop needWrite page result

/-- A call of `paging_validate_user_range` that returns. -/
def ValidateReturns (memory : Memory) (pd vaddr size : Nat)
    (needWrite : Bool) (result : Bool) : Prop :=
  if size = 0 then result = true
  else if u32 (vaddr + size) < vaddr then result = false
  else
    ValidateLoop memory pd
      (u32 (vaddr + size + 2 ^ 32 - 1) / 4096 * 4096) needWrite
      (vaddr / 4096 * 4096) result

section Loop

variable {memory : Memory} {pd vaddr size stop page fuel addr : Nat}
  {needWrite : Bool}

theorem pageAllows_iff :
    PageAllows memory pd addr needWrite ↔
      validateUserPage memory pd addr needWrite = true := by
  rw [validateUserPage]
  cases table : isPresent (memory.entry pd (pdIndex addr)) with
  | false =>
      refine iff_of_false (fun allows => ?_) (by simp)
      cases table.symm.trans allows.table.1
  | true =>
      rw [← pteAt_present table]
      constructor
      · intro allows
        cases needWrite with
        | false => simp [allows.table.2, allows.page.1, allows.page.2]
        | true =>
            simp [allows.table.2, allows.page.1, allows.page.2,
              allows.write rfl]
      · intro valid
        simp only [Bool.true_and, Bool.and_eq_true, Bool.or_eq_true,
          Bool.not_eq_true'] at valid
        obtain ⟨⟨⟨user, present⟩, pageUser⟩, write⟩ := valid
        exact ⟨⟨table, user⟩, ⟨present, pageUser⟩, fun need =>
          write.resolve_left (by simp [need])⟩

theorem validateUserPages_of_all
    (all : ∀ index, page + 4096 * index ≤ stop →
      validateUserPage memory pd (page + 4096 * index) needWrite = true) :
    validateUserPages memory pd stop needWrite fuel page = true := by
  have size : pageSize = 4096 := rfl
  induction fuel generalizing page with
  | zero => rfl
  | succ fuel inductionHypothesis =>
      rw [validateUserPages]
      split
      case isFalse => rfl
      case isTrue within =>
        have here : validateUserPage memory pd page needWrite = true :=
          all 0 within
        rw [if_neg (not_not.mpr here)]
        split
        case isTrue => rfl
        case isFalse =>
          apply inductionHypothesis
          intro index below
          rw [size] at below ⊢
          have onward := all (index + 1) (by omega)
          rwa [show page + 4096 * (index + 1) =
            page + 4096 + 4096 * index by omega] at onward

/-- The loop ends before its counter wraps around. -/
theorem validateLoop_returns (inside : page ≤ 0xfffff000)
    (enough : 2 ^ 32 ≤ page + 4096 * fuel) :
    ValidateLoop memory pd stop needWrite page
      (validateUserPages memory pd stop needWrite fuel page) := by
  have size : pageSize = 4096 := rfl
  induction fuel generalizing page with
  | zero => omega
  | succ fuel inductionHypothesis =>
      rw [validateUserPages]
      split
      case isFalse behind => exact .past (Nat.not_le.mp behind)
      case isTrue within =>
        split
        case isTrue bad =>
          exact .refused within (eq_false_of_ne_true bad)
        case isFalse good =>
          have good := not_not.mp good
          split
          case isTrue last => exact .top within good last
          case isFalse notLast =>
            have below : page + pageSize ≤ 0xfffff000 := by
              rw [size] at notLast ⊢
              omega
            refine .next within good (Nat.not_lt.mp notLast) ?_
            rw [show u32 (page + pageSize) = page + pageSize from
              Nat.mod_eq_of_lt (by omega)]
            exact inductionHypothesis below (by omega)

/-- A call returns, whatever the tables hold. -/
theorem validateReturns (word : vaddr < 2 ^ 32) :
    ValidateReturns memory pd vaddr size needWrite
      (pagingValidateUserRange memory pd vaddr size needWrite) := by
  rw [ValidateReturns, pagingValidateUserRange]
  split
  case isTrue => rfl
  case isFalse =>
    split
    case isTrue => rfl
    case isFalse => exact validateLoop_returns (by omega) (by omega)

theorem validateRange_wraps (some : 0 < size) (small : size < 2 ^ 32)
    (beyond : 2 ^ 32 ≤ vaddr + size) (word : vaddr < 2 ^ 32) :
    pagingValidateUserRange memory pd vaddr size needWrite = false := by
  have wraps : u32 (vaddr + size) < vaddr := by
    rw [u32]
    omega
  rw [pagingValidateUserRange, if_neg (by omega), if_pos wraps]

/-- A range is accepted if each of its bytes is in a page that allows it. -/
theorem validateRange_of_all (inside : vaddr + size < 2 ^ 32)
    (all : ∀ addr, vaddr ≤ addr → addr < vaddr + size →
      PageAllows memory pd addr needWrite) :
    pagingValidateUserRange memory pd vaddr size needWrite = true := by
  rw [pagingValidateUserRange]
  split
  case isTrue => rfl
  case isFalse =>
    have noWrap : ¬ u32 (vaddr + size) < vaddr := by
      rw [u32]
      omega
    have last : u32 (vaddr + size + 2 ^ 32 - 1) = vaddr + size - 1 := by
      rw [u32]
      omega
    rw [if_neg noWrap, last]
    apply validateUserPages_of_all
    intro index below
    -- the first byte of the range in this page
    have byte := all (max vaddr (vaddr / 4096 * 4096 + 4096 * index))
      (Nat.le_max_left _ _) (by omega)
    rw [pageAllows_iff, ← validateUserPage_page] at byte
    rwa [show max vaddr (vaddr / 4096 * 4096 + 4096 * index) / 4096 * 4096 =
      vaddr / 4096 * 4096 + 4096 * index by omega] at byte

end Loop

/-- `paging_validate_user_range` returns, refuses what goes beyond the
address space, and accepts exactly what the pages allow. -/
theorem validateRange_exact (memory : Memory) (pd : Nat)
    (vaddr size : UInt32) (needWrite : Bool) (some : 1 ≤ size.toNat) :
    ValidateReturns memory pd vaddr.toNat size.toNat needWrite
        (pagingValidateUserRange memory pd vaddr.toNat size.toNat
          needWrite) ∧
      (vaddr.toNat + size.toNat < 2 ^ 32 →
        (pagingValidateUserRange memory pd vaddr.toNat size.toNat
            needWrite = true ↔
          ∀ addr, vaddr.toNat ≤ addr → addr < vaddr.toNat + size.toNat →
            PageAllows memory pd addr needWrite)) ∧
      (2 ^ 32 ≤ vaddr.toNat + size.toNat →
        pagingValidateUserRange memory pd vaddr.toNat size.toNat
          needWrite = false) := by
  have word := vaddr.toNat_lt
  have small := size.toNat_lt
  refine ⟨validateReturns word, fun inside => ?_, fun beyond => ?_⟩
  · refine ⟨fun valid addr lower upper => ?_, validateRange_of_all inside⟩
    have byte := validateRange_byte word small valid
      (show addr - vaddr.toNat < size.toNat by omega)
    rw [Nat.add_sub_cancel' lower,
      show u32 addr = addr from Nat.mod_eq_of_lt (by omega)] at byte
    exact pageAllows_iff.mpr byte
  · exact validateRange_wraps some small beyond word

theorem validateRange_sample :
    ValidateReturns (onePage fun _ => 0) 0x1000 (0xffffffff : UInt32).toNat
        (1 : UInt32).toNat true
        (pagingValidateUserRange (onePage fun _ => 0) 0x1000
          (0xffffffff : UInt32).toNat (1 : UInt32).toNat true) ∧
      pagingValidateUserRange (onePage fun _ => 0) 0x1000
        (0xffffffff : UInt32).toNat (1 : UInt32).toNat true = false := by
  have exact := validateRange_exact (onePage fun _ => 0) 0x1000 0xffffffff 1
    true (by decide)
  exact ⟨exact.1, exact.2.2 (by decide)⟩

end LoafOs
