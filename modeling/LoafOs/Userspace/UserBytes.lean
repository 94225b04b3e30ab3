import LoafOs.Userspace.UserView

/-!
# Bytes that the kernel reads from a program

The kernel reads a program's memory through the page directory of the
program, after `paging_validate_user_range` for the pages.
-/

namespace LoafOs

/-- `*(uint8_t *)addr` in the address space of a directory; there is no
result if the page is not mapped. -/
def userByte (memory : Memory) (pd addr : Nat) : Option UInt8 :=
  (userView memory pd addr).map Cell.byte

/-- The page of an address may be read from user mode. -/
def UserReadable (memory : Memory) (pd addr : Nat) : Prop :=
  ∃ cell, userView memory pd addr = some cell ∧ cell.user = true

section Validate

variable {memory : Memory} {pd addr : Nat}

/-- One page is validated exactly if user mode may read it. -/
theorem validateUserPage_iff :
    validateUserPage memory pd addr false = true ↔
      UserReadable memory pd addr := by
  rw [validateUserPage, UserReadable, userView]
  cases table : isPresent (memory.entry pd (pdIndex addr)) with
  | false =>
      rw [pteAt_absent table]
      simp [isPresent_zero]
  | true =>
      rw [pteAt_present table]
      cases page : isPresent (memory.entry
          (frameOf (memory.entry pd (pdIndex addr))) (ptIndex addr)) with
      | false => simp
      | true => simp

/-- What a page is validated for does not depend on the byte in it. -/
theorem validateUserPage_page {needWrite : Bool} :
    validateUserPage memory pd (addr / 4096 * 4096) needWrite =
      validateUserPage memory pd addr needWrite := by
  have directory : pdIndex (addr / 4096 * 4096) = pdIndex addr := by
    rw [pdIndex, pdIndex]
    omega
  have table : ptIndex (addr / 4096 * 4096) = ptIndex addr := by
    rw [ptIndex, ptIndex]
    omega
  rw [validateUserPage, validateUserPage, directory, table]

/-- A single byte below the last one of the address space. -/
theorem validateByte_iff (inside : addr + 1 < 2 ^ 32) :
    pagingValidateUserRange memory pd addr 1 false = true ↔
      UserReadable memory pd addr := by
  have size : pageSize = 4096 := rfl
  have noWrap : ¬ u32 (addr + 1) < addr := by
    rw [u32]
    omega
  have last : u32 (addr + 1 + 2 ^ 32 - 1) / 4096 * 4096 =
      addr / 4096 * 4096 := by
    rw [u32]
    omega
  rw [pagingValidateUserRange, if_neg (by decide), if_neg noWrap, last,
    ← validateUserPage_iff, ← validateUserPage_page]
  rw [show 2 ^ 20 = (2 ^ 20 - 2) + 1 + 1 from rfl, validateUserPages,
    if_pos (Nat.le_refl _), validateUserPages,
    if_neg (show ¬ addr / 4096 * 4096 + pageSize ≤ addr / 4096 * 4096 by
      omega)]
  cases validateUserPage memory pd (addr / 4096 * 4096) false with
  | false => simp
  | true => simp

end Validate

/-! ## One mapped page -/

/-- A memory with the directory of one program in frame `0x1000`: its table
in `0x2000` maps page 0 to frame `0x3000`, which holds `bytes`. -/
def onePage (bytes : Bytes) : Memory where
  mem := fun addr =>
    if addr = 0xc0001000 ∨ addr = 0xc0002000 then 7
    else if addr = 0xc0001001 then 0x20
    else if addr = 0xc0002001 then 0x30
    else if 0xc0003000 ≤ addr then bytes (addr - 0xc0003000)
    else 0
  pmm := ⟨fun _ => 0xff, 8⟩
  kernelDirectory := 0

theorem onePage_pde {bytes : Bytes} :
    (onePage bytes).entry 0x1000 0 = 0x2007 := by
  have addr : entryAddr 0x1000 0 = 0xc0001000 := rfl
  rw [Memory.entry, addr]
  simp [Bytes.word32, Bytes.word16, onePage]

theorem onePage_pte {bytes : Bytes} :
    (onePage bytes).entry 0x2000 0 = 0x3007 := by
  have addr : entryAddr 0x2000 0 = 0xc0002000 := rfl
  rw [Memory.entry, addr]
  simp [Bytes.word32, Bytes.word16, onePage]

theorem onePage_byte {bytes : Bytes} {addr : Nat} (inside : addr < 4096) :
    userView (onePage bytes) 0x1000 addr =
      some ⟨bytes addr, true, true⟩ := by
  have directory : pdIndex addr = 0 := Nat.div_eq_of_lt (by omega)
  have table : ptIndex addr = 0 := by
    rw [ptIndex, Nat.div_eq_of_lt (by omega)]
  have entry : pteAt (onePage bytes) 0x1000 addr = 0x3007 := by
    rw [pteAt, directory, table, onePage_pde]
    exact onePage_pte
  have frame : physToVirt (frameOf 0x3007) = 0xc0003000 := rfl
  have here : (onePage bytes).mem (0xc0003000 + addr) = bytes addr := by
    have low : ¬ (0xc0003000 + addr = 0xc0001000 ∨
        0xc0003000 + addr = 0xc0002000) := by omega
    simp only [onePage]
    rw [if_neg low, if_neg (by omega), if_neg (by omega),
      if_pos (by omega), Nat.add_sub_cancel_left]
  rw [userView, entry, directory, onePage_pde, frame,
    Nat.mod_eq_of_lt inside, here]
  rfl

/-- Page 1 is not mapped. -/
theorem onePage_absent {bytes : Bytes} {addr : Nat}
    (page : addr / 4096 = 1) : userView (onePage bytes) 0x1000 addr = none := by
  have directory : pdIndex addr = 0 := by
    rw [pdIndex]
    omega
  have table : ptIndex addr = 1 := by
    rw [ptIndex]
    omega
  have zero : (onePage bytes).entry 0x2000 1 = 0 := by
    have place : entryAddr 0x2000 1 = 0xc0002004 := rfl
    rw [Memory.entry, place]
    simp [Bytes.word32, Bytes.word16, onePage]
  have entry : pteAt (onePage bytes) 0x1000 addr = 0 := by
    rw [pteAt, directory, table, onePage_pde]
    exact zero
  rw [userView, entry, if_neg (by simp [isPresent_zero])]

end LoafOs
