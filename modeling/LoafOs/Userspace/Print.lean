import LoafOs.Libc.Stdio
import LoafOs.Userspace.UserBytes

/-!
# Printing

`SYS_PRINT` of `src/userspace/syscalls.c`, and what becomes of the text
that `printf` hands to it.
-/

namespace LoafOs

/-- `sizeof(kbuf)`. -/
def kbufSize : Nat := 256

/-- The loop of `SYS_PRINT` with room for `count` more bytes in `kbuf`: the
bytes that it copies from `user_msg + i` on. -/
def copyMessage (memory : Memory) (pd msg : Nat) :
    (count i : Nat) → Option (List UInt8)
  | 0, _ => some []
  | count + 1, i =>
      let addr := u32 (msg + i)
      if addr % 4096 = 0 ∧
          ¬ pagingValidateUserRange memory pd addr 1 false then some []
      else do
        let c ← userByte memory pd addr
        if c = 0 then some []
        else (copyMessage memory pd msg count (i + 1)).map (c :: ·)

/-- `SYS_PRINT`: `eax`, and the text that is passed to `term_write`. -/
def sysPrint (memory : Memory) (pd msg : Nat) :
    Option (Nat × Option (List UInt8)) :=
  if ¬ pagingValidateUserRange memory pd msg 1 false then
    some (2 ^ 32 - 1, none)
  else do
    let kbuf ← copyMessage memory pd msg (kbufSize - 1) 0
    return (0, some kbuf)

/-- The program's array `buf` of `size` bytes at `msg`. -/
structure UserArray (memory : Memory) (pd msg size : Nat)
    (buf : Nat → UInt8) : Prop where
  inside : msg + size ≤ 2 ^ 32
  mapped : ∀ i < size, UserReadable memory pd (msg + i)
  bytes : ∀ i < size, userByte memory pd (msg + i) = some (buf i)

section Print

variable {memory : Memory} {pd msg : Nat} {buf : Nat → UInt8}
variable {text : List UInt8}

/-- The handler copies a string up to its end or until `kbuf` is full. -/
theorem copyMessage_string (array : UserArray memory pd msg printfSize buf)
    (string : HoldsString buf text) (noNul : 0 ∉ text) (count i : Nat)
    (room : i + count < kbufSize) (below : i ≤ text.length) :
    copyMessage memory pd msg count i = some ((text.drop i).take count) := by
  induction count generalizing i with
  | zero => rfl
  | succ count inductionHypothesis =>
      have inside := array.inside
      have larger : printfSize = 1024 := rfl
      have smaller : kbufSize = 256 := rfl
      have small : u32 (msg + i) = msg + i := Nat.mod_eq_of_lt (by omega)
      have valid : pagingValidateUserRange memory pd (msg + i) 1 false =
          true :=
        (validateByte_iff (by omega)).mpr (array.mapped i (by omega))
      rw [copyMessage]
      simp only [small, valid, not_true_eq_false, and_false, if_false,
        array.bytes i (show i < printfSize by omega), Option.bind_eq_bind,
        Option.bind_some, string i below]
      rcases Nat.lt_or_eq_of_le below with before | rfl
      · have here : text[i]? = some text[i] :=
          List.getElem?_eq_getElem before
        have nonzero : text[i] ≠ 0 := fun zero =>
          noNul (zero ▸ List.getElem_mem before)
        rw [here, Option.getD_some, if_neg nonzero,
          inductionHypothesis _ (by omega) before, List.drop_eq_getElem_cons before]
        rfl
      · rw [List.getElem?_eq_none (Nat.le_refl _)]
        simp

end Print

/-- A text of at most 1023 bytes that `printf` formats reaches `term_write`
unchanged exactly if it has at most 255 of them. -/
theorem printf_reaches_iff {fmt : List UInt8} {args : List VaArg}
    {text : List UInt8} (isText : formatText fmt args = some text)
    (short : text.length ≤ printfSize - 1) (noNul : 0 ∉ text)
    (old : Nat → UInt8) :
    ∃ buf, printf old fmt args = some (buf, text.length) ∧
      ∀ memory pd msg, UserArray memory pd msg printfSize buf →
        (sysPrint memory pd msg = some (0, some text) ↔
          text.length ≤ kbufSize - 1) := by
  obtain ⟨buf, stored, string⟩ :=
    vsnprintf_whole old printfSize isText short
  refine ⟨buf, stored, fun memory pd msg array => ?_⟩
  have fault : ¬ pagingValidateUserRange memory pd msg 1 false = false := by
    have first : UserReadable memory pd msg := array.mapped 0 (by decide)
    have inside := array.inside
    have larger : printfSize = 1024 := rfl
    rw [(validateByte_iff (by omega)).mpr first]
    decide
  have copied := copyMessage_string array string noNul (kbufSize - 1) 0
    (by decide) (Nat.zero_le _)
  rw [List.drop_zero] at copied
  rw [sysPrint, copied]
  simp only [Bool.not_eq_true, if_neg fault, Option.bind_eq_bind,
    Option.bind_some, Option.pure_def, Option.some.injEq, Prod.mk.injEq,
    true_and, List.take_eq_self_iff]

theorem printf_reaches_hello :
    ∃ buf, printf (fun _ => 0x53) [0x25, 0x64, 0x21] [.word 42] =
        some (buf, 3) ∧
      ∀ memory pd msg, UserArray memory pd msg printfSize buf →
        (sysPrint memory pd msg = some (0, some [0x34, 0x32, 0x21]) ↔
          3 ≤ kbufSize - 1) := by
  have isText : formatText [0x25, 0x64, 0x21] [.word 42] =
      some [0x34, 0x32, 0x21] := by
    decide +kernel
  exact printf_reaches_iff isText (by decide) (by decide) _

/-- An array in the mapped page. -/
theorem onePage_array (bytes : Bytes) :
    UserArray (onePage bytes) 0x1000 0 printfSize bytes where
  inside := by decide
  mapped i below := by
    have inside : 0 + i < 4096 := by
      rw [printfSize] at below
      omega
    exact ⟨_, onePage_byte inside, rfl⟩
  bytes i below := by
    have inside : 0 + i < 4096 := by
      rw [printfSize] at below
      omega
    rw [userByte, onePage_byte inside, Nat.zero_add]
    rfl

/-- 256 letters are formatted whole, and printed without the last one. -/
theorem printf_cut :
    ∃ buf, printf (fun _ => 0) (List.replicate 256 0x61) [] =
        some (buf, 256) ∧
      HoldsString buf (List.replicate 256 0x61) ∧
      UserArray (onePage buf) 0x1000 0 printfSize buf ∧
      sysPrint (onePage buf) 0x1000 0 =
        some (0, some (List.replicate 255 0x61)) := by
  have length : (List.replicate 256 (0x61 : UInt8)).length = 256 :=
    List.length_replicate
  have larger : printfSize = 1024 := rfl
  have room : (List.replicate 256 (0x61 : UInt8)).length ≤
      u32 (printfSize + 2 ^ 32 - 1) := by
    have last : u32 (printfSize + 2 ^ 32 - 1) = 1023 := rfl
    omega
  have noNul : (0 : UInt8) ∉ List.replicate 256 0x61 := fun member =>
    absurd (List.eq_of_mem_replicate member) (by decide)
  have isText : formatText (List.replicate 256 0x61) [] =
      some (List.replicate 256 0x61) := by
    decide +kernel
  obtain ⟨buf, stored, string⟩ :=
    vsnprintf_whole (fun _ => 0) printfSize isText room
  rw [length] at stored
  refine ⟨buf, stored, string, onePage_array buf, ?_⟩
  have copied := copyMessage_string (onePage_array buf) string noNul
    (kbufSize - 1) 0 (by decide) (Nat.zero_le _)
  have valid : pagingValidateUserRange (onePage buf) 0x1000 0 1 false =
      true :=
    (validateByte_iff (by decide)).mpr
      ⟨_, onePage_byte (by decide), rfl⟩
  rw [sysPrint, valid, copied, List.drop_zero, List.take_replicate]
  rfl

end LoafOs
