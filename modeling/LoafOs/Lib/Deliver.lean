import LoafOs.Lib.I386

/-!
# The processor on its way into an interrupt

A list of words pushed one after another, the delivery of an interrupt
through a gate, and the instructions that save the registers of the
interrupted program on the stack.
-/

namespace I386

/-! ## Pushes -/

namespace Cpu

/-- `push`. -/
def pushWord (cpu : Cpu) (word : UInt32) : Cpu :=
  { cpu.setReg .esp (cpu.reg .esp - 4) with
    mem := writeWord cpu.mem (cpu.reg .esp - 4) word }

/-- Pushes, the first word first. -/
def pushWords (cpu : Cpu) (words : List UInt32) : Cpu :=
  words.foldl pushWord cpu

variable {cpu : Cpu} {words : List UInt32}

theorem pushWord_esp (cpu : Cpu) (word : UInt32) :
    (cpu.pushWord word).reg .esp = cpu.reg .esp - UInt32.ofNat 4 := rfl

theorem pushWord_reg {word : UInt32} {reg : Reg} (other : reg ≠ .esp) :
    (cpu.pushWord word).reg reg = cpu.reg reg :=
  if_neg other

theorem pushWords_append (more : List UInt32) :
    cpu.pushWords (words ++ more) = (cpu.pushWords words).pushWords more :=
  List.foldl_append

theorem pushWords_reg {reg : Reg} (other : reg ≠ .esp) :
    (cpu.pushWords words).reg reg = cpu.reg reg := by
  induction words generalizing cpu with
  | nil => rfl
  | cons word words inductionHypothesis =>
      rw [pushWords, List.foldl_cons]
      exact inductionHypothesis.trans (pushWord_reg other)

theorem pushWords_kept :
    (cpu.pushWords words).seg = cpu.seg ∧
      (cpu.pushWords words).eip = cpu.eip ∧
      (cpu.pushWords words).eflags = cpu.eflags := by
  induction words generalizing cpu with
  | nil => exact ⟨rfl, rfl, rfl⟩
  | cons word words inductionHypothesis =>
      exact @inductionHypothesis (cpu.pushWord word)

/-- The pushes depend on the memory and the stack pointer only. -/
theorem pushWords_congr {cpu' : Cpu} (mem : cpu'.mem = cpu.mem)
    (esp : cpu'.reg .esp = cpu.reg .esp) :
    (cpu'.pushWords words).mem = (cpu.pushWords words).mem ∧
      (cpu'.pushWords words).reg .esp = (cpu.pushWords words).reg .esp := by
  induction words generalizing cpu cpu' with
  | nil => exact ⟨mem, esp⟩
  | cons word words inductionHypothesis =>
      refine @inductionHypothesis (cpu.pushWord word) (cpu'.pushWord word)
        ?_ ?_
      · rw [pushWord, pushWord, mem, esp]
      · rw [pushWord_esp, pushWord_esp, esp]

/-- Where the stack pointer is after the pushes. -/
theorem pushWords_esp
    (room : 4 * words.length ≤ (cpu.reg .esp).toNat) :
    ((cpu.pushWords words).reg .esp).toNat =
      (cpu.reg .esp).toNat - 4 * words.length := by
  induction words generalizing cpu with
  | nil => rfl
  | cons word words inductionHypothesis =>
      rw [List.length_cons] at room ⊢
      have place : ((cpu.pushWord word).reg .esp).toNat =
          (cpu.reg .esp).toNat - 4 := by
        rw [pushWord_esp]
        exact toNat_sub (by omega)
      have rest := @inductionHypothesis (cpu.pushWord word) (by omega)
      rw [pushWords, List.foldl_cons]
      exact rest.trans (by omega)

/-- Only the words pushed are written. -/
theorem pushWords_other
    (room : 4 * words.length ≤ (cpu.reg .esp).toNat) {addr : Nat}
    (outside : addr + 4 * words.length < (cpu.reg .esp).toNat ∨
      (cpu.reg .esp).toNat ≤ addr) :
    (cpu.pushWords words).mem addr = cpu.mem addr := by
  induction words generalizing cpu with
  | nil => rfl
  | cons word words inductionHypothesis =>
      rw [List.length_cons] at room outside
      have place : ((cpu.pushWord word).reg .esp).toNat =
          (cpu.reg .esp).toNat - 4 := by
        rw [pushWord_esp]
        exact toNat_sub (by omega)
      have first : (cpu.pushWord word).mem addr = cpu.mem addr := by
        refine writeWord_other ?_
        have same : (cpu.reg .esp - 4).toNat = (cpu.reg .esp).toNat - 4 :=
          place
        omega
      have rest := @inductionHypothesis (cpu.pushWord word) (by omega)
        (by omega)
      rw [pushWords, List.foldl_cons]
      exact rest.trans first

/-- The words lie on the stack, the last one on top. -/
theorem pushWords_words
    (room : 4 * words.length ≤ (cpu.reg .esp).toNat) :
    WordsAt (cpu.pushWords words).mem
      ((cpu.reg .esp).toNat - 4 * words.length) words.reverse := by
  induction words generalizing cpu with
  | nil => trivial
  | cons word words inductionHypothesis =>
      rw [List.length_cons] at room ⊢
      have place : ((cpu.pushWord word).reg .esp).toNat =
          (cpu.reg .esp).toNat - 4 := by
        rw [pushWord_esp]
        exact toNat_sub (by omega)
      have rest := @inductionHypothesis (cpu.pushWord word) (by omega)
      rw [List.reverse_cons, wordsAt_append, List.length_reverse]
      have start : (cpu.reg .esp).toNat - 4 * (words.length + 1) =
          ((cpu.pushWord word).reg .esp).toNat - 4 * words.length := by
        omega
      refine ⟨start ▸ rest, ?_, trivial⟩
      have top : (cpu.reg .esp).toNat - 4 * (words.length + 1) +
          4 * words.length = (cpu.reg .esp - 4).toNat := by
        have same : (cpu.reg .esp - 4).toNat = (cpu.reg .esp).toNat - 4 :=
          place
        omega
      rw [top]
      have kept : (cpu.pushWords (word :: words)).mem.word32
            (cpu.reg .esp - 4).toNat =
          (cpu.pushWord word).mem.word32 (cpu.reg .esp - 4).toNat := by
        refine Bytes.word32_congr fun index small => ?_
        have same : ((cpu.pushWord word).reg .esp).toNat =
          (cpu.reg .esp - 4).toNat := rfl
        exact @pushWords_other (cpu.pushWord word) words (by omega) _
          (by omega)
      rw [kept]
      exact readWord_writeWord

end Cpu

/-! ## Delivery -/

/-- A present interrupt gate. -/
structure Gate where
  selector : UInt32
  offset : UInt32

/-- The flags that an interrupt gate clears: the trap, the interrupt, the
nested task, the resume and the virtual mode flag. -/
def gateFlags (eflags : UInt32) : UInt32 := eflags &&& 0xfffcbcff

/-- What the processor pushes, before the error code. -/
def returnWords (cpu : Cpu) : List UInt32 :=
  if cpu.privilege ≠ 0 then
    [cpu.seg .ss, cpu.reg .esp, cpu.eflags, cpu.seg .cs, cpu.eip]
  else
    [cpu.eflags, cpu.seg .cs, cpu.eip]

/-- The stack on which it pushes: that of the task state segment when it
comes from a less privileged level. -/
def entryStack (cpu : Cpu) (ss0 esp0 : UInt32) : Cpu :=
  if cpu.privilege ≠ 0 then
    (cpu.setSeg .ss ss0).setReg .esp esp0
  else
    cpu

/-- The delivery of an interrupt. -/
def deliver (cpu : Cpu) (gate : Gate) (ss0 esp0 : UInt32)
    (errorCode : List UInt32) : Cpu :=
  let pushed := (entryStack cpu ss0 esp0).pushWords
    (returnWords cpu ++ errorCode)
  { pushed.setSeg .cs gate.selector with
    eip := gate.offset
    eflags := gateFlags cpu.eflags }

/-- The instructions that save a program. -/
inductive SaveInstr where
  | pushImm (word : UInt32)
  | pushReg (src : Reg)
  | pusha
  | pushSeg (src : Seg)
  | loadAx (word : UInt16)
  | moveSeg (dst : Seg)

/-- One instruction.  `pusha` pushes the stack pointer that it finds, and a
selector is pushed as a word. -/
def saveStep (cpu : Cpu) : SaveInstr → Cpu
  | .pushImm word => cpu.pushWord word
  | .pushReg src => cpu.pushWord (cpu.reg src)
  | .pusha =>
      cpu.pushWords [cpu.reg .eax, cpu.reg .ecx, cpu.reg .edx, cpu.reg .ebx,
        cpu.reg .esp, cpu.reg .ebp, cpu.reg .esi, cpu.reg .edi]
  | .pushSeg src => cpu.pushWord (cpu.seg src)
  | .loadAx word =>
      cpu.setReg .eax (cpu.reg .eax / 65536 * 65536 + word.toUInt32)
  | .moveSeg dst => cpu.setSeg dst (cpu.reg .eax % 65536)

def saveRun (code : List SaveInstr) (cpu : Cpu) : Cpu :=
  code.foldl saveStep cpu

/-- The vectors whose exceptions come with an error code. -/
def codeVectors : List Nat := [8, 10, 11, 12, 13, 14, 17, 21, 29, 30]

end I386
