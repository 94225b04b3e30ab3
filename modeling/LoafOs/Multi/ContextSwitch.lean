import LoafOs.Lib.I386
import LoafOs.Multi.Process

/-!
# Switching threads

`context_switch` of `src/multi/switch.asm`, the tail `isr_return` of
`src/idt/isr_stubs.asm` and the stack that `init_fake_stack` prepares for
them.
-/

namespace LoafOs

open I386

/-- `context_switch`. -/
def contextSwitch : List Instr :=
  [.load .eax .esp 4, .load .edx .esp 8,
    .push .ebx, .push .esi, .push .edi, .push .ebp,
    .store .eax .esp, .move .esp .edx,
    .pop .ebp, .pop .edi, .pop .esi, .pop .ebx,
    .ret]

/-- `isr_return`. -/
def isrReturn : List Instr :=
  [.popSeg .gs, .popSeg .fs, .popSeg .es, .popSeg .ds, .popa, .addEsp 8,
    .iret]

/-- What a thread that is switched away from finds again. -/
structure Frame where
  ebx : UInt32
  esi : UInt32
  edi : UInt32
  ebp : UInt32
  esp : UInt32
  ret : UInt32
  deriving DecidableEq, Repr

/-- The frame of the thread that enters `context_switch`; its return
address is on top of its stack. -/
def Frame.ofCpu (cpu : Cpu) : Frame where
  ebx := cpu.reg .ebx
  esi := cpu.reg .esi
  edi := cpu.reg .edi
  ebp := cpu.reg .ebp
  esp := cpu.reg .esp
  ret := cpu.top

/-- The words below the stack pointer of a suspended thread. -/
def Frame.words (frame : Frame) : List UInt32 :=
  [frame.ebp, frame.edi, frame.esi, frame.ebx, frame.ret]

/-- The words that `init_fake_stack` leaves. -/
def freshWords (isrReturnAddr : Nat) (image : Image) : List UInt32 :=
  (fakeStack isrReturnAddr image).map UInt32.ofNat

/-- The stack pointer that `init_fake_stack` stores. -/
def freshEsp (kstack : Nat) : Nat := kstack + kernelStackSize - 4 * 24

variable {cpu : Cpu} {frame : Frame} {image : Image}
  {isrReturnAddr : Nat} {words : List UInt32} {mem : Bytes}

/-! ## The instructions of the switch -/

/-- The memory after the pushes. -/
def pushedMem (cpu : Cpu) : Bytes :=
  let esp := cpu.reg .esp
  let mem := writeWord cpu.mem (esp - 4) (cpu.reg .ebx)
  let mem := writeWord mem (esp - 4 - 4) (cpu.reg .esi)
  let mem := writeWord mem (esp - 4 - 4 - 4) (cpu.reg .edi)
  writeWord mem (esp - 4 - 4 - 4 - 4) (cpu.reg .ebp)

/-- The first argument, `&prev->saved_esp`. -/
def oldEspStore (cpu : Cpu) : UInt32 := readWord cpu.mem (cpu.reg .esp + 4)

/-- The second argument, `next->saved_esp`. -/
def newEsp (cpu : Cpu) : UInt32 := readWord cpu.mem (cpu.reg .esp + 8)

/-- The memory after the switch. -/
def switchedMem (cpu : Cpu) : Bytes :=
  writeWord (pushedMem cpu) (oldEspStore cpu)
    (cpu.reg .esp - 4 - 4 - 4 - 4)

theorem contextSwitch_mem : (run contextSwitch cpu).mem = switchedMem cpu :=
  rfl

theorem contextSwitch_seg : (run contextSwitch cpu).seg = cpu.seg :=
  rfl

theorem add_ofNat (esp : UInt32) (left right : Nat) :
    esp + UInt32.ofNat left + UInt32.ofNat right =
      esp + UInt32.ofNat (left + right) := by
  rw [UInt32.add_assoc, UInt32.ofNat_add]

theorem sub_ofNat (esp : UInt32) (left right : Nat) :
    esp - UInt32.ofNat left - UInt32.ofNat right =
      esp - UInt32.ofNat (left + right) := by
  rw [UInt32.sub_eq_iff_eq_add, UInt32.sub_eq_iff_eq_add, UInt32.ofNat_add,
    UInt32.add_assoc, UInt32.add_comm (UInt32.ofNat right),
    UInt32.sub_add_cancel]

/-- The registers come off the stack of the next thread. -/
theorem contextSwitch_regs
    (present : WordsAt (switchedMem cpu) (newEsp cpu).toNat
      (frame.words ++ words))
    (room : (newEsp cpu).toNat + 4 * (frame.words ++ words).length ≤
      2 ^ 32) :
    (run contextSwitch cpu).reg .ebp = frame.ebp ∧
      (run contextSwitch cpu).reg .edi = frame.edi ∧
      (run contextSwitch cpu).reg .esi = frame.esi ∧
      (run contextSwitch cpu).reg .ebx = frame.ebx ∧
      (run contextSwitch cpu).eip = frame.ret ∧
      (run contextSwitch cpu).reg .esp = newEsp cpu + 20 := by
  have length : (frame.words ++ words).length = words.length + 5 := by
    rw [List.length_append, Frame.words]
    simp only [List.length_cons, List.length_nil]
    omega
  have read : ∀ index (inside : index < 5),
      readWord (switchedMem cpu) (newEsp cpu + UInt32.ofNat (4 * index)) =
        frame.words[index] := by
    intro index inside
    have below : index < (frame.words ++ words).length := by omega
    rw [present.read room below]
    exact List.getElem_append_left inside
  have first := read 0 (by decide)
  have second := read 1 (by decide)
  have third := read 2 (by decide)
  have fourth := read 3 (by decide)
  have fifth := read 4 (by decide)
  have ebp : (run contextSwitch cpu).reg .ebp =
      readWord (switchedMem cpu) (newEsp cpu) := rfl
  have edi : (run contextSwitch cpu).reg .edi =
      readWord (switchedMem cpu) (newEsp cpu + UInt32.ofNat 4) := rfl
  have esi : (run contextSwitch cpu).reg .esi = readWord (switchedMem cpu)
      (newEsp cpu + UInt32.ofNat 4 + UInt32.ofNat 4) := rfl
  have ebx : (run contextSwitch cpu).reg .ebx = readWord (switchedMem cpu)
      (newEsp cpu + UInt32.ofNat 4 + UInt32.ofNat 4 + UInt32.ofNat 4) := rfl
  have eip : (run contextSwitch cpu).eip = readWord (switchedMem cpu)
      (newEsp cpu + UInt32.ofNat 4 + UInt32.ofNat 4 + UInt32.ofNat 4 +
        UInt32.ofNat 4) := rfl
  have esp : (run contextSwitch cpu).reg .esp =
      newEsp cpu + UInt32.ofNat 4 + UInt32.ofNat 4 + UInt32.ofNat 4 +
        UInt32.ofNat 4 + UInt32.ofNat 4 := rfl
  simp only [add_ofNat] at esi ebx eip esp
  refine ⟨ebp.trans ?_, edi.trans second, esi.trans third,
    ebx.trans fourth, eip.trans fifth, esp⟩
  have zero : newEsp cpu = newEsp cpu + UInt32.ofNat (4 * 0) :=
    (UInt32.add_zero _).symm
  rw [zero]
  exact first

/-! ## The return to user mode -/

/-- The processor in front of the `iret`. -/
theorem isrReturn_pops : ∃ general : Cpu,
    run isrReturn cpu = step general .iret ∧ general.mem = cpu.mem ∧
      general.seg .cs = cpu.seg .cs ∧
      general.reg .esp = cpu.reg .esp + UInt32.ofNat 56 := by
  refine ⟨_, rfl, rfl, rfl, ?_⟩
  have esp : (run (isrReturn.take 6) cpu).reg .esp =
      cpu.reg .esp + UInt32.ofNat 4 + UInt32.ofNat 4 + UInt32.ofNat 4 +
        UInt32.ofNat 4 + UInt32.ofNat 4 + UInt32.ofNat 4 + UInt32.ofNat 4 +
        UInt32.ofNat 4 + UInt32.ofNat 4 + UInt32.ofNat 4 + UInt32.ofNat 4 +
        UInt32.ofNat 4 + UInt32.ofNat 8 := rfl
  simp only [add_ofNat] at esp
  exact esp

/-- An `iret` to user mode. -/
theorem iret_user {general : Cpu} {eip cs eflags esp ss : UInt32}
    (first : readWord general.mem (general.reg .esp) = eip)
    (second : readWord general.mem
      (general.reg .esp + UInt32.ofNat 4) = cs)
    (third : readWord general.mem
      (general.reg .esp + UInt32.ofNat 8) = eflags)
    (fourth : readWord general.mem
      (general.reg .esp + UInt32.ofNat 12) = esp)
    (fifth : readWord general.mem
      (general.reg .esp + UInt32.ofNat 16) = ss)
    (outer : general.seg .cs % 4 < cs % 65536 % 4) :
    (step general .iret).eip = eip ∧
      (step general .iret).seg .cs = cs % 65536 ∧
      (step general .iret).eflags = eflags ∧
      (step general .iret).reg .esp = esp ∧
      (step general .iret).seg .ss = ss % 65536 := by
  have target : (general.drop 4).top = cs := second
  have fifth' : readWord general.mem (general.reg .esp + UInt32.ofNat 12 +
      UInt32.ofNat 4) = ss := by
    rw [add_ofNat]
    exact fifth
  have privilege : general.privilege < (general.drop 4).top % 65536 % 4 := by
    rw [target]
    exact outer
  simp only [step]
  rw [if_pos privilege]
  exact ⟨first, congrArg (· % 65536) target, third, fourth,
    congrArg (· % 65536) fifth'⟩

/-- `isr_return` on the stack that an interrupt of user mode leaves. -/
theorem isrReturn_user {general : List UInt32} {eip cs eflags esp ss : UInt32}
    (present : WordsAt cpu.mem (cpu.reg .esp).toNat
      (general ++ [eip, cs, eflags, esp, ss]))
    (length : general.length = 14)
    (room : (cpu.reg .esp).toNat + 76 ≤ 2 ^ 32)
    (outer : cpu.seg .cs % 4 < cs % 65536 % 4) :
    (run isrReturn cpu).eip = eip ∧
      (run isrReturn cpu).seg .cs = cs % 65536 ∧
      (run isrReturn cpu).eflags = eflags ∧
      (run isrReturn cpu).reg .esp = esp ∧
      (run isrReturn cpu).seg .ss = ss % 65536 := by
  obtain ⟨popped, shape, mem, segment, place⟩ : ∃ popped : Cpu,
      run isrReturn cpu = step popped .iret ∧ popped.mem = cpu.mem ∧
        popped.seg .cs = cpu.seg .cs ∧
        popped.reg .esp = cpu.reg .esp + UInt32.ofNat 56 := isrReturn_pops
  have read : ∀ index (inside : index < 5),
      readWord popped.mem (popped.reg .esp + UInt32.ofNat (4 * index)) =
        [eip, cs, eflags, esp, ss][index] := by
    intro index inside
    have whole : (general ++ [eip, cs, eflags, esp, ss]).length = 19 := by
      rw [List.length_append, length]
      rfl
    have below : 14 + index <
        (general ++ [eip, cs, eflags, esp, ss]).length := by omega
    have far : 56 + 4 * index = 4 * (14 + index) := by omega
    rw [mem, place, add_ofNat, far, present.read (by omega) below,
      List.getElem_append_right (by omega)]
    simp only [length, Nat.add_sub_cancel_left]
  rw [shape]
  refine iret_user ?_ (read 1 (by decide)) (read 2 (by decide))
    (read 3 (by decide)) (read 4 (by decide)) (segment ▸ outer)
  have first := read 0 (by decide)
  rw [Nat.mul_zero] at first
  rw [← UInt32.add_zero (popped.reg .esp)]
  exact first

/-! ## The prepared stack -/

theorem putWords_wordsAt {words : List Nat} {addr : Nat} :
    WordsAt (putWords mem addr words) addr (words.map UInt32.ofNat) := by
  induction words generalizing mem addr with
  | nil => trivial
  | cons word words inductionHypothesis =>
      refine ⟨?_, inductionHypothesis⟩
      have kept : (putWords mem addr (word :: words)).word32 addr =
          (mem.putWord32 addr word).word32 addr :=
        Bytes.word32_congr fun index small => by
          rw [putWords]
          exact putWords_other (by omega)
      rw [kept]
      exact ofNat_word32_putWord32

/-- The frame that `context_switch` finds on a prepared stack. -/
def freshFrame (isrReturnAddr : Nat) (esp : UInt32) : Frame where
  ebx := 0
  esi := 0
  edi := 0
  ebp := 0
  esp := esp + 16
  ret := UInt32.ofNat isrReturnAddr

/-- The words that `isr_return` pops before its `iret`. -/
def freshGeneral : List UInt32 :=
  [0x23, 0x23, 0x23, 0x23, 0, 0, 0, 0, 0, 0, 0, 0, 0, 0]

theorem freshWords_eq (esp : UInt32) :
    freshWords isrReturnAddr image =
      (freshFrame isrReturnAddr esp).words ++ (freshGeneral ++
        [UInt32.ofNat image.entryPoint, 0x1b, 0x202,
          UInt32.ofNat image.userStackTop, 0x23]) :=
  rfl

theorem length_freshWords : (freshWords isrReturnAddr image).length = 24 :=
  rfl

end LoafOs
