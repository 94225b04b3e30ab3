import LoafOs.Lib.Deliver
import LoafOs.Multi.SwitchRun

/-!
# The frame of an interrupted program

The gates of `src/idt/idt.c` and the stubs of `src/idt/isr_stubs.asm`: what
an interrupt leaves on the stack for `isr_handler`, and what `isr_return`
makes of it.
-/

namespace LoafOs

open I386

/-! ## The gates -/

structure IdtEntry where
  offsetLow : UInt16
  selector : UInt16
  zero : UInt8
  typeAttr : UInt8
  offsetHigh : UInt16

/-- `idt_set_gate`. -/
def idtSetGate (idt : Nat → IdtEntry) (num : Nat) (handler : UInt32)
    (selector : UInt16) (typeAttr : UInt8) : Nat → IdtEntry :=
  fun other =>
    if other = num then
      { offsetLow := (handler &&& 0xffff).toUInt16
        selector
        zero := 0
        typeAttr
        offsetHigh := ((handler >>> 16) &&& 0xffff).toUInt16 }
    else
      idt other

/-- The vectors of `ISR_NOERR` and `ISR_ERR`. -/
def isrNoErr : List Nat :=
  [32, 33, 128, 0, 1, 2, 3, 4, 5, 6, 7, 9, 16, 18, 19]

def isrErr : List Nat := [8, 10, 11, 12, 13, 14, 17]

/-- `idt_init`: the three gates with a purpose, then the exceptions. -/
def idtInit (isr : Nat → UInt32) : Nat → IdtEntry :=
  let idt := fun _ => ⟨0, 0, 0, 0, 0⟩
  let idt := idtSetGate idt 32 (isr 32) 0x08 0x8e
  let idt := idtSetGate idt 33 (isr 33) 0x08 0x8e
  let idt := idtSetGate idt 128 (isr 128) 0x08 0xee
  [0, 1, 2, 3, 4, 5, 6, 7, 8, 9, 10, 11, 12, 13, 14, 16, 17, 18, 19].foldl
    (fun idt num => idtSetGate idt num (isr num) 0x08 0x8e) idt

/-- The gate that the processor finds, when it is present. -/
def gateOf (idt : Nat → IdtEntry) (num : Nat) : Option Gate :=
  let entry := idt num
  if entry.typeAttr &&& 0x80 ≠ 0 then
    some
      { selector := entry.selector.toUInt32
        offset := entry.offsetHigh.toUInt32 <<< 16 |||
          entry.offsetLow.toUInt32 }
  else
    none

/-! ## The stubs -/

/-- `isr0` to `isr128`: what is pushed in front of `isr_common`. -/
def isrStub (num : Nat) : List UInt32 :=
  if num ∈ isrErr then [UInt32.ofNat num] else [0, UInt32.ofNat num]

/-- `isr_common` up to the call of `isr_handler`. -/
def isrCommon : List SaveInstr :=
  [.pusha, .pushSeg .ds, .pushSeg .es, .pushSeg .fs, .pushSeg .gs,
    .loadAx 0x10, .moveSeg .ds, .moveSeg .es, .moveSeg .fs, .moveSeg .gs,
    .pushReg .esp]

/-- Where the code of `isr_stubs.asm` lies. -/
structure IsrCode where
  isr : Nat → UInt32
  isrHandler : UInt32
  behindCall : UInt32

/-- The processor at the first instruction of `isr_handler`, after an
interrupt with its error code, if it has one. -/
def takeInterrupt (code : IsrCode) (cpu : Cpu) (esp0 : UInt32) (num : Nat)
    (errorCode : UInt32) : Option Cpu := do
  let gate ← gateOf (idtInit code.isr) num
  let entered := deliver cpu gate 0x10 esp0
    (if num ∈ codeVectors then [errorCode] else [])
  let saved := saveRun ((isrStub num).map .pushImm ++ isrCommon) entered
  return { saved.pushWord code.behindCall with eip := code.isrHandler }

/-! ## What is saved -/

/-- The registers of a program. -/
@[ext]
structure Context where
  reg : Reg → UInt32
  seg : Seg → UInt32
  eip : UInt32
  eflags : UInt32

def Context.ofCpu (cpu : Cpu) : Context :=
  ⟨cpu.reg, cpu.seg, cpu.eip, cpu.eflags⟩

/-- The program runs in user mode. -/
def Context.outer (context : Context) : Bool := context.seg .cs % 4 != 0

/-- The `registers_t` of an interrupt, and what the processor has pushed
above it. -/
def Context.words (context : Context) (espOrig num errCode : UInt32) :
    List UInt32 :=
  [context.seg .gs, context.seg .fs, context.seg .es, context.seg .ds,
    context.reg .edi, context.reg .esi, context.reg .ebp, espOrig,
    context.reg .ebx, context.reg .edx, context.reg .ecx, context.reg .eax,
    num, errCode, context.eip, context.seg .cs, context.eflags] ++
    if context.outer then [context.reg .esp, context.seg .ss] else []

/-- The size of the frame. -/
def Context.size (context : Context) : Nat :=
  if context.outer then 76 else 68

section Gates

variable {isr : Nat → UInt32} {idt : Nat → IdtEntry} {num other : Nat}
  {handler : UInt32} {typeAttr : UInt8}

theorem joinHalves (handler : UInt32) :
    ((handler >>> 16) &&& 0xffff).toUInt16.toUInt32 <<< 16 |||
      (handler &&& 0xffff).toUInt16.toUInt32 = handler := by
  have mask (value : Nat) : value &&& 65535 = value % 65536 :=
    Nat.and_two_pow_sub_one_eq_mod value 16
  have bound := handler.toNat_lt
  have high : handler.toNat / 2 ^ 16 % 65536 = handler.toNat / 2 ^ 16 := by
    omega
  apply UInt32.toNat.inj
  simp only [UInt32.toNat_or, UInt32.toNat_shiftLeft,
    UInt16.toNat_toUInt32, UInt32.toNat_toUInt16, UInt32.toNat_and,
    UInt32.toNat_shiftRight, UInt32.reduceToNat, mask, Nat.mod_mod,
    Nat.shiftRight_eq_div_pow, Nat.reduceMod, high]
  rw [Nat.mod_eq_of_lt, ← Nat.shiftLeft_add_eq_or_of_lt
    (Nat.mod_lt _ (by decide : 0 < 2 ^ 16)), Nat.shiftLeft_eq]
  · omega
  · rw [Nat.shiftLeft_eq]
    omega

/-- The processor finds the gate that was set. -/
theorem gateOf_same (present : typeAttr &&& 0x80 ≠ 0) :
    gateOf (idtSetGate idt num handler 0x08 typeAttr) num =
      some ⟨0x08, handler⟩ := by
  simp only [gateOf, idtSetGate, if_true, if_pos present, joinHalves]
  rfl

theorem gateOf_other {selector : UInt16} (different : other ≠ num) :
    gateOf (idtSetGate idt num handler selector typeAttr) other =
      gateOf idt other := by
  simp only [gateOf, idtSetGate, if_neg different]

theorem gateOf_foldl {nums : List Nat} :
    gateOf (nums.foldl
        (fun idt num => idtSetGate idt num (isr num) 0x08 0x8e) idt) other =
      if other ∈ nums then some ⟨0x08, isr other⟩ else gateOf idt other := by
  induction nums generalizing idt with
  | nil => rfl
  | cons num nums inductionHypothesis =>
      rw [List.foldl_cons, inductionHypothesis]
      by_cases later : other ∈ nums
      · rw [if_pos later, if_pos (List.mem_cons_of_mem _ later)]
      · rw [if_neg later]
        by_cases same : other = num
        · rw [same, if_pos List.mem_cons_self]
          exact gateOf_same (by decide)
        · rw [gateOf_other same, if_neg (by simp [same, later])]

/-- Exactly the vectors with a stub have a gate, which leads to the stub. -/
theorem gateOf_idtInit :
    gateOf (idtInit isr) num =
      if num ∈ isrNoErr ++ isrErr then some ⟨0x08, isr num⟩ else none := by
  have members : num ∈ isrNoErr ++ isrErr ↔
      num ∈ [0, 1, 2, 3, 4, 5, 6, 7, 8, 9, 10, 11, 12, 13, 14, 16, 17, 18,
        19] ∨ num = 128 ∨ num = 33 ∨ num = 32 := by
    simp only [isrNoErr, isrErr, List.cons_append, List.nil_append,
      List.mem_cons, List.not_mem_nil, or_false]
    omega
  rw [idtInit, gateOf_foldl]
  by_cases fault : num ∈ [0, 1, 2, 3, 4, 5, 6, 7, 8, 9, 10, 11, 12, 13, 14,
      16, 17, 18, 19]
  · rw [if_pos fault, if_pos (members.mpr (.inl fault))]
  rw [if_neg fault]
  by_cases call : num = 128
  · rw [if_pos (members.mpr (.inr (.inl call))), call,
      gateOf_same (by decide)]
  rw [gateOf_other call]
  by_cases key : num = 33
  · rw [if_pos (members.mpr (.inr (.inr (.inl key)))), key,
      gateOf_same (by decide)]
  rw [gateOf_other key]
  by_cases timer : num = 32
  · rw [if_pos (members.mpr (.inr (.inr (.inr timer)))), timer,
      gateOf_same (by decide)]
  rw [gateOf_other timer, if_neg (by simp only [members]; tauto)]
  simp [gateOf]

end Gates

/-! ## The way in -/

section Entry

variable {code : IsrCode} {cpu cpu' : Cpu} {esp0 errorCode : UInt32}
  {num : Nat}

/-- What `isr_common` pushes, with the two copies of the stack pointer. -/
def generalWords (cpu : Cpu) (espOrig regs : UInt32) : List UInt32 :=
  [cpu.reg .eax, cpu.reg .ecx, cpu.reg .edx, cpu.reg .ebx, espOrig,
    cpu.reg .ebp, cpu.reg .esi, cpu.reg .edi, cpu.seg .ds, cpu.seg .es,
    cpu.seg .fs, cpu.seg .gs, regs]

theorem loadAx_data (eax : UInt32) :
    (eax / 65536 * 65536 + (0x10 : UInt16).toUInt32) % 65536 = 0x10 := by
  have bound := eax.toNat_lt
  apply UInt32.toNat.inj
  rw [UInt32.toNat_mod, UInt32.toNat_add, UInt32.toNat_mul,
    UInt32.toNat_div]
  have word : (65536 : UInt32).toNat = 65536 := rfl
  have data : (0x10 : UInt16).toUInt32.toNat = 16 := rfl
  have data' : (0x10 : UInt32).toNat = 16 := rfl
  rw [word, data, data']
  omega

/-- The stub and `isr_common` push, and load the data selectors. -/
theorem saveRun_eq (cpu : Cpu) (num : Nat) :
    let saved := saveRun ((isrStub num).map .pushImm ++ isrCommon) cpu
    let regs := (cpu.pushWords (isrStub num ++
      (generalWords cpu (cpu.pushWords (isrStub num) |>.reg .esp)
        0).dropLast)).reg .esp
    let pushed := cpu.pushWords (isrStub num ++ generalWords cpu
      (cpu.pushWords (isrStub num) |>.reg .esp) regs)
    saved.mem = pushed.mem ∧ saved.reg .esp = pushed.reg .esp ∧
      saved.seg .cs = cpu.seg .cs ∧ saved.seg .ss = cpu.seg .ss ∧
      ∀ seg, seg ≠ .cs → seg ≠ .ss → saved.seg seg = 0x10 := by
  rw [isrStub]
  split
  all_goals
    refine ⟨rfl, rfl, rfl, rfl, fun seg code stack => ?_⟩
    cases seg with
    | cs => exact absurd rfl code
    | ss => exact absurd rfl stack
    | ds | es | fs | gs => exact loadAx_data (cpu.reg .eax)

/-- What an interrupt has done when `isr_handler` begins: `regs` is the
address of the frame, and nothing above the frame is written. -/
structure Entered (code : IsrCode) (cpu : Cpu) (esp0 : UInt32) (num : Nat)
    (errCode : UInt32) (cpu' : Cpu) (regs : Nat) : Prop where
  place : regs + (Context.ofCpu cpu).size =
    ((entryStack cpu 0x10 esp0).reg .esp).toNat
  frame : ∃ espOrig, WordsAt cpu'.mem regs
    ((Context.ofCpu cpu).words espOrig (UInt32.ofNat num) errCode)
  call : WordsAt cpu'.mem (regs - 8) [code.behindCall, UInt32.ofNat regs]
  esp : (cpu'.reg .esp).toNat + 8 = regs
  others : ∀ addr, addr + 8 < regs ∨ regs + (Context.ofCpu cpu).size ≤ addr →
    cpu'.mem addr = cpu.mem addr
  kernel : cpu'.seg .cs = 0x08
  stack : cpu'.seg .ss = (entryStack cpu 0x10 esp0).seg .ss
  data : ∀ seg, seg ≠ .cs → seg ≠ .ss → cpu'.seg seg = 0x10
  first : cpu'.eip = code.isrHandler

theorem returnWords_reverse (cpu : Cpu) :
    (returnWords cpu).reverse = [cpu.eip, cpu.seg .cs, cpu.eflags] ++
      if (Context.ofCpu cpu).outer then [cpu.reg .esp, cpu.seg .ss]
      else [] := by
  rw [returnWords, Context.outer, Context.ofCpu, Cpu.privilege]
  by_cases inner : cpu.seg .cs % 4 = 0
  · simp [inner]
  · simp [inner]

/-- The stub pushes a zero exactly where the processor pushes no code. -/
theorem isrStub_reverse (known : num ∈ isrNoErr ++ isrErr) :
    (isrStub num).reverse ++
        (if num ∈ codeVectors then [errorCode] else []).reverse =
      [UInt32.ofNat num, if num ∈ codeVectors then errorCode else 0] := by
  have same : num ∈ isrErr ↔ num ∈ codeVectors := by
    revert num
    decide
  rw [isrStub]
  by_cases coded : num ∈ codeVectors
  · rw [if_pos (same.mpr coded), if_pos coded, if_pos coded]
    rfl
  · rw [if_neg (same.not.mpr coded), if_neg coded, if_neg coded]
    rfl

theorem entryStack_kept (cpu : Cpu) (ss0 esp0 : UInt32) :
    (entryStack cpu ss0 esp0).mem = cpu.mem ∧
      (∀ reg, reg ≠ .esp → (entryStack cpu ss0 esp0).reg reg = cpu.reg reg) ∧
      ∀ seg, seg ≠ .ss → (entryStack cpu ss0 esp0).seg seg = cpu.seg seg := by
  rw [entryStack]
  split
  · exact ⟨rfl, fun _ other => if_neg other, fun _ other => if_neg other⟩
  · exact ⟨rfl, fun _ _ => rfl, fun _ _ => rfl⟩

/-- The processor in front of the stub. -/
theorem deliver_kept (cpu : Cpu) (gate : Gate) (ss0 esp0 : UInt32)
    (errorCode : List UInt32) :
    (∀ reg, reg ≠ .esp →
        (deliver cpu gate ss0 esp0 errorCode).reg reg = cpu.reg reg) ∧
      ∀ seg, seg ≠ .ss → seg ≠ .cs →
        (deliver cpu gate ss0 esp0 errorCode).seg seg = cpu.seg seg := by
  obtain ⟨_, reg, seg⟩ := entryStack_kept cpu ss0 esp0
  refine ⟨fun other different => ?_, fun other different code => ?_⟩
  · exact (Cpu.pushWords_reg different).trans (reg other different)
  · have kept : (deliver cpu gate ss0 esp0 errorCode).seg other =
        ((entryStack cpu ss0 esp0).pushWords
          (returnWords cpu ++ errorCode)).seg other := if_neg code
    rw [kept, Cpu.pushWords_kept.1]
    exact seg other different

/-- All words that an interrupt pushes, in their order. -/
def entryWords (code : IsrCode) (cpu : Cpu) (num : Nat)
    (codeWords : List UInt32) (espOrig regs : UInt32) : List UInt32 :=
  returnWords cpu ++ codeWords ++
    (isrStub num ++ generalWords cpu espOrig regs) ++ [code.behindCall]

theorem entryWords_reverse {codeWords : List UInt32} {espOrig regs : UInt32}
    {errCode : UInt32}
    (codes : (isrStub num).reverse ++ codeWords.reverse =
      [UInt32.ofNat num, errCode]) :
    (entryWords code cpu num codeWords espOrig regs).reverse =
      [code.behindCall, regs] ++
        (Context.ofCpu cpu).words espOrig (UInt32.ofNat num) errCode := by
  simp only [entryWords, List.reverse_append, returnWords_reverse,
    List.append_assoc]
  rw [← List.append_assoc _ codeWords.reverse, codes]
  rfl

theorem entryWords_length {codeWords : List UInt32} {espOrig regs : UInt32}
    {errCode : UInt32}
    (codes : (isrStub num).reverse ++ codeWords.reverse =
      [UInt32.ofNat num, errCode]) :
    4 * (entryWords code cpu num codeWords espOrig regs).length =
      (Context.ofCpu cpu).size + 8 := by
  rw [← List.length_reverse, entryWords_reverse codes, Context.words,
    Context.size]
  split <;> rfl

theorem entry_eq {codeWords : List UInt32} {gate : Gate} :
    let start := entryStack cpu 0x10 esp0
    let entered := deliver cpu gate 0x10 esp0 codeWords
    let saved := saveRun ((isrStub num).map .pushImm ++ isrCommon) entered
    let cpu' := saved.pushWord code.behindCall
    ∃ espOrig regs,
      regs = (start.pushWords (returnWords cpu ++ codeWords ++
        (isrStub num ++ (generalWords cpu espOrig 0).dropLast))).reg .esp ∧
      cpu'.mem = (start.pushWords
        (entryWords code cpu num codeWords espOrig regs)).mem ∧
      cpu'.reg .esp = (start.pushWords
        (entryWords code cpu num codeWords espOrig regs)).reg .esp ∧
      cpu'.seg .cs = gate.selector ∧ cpu'.seg .ss = start.seg .ss ∧
      ∀ seg, seg ≠ .cs → seg ≠ .ss → cpu'.seg seg = 0x10 := by
  intro start entered saved cpu'
  obtain ⟨mem, esp, cs, ss, data⟩ := saveRun_eq entered num
  obtain ⟨regKept, segKept⟩ :=
    deliver_kept cpu gate 0x10 esp0 codeWords
  have general (espOrig regs : UInt32) :
      generalWords entered espOrig regs = generalWords cpu espOrig regs := by
    simp only [generalWords, entered, regKept .eax (by decide),
      regKept .ecx (by decide), regKept .edx (by decide),
      regKept .ebx (by decide), regKept .ebp (by decide),
      regKept .esi (by decide), regKept .edi (by decide),
      segKept .ds (by decide) (by decide), segKept .es (by decide) (by decide),
      segKept .fs (by decide) (by decide), segKept .gs (by decide) (by decide)]
  rw [general, general] at mem esp
  have through (words : List UInt32) :
      (entered.pushWords words).mem =
          (start.pushWords (returnWords cpu ++ codeWords ++ words)).mem ∧
        (entered.pushWords words).reg .esp =
          (start.pushWords (returnWords cpu ++ codeWords ++ words)).reg
            .esp := by
    rw [@Cpu.pushWords_append start]
    exact Cpu.pushWords_congr rfl rfl
  simp only [(through _).1, (through _).2] at mem esp
  have stack : entered.seg .ss = start.seg .ss := by
    have kept : entered.seg .ss =
      (start.pushWords (returnWords cpu ++ codeWords)).seg .ss := rfl
    rw [kept, Cpu.pushWords_kept.1]
  refine ⟨(start.pushWords
    (returnWords cpu ++ codeWords ++ isrStub num)).reg .esp, _, rfl, ?_, ?_,
    cs, ss.trans stack, data⟩
  · rw [entryWords, @Cpu.pushWords_append start]
    exact (@Cpu.pushWords_congr _ [code.behindCall] _ mem esp).1
  · rw [entryWords, @Cpu.pushWords_append start]
    exact (@Cpu.pushWords_congr _ [code.behindCall] _ mem esp).2

theorem takeInterrupt_entered (known : num ∈ isrNoErr ++ isrErr)
    (room : (Context.ofCpu cpu).size + 8 ≤
      ((entryStack cpu 0x10 esp0).reg .esp).toNat) :
    ∃ cpu' regs, takeInterrupt code cpu esp0 num errorCode = some cpu' ∧
      Entered code cpu esp0 num (if num ∈ codeVectors then errorCode else 0)
        cpu' regs := by
  rw [takeInterrupt, gateOf_idtInit, if_pos known]
  obtain ⟨startMem, _, _⟩ := entryStack_kept cpu 0x10 esp0
  have codes := @isrStub_reverse errorCode num known
  generalize isCode : (if num ∈ codeVectors then [errorCode] else []) =
    codeWords at codes
  obtain ⟨espOrig, regs, isRegs, mem, esp, cs, ss, data⟩ :=
    @entry_eq code cpu esp0 num codeWords ⟨0x08, code.isr num⟩
  have length := @entryWords_length code cpu num codeWords espOrig regs _ codes
  have short : 4 * (returnWords cpu ++ codeWords ++ (isrStub num ++
      (generalWords cpu espOrig 0).dropLast)).length =
        (Context.ofCpu cpu).size := by
    rw [← Nat.add_right_cancel_iff (n := 8), ← length, entryWords]
    simp only [List.length_append, generalWords, List.dropLast,
      List.length_cons, List.length_nil]
    omega
  have reverse := @entryWords_reverse code cpu num codeWords espOrig regs _
    codes
  obtain ⟨start, isStart⟩ : ∃ start, start = entryStack cpu 0x10 esp0 :=
    ⟨_, rfl⟩
  rw [← isStart] at room isRegs mem esp ss startMem
  have place : regs.toNat + (Context.ofCpu cpu).size =
      (start.reg .esp).toNat := by
    rw [isRegs, Cpu.pushWords_esp (by omega), short]
    omega
  have words := @Cpu.pushWords_words start
    (entryWords code cpu num codeWords espOrig regs) (by omega)
  have top := @Cpu.pushWords_esp start
    (entryWords code cpu num codeWords espOrig regs) (by omega)
  have others := @Cpu.pushWords_other start
    (entryWords code cpu num codeWords espOrig regs) (by omega)
  have low : (start.reg .esp).toNat - ((Context.ofCpu cpu).size + 8) =
      regs.toNat - 8 := by
    omega
  rw [length] at words top others
  rw [low] at words top
  rw [← mem] at words others
  rw [reverse, wordsAt_append] at words
  rw [← esp] at top
  refine ⟨_, regs.toNat, rfl, ?_⟩
  exact
    { place := by rw [← isStart]; exact place
      frame := ⟨espOrig, by
        have frame := words.2
        have above : regs.toNat - 8 +
            4 * [code.behindCall, regs].length = regs.toNat := by
          simp only [List.length_cons, List.length_nil]
          omega
        rwa [above] at frame⟩
      call := by
        rw [UInt32.ofNat_toNat]
        exact words.1
      esp := by
        refine (congrArg (· + 8) top).trans ?_
        omega
      others := fun addr outside =>
        (others (by omega)).trans (congrFun startMem addr)
      kernel := cs
      stack := by rw [← isStart]; exact ss
      data := data
      first := rfl }

end Entry

/-! ## The way out -/

section Leave

variable {cpu : Cpu} {context : Context} {espOrig num errCode : UInt32}

/-- The registers that `isr_return` has popped in front of its `iret`. -/
structure Popped (cpu general : Cpu) : Prop where
  mem : general.mem = cpu.mem
  cs : general.seg .cs = cpu.seg .cs
  ss : general.seg .ss = cpu.seg .ss
  esp : general.reg .esp = cpu.reg .esp + UInt32.ofNat 56
  reg : ∀ place ∈ [(Reg.edi, 4), (.esi, 5), (.ebp, 6), (.ebx, 8), (.edx, 9),
    (.ecx, 10), (.eax, 11)], general.reg place.1 =
      readWord cpu.mem (cpu.reg .esp + UInt32.ofNat (4 * place.2))
  seg : ∀ place ∈ [(Seg.gs, 0), (.fs, 1), (.es, 2), (.ds, 3)],
    general.seg place.1 = readWord cpu.mem
      (cpu.reg .esp + UInt32.ofNat (4 * place.2)) % 65536

theorem isrReturn_popped (cpu : Cpu) : ∃ general : Cpu,
    run isrReturn cpu = step general .iret ∧ Popped cpu general := by
  have word (place : UInt32) : place + 4 = place + UInt32.ofNat 4 := rfl
  have eight (place : UInt32) : place + 8 = place + UInt32.ofNat 8 := rfl
  have zero : cpu.reg .esp + UInt32.ofNat (4 * 0) = cpu.reg .esp :=
    UInt32.add_zero _
  refine ⟨run (isrReturn.take 6) cpu, rfl, rfl, rfl, rfl, ?_, ?_, ?_⟩
  · have esp : (run (isrReturn.take 6) cpu).reg .esp =
        cpu.reg .esp + 4 + 4 + 4 + 4 + 4 + 4 + 4 + 4 + 4 + 4 + 4 + 4 + 8 :=
      rfl
    rw [esp]
    simp only [word, eight, add_ofNat]
  · have edi : (run (isrReturn.take 6) cpu).reg .edi = readWord cpu.mem
        (cpu.reg .esp + 4 + 4 + 4 + 4) := rfl
    have esi : (run (isrReturn.take 6) cpu).reg .esi = readWord cpu.mem
        (cpu.reg .esp + 4 + 4 + 4 + 4 + 4) := rfl
    have ebp : (run (isrReturn.take 6) cpu).reg .ebp = readWord cpu.mem
        (cpu.reg .esp + 4 + 4 + 4 + 4 + 4 + 4) := rfl
    have ebx : (run (isrReturn.take 6) cpu).reg .ebx = readWord cpu.mem
        (cpu.reg .esp + 4 + 4 + 4 + 4 + 4 + 4 + 4 + 4) := rfl
    have edx : (run (isrReturn.take 6) cpu).reg .edx = readWord cpu.mem
        (cpu.reg .esp + 4 + 4 + 4 + 4 + 4 + 4 + 4 + 4 + 4) := rfl
    have ecx : (run (isrReturn.take 6) cpu).reg .ecx = readWord cpu.mem
        (cpu.reg .esp + 4 + 4 + 4 + 4 + 4 + 4 + 4 + 4 + 4 + 4) := rfl
    have eax : (run (isrReturn.take 6) cpu).reg .eax = readWord cpu.mem
        (cpu.reg .esp + 4 + 4 + 4 + 4 + 4 + 4 + 4 + 4 + 4 + 4 + 4) := rfl
    simp only [List.forall_mem_cons, edi, esi, ebp, ebx, edx, ecx, eax, word,
      add_ofNat, Nat.reduceMul, true_and]
    exact List.forall_mem_nil _
  · have gs : (run (isrReturn.take 6) cpu).seg .gs =
        readWord cpu.mem (cpu.reg .esp) % 65536 := rfl
    have fs : (run (isrReturn.take 6) cpu).seg .fs =
        readWord cpu.mem (cpu.reg .esp + 4) % 65536 := rfl
    have es : (run (isrReturn.take 6) cpu).seg .es =
        readWord cpu.mem (cpu.reg .esp + 4 + 4) % 65536 := rfl
    have ds : (run (isrReturn.take 6) cpu).seg .ds =
        readWord cpu.mem (cpu.reg .esp + 4 + 4 + 4) % 65536 := rfl
    simp only [List.forall_mem_cons, zero, gs, fs, es, ds, word, add_ofNat,
      Nat.reduceMul, true_and]
    exact List.forall_mem_nil _

/-- `iret` changes the instruction pointer, the flags and the selectors and
stack pointer that it pops. -/
theorem iret_kept (general : Cpu) :
    (∀ reg, reg ≠ .esp → (step general .iret).reg reg = general.reg reg) ∧
      ∀ seg, seg ≠ .cs → seg ≠ .ss →
        (step general .iret).seg seg = general.seg seg := by
  simp only [step]
  split
  · exact ⟨fun _ other => (if_neg other).trans (if_neg other),
      fun _ code stack => (if_neg stack).trans (if_neg code)⟩
  · exact ⟨fun _ other => if_neg other, fun _ code _ => if_neg code⟩

theorem iret_inner {general : Cpu}
    (inner : ¬ general.privilege < (general.drop 4).top % 65536 % 4) :
    (step general .iret).eip = general.top ∧
      (step general .iret).seg .cs = (general.drop 4).top % 65536 ∧
      (step general .iret).eflags = (general.drop 8).top ∧
      (step general .iret).reg .esp = general.reg .esp + 12 ∧
      (step general .iret).seg .ss = general.seg .ss := by
  simp only [step]
  rw [if_neg inner]
  exact ⟨rfl, rfl, rfl, rfl, rfl⟩

theorem Context.words_length :
    4 * (context.words espOrig num errCode).length = context.size := by
  rw [Context.words, Context.size]
  split <;> rfl

/-- The words that `isr_return` takes from the frame. -/
theorem frame_read
    (frame : WordsAt cpu.mem (cpu.reg .esp).toNat
      (context.words espOrig num errCode))
    (room : (cpu.reg .esp).toNat + context.size ≤ 2 ^ 32) {index : Nat}
    (inside : index < 17) :
    readWord cpu.mem (cpu.reg .esp + UInt32.ofNat (4 * index)) =
      [context.seg .gs, context.seg .fs, context.seg .es, context.seg .ds,
        context.reg .edi, context.reg .esi, context.reg .ebp, espOrig,
        context.reg .ebx, context.reg .edx, context.reg .ecx,
        context.reg .eax, num, errCode, context.eip, context.seg .cs,
        context.eflags][index] := by
  have length := @Context.words_length context espOrig num errCode
  rw [frame.read (by rw [length]; exact room) (by
    rw [Context.words, List.length_append]
    exact Nat.lt_add_right _ inside)]
  exact List.getElem_append_left inside

/-- `isr_return` brings back the registers that the frame holds. -/
theorem isrReturn_context
    (frame : WordsAt cpu.mem (cpu.reg .esp).toNat
      (context.words espOrig num errCode))
    (room : (cpu.reg .esp).toNat + context.size ≤ 2 ^ 32)
    (selectors : ∀ seg, context.seg seg < 65536)
    (kernel : cpu.privilege = 0)
    (inner : context.outer = false →
      context.reg .esp = cpu.reg .esp + UInt32.ofNat 68 ∧
        context.seg .ss = cpu.seg .ss) :
    Context.ofCpu (run isrReturn cpu) = context := by
  obtain ⟨general, same, popped⟩ := isrReturn_popped cpu
  have narrow (seg : Seg) : context.seg seg % 65536 = context.seg seg := by
    apply UInt32.toNat.inj
    rw [UInt32.toNat_mod]
    exact Nat.mod_eq_of_lt (UInt32.lt_iff_toNat_lt.mp (selectors seg))
  have read {index : Nat} (inside : index < 17) :=
    frame_read frame room inside
  have reg (place : Reg × Nat) (known : place ∈ [(Reg.edi, 4), (.esi, 5),
      (.ebp, 6), (.ebx, 8), (.edx, 9), (.ecx, 10), (.eax, 11)])
      (other : place.1 ≠ .esp) : (run isrReturn cpu).reg place.1 =
        readWord cpu.mem (cpu.reg .esp + UInt32.ofNat (4 * place.2)) := by
    rw [same, (iret_kept general).1 _ other, popped.reg _ known]
  have seg (place : Seg × Nat) (known : place ∈ [(Seg.gs, 0), (.fs, 1),
      (.es, 2), (.ds, 3)]) (code : place.1 ≠ .cs) (stack : place.1 ≠ .ss)
      (inside : place.2 < 17) {word : UInt32}
      (isWord : readWord cpu.mem (cpu.reg .esp + UInt32.ofNat (4 * place.2)) =
        word) : (run isrReturn cpu).seg place.1 = word % 65536 := by
    rw [same, (iret_kept general).2 _ code stack, popped.seg _ known, isWord]
  have target : readWord general.mem (general.reg .esp + UInt32.ofNat 4) =
      context.seg .cs := by
    rw [popped.mem, popped.esp, add_ofNat]
    exact read (by decide : 15 < 17)
  have eip : readWord general.mem (general.reg .esp) = context.eip := by
    rw [popped.mem, popped.esp]
    exact read (by decide : 14 < 17)
  have eflags : readWord general.mem (general.reg .esp + UInt32.ofNat 8) =
      context.eflags := by
    rw [popped.mem, popped.esp, add_ofNat]
    exact read (by decide : 16 < 17)
  -- What the `iret` pops depends on where it returns to.
  have returned : (step general .iret).eip = context.eip ∧
      (step general .iret).seg .cs = context.seg .cs ∧
      (step general .iret).eflags = context.eflags ∧
      (step general .iret).reg .esp = context.reg .esp ∧
      (step general .iret).seg .ss = context.seg .ss := by
    have level : general.privilege = 0 := by
      rw [Cpu.privilege, popped.cs]
      exact kernel
    have going : (general.drop 4).top % 65536 % 4 = context.seg .cs % 4 := by
      rw [← narrow .cs]
      exact congrArg (· % 65536 % 4) target
    cases isOuter : context.outer with
    | true =>
        have length := @Context.words_length context espOrig num errCode
        have above (index : Nat) (inside : index < 19) :
            readWord cpu.mem (cpu.reg .esp + UInt32.ofNat (4 * index)) =
              ((context.words espOrig num errCode)[index]?).getD 0 := by
          have bound : index < (context.words espOrig num errCode).length := by
            rw [Context.size, isOuter, if_pos rfl] at length
            omega
          rw [frame.read (by rw [length]; exact room) bound,
            List.getElem?_eq_getElem bound, Option.getD_some]
        have words : (context.words espOrig num errCode)[17]? =
              some (context.reg .esp) ∧
            (context.words espOrig num errCode)[18]? =
              some (context.seg .ss) := by
          rw [Context.words, isOuter]
          exact ⟨rfl, rfl⟩
        have esp : readWord general.mem
            (general.reg .esp + UInt32.ofNat 12) = context.reg .esp := by
          have word := above 17 (by decide)
          rw [words.1] at word
          rw [popped.mem, popped.esp, add_ofNat]
          exact word
        have ss : readWord general.mem
            (general.reg .esp + UInt32.ofNat 16) = context.seg .ss := by
          have word := above 18 (by decide)
          rw [words.2] at word
          rw [popped.mem, popped.esp, add_ofNat]
          exact word
        have nonzero : context.seg .cs % 4 ≠ 0 := by
          simpa [Context.outer] using isOuter
        obtain ⟨isEip, isCs, isFlags, isEsp, isSs⟩ :=
          @iret_user general _ _ _ _ _ eip target eflags esp ss
            (by
              rw [narrow .cs]
              have zero : general.seg .cs % 4 = 0 := level
              rw [zero]
              exact UInt32.pos_iff_ne_zero.mpr nonzero)
        rw [narrow] at isCs isSs
        exact ⟨isEip, isCs, isFlags, isEsp, isSs⟩
    | false =>
        obtain ⟨esp, ss⟩ := inner isOuter
        have zero : context.seg .cs % 4 = 0 := by
          simpa [Context.outer] using isOuter
        obtain ⟨isEip, isCs, isFlags, isEsp, isSs⟩ :=
          @iret_inner general (by
            rw [level, going, zero]
            exact UInt32.lt_irrefl _)
        refine ⟨isEip.trans eip, ?_, isFlags.trans eflags, ?_, ?_⟩
        · rw [isCs, ← narrow .cs]
          exact congrArg (· % 65536) target
        · have twelve : (12 : UInt32) = UInt32.ofNat 12 := rfl
          rw [isEsp, popped.esp, twelve, add_ofNat, esp]
        · rw [isSs, popped.ss, ss]
  obtain ⟨isEip, isCs, isFlags, isEsp, isSs⟩ := returned
  have registers (place : Reg) :
      (run isrReturn cpu).reg place = context.reg place := by
    cases place with
    | esp => rw [same, isEsp]
    | eax =>
        exact (reg (.eax, 11) (by decide) (by decide)).trans
          (read (by decide : 11 < 17))
    | ecx =>
        exact (reg (.ecx, 10) (by decide) (by decide)).trans
          (read (by decide : 10 < 17))
    | edx =>
        exact (reg (.edx, 9) (by decide) (by decide)).trans
          (read (by decide : 9 < 17))
    | ebx =>
        exact (reg (.ebx, 8) (by decide) (by decide)).trans
          (read (by decide : 8 < 17))
    | ebp =>
        exact (reg (.ebp, 6) (by decide) (by decide)).trans
          (read (by decide : 6 < 17))
    | esi =>
        exact (reg (.esi, 5) (by decide) (by decide)).trans
          (read (by decide : 5 < 17))
    | edi =>
        exact (reg (.edi, 4) (by decide) (by decide)).trans
          (read (by decide : 4 < 17))
  have selected (place : Seg) :
      (run isrReturn cpu).seg place = context.seg place := by
    cases place with
    | cs => rw [same, isCs]
    | ss => rw [same, isSs]
    | gs =>
        exact (seg (.gs, 0) (by decide) (by decide) (by decide) (by decide)
          (read (by decide : 0 < 17))).trans (narrow .gs)
    | fs =>
        exact (seg (.fs, 1) (by decide) (by decide) (by decide) (by decide)
          (read (by decide : 1 < 17))).trans (narrow .fs)
    | es =>
        exact (seg (.es, 2) (by decide) (by decide) (by decide) (by decide)
          (read (by decide : 2 < 17))).trans (narrow .es)
    | ds =>
        exact (seg (.ds, 3) (by decide) (by decide) (by decide) (by decide)
          (read (by decide : 3 < 17))).trans (narrow .ds)
  refine Context.ext (funext registers) (funext selected) ?_ ?_
  · exact (congrArg Cpu.eip same).trans isEip
  · exact (congrArg Cpu.eflags same).trans isFlags

end Leave

end LoafOs
