import LoafOs.Lib.ByteMemory

/-!
# The processor during a thread switch

The instructions of the 80386 that save and restore a thread: moves, pushes
and pops, `popa`, near returns and returns from interrupts in protected
mode.  A stretch of memory read as consecutive words is what the pops see.
-/

namespace I386

inductive Reg where
  | eax
  | ecx
  | edx
  | ebx
  | esp
  | ebp
  | esi
  | edi
  deriving DecidableEq, Repr

inductive Seg where
  | cs
  | ss
  | ds
  | es
  | fs
  | gs
  deriving DecidableEq, Repr

structure Cpu where
  reg : Reg → UInt32
  seg : Seg → UInt32
  eip : UInt32
  eflags : UInt32
  mem : Bytes

/-- The word at an address. -/
def readWord (mem : Bytes) (addr : UInt32) : UInt32 :=
  UInt32.ofNat (mem.word32 addr.toNat)

def writeWord (mem : Bytes) (addr value : UInt32) : Bytes :=
  mem.putWord32 addr.toNat value.toNat

namespace Cpu

def setReg (cpu : Cpu) (reg : Reg) (value : UInt32) : Cpu :=
  { cpu with reg := fun other => if other = reg then value else cpu.reg other }

def setSeg (cpu : Cpu) (seg : Seg) (value : UInt32) : Cpu :=
  { cpu with seg := fun other => if other = seg then value else cpu.seg other }

/-- The word on top of the stack. -/
def top (cpu : Cpu) : UInt32 := readWord cpu.mem (cpu.reg .esp)

/-- Take words off the stack. -/
def drop (cpu : Cpu) (bytes : UInt32) : Cpu :=
  cpu.setReg .esp (cpu.reg .esp + bytes)

/-- The current privilege level. -/
def privilege (cpu : Cpu) : UInt32 := cpu.seg .cs % 4

end Cpu

inductive Instr where
  | load (dst base : Reg) (offset : UInt32)
  | store (base src : Reg)
  | move (dst src : Reg)
  | push (src : Reg)
  | pop (dst : Reg)
  | popSeg (dst : Seg)
  | popa
  | addEsp (bytes : UInt32)
  | ret
  | iret
  deriving DecidableEq, Repr

/-- `pop` into a general register. -/
def popReg (cpu : Cpu) (dst : Reg) : Cpu := (cpu.drop 4).setReg dst cpu.top

/-- One instruction.  `popa` throws the word for `esp` away, and `iret`
takes a stack pointer only when it goes to a less privileged level. -/
def step (cpu : Cpu) : Instr → Cpu
  | .load dst base offset =>
      cpu.setReg dst (readWord cpu.mem (cpu.reg base + offset))
  | .store base src =>
      { cpu with mem := writeWord cpu.mem (cpu.reg base) (cpu.reg src) }
  | .move dst src => cpu.setReg dst (cpu.reg src)
  | .push src =>
      { cpu.setReg .esp (cpu.reg .esp - 4) with
        mem := writeWord cpu.mem (cpu.reg .esp - 4) (cpu.reg src) }
  | .pop dst => popReg cpu dst
  | .popSeg dst => (cpu.drop 4).setSeg dst (cpu.top % 65536)
  | .popa =>
      let cpu := popReg (popReg (popReg cpu .edi) .esi) .ebp
      popReg (popReg (popReg (popReg (cpu.drop 4) .ebx) .edx) .ecx) .eax
  | .addEsp bytes => cpu.drop bytes
  | .ret => { cpu.drop 4 with eip := cpu.top }
  | .iret =>
      let target := (cpu.drop 4).top % 65536
      let popped :=
        { (cpu.drop 12).setSeg .cs target with
          eip := cpu.top
          eflags := (cpu.drop 8).top }
      if cpu.privilege < target % 4 then
        (popped.setReg .esp popped.top).setSeg .ss
          ((popped.drop 4).top % 65536)
      else
        popped

/-- A sequence of instructions. -/
def run (code : List Instr) (cpu : Cpu) : Cpu := code.foldl step cpu

/-! ## Words on a stack -/

/-- Consecutive words of memory. -/
def WordsAt (mem : Bytes) (addr : Nat) : List UInt32 → Prop
  | [] => True
  | word :: words =>
      UInt32.ofNat (mem.word32 addr) = word ∧ WordsAt mem (addr + 4) words

variable {mem mem' : Bytes} {addr value esp : UInt32} {words : List UInt32}
  {start offset : Nat}

theorem ofNat_word32_putWord32 {number : Nat} :
    UInt32.ofNat ((mem.putWord32 start number).word32 start) =
      UInt32.ofNat number := by
  have bytes : ∀ left right : Nat, left % 256 = right % 256 →
      UInt8.ofNat left = UInt8.ofNat right := by
    intro left right same
    apply UInt8.toNat.inj
    rw [UInt8.toNat_ofNat', UInt8.toNat_ofNat']
    exact same
  have wrap : mem.putWord32 start number =
      mem.putWord32 start (number % 2 ^ 32) := by
    simp only [Bytes.putWord32, Bytes.putWord16]
    rw [bytes number (number % 2 ^ 32) (by omega),
      bytes (number / 256) (number % 2 ^ 32 / 256) (by omega),
      bytes (number / 65536) (number % 2 ^ 32 / 65536) (by omega),
      bytes (number / 65536 / 256) (number % 2 ^ 32 / 65536 / 256)
        (by omega)]
  rw [wrap, Bytes.word32_putWord32 (Nat.mod_lt _ (by decide))]
  apply UInt32.toNat.inj
  simp only [UInt32.toNat_ofNat', Nat.mod_mod]

theorem readWord_writeWord :
    readWord (writeWord mem addr value) addr = value := by
  rw [readWord, writeWord, ofNat_word32_putWord32, UInt32.ofNat_toNat]

theorem writeWord_other {index : Nat}
    (outside : index < addr.toNat ∨ addr.toNat + 4 ≤ index) :
    writeWord mem addr value index = mem index :=
  Bytes.putWord32_other outside

theorem word32_writeWord_other
    (outside : start + 4 ≤ addr.toNat ∨ addr.toNat + 4 ≤ start) :
    (writeWord mem addr value).word32 start = mem.word32 start :=
  Bytes.word32_congr fun index small => writeWord_other (by omega)

/-- The words only depend on the bytes that they take up. -/
theorem WordsAt.congr (present : WordsAt mem start words)
    (agree : ∀ index, start ≤ index → index < start + 4 * words.length →
      mem' index = mem index) : WordsAt mem' start words := by
  induction words generalizing start with
  | nil => trivial
  | cons word words inductionHypothesis =>
      obtain ⟨first, rest⟩ := present
      rw [List.length_cons] at agree
      have same : mem'.word32 start = mem.word32 start :=
        Bytes.word32_congr fun index small =>
          agree _ (by omega) (by omega)
      exact ⟨same ▸ first, inductionHypothesis rest
        fun index lower upper => agree index (by omega) (by omega)⟩

theorem wordsAt_append {later : List UInt32} :
    WordsAt mem start (words ++ later) ↔
      WordsAt mem start words ∧
        WordsAt mem (start + 4 * words.length) later := by
  induction words generalizing start with
  | nil => exact ⟨fun present => ⟨trivial, present⟩, fun both => both.2⟩
  | cons word words inductionHypothesis =>
      have place : start + 4 * (word :: words).length =
          start + 4 + 4 * words.length := by
        rw [List.length_cons]
        omega
      rw [List.cons_append, WordsAt, WordsAt, inductionHypothesis, place,
        and_assoc]

theorem toNat_add (small : esp.toNat + offset < 2 ^ 32) :
    (esp + UInt32.ofNat offset).toNat = esp.toNat + offset := by
  rw [UInt32.toNat_add, UInt32.toNat_ofNat']
  omega

theorem toNat_sub (large : offset ≤ esp.toNat) :
    (esp - UInt32.ofNat offset).toNat = esp.toNat - offset := by
  have bound := esp.toNat_lt
  rw [UInt32.toNat_sub, UInt32.toNat_ofNat']
  omega

/-- The next words of a stack. -/
theorem WordsAt.read (present : WordsAt mem esp.toNat words)
    (room : esp.toNat + 4 * words.length ≤ 2 ^ 32) {index : Nat}
    (inside : index < words.length) :
    readWord mem (esp + UInt32.ofNat (4 * index)) = words[index] := by
  have place : (esp + UInt32.ofNat (4 * index)).toNat =
      esp.toNat + 4 * index := toNat_add (by omega)
  rw [readWord, place]
  clear room place
  generalize esp.toNat = start at present
  induction words generalizing start index with
  | nil => exact absurd inside (Nat.not_lt_zero _)
  | cons word words inductionHypothesis =>
      obtain ⟨first, rest⟩ := present
      cases index with
      | zero => exact first
      | succ index =>
          rw [List.length_cons] at inside
          have below : index < words.length := Nat.lt_of_succ_lt_succ inside
          have later := inductionHypothesis below (start + 4) rest
          have same : start + 4 * (index + 1) = start + 4 + 4 * index := by
            omega
          rw [same, later]
          rfl

end I386
