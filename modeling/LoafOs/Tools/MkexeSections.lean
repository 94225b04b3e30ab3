import LoafOs.Tools.Mkexe
import LoafOs.Userspace.Exe

/-!
# Packing a program

For an ELF file with the sections of `libc/linker.ld` the loop over the
section headers finds their addresses, and the packed file is a header and
the flat image up to the end of `.data`.
-/

namespace LoafOs

/-- The sections of a program that `libc/linker.ld` lays out. -/
structure ProgramSections where
  text : Elf32Shdr
  rodata : Elf32Shdr
  data : Elf32Shdr
  bss : Option Elf32Shdr
  deriving DecidableEq, Repr

namespace ProgramSections

/-- The sections with bytes in the file. -/
def stored (program : ProgramSections) : List Elf32Shdr :=
  [program.text, program.rodata, program.data]

/-- The first address after `.data`. -/
def dataStop (program : ProgramSections) : Nat :=
  program.data.addr + program.data.size

/-- The first address after the program. -/
def stop (program : ProgramSections) : Nat :=
  match program.bss with
  | none => program.dataStop
  | some bss => bss.addr + bss.size

end ProgramSections

/-- The name of a section, with its terminator. -/
def Named (elf : ElfFile) (sh : Elf32Shdr) (name : List UInt8) : Prop :=
  name <+: elf.shstrtab.drop sh.name

/-- `".text"`. -/
def textName : List UInt8 := [0x2e, 0x74, 0x65, 0x78, 0x74, 0]

/-- `".rodata"`. -/
def rodataName : List UInt8 :=
  [0x2e, 0x72, 0x6f, 0x64, 0x61, 0x74, 0x61, 0]

/-- An ELF file with these sections, one after the other in memory; the
other sections are not part of the program. -/
structure ElfLaidOut (elf : ElfFile) (program : ProgramSections) : Prop where
  stored : ∀ sh ∈ program.stored, sh ∈ elf.shdrs
  bss : ∀ sh, program.bss = some sh → sh ∈ elf.shdrs
  only : ∀ sh ∈ elf.shdrs, sh.addr ≠ 0 →
    sh ∈ program.stored ∨ program.bss = some sh
  textNamed : Named elf program.text textName
  rodataNamed : Named elf program.rodata rodataName
  dataNamed : Named elf program.data dataName
  bssNamed : ∀ sh, program.bss = some sh → Named elf sh bssName
  base : 0 < program.text.addr
  textRodata : program.text.addr + program.text.size ≤ program.rodata.addr
  rodataData : program.rodata.addr + program.rodata.size ≤ program.data.addr
  dataBss : ∀ sh, program.bss = some sh → program.dataStop ≤ sh.addr
  top : program.stop ≤ 2 ^ 32

/-- The flat image of the program: the bytes of its sections from the lowest
address to the end of `.data`. -/
structure FlatImage (elfBytes flat : List UInt8)
    (program : ProgramSections) : Prop where
  covers : program.dataStop - program.text.addr ≤ flat.length
  bytes : ∀ sh ∈ program.stored, ∀ index < sh.size,
    flat[sh.addr - program.text.addr + index]? =
      elfBytes[sh.offset + index]?

/-! ## The section names -/

section Names

variable {elf : ElfFile} {sh : Elf32Shdr} {program : ProgramSections}

theorem sameText_self (name rest : List UInt8) :
    sameText (name ++ rest) name = .ok true := by
  induction name with
  | nil => simp only [sameText]
  | cons char name inductionHypothesis =>
      rw [List.cons_append, sameText, if_pos rfl, inductionHypothesis]

theorem Named.sameText {name text : List UInt8} {result : Tool Bool}
    (named : Named elf sh name)
    (found : ∀ rest, LoafOs.sameText (name ++ rest) text = result) :
    LoafOs.sameText (elf.shstrtab.drop sh.name) text = result := by
  obtain ⟨rest, same⟩ := named
  rw [← same]
  exact found rest

theorem Named.ne {other : Elf32Shdr} {name name' : List UInt8}
    (named : Named elf sh name) (named' : Named elf other name')
    (apart : ¬ name <+: name' ∧ ¬ name' <+: name) : sh ≠ other := by
  rintro rfl
  rcases List.prefix_or_prefix_of_prefix named named' with first | second
  · exact apart.1 first
  · exact apart.2 second

/-- A code section is neither `.data` nor `.bss`. -/
theorem Named.step_other {name : List UInt8} {scan : SectionScan}
    (named : Named elf sh name) (nonzero : sh.addr ≠ 0)
    (notData : ∀ rest, LoafOs.sameText (name ++ rest) dataName = .ok false)
    (notBss : ∀ rest, LoafOs.sameText (name ++ rest) bssName = .ok false) :
    scan.step elf.shstrtab sh = .ok ((scan.lower sh).other sh) := by
  simp only [SectionScan.step, if_neg nonzero, named.sameText notData,
    named.sameText notBss]
  rfl

theorem Named.step_data {scan : SectionScan}
    (named : Named elf sh dataName) (nonzero : sh.addr ≠ 0) :
    scan.step elf.shstrtab sh = .ok ((scan.lower sh).data sh) := by
  simp only [SectionScan.step, if_neg nonzero,
    named.sameText (sameText_self dataName)]
  rfl

theorem Named.step_bss {scan : SectionScan}
    (named : Named elf sh bssName) (nonzero : sh.addr ≠ 0) :
    scan.step elf.shstrtab sh = .ok ((scan.lower sh).bss sh) := by
  have notData : ∀ rest, LoafOs.sameText (bssName ++ rest) dataName =
      .ok false := fun rest => by
    simp [LoafOs.sameText, bssName, dataName]
  simp only [SectionScan.step, if_neg nonzero, named.sameText notData,
    named.sameText (sameText_self bssName)]
  rfl

end Names

/-! ## The loop over the sections -/

section Scan

variable {elf : ElfFile} {program : ProgramSections}
  {seen : List Elf32Shdr} {scan : SectionScan} {sh : Elf32Shdr}

/-- The variables after `.data`. -/
def ScannedData (program : ProgramSections) (scan : SectionScan) : Prop :=
  scan.dataStartAddr = program.data.addr ∧
    scan.dataEndAddr = u32 program.dataStop ∧
    scan.dataFileSize = program.data.size

/-- The variables after `.bss`. -/
def ScannedBss (addr size : Nat) (scan : SectionScan) : Prop :=
  scan.bssStartAddr = addr ∧ scan.bssSize = size

/-- The variables of the loop after these sections. -/
structure Scanned (program : ProgramSections) (seen : List Elf32Shdr)
    (scan : SectionScan) : Prop where
  above : program.text.addr ≤ scan.lowestAddr
  lowest : ∀ sh ∈ seen, sh.addr ≠ 0 → scan.lowestAddr ≤ sh.addr
  data : program.data ∈ seen → ScannedData program scan
  bss : ∀ sh, program.bss = some sh → sh ∈ seen →
    ScannedBss sh.addr sh.size scan
  noBss : program.bss = none → ScannedBss 0xffffffff 0 scan

theorem Scanned.init (small : program.text.addr < 2 ^ 32) :
    Scanned program [] .init := by
  have lowest : SectionScan.init.lowestAddr = 0xffffffff := rfl
  exact ⟨by omega, fun _ member => absurd member List.not_mem_nil,
    fun member => absurd member List.not_mem_nil,
    fun _ _ member => absurd member List.not_mem_nil, fun _ => ⟨rfl, rfl⟩⟩

/-- What the body of the loop does to the variables. -/
structure Steps (program : ProgramSections) (sh : Elf32Shdr)
    (scan scan' : SectionScan) : Prop where
  above : program.text.addr ≤ scan.lowestAddr →
    program.text.addr ≤ scan'.lowestAddr
  lower : scan'.lowestAddr ≤ scan.lowestAddr
  lowest : sh.addr ≠ 0 → scan'.lowestAddr ≤ sh.addr
  dataNow : program.data = sh → ScannedData program scan'
  data : program.data ≠ sh → ScannedData program scan →
    ScannedData program scan'
  bssNow : program.bss = some sh → ScannedBss sh.addr sh.size scan'
  bss : program.bss ≠ some sh → ∀ addr size, ScannedBss addr size scan →
    ScannedBss addr size scan'

theorem Scanned.snoc {scan' : SectionScan}
    (scanned : Scanned program seen scan)
    (steps : Steps program sh scan scan') :
    Scanned program (seen ++ [sh]) scan' := by
  refine ⟨steps.above scanned.above, fun other member nonzero => ?_,
    fun member => ?_, fun other isBss member => ?_, fun none => ?_⟩
  · rcases List.mem_append.mp member with before | last
    · exact Nat.le_trans steps.lower
        (scanned.lowest other before nonzero)
    · rw [List.mem_singleton.mp last] at nonzero ⊢
      exact steps.lowest nonzero
  · by_cases same : program.data = sh
    · exact steps.dataNow same
    · have before := (List.mem_append.mp member).resolve_right
        fun last => same (List.mem_singleton.mp last)
      exact steps.data same (scanned.data before)
  · by_cases same : other = sh
    · rw [same] at isBss ⊢
      exact steps.bssNow isBss
    · have before := (List.mem_append.mp member).resolve_right
        fun last => same (List.mem_singleton.mp last)
      refine steps.bss (fun isSh => ?_) _ _ (scanned.bss other isBss before)
      rw [isBss] at isSh
      exact same (Option.some.inj isSh)
  · refine steps.bss (fun isSh => ?_) _ _ (scanned.noBss none)
    rw [none] at isSh
    simp at isSh

theorem lower_le (scan : SectionScan) (sh : Elf32Shdr) :
    (scan.lower sh).lowestAddr ≤ scan.lowestAddr ∧
      (scan.lower sh).lowestAddr ≤ sh.addr := by
  have lowest : (scan.lower sh).lowestAddr =
      if sh.addr < scan.lowestAddr then sh.addr else scan.lowestAddr := rfl
  rw [lowest]
  split <;> omega

theorem le_lower {addr : Nat} (first : addr ≤ scan.lowestAddr)
    (second : addr ≤ sh.addr) : addr ≤ (scan.lower sh).lowestAddr := by
  rw [SectionScan.lower]
  split <;> assumption

theorem other_lowestAddr : (scan.other sh).lowestAddr = scan.lowestAddr := by
  rw [SectionScan.other]
  split <;> rfl

theorem ElfLaidOut.base_le (laidOut : ElfLaidOut elf program) :
    (∀ sh ∈ program.stored, program.text.addr ≤ sh.addr) ∧
      ∀ sh, program.bss = some sh → program.text.addr ≤ sh.addr := by
  have first := laidOut.textRodata
  have second := laidOut.rodataData
  refine ⟨fun sh member => ?_, fun sh isBss => ?_⟩
  · simp only [ProgramSections.stored, List.mem_cons, List.not_mem_nil,
      or_false] at member
    rcases member with rfl | rfl | rfl
    · exact Nat.le_refl _
    · omega
    · omega
  · have third := laidOut.dataBss sh isBss
    rw [ProgramSections.dataStop] at third
    omega

/-- The names tell the sections apart. -/
theorem ElfLaidOut.code_ne (laidOut : ElfLaidOut elf program)
    (isCode : sh = program.text ∨ sh = program.rodata) :
    program.data ≠ sh ∧ program.bss ≠ some sh := by
  rcases isCode with rfl | rfl
  · exact ⟨laidOut.dataNamed.ne laidOut.textNamed (by decide), fun isBss =>
      (laidOut.bssNamed _ isBss).ne laidOut.textNamed (by decide) rfl⟩
  · exact ⟨laidOut.dataNamed.ne laidOut.rodataNamed (by decide), fun isBss =>
      (laidOut.bssNamed _ isBss).ne laidOut.rodataNamed (by decide) rfl⟩

theorem ElfLaidOut.bss_ne (laidOut : ElfLaidOut elf program)
    (isBss : program.bss = some sh) : program.data ≠ sh :=
  laidOut.dataNamed.ne (laidOut.bssNamed _ isBss) (by decide)

theorem ElfLaidOut.steps_code (laidOut : ElfLaidOut elf program)
    (isCode : sh = program.text ∨ sh = program.rodata)
    (base : program.text.addr ≤ sh.addr) :
    Steps program sh scan ((scan.lower sh).other sh) := by
  obtain ⟨notData, notBss⟩ := laidOut.code_ne isCode
  have lower := lower_le scan sh
  refine ⟨fun above => ?_, ?_, fun _ => ?_,
    fun isData => absurd isData notData, fun _ before => ?_,
    fun isBss => absurd isBss notBss, fun _ _ _ before => ?_⟩
  · rw [other_lowestAddr]
    exact le_lower above base
  · rw [other_lowestAddr]
    exact lower.1
  · rw [other_lowestAddr]
    exact lower.2
  · rw [SectionScan.other]
    split <;> exact before
  · rw [SectionScan.other]
    split <;> exact before

theorem ElfLaidOut.steps_data (laidOut : ElfLaidOut elf program) :
    Steps program program.data scan
      ((scan.lower program.data).data program.data) := by
  have base := laidOut.base_le.1 program.data (by
    simp [ProgramSections.stored])
  have lower := lower_le scan program.data
  exact ⟨fun above => le_lower above base, lower.1, fun _ => lower.2,
    fun _ => ⟨rfl, rfl, rfl⟩, fun different => absurd rfl different,
    fun isBss => absurd rfl (laidOut.bss_ne isBss),
    fun _ _ _ before => before⟩

theorem ElfLaidOut.steps_bss (laidOut : ElfLaidOut elf program)
    (isBss : program.bss = some sh) :
    Steps program sh scan ((scan.lower sh).bss sh) := by
  have base := laidOut.base_le.2 sh isBss
  have lower := lower_le scan sh
  exact ⟨fun above => le_lower above base, lower.1, fun _ => lower.2,
    fun isData => absurd isData (laidOut.bss_ne isBss),
    fun _ before => before, fun _ => ⟨rfl, rfl⟩,
    fun notBss => absurd isBss notBss⟩

/-- A section without an address is passed over. -/
theorem ElfLaidOut.steps_zero (laidOut : ElfLaidOut elf program)
    (zero : sh.addr = 0) : Steps program sh scan scan := by
  have base := laidOut.base
  obtain ⟨stored, bss⟩ := laidOut.base_le
  have notData : program.data ≠ sh := by
    rintro rfl
    have above := stored program.data (by simp [ProgramSections.stored])
    omega
  have notBss : program.bss ≠ some sh := fun isBss => by
    have above := bss sh isBss
    omega
  exact ⟨fun above => above, Nat.le_refl _, fun nonzero => absurd zero nonzero,
    fun isData => absurd isData notData, fun _ before => before,
    fun isBss => absurd isBss notBss, fun _ _ _ before => before⟩

theorem ElfLaidOut.step (laidOut : ElfLaidOut elf program)
    (member : sh ∈ elf.shdrs) (scan : SectionScan) :
    ∃ scan', scan.step elf.shstrtab sh = .ok scan' ∧
      Steps program sh scan scan' := by
  by_cases zero : sh.addr = 0
  · exact ⟨scan, if_pos zero, laidOut.steps_zero zero⟩
  · rcases laidOut.only sh member zero with stored | isBss
    · have base := laidOut.base_le.1 sh stored
      simp only [ProgramSections.stored, List.mem_cons, List.not_mem_nil,
        or_false] at stored
      rcases stored with rfl | rfl | rfl
      · exact ⟨_, laidOut.textNamed.step_other zero
          (fun rest => by simp [sameText, textName, dataName])
          (fun rest => by simp [sameText, textName, bssName]),
          laidOut.steps_code (.inl rfl) base⟩
      · exact ⟨_, laidOut.rodataNamed.step_other zero
          (fun rest => by simp [sameText, rodataName, dataName])
          (fun rest => by simp [sameText, rodataName, bssName]),
          laidOut.steps_code (.inr rfl) base⟩
      · exact ⟨_, laidOut.dataNamed.step_data zero, laidOut.steps_data⟩
    · exact ⟨_, (laidOut.bssNamed sh isBss).step_bss zero,
        laidOut.steps_bss isBss⟩

/-- The loop over the rest of the sections. -/
theorem ElfLaidOut.loop (laidOut : ElfLaidOut elf program)
    {rest : List Elf32Shdr} (members : ∀ sh ∈ rest, sh ∈ elf.shdrs)
    (scanned : Scanned program seen scan) :
    ∃ scan', rest.foldlM (SectionScan.step elf.shstrtab) scan = .ok scan' ∧
      Scanned program (seen ++ rest) scan' := by
  induction rest generalizing seen scan with
  | nil => exact ⟨scan, rfl, by rw [List.append_nil]; exact scanned⟩
  | cons sh rest inductionHypothesis =>
      obtain ⟨next, step, steps⟩ :=
        laidOut.step (members sh List.mem_cons_self) scan
      obtain ⟨scan', loop, done⟩ := inductionHypothesis
        (fun other member => members other (List.mem_cons_of_mem _ member))
        (scanned.snoc steps)
      refine ⟨scan', ?_, ?_⟩
      · rw [List.foldlM_cons, step]
        exact loop
      · rw [List.append_assoc] at done
        exact done

end Scan

/-! ## The file that the packer writes -/

namespace ProgramSections

/-- `bss_vaddr` of the header. -/
def bssAddr (program : ProgramSections) : Nat :=
  match program.bss with
  | none => program.dataStop
  | some bss => bss.addr

/-- `bss_size` of the header. -/
def bssSize (program : ProgramSections) : Nat :=
  match program.bss with
  | none => 0
  | some bss => bss.size

/-- The header of the packed program. -/
def header (program : ProgramSections) (entry : Nat) : ExeHeader where
  magic := exeMagic
  entryPoint := entry
  codeVaddr := program.text.addr
  codeSize := program.data.addr - program.text.addr
  dataVaddr := program.data.addr
  dataSize := program.data.size
  bssVaddr := program.bssAddr
  bssSize := program.bssSize

end ProgramSections

/-- The words of a header in their order. -/
def ExeHeader.words (hdr : ExeHeader) : List Nat :=
  [hdr.magic, hdr.entryPoint, hdr.codeVaddr, hdr.codeSize, hdr.dataVaddr,
    hdr.dataSize, hdr.bssVaddr, hdr.bssSize]

section Packed

variable {elf : ElfFile} {program : ProgramSections} {scan : SectionScan}
  {flat elfBytes : List UInt8} {entry : Nat}

theorem ProgramSections.stop_eq :
    program.stop = program.bssAddr + program.bssSize := by
  rw [stop, bssAddr, bssSize]
  cases program.bss <;> rfl

/-- Where the sections of the program lie. -/
theorem ElfLaidOut.bounds (laidOut : ElfLaidOut elf program) :
    program.text.addr ≤ program.data.addr ∧
      program.dataStop ≤ program.bssAddr := by
  have first := laidOut.textRodata
  have second := laidOut.rodataData
  refine ⟨by omega, ?_⟩
  rw [ProgramSections.bssAddr]
  cases isBss : program.bss with
  | none => exact Nat.le_refl _
  | some bss => exact laidOut.dataBss bss isBss

/-- The variables at the end of the loop. -/
theorem ElfLaidOut.scanned (laidOut : ElfLaidOut elf program)
    (small : program.stop ≤ kernelVirtBase) :
    ∃ scan, elf.shdrs.foldlM (SectionScan.step elf.shstrtab) .init =
        .ok scan ∧
      scan.lowestAddr = program.text.addr ∧ ScannedData program scan ∧
      scan.bssVaddr = program.bssAddr ∧ scan.bssSize = program.bssSize := by
  have base := laidOut.base
  have stopEq := program.stop_eq
  have kernel : kernelVirtBase = 3221225472 := rfl
  have dataStop : program.dataStop = program.data.addr + program.data.size :=
    rfl
  obtain ⟨textData, dataBss⟩ := laidOut.bounds
  obtain ⟨scan, loop, scanned⟩ := laidOut.loop (fun _ member => member)
    (Scanned.init (by omega))
  rw [List.nil_append] at scanned
  have stored : ∀ sh ∈ program.stored, sh ∈ elf.shdrs := laidOut.stored
  have data := scanned.data (stored program.data (by
    simp [ProgramSections.stored]))
  have lowest := scanned.lowest program.text
    (stored program.text (by simp [ProgramSections.stored])) (by omega)
  refine ⟨scan, loop, Nat.le_antisymm lowest scanned.above, data, ?_⟩
  obtain ⟨dataStart, dataEnd, dataSize⟩ := data
  have noWrap : u32 program.dataStop = program.dataStop := by
    rw [u32]
    omega
  rw [noWrap] at dataEnd
  rw [SectionScan.bssVaddr, ProgramSections.bssAddr, ProgramSections.bssSize]
  rw [ProgramSections.bssAddr] at dataBss
  cases isBss : program.bss with
  | none =>
      obtain ⟨start, size⟩ := scanned.noBss isBss
      rw [start, size, if_neg (by simp), dataEnd, if_pos (by omega)]
      exact ⟨rfl, rfl⟩
  | some bss =>
      obtain ⟨start, size⟩ :=
        scanned.bss bss isBss (laidOut.bss bss isBss)
      have below : bss.addr ≠ 0xffffffff := by
        rw [ProgramSections.stop, isBss] at small
        simp only at small
        omega
      rw [start, size, if_pos below]
      exact ⟨rfl, rfl⟩

theorem SectionScan.hdr_eq (laidOut : ElfLaidOut elf program)
    (small : program.stop ≤ kernelVirtBase)
    (lowest : scan.lowestAddr = program.text.addr)
    (data : ScannedData program scan)
    (bss : scan.bssVaddr = program.bssAddr)
    (bssSize : scan.bssSize = program.bssSize) :
    scan.codeSize = program.data.addr - program.text.addr ∧
      scan.dataVaddr = program.data.addr ∧
      ∀ entry, scan.hdr entry program.text.addr =
        (program.header entry).words := by
  have base := laidOut.base
  have stopEq := program.stop_eq
  have kernel : kernelVirtBase = 3221225472 := rfl
  have dataStop : program.dataStop = program.data.addr + program.data.size :=
    rfl
  obtain ⟨textData, dataBss⟩ := laidOut.bounds
  obtain ⟨dataStart, _, dataSize⟩ := data
  have notLast : program.data.addr ≠ 0xffffffff := by omega
  have codeSize : scan.codeSize =
      program.data.addr - program.text.addr := by
    rw [SectionScan.codeSize, SectionScan.codeEndAddr, dataStart,
      if_pos notLast, lowest, u32Sub, if_pos textData]
  have dataVaddr : scan.dataVaddr = program.data.addr := by
    rw [SectionScan.dataVaddr, dataStart, if_pos notLast]
  have dataWord : u32 (program.text.addr +
      (program.data.addr - program.text.addr)) = program.data.addr := by
    rw [u32]
    omega
  have bssWord : u32 (program.text.addr +
      u32Sub program.bssAddr program.text.addr) = program.bssAddr := by
    rw [u32Sub, if_pos (by omega), u32]
    omega
  refine ⟨codeSize, dataVaddr, fun entry => ?_⟩
  rw [SectionScan.hdr, codeSize, dataVaddr, lowest, bss, bssSize, dataSize,
    if_pos (by omega), if_pos (by omega), if_pos (by omega), dataWord,
    bssWord]
  rfl

/-- The packer writes the header and the flat image up to the end of
`.data`. -/
theorem exeFile_eq (laidOut : ElfLaidOut elf program)
    (small : program.stop ≤ kernelVirtBase)
    (covers : program.dataStop - program.text.addr ≤ flat.length)
    (lowest : scan.lowestAddr = program.text.addr)
    (data : ScannedData program scan)
    (bss : scan.bssVaddr = program.bssAddr)
    (bssSize : scan.bssSize = program.bssSize) :
    exeFile scan entry program.text.addr flat =
      .ok ((program.header entry).words.flatMap wordBytes ++
        flat.take (program.dataStop - program.text.addr)) := by
  have base := laidOut.base
  have stopEq := program.stop_eq
  have kernel : kernelVirtBase = 3221225472 := rfl
  have dataStop : program.dataStop = program.data.addr + program.data.size :=
    rfl
  obtain ⟨textData, dataBss⟩ := laidOut.bounds
  obtain ⟨codeSize, dataVaddr, hdr⟩ :=
    SectionScan.hdr_eq laidOut small lowest data bss bssSize
  have code : fwrite flat 0 (program.data.addr - program.text.addr) =
      .ok (flat.take (program.data.addr - program.text.addr)) := by
    rw [fwrite]
    split
    case isTrue empty => rw [empty, List.take_zero]
    case isFalse =>
      rw [if_pos (by omega), List.drop_zero]
  have split : flat.take (program.dataStop - program.text.addr) =
      flat.take (program.data.addr - program.text.addr) ++
        (flat.drop (program.data.addr - program.text.addr)).take
          program.data.size := by
    rw [← List.take_add]
    congr 1
    omega
  have start : u32Sub program.data.addr program.text.addr =
      program.data.addr - program.text.addr := if_pos textData
  have nonzero : program.data.addr ≠ 0 := by omega
  have rest : dataBytes scan flat =
      .ok ((flat.drop (program.data.addr - program.text.addr)).take
        program.data.size) := by
    rw [dataBytes, dataVaddr, data.2.2, lowest, start]
    by_cases empty : program.data.size = 0
    · rw [if_neg (fun both => both.2 empty), empty, List.take_zero]
    · rw [if_pos ⟨nonzero, empty⟩, fwrite, if_neg empty,
        if_pos (by omega)]
  rw [exeFile, codeSize, code, rest, hdr, split, ← List.append_assoc]
  rfl

/-! ## The header as the loader reads it -/

theorem word32_wordBytes {mem : Bytes} {start word : Nat}
    (small : word < 2 ^ 32)
    (first : mem start = UInt8.ofNat word)
    (second : mem (start + 1) = UInt8.ofNat (word / 256))
    (third : mem (start + 2) = UInt8.ofNat (word / 65536))
    (fourth : mem (start + 3) = UInt8.ofNat (word / 16777216)) :
    mem.word32 start = word := by
  simp only [Bytes.word32, Bytes.word16, first, second, third, fourth,
    UInt8.toNat_ofNat', Nat.add_assoc]
  omega

/-- The words of a header as they lie in a file. -/
theorem ofBytes_words {hdr : ExeHeader} (rest : List UInt8)
    (small : ∀ word ∈ hdr.words, word < 2 ^ 32) :
    ExeHeader.ofBytes (fileBytes (hdr.words.flatMap wordBytes ++ rest)) =
      hdr := by
  obtain ⟨magic, entryPoint, codeVaddr, codeSize, dataVaddr, dataSize,
    bssVaddr, bssSize⟩ := hdr
  simp only [ExeHeader.words, List.forall_mem_cons] at small
  obtain ⟨h₀, h₁, h₂, h₃, h₄, h₅, h₆, h₇, _⟩ := small
  simp only [ExeHeader.ofBytes, ExeHeader.mk.injEq]
  exact ⟨word32_wordBytes h₀ rfl rfl rfl rfl,
    word32_wordBytes h₁ rfl rfl rfl rfl, word32_wordBytes h₂ rfl rfl rfl rfl,
    word32_wordBytes h₃ rfl rfl rfl rfl, word32_wordBytes h₄ rfl rfl rfl rfl,
    word32_wordBytes h₅ rfl rfl rfl rfl, word32_wordBytes h₆ rfl rfl rfl rfl,
    word32_wordBytes h₇ rfl rfl rfl rfl⟩

theorem words_length (hdr : ExeHeader) :
    (hdr.words.flatMap wordBytes).length = exeHeaderSize := rfl

theorem fileBytes_append {left right : List UInt8} (index : Nat) :
    fileBytes (left ++ right) (left.length + index) =
      fileBytes right index := by
  rw [fileBytes, fileBytes, List.getD_eq_getElem?_getD,
    List.getD_eq_getElem?_getD, List.getElem?_append_right (by omega),
    Nat.add_sub_cancel_left]

theorem fileBytes_take {file : List UInt8} {count index : Nat}
    (below : index < count) :
    fileBytes (file.take count) index = fileBytes file index := by
  rw [fileBytes, fileBytes, List.getD_eq_getElem?_getD,
    List.getD_eq_getElem?_getD, List.getElem?_take_of_lt below]

end Packed

end LoafOs
