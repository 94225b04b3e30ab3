import LoafOs.Lib.ByteMemory
import LoafOs.Words

/-!
# The packer of executables

`tools/mkexe.c`, which runs on the host: it takes the addresses from the
section headers of the ELF file and the bytes from the flat image that
`objcopy` makes, and writes the file that `exec_load` reads.
-/

namespace LoafOs

/-- How a run of the tool ends early: with a message and exit code 1, or in
a read outside a buffer. -/
inductive ToolFailure where
  | exit (message : String)
  | overrun
  deriving DecidableEq, Repr

abbrev Tool := Except ToolFailure

/-- The bytes of a file. -/
def fileBytes (file : List UInt8) : Bytes := fun index => file.getD index 0

/-- The fields of `elf32_hdr_t` that `mkexe` uses. -/
structure Elf32Hdr where
  entry : Nat
  shoff : Nat
  shnum : Nat
  shstrndx : Nat

/-- `sizeof(elf32_hdr_t)`. -/
def elfHeaderSize : Nat := 52

def Elf32Hdr.ofBytes (mem : Bytes) : Elf32Hdr where
  entry := mem.word32 24
  shoff := mem.word32 32
  shnum := mem.word16 48
  shstrndx := mem.word16 50

/-- The fields of `elf32_shdr_t` that `mkexe` uses. -/
structure Elf32Shdr where
  name : Nat
  flags : Nat
  addr : Nat
  offset : Nat
  size : Nat
  deriving DecidableEq, Repr

/-- `sizeof(elf32_shdr_t)`. -/
def sectionHeaderSize : Nat := 40

def Elf32Shdr.ofBytes (mem : Bytes) : Elf32Shdr where
  name := mem.word32 0
  flags := mem.word32 8
  addr := mem.word32 12
  offset := mem.word32 16
  size := mem.word32 20

/-- What `mkexe` has read of the ELF file: `e_entry`, `shdrs` and
`shstrtab`. -/
structure ElfFile where
  entry : Nat
  shdrs : List Elf32Shdr
  shstrtab : List UInt8
  deriving DecidableEq, Repr

/-- The section headers from offset `shoff` on. -/
def sectionHeaders (elf : List UInt8) (shoff shnum : Nat) :
    List Elf32Shdr :=
  (List.range shnum).map fun index =>
    .ofBytes ((fileBytes elf).shift (shoff + index * sectionHeaderSize))

/-- The part of `main` that reads the ELF file.  The bytes of `shstrtab`
that the file does not have are never set. -/
def readElf (elf : List UInt8) : Tool ElfFile :=
  if elf.length < elfHeaderSize then
    .error (.exit "failed to read ELF header\n")
  else
    let eh := Elf32Hdr.ofBytes (fileBytes elf)
    if (elf.length - eh.shoff) / sectionHeaderSize < eh.shnum then
      .error (.exit "failed to read section headers\n")
    else
      let shdrs := sectionHeaders elf eh.shoff eh.shnum
      match shdrs[eh.shstrndx]? with
      | none => .error .overrun
      | some shstrtabHdr =>
          .ok ⟨eh.entry, shdrs,
            (elf.drop shstrtabHdr.offset).take shstrtabHdr.size⟩

/-- `strcmp(name, text) == 0` for a name in a buffer and a text with its
terminator. -/
def sameText : List UInt8 → List UInt8 → Tool Bool
  | _, [] => .ok true
  | [], _ :: _ => .error .overrun
  | byte :: buffer, char :: text =>
      if byte = char then sameText buffer text else .ok false

/-- `".data"`. -/
def dataName : List UInt8 := [0x2e, 0x64, 0x61, 0x74, 0x61, 0]

/-- `".bss"`. -/
def bssName : List UInt8 := [0x2e, 0x62, 0x73, 0x73, 0]

/-- The difference of two `uint32_t`. -/
def u32Sub (left right : Nat) : Nat :=
  if right ≤ left then left - right else left + 2 ^ 32 - right

/-- The local variables of the loop over the section headers. -/
structure SectionScan where
  lowestAddr : Nat
  dataStartAddr : Nat
  dataEndAddr : Nat
  bssStartAddr : Nat
  bssSize : Nat
  dataFileSize : Nat
  codeRegionEnd : Nat

namespace SectionScan

/-- Their values before the loop. -/
def init : SectionScan where
  lowestAddr := 0xffffffff
  dataStartAddr := 0xffffffff
  dataEndAddr := 0
  bssStartAddr := 0xffffffff
  bssSize := 0
  dataFileSize := 0
  codeRegionEnd := 0

/-- `if (sh->sh_addr < lowest_addr)`. -/
def lower (scan : SectionScan) (sh : Elf32Shdr) : SectionScan :=
  { scan with
    lowestAddr :=
      if sh.addr < scan.lowestAddr then sh.addr else scan.lowestAddr }

/-- The branch for `.data`. -/
def data (scan : SectionScan) (sh : Elf32Shdr) : SectionScan :=
  { scan with
    dataStartAddr := sh.addr
    dataEndAddr := u32 (sh.addr + sh.size)
    dataFileSize := sh.size }

/-- The branch for `.bss`. -/
def bss (scan : SectionScan) (sh : Elf32Shdr) : SectionScan :=
  { scan with
    bssStartAddr := sh.addr
    bssSize := sh.size }

/-- The branch for the other sections, of which those with `SHF_ALLOC`
count. -/
def other (scan : SectionScan) (sh : Elf32Shdr) : SectionScan :=
  if sh.flags.testBit 1 then
    { scan with
      codeRegionEnd :=
        if scan.codeRegionEnd < u32 (sh.addr + sh.size) then
          u32 (sh.addr + sh.size)
        else scan.codeRegionEnd }
  else scan

/-- The body of the loop. -/
def step (shstrtab : List UInt8) (scan : SectionScan) (sh : Elf32Shdr) :
    Tool SectionScan :=
  if sh.addr = 0 then .ok scan
  else do
    let name := shstrtab.drop sh.name
    if ← sameText name dataName then
      return (scan.lower sh).data sh
    else if ← sameText name bssName then
      return (scan.lower sh).bss sh
    else
      return (scan.lower sh).other sh

/-- `code_end_addr`. -/
def codeEndAddr (scan : SectionScan) : Nat :=
  if scan.dataStartAddr ≠ 0xffffffff then scan.dataStartAddr
  else if scan.bssStartAddr ≠ 0xffffffff then scan.bssStartAddr
  else scan.codeRegionEnd

/-- `code_size`. -/
def codeSize (scan : SectionScan) : Nat :=
  u32Sub scan.codeEndAddr scan.lowestAddr

/-- `data_vaddr`. -/
def dataVaddr (scan : SectionScan) : Nat :=
  if scan.dataStartAddr ≠ 0xffffffff then scan.dataStartAddr else 0

/-- `bss_vaddr`. -/
def bssVaddr (scan : SectionScan) : Nat :=
  if scan.bssStartAddr ≠ 0xffffffff then scan.bssStartAddr
  else if scan.dataEndAddr ≠ 0 then scan.dataEndAddr
  else 0

/-- `hdr`. -/
def hdr (scan : SectionScan) (entry codeVaddr : Nat) : List Nat :=
  [0x46414f4c, entry, codeVaddr, scan.codeSize,
    if scan.dataVaddr ≠ 0 then u32 (codeVaddr + scan.codeSize) else 0,
    if scan.dataVaddr ≠ 0 then scan.dataFileSize else 0,
    if scan.bssVaddr ≠ 0 then
      u32 (codeVaddr + u32Sub scan.bssVaddr scan.lowestAddr)
    else 0,
    scan.bssSize]

end SectionScan

/-- `fwrite` of part of a buffer. -/
def fwrite (buffer : List UInt8) (offset count : Nat) : Tool (List UInt8) :=
  if count = 0 then .ok []
  else if offset + count ≤ buffer.length then
    .ok ((buffer.drop offset).take count)
  else .error .overrun

/-- A word as the host stores it. -/
def wordBytes (word : Nat) : List UInt8 :=
  [UInt8.ofNat word, UInt8.ofNat (word / 256), UInt8.ofNat (word / 65536),
    UInt8.ofNat (word / 16777216)]

/-- The bytes of `.data`. -/
def dataBytes (scan : SectionScan) (flat : List UInt8) :
    Tool (List UInt8) :=
  if scan.dataVaddr ≠ 0 ∧ scan.dataFileSize ≠ 0 then
    fwrite flat (u32Sub scan.dataVaddr scan.lowestAddr) scan.dataFileSize
  else .ok []

/-- The output file. -/
def exeFile (scan : SectionScan) (entry codeVaddr : Nat)
    (flat : List UInt8) : Tool (List UInt8) := do
  let codeBytes ← fwrite flat 0 scan.codeSize
  let dataBytes ← dataBytes scan flat
  return (scan.hdr entry codeVaddr).flatMap wordBytes ++ codeBytes ++
    dataBytes

/-! ## `strtoul` -/

/-- `isspace`. -/
def isHostSpace (char : UInt8) : Bool :=
  char = 0x20 || (0x09 ≤ char && char ≤ 0x0d)

def hexDigit (char : UInt8) : Option Nat :=
  if 0x30 ≤ char ∧ char ≤ 0x39 then some (char.toNat - 0x30)
  else if 0x61 ≤ char ∧ char ≤ 0x66 then some (char.toNat - 0x61 + 10)
  else if 0x41 ≤ char ∧ char ≤ 0x46 then some (char.toNat - 0x41 + 10)
  else none

/-- The digits up to the first other character. -/
def hexDigits (value : Nat) : List UInt8 → Nat
  | [] => value
  | char :: text =>
      match hexDigit char with
      | none => value
      | some digit => hexDigits (value * 16 + digit) text

/-- An optional `0x`. -/
def dropHexPrefix : List UInt8 → List UInt8
  | 0x30 :: 0x78 :: text => text
  | 0x30 :: 0x58 :: text => text
  | text => text

/-- `strtoul(text, NULL, 16)` with its sign, clamped to 64 bits. -/
def strtoulHex (text : List UInt8) : Nat :=
  match text.dropWhile isHostSpace with
  | 0x2d :: text =>
      let value := hexDigits 0 (dropHexPrefix text)
      if value < 2 ^ 64 then (2 ^ 64 - value) % 2 ^ 64 else 2 ^ 64 - 1
  | 0x2b :: text => min (hexDigits 0 (dropHexPrefix text)) (2 ^ 64 - 1)
  | text => min (hexDigits 0 (dropHexPrefix text)) (2 ^ 64 - 1)

/-! ## The tool -/

/-- The files of the host: what can be opened for reading, and which names
can be opened for writing. -/
structure HostFiles where
  read : List UInt8 → Option (List UInt8)
  writable : List UInt8 → Bool

def usage (tool : List UInt8) : String :=
  "usage: " ++ String.ofList (tool.map fun char => Char.ofNat char.toNat) ++
    " <flat.bin> <elf.elf> <code_vaddr_hex> <out.bin>\n"

/-- `main`; the result is the file that it writes to the last argument. -/
def mkexe (host : HostFiles) (argv : List (List UInt8)) :
    Tool (List UInt8) :=
  match argv with
  | [_, flatName, elfName, vaddr, outName] =>
      match host.read elfName with
      | none => .error (.exit "fopen elf")
      | some elfBytes => do
          let elf ← readElf elfBytes
          let scan ←
            elf.shdrs.foldlM (SectionScan.step elf.shstrtab) .init
          match host.read flatName with
          | none => .error (.exit "fopen input")
          | some flat =>
              if host.writable outName then
                exeFile scan elf.entry (u32 (strtoulHex vaddr)) flat
              else .error (.exit "fopen output")
  | tool :: _ => .error (.exit (usage tool))
  | [] => .error (.exit (usage []))

end LoafOs
