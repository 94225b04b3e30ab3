import LoafOs.Tools.MkexeSections
import LoafOs.Userspace.ExeSafety

/-!
# The packer and the loader

Loading what `mkexe` writes puts every section of the program at its
address, as long as the program ends below the kernel.
-/

namespace LoafOs

/-! ## The load -/

section Load

open Arena Memory

variable {kernel kernel' : Kernel} {stop : Nat} {blocks : List Block}
  {path : CString} {st : FatStat} {hdr : ExeHeader}

/-- What a load that returns 0 has built. -/
theorem execLoad_done (ok : KernelOk kernel stop blocks)
    (wellFormed : WellFormed kernel.volume)
    (sound : kernel.volume.disk.Sound)
    (power : PowerOfTwoClusters kernel.volume.bpb)
    (file : RegularFile kernel.volume path st)
    (header : ExeHeader.ofBytes (fileContent kernel.volume path) = hdr)
    (magic : hdr.magic = exeMagic)
    (length : exeHeaderSize + hdr.codeSize + hdr.dataSize ≤ st.size)
    (below : BelowKernel hdr)
    (disjoint : ∀ addr, InRange hdr.codeVaddr hdr.codeSize addr →
      ¬ InRange hdr.dataVaddr hdr.dataSize addr) {image : Image}
    (done : execLoad kernel path = some (kernel', .ok image)) :
    ∃ pd, image = .ofHeader pd hdr ∧
      ShowsImage kernel'.memory pd hdr (fileContent kernel.volume path) := by
  obtain ⟨_, _, covers⟩ := file.storedSize_le wellFormed sound power
  rw [execLoad_eq] at done
  by_cases room : ∃ block ∈ blocks, block.free = true ∧
      roundRequest (fatReadAllocSize kernel.volume.bpb
        (UInt32.ofNat st.size)).toNat ≤ block.size
  · obtain ⟨loading, block, blocks', loads, buffered, _⟩ :=
      ok.buffered wellFormed sound power file room
    rw [loads] at done
    obtain ⟨pd, result, shows⟩ := buffered.execImage_done header magic
      (length.trans covers) below disjoint done
    exact ⟨pd, Except.ok.inj result, shows⟩
  · rw [loadFile_full ok file fun block member free => by
      by_contra large
      exact room ⟨block, member, free, by omega⟩] at done
    simp at done

end Load

/-! ## Packing and loading -/

/-- A call of the packer. -/
structure PackerRun where
  host : HostFiles
  tool : List UInt8
  flatName : List UInt8
  elfName : List UInt8
  vaddr : List UInt8
  outName : List UInt8

/-- The file that it writes. -/
def PackerRun.file (run : PackerRun) : Tool (List UInt8) :=
  mkexe run.host
    [run.tool, run.flatName, run.elfName, run.vaddr, run.outName]

/-- A packer that is given an ELF file of a program, its flat image and its
lowest address. -/
structure PackerInput (run : PackerRun) (elfBytes flat : List UInt8)
    (elf : ElfFile) (program : ProgramSections) : Prop where
  elfFile : run.host.read run.elfName = some elfBytes
  flatFile : run.host.read run.flatName = some flat
  output : run.host.writable run.outName = true
  read : readElf elfBytes = .ok elf
  laidOut : ElfLaidOut elf program
  flatImage : FlatImage elfBytes flat program
  vaddr : u32 (strtoulHex run.vaddr) = program.text.addr

/-- A volume with the file at this path. -/
structure HoldsFile (volume : Volume) (path : CString) (st : FatStat)
    (file : List UInt8) : Prop where
  regular : RegularFile volume path st
  size : st.size = file.length
  bytes : ∀ index < file.length,
    fileContent volume path index = fileBytes file index

/-- The program of the ELF file is in memory. -/
structure Placed (memory : Memory) (image : Image) (elfBytes : List UInt8)
    (elf : ElfFile) (program : ProgramSections) : Prop where
  stored : ∀ sh ∈ program.stored, ∀ index < sh.size,
    (userView memory image.pdPhys (sh.addr + index)).map Cell.byte =
      elfBytes[sh.offset + index]?
  bss : ∀ sh, program.bss = some sh → ∀ index < sh.size,
    (userView memory image.pdPhys (sh.addr + index)).map Cell.byte = some 0
  entryPoint : image.entryPoint = elf.entry

/-- Loading the file that the packer writes puts the program into memory;
the load succeeds when there is room. -/
def PackerAgrees (run : PackerRun) (elfBytes : List UInt8) (elf : ElfFile)
    (program : ProgramSections) : Prop :=
  ∃ out, run.file = .ok out ∧
    ∀ kernel stop blocks path st, KernelOk kernel stop blocks →
      WellFormed kernel.volume → kernel.volume.disk.Sound →
      PowerOfTwoClusters kernel.volume.bpb →
      HoldsFile kernel.volume path st out →
      (∀ kernel' image, execLoad kernel path = some (kernel', .ok image) →
        Placed kernel'.memory image elfBytes elf program) ∧
      ((∃ block ∈ blocks, block.free = true ∧
          roundRequest (fatReadAllocSize kernel.volume.bpb
            (UInt32.ofNat st.size)).toNat ≤ block.size) →
        neededFrames (imagePages (program.header elf.entry)) ≤
          (freeBelow kernel.pmm kernel.pmm.totalFrames).card →
        ∃ kernel' image,
          execLoad kernel path = some (kernel', .ok image))

section Agree

variable {run : PackerRun} {elfBytes flat : List UInt8} {elf : ElfFile}
  {program : ProgramSections}

theorem readElf_entry (read : readElf elfBytes = .ok elf) :
    elf.entry < 2 ^ 32 := by
  rw [readElf] at read
  split at read
  · cases read
  · simp only at read
    split at read
    · cases read
    · split at read
      · cases read
      · cases read
        exact Bytes.word32_lt _ _

/-- The file that the packer writes. -/
theorem PackerInput.file (input : PackerInput run elfBytes flat elf program)
    (small : program.stop ≤ kernelVirtBase) :
    run.file = .ok ((program.header elf.entry).words.flatMap wordBytes ++
      flat.take (program.dataStop - program.text.addr)) := by
  obtain ⟨scan, loop, lowest, data, bss, bssSize⟩ :=
    input.laidOut.scanned small
  have written := @exeFile_eq elf program scan flat elf.entry input.laidOut
    small input.flatImage.covers lowest data bss bssSize
  rw [PackerRun.file, mkexe]
  simp only [input.elfFile, input.read, bind, Except.bind, loop,
    input.flatFile, input.output, if_true, input.vaddr]
  exact written

theorem getElem?_fileBytes {file : List UInt8} {index : Nat}
    (below : index < file.length) :
    file[index]? = some (fileBytes file index) := by
  rw [fileBytes, List.getD_eq_getElem?_getD, List.getElem?_eq_getElem below]
  rfl

theorem ElfLaidOut.belowKernel (laidOut : ElfLaidOut elf program)
    (small : program.stop ≤ kernelVirtBase) :
    BelowKernel (program.header elf.entry) := by
  obtain ⟨textData, dataBss⟩ := laidOut.bounds
  have stopEq := program.stop_eq
  have dataStop : program.dataStop = program.data.addr + program.data.size :=
    rfl
  have code : program.text.addr + (program.data.addr - program.text.addr) ≤
      kernelVirtBase := by omega
  have data : program.data.addr + program.data.size ≤ kernelVirtBase := by
    omega
  exact ⟨code, data, stopEq ▸ small⟩

/-- The addresses of a stored section, seen from the lowest one. -/
theorem ElfLaidOut.inside (laidOut : ElfLaidOut elf program) {sh : Elf32Shdr}
    (stored : sh ∈ program.stored) {index : Nat} (below : index < sh.size) :
    program.text.addr ≤ sh.addr ∧
      sh.addr - program.text.addr + index <
        program.dataStop - program.text.addr := by
  have first := laidOut.textRodata
  have second := laidOut.rodataData
  have dataStop : program.dataStop = program.data.addr + program.data.size :=
    rfl
  simp only [ProgramSections.stored, List.mem_cons, List.not_mem_nil,
    or_false] at stored
  rcases stored with rfl | rfl | rfl <;> omega

/-- The image shows the flat image from the lowest address on. -/
theorem ShowsImage.fileByte {memory : Memory} {pd : Nat} {file : Bytes}
    (image : ShowsImage memory pd (program.header entry) file)
    (laidOut : ElfLaidOut elf program) {index : Nat}
    (below : index < program.dataStop - program.text.addr) :
    (userView memory pd (program.text.addr + index)).map Cell.byte =
      some (file (exeHeaderSize + index)) := by
  obtain ⟨textData, _⟩ := laidOut.bounds
  have dataStop : program.dataStop = program.data.addr + program.data.size :=
    rfl
  by_cases isCode : index < program.data.addr - program.text.addr
  · exact image.code index isCode
  · have data := image.data
      (index - (program.data.addr - program.text.addr))
      (show _ < program.data.size by omega)
    have addr : program.data.addr +
        (index - (program.data.addr - program.text.addr)) =
          program.text.addr + index := by omega
    have place : exeHeaderSize + (program.data.addr - program.text.addr) +
        (index - (program.data.addr - program.text.addr)) =
          exeHeaderSize + index := by omega
    simp only [ProgramSections.header, addr, place] at data
    exact data

/-- The bytes of `.bss` are zero. -/
theorem ShowsImage.bss_zero {memory : Memory} {pd : Nat} {file : Bytes}
    (image : ShowsImage memory pd (program.header entry) file)
    (laidOut : ElfLaidOut elf program) (small : program.stop ≤ kernelVirtBase)
    {index : Nat} (below : index < program.bssSize) :
    (userView memory pd (program.bssAddr + index)).map Cell.byte =
      some 0 := by
  obtain ⟨textData, dataBss⟩ := laidOut.bounds
  have stopEq := program.stop_eq
  have dataStop : program.dataStop = program.data.addr + program.data.size :=
    rfl
  have user : program.bssAddr + index < kernelVirtBase := by omega
  have page : (program.bssAddr + index) / 4096 ∈
      imagePages (program.header entry) := by
    simp only [imagePages, Finset.mem_union, mem_pagesOf]
    exact .inl (.inr ⟨_, Nat.le_add_right .., Nat.add_lt_add_left below _,
      rfl⟩)
  obtain ⟨cell, there⟩ :=
    Option.isSome_iff_exists.mp ((image.mapped _ user).mpr page)
  have zero := image.zero _ user cell there
    (fun inCode => by
      have upper := inCode.2
      simp only [ProgramSections.header] at upper
      omega)
    (fun inData => by
      have upper := inData.2
      simp only [ProgramSections.header] at upper
      omega)
  rw [there, Option.map_some, zero]

/-- The image of the packed file is the program. -/
theorem ShowsImage.placed {memory : Memory} {pd : Nat} {file : Bytes}
    (image : ShowsImage memory pd (program.header elf.entry) file)
    (laidOut : ElfLaidOut elf program) (small : program.stop ≤ kernelVirtBase)
    (flatImage : FlatImage elfBytes flat program)
    (bytes : ∀ index < program.dataStop - program.text.addr,
      file (exeHeaderSize + index) = fileBytes flat index) :
    Placed memory (.ofHeader pd (program.header elf.entry)) elfBytes elf
      program := by
  refine ⟨fun sh stored index below => ?_, fun sh isBss index below => ?_,
    rfl⟩
  · obtain ⟨base, inside⟩ := laidOut.inside stored below
    have covers := flatImage.covers
    have addr : sh.addr + index =
        program.text.addr + (sh.addr - program.text.addr + index) := by
      omega
    rw [← flatImage.bytes sh stored index below,
      getElem?_fileBytes (by omega), ← bytes _ inside, addr]
    exact image.fileByte laidOut inside
  · have bssAddr : program.bssAddr = sh.addr := by
      rw [ProgramSections.bssAddr, isBss]
    have bssSize : program.bssSize = sh.size := by
      rw [ProgramSections.bssSize, isBss]
    rw [← bssAddr]
    exact image.bss_zero laidOut small (bssSize ▸ below)

/-- The packer and the loader agree on every program in user space. -/
theorem packer_agrees (input : PackerInput run elfBytes flat elf program)
    (small : program.stop ≤ kernelVirtBase) :
    PackerAgrees run elfBytes elf program := by
  have laidOut := input.laidOut
  have covers := input.flatImage.covers
  obtain ⟨textData, dataBss⟩ := laidOut.bounds
  have stopEq := program.stop_eq
  have kernelBase : kernelVirtBase = 3221225472 := rfl
  have dataStop : program.dataStop = program.data.addr + program.data.size :=
    rfl
  have hdrEq : ∀ rest, ExeHeader.ofBytes (fileBytes
      ((program.header elf.entry).words.flatMap wordBytes ++ rest)) =
        program.header elf.entry := fun rest => by
    refine ofBytes_words rest ?_
    have magic : exeMagic < 2 ^ 32 := by decide
    have entry := readElf_entry input.read
    simp only [ExeHeader.words, ProgramSections.header,
      List.forall_mem_cons]
    refine ⟨magic, entry, by omega, by omega, by omega, by omega, by omega,
      by omega, fun _ none => absurd none List.not_mem_nil⟩
  have disjoint : ∀ addr, InRange program.text.addr
      (program.data.addr - program.text.addr) addr →
      ¬ InRange program.data.addr program.data.size addr := by
    intro addr inCode inData
    rw [InRange] at inCode inData
    omega
  refine ⟨_, input.file small,
    fun kernel stop blocks path st ok wellFormed sound power holds => ?_⟩
  have length : ((program.header elf.entry).words.flatMap wordBytes ++
      flat.take (program.dataStop - program.text.addr)).length =
        exeHeaderSize + (program.dataStop - program.text.addr) := by
    rw [List.length_append, words_length, List.length_take,
      Nat.min_eq_left covers]
  have size := holds.size
  have content := holds.bytes
  rw [length] at size content
  have header : ExeHeader.ofBytes (fileContent kernel.volume path) =
      program.header elf.entry :=
    (ofBytes_congr fun index inHeader => content index (by omega)).trans
      (hdrEq _)
  have fits : exeHeaderSize + (program.data.addr - program.text.addr) +
      program.data.size ≤ st.size := by omega
  have below := laidOut.belowKernel small
  refine ⟨fun kernel' image done => ?_, fun heapRoom frameRoom => ?_⟩
  · obtain ⟨pd, rfl, shows⟩ := execLoad_done ok wellFormed sound power
      holds.regular header rfl fits below disjoint done
    refine shows.placed laidOut small input.flatImage
      fun index inside => ?_
    rw [content _ (by omega), ← words_length (program.header elf.entry),
      fileBytes_append, fileBytes_take inside]
  · obtain ⟨kernel', pd, done, _⟩ := execLoad_builds ok wellFormed sound
      power holds.regular header rfl fits below disjoint heapRoom frameRoom
    exact ⟨kernel', _, done⟩

end Agree

/-! A program of four small sections. -/

def sampleShdr (name type flags addr offset size : Nat) : List UInt8 :=
  [name, type, flags, addr, offset, size, 0, 0, 1, 0].flatMap wordBytes

/-- `.text` and `.rodata` with eight bytes, `.data` with four after them,
and four bytes of `.bss`. -/
def sampleElfBytes (base bssAddr : Nat) : List UInt8 :=
  List.replicate 24 0 ++ wordBytes base ++ wordBytes 0 ++ wordBytes 90 ++
    List.replicate 12 0 ++ [6, 0, 5, 0] ++
    [1, 2, 3, 4, 5, 6, 7, 8, 9, 10, 11, 12] ++
    [0] ++ textName ++ rodataName ++ dataName ++ bssName ++
    sampleShdr 0 0 0 0 0 0 ++ sampleShdr 1 1 6 base 52 6 ++
    sampleShdr 7 1 2 (base + 6) 58 2 ++ sampleShdr 15 1 3 (base + 8) 60 4 ++
    sampleShdr 21 8 3 bssAddr 64 4 ++ sampleShdr 0 3 0 0 64 26

def sampleFlat : List UInt8 := [1, 2, 3, 4, 5, 6, 7, 8, 9, 10, 11, 12]

def sampleSections (base bssAddr : Nat) : ProgramSections where
  text := ⟨1, 6, base, 52, 6⟩
  rodata := ⟨7, 2, base + 6, 58, 2⟩
  data := ⟨15, 3, base + 8, 60, 4⟩
  bss := some ⟨21, 3, bssAddr, 64, 4⟩

def sampleElf (base bssAddr : Nat) : ElfFile where
  entry := base
  shdrs := [⟨0, 0, 0, 0, 0⟩, ⟨1, 6, base, 52, 6⟩, ⟨7, 2, base + 6, 58, 2⟩,
    ⟨15, 3, base + 8, 60, 4⟩, ⟨21, 3, bssAddr, 64, 4⟩, ⟨0, 0, 0, 64, 26⟩]
  shstrtab := [0] ++ textName ++ rodataName ++ dataName ++ bssName

theorem sampleElf_laidOut {base bssAddr : Nat} (positive : 0 < base)
    (above : base + 12 ≤ bssAddr) (top : bssAddr + 4 ≤ 2 ^ 32) :
    ElfLaidOut (sampleElf base bssAddr) (sampleSections base bssAddr) := by
  refine ⟨fun sh member => ?_, fun sh isBss => ?_, fun sh member nonzero => ?_,
    ⟨_, rfl⟩, ⟨_, rfl⟩, ⟨_, rfl⟩, fun sh isBss => ?_, positive,
    Nat.le_refl _, Nat.le_refl _, fun sh isBss => ?_, top⟩
  · simp only [ProgramSections.stored, sampleSections, List.mem_cons,
      List.not_mem_nil, or_false] at member
    rcases member with rfl | rfl | rfl <;> simp [sampleElf]
  · cases isBss
    simp [sampleElf]
  · simp only [sampleElf, List.mem_cons, List.not_mem_nil, or_false] at member
    rcases member with rfl | rfl | rfl | rfl | rfl | rfl
    · exact absurd rfl nonzero
    · exact .inl (by simp [ProgramSections.stored, sampleSections])
    · exact .inl (by simp [ProgramSections.stored, sampleSections])
    · exact .inl (by simp [ProgramSections.stored, sampleSections])
    · exact .inr rfl
    · exact absurd rfl nonzero
  · cases isBss
    exact ⟨_, rfl⟩
  · cases isBss
    exact above

/-- A host with the two input files. -/
def sampleHost (elfBytes flat : List UInt8) : HostFiles where
  read := fun name =>
    if name = [0x65] then some elfBytes
    else if name = [0x66] then some flat
    else none
  writable := fun _ => true

def samplePacker (base bssAddr : Nat) (vaddr : List UInt8) : PackerRun where
  host := sampleHost (sampleElfBytes base bssAddr) sampleFlat
  tool := [0x6d]
  flatName := [0x66]
  elfName := [0x65]
  vaddr := vaddr
  outName := [0x6f]

theorem samplePacker_input {base bssAddr : Nat} {vaddr : List UInt8}
    (positive : 0 < base) (above : base + 12 ≤ bssAddr)
    (top : bssAddr + 4 ≤ 2 ^ 32)
    (read : readElf (sampleElfBytes base bssAddr) =
      .ok (sampleElf base bssAddr))
    (flatImage : FlatImage (sampleElfBytes base bssAddr) sampleFlat
      (sampleSections base bssAddr))
    (same : u32 (strtoulHex vaddr) = base) :
    PackerInput (samplePacker base bssAddr vaddr)
      (sampleElfBytes base bssAddr) sampleFlat (sampleElf base bssAddr)
      (sampleSections base bssAddr) :=
  ⟨rfl, rfl, rfl, read, sampleElf_laidOut positive above top, flatImage,
    same⟩

/-- `"0x80000000"`. -/
def highVaddr : List UInt8 :=
  [0x30, 0x78, 0x38, 0x30, 0x30, 0x30, 0x30, 0x30, 0x30, 0x30]

/-- The packed program with `.bss` at 0xc0000000. -/
def highBssImage : List UInt8 :=
  [0x4c, 0x4f, 0x41, 0x46, 0, 0, 0, 0x80, 0, 0, 0, 0x80, 8, 0, 0, 0,
    8, 0, 0, 0x80, 4, 0, 0, 0, 0, 0, 0, 0xc0, 4, 0, 0, 0,
    1, 2, 3, 4, 5, 6, 7, 8, 9, 10, 11, 12]

def highBssPrograms : List FatCall :=
  [.writeFile samplePath (fun index => highBssImage.getD index 0) 44]

theorem highBssPrograms_wellFormed :
    WellFormed (tabledKernel highBssPrograms).volume ∧
      (tabledKernel highBssPrograms).volume.disk.Sound :=
  callsOk_wellFormed highBssPrograms sampleVolume_wellFormed
    blankDisk_sound (by decide +kernel)

/-- `.bss` that starts at the kernel's base shows the kernel's memory. -/
theorem highBss_notZero :
    ¬ ∀ (run : PackerRun) (elfBytes flat : List UInt8) (elf : ElfFile)
      (program : ProgramSections),
      PackerInput run elfBytes flat elf program →
      PackerAgrees run elfBytes elf program := by
  intro claim
  have flatImage : FlatImage (sampleElfBytes 0x80000000 0xc0000000)
      sampleFlat (sampleSections 0x80000000 0xc0000000) :=
    ⟨by decide, by decide +kernel⟩
  have read : readElf (sampleElfBytes 0x80000000 0xc0000000) =
      .ok (sampleElf 0x80000000 0xc0000000) := by decide +kernel
  obtain ⟨out, written, loads⟩ := claim _ _ _ _ _
    (samplePacker_input (by decide) (by decide) (by decide) read flatImage
      (show u32 (strtoulHex highVaddr) = 0x80000000 by decide +kernel))
  have packed : (samplePacker 0x80000000 0xc0000000 highVaddr).file =
      .ok highBssImage := by decide +kernel
  rw [packed, Except.ok.injEq] at written
  subst written
  obtain ⟨wellFormed, sound⟩ := highBssPrograms_wellFormed
  have holds : HoldsFile (tabledKernel highBssPrograms).volume samplePath
      ⟨[0x44], 44, 2, 0x20⟩ highBssImage :=
    ⟨⟨by decide +kernel, by decide⟩, rfl, by decide +kernel⟩
  obtain ⟨places, _⟩ :=
    loads _ _ _ _ _ tabledKernel_ok wellFormed sound ⟨0, rfl⟩ holds
  have shown : (execLoad (tabledKernel highBssPrograms) samplePath).map
      (fun loaded => loaded.2.toOption.map fun image =>
        (userView loaded.1.memory image.pdPhys 0xc0000000).map Cell.byte) =
        some (some (some 0xf4)) := by
    decide +kernel
  obtain ⟨⟨kernel', result⟩, done, bytes⟩ := Option.map_eq_some_iff.mp shown
  cases result with
  | error code => simp [Except.toOption] at bytes
  | ok image =>
      have zero := (places kernel' image done).bss _ rfl 0 (by decide)
      simp only [Except.toOption, Option.map_some, Option.some.injEq]
        at bytes
      simp only [Nat.add_zero] at zero
      rw [bytes] at zero
      simp at zero

end LoafOs
