import LoafOs.Fs.FileBuffer
import LoafOs.Mm.HeapRun
import LoafOs.Userspace.ExeImage

/-!
# Loading a program from a file

`exec_load` from the path to the address space: the file buffer lies in the
heap, whose frames are never handed out, so the segments are copied from
what was read.
-/

namespace LoafOs

open Arena Memory

variable {start memory memory' : Memory} {pd : Nat}

/-! ## Views -/

/-- Memories that agree on the frames of an address space show the same. -/
theorem userView_congr
    (kept : ∀ role frame, roleFrame memory pd role = some frame →
      FrameKept memory memory' frame) {addr : Nat}
    (user : addr < kernelVirtBase) :
    userView memory' pd addr = userView memory pd addr := by
  have low := pdIndex_lt user
  have kernelLow : kernelPdeStart = 768 := rfl
  have directory : memory'.entry pd (pdIndex addr) =
      memory.entry pd (pdIndex addr) :=
    (kept .directory pd rfl).entry (by omega)
  have pte : pteAt memory' pd addr = pteAt memory pd addr := by
    cases present : isPresent (memory.entry pd (pdIndex addr)) with
    | false =>
        rw [pteAt_absent present, pteAt_absent (by rw [directory, present])]
    | true =>
        rw [pteAt_present present,
          pteAt_present (by rw [directory, present]), directory]
        exact (kept _ _ (roleFrame_table low present)).entry ptIndex_lt
  cases present : isPresent (pteAt memory pd addr) with
  | false => rw [userView_none present, userView_none (by rw [pte, present])]
  | true =>
      have byte := kept _ _ (pteAt_role user present) (addr % 4096)
        (Nat.mod_lt _ (by decide))
      simp only [userView, pte, directory, present, byte]

/-- The frames of the address space lie apart from backed addresses. -/
theorem SpaceOk.apart (ok : SpaceOk start pd memory) {role : Role}
    {frame addr offset : Nat}
    (holds : roleFrame memory pd role = some frame) (small : offset < 4096)
    (backed : Backed start addr) : physToVirt frame + offset ≠ addr := by
  intro same
  obtain ⟨other, offset', isOther, marked, small', place⟩ := backed
  have isFrame := (ok.owned.frame role frame holds).1
  have different := ok.foreign holds marked
  have distance := isFrame.apart isOther different.symm
  omega

/-! ## The file in its buffer -/

/-- The heap of the kernel lies in frames that the bitmap marks. -/
structure KernelOk (kernel : Kernel) (stop : Nat) (blocks : List Block) :
    Prop where
  heap : HeapOk kernel.heap stop blocks
  backed : ∀ addr, kernel.heap.freeList ≤ addr → addr < stop →
    Backed kernel.memory addr
  frames : kernel.pmm.totalFrames ≤ 2 ^ 18

variable {kernel : Kernel} {stop : Nat} {blocks : List Block}
  {path : CString} {st : FatStat} {hdr : ExeHeader}

theorem KernelOk.setVolume (ok : KernelOk kernel stop blocks)
    (volume : Volume) : KernelOk { kernel with volume } stop blocks :=
  ⟨ok.heap, ok.backed, ok.frames⟩

/-- The part of `exec_load` that reads the file; the result is `file_buf`. -/
def loadFile (kernel : Kernel) (path : CString) :
    Option (Kernel × Except Nat Nat) := do
  match ← fatStat kernel.volume path with
  | .error _ => return (kernel, .error 1)
  | .ok st =>
      let (kernel, fileBuf) ← kernel.kmalloc
        (fatReadAllocSize kernel.volume.bpb (UInt32.ofNat st.size)).toNat
      if fileBuf = 0 then
        return (kernel, .error 2)
      let read ← fatReadFile kernel.volume path
        (kernel.heap.mem.shift fileBuf)
      let kernel := kernel.setView fileBuf read.dest
      if read.code ≠ 0 then
        return (kernel, .error 3)
      return (kernel, .ok fileBuf)

theorem execLoad_eq :
    execLoad kernel path = (loadFile kernel path).bind fun result =>
      match result with
      | (kernel, .error code) => some (kernel, .error code)
      | (kernel, .ok fileBuf) => execImage kernel fileBuf := by
  rw [execLoad, loadFile]
  simp only [Option.bind_eq_bind, Option.pure_def, Option.bind_assoc]
  congr 1
  funext stat
  cases stat with
  | error code => rfl
  | ok st =>
      simp only [Option.bind_assoc]
      congr 1
      funext result
      obtain ⟨kernel, fileBuf⟩ := result
      simp only
      split
      · rfl
      · simp only [Option.bind_assoc]
        congr 1
        funext read
        split <;> rfl

/-- A file buffer: a block in use that holds the beginning of a file. -/
structure Buffered (kernel : Kernel) (stop : Nat) (blocks : List Block)
    (block : Block) (file : Bytes) (size : Nat) : Prop where
  ok : KernelOk kernel stop blocks
  member : block ∈ blocks
  inUse : block.free = false
  fits : size ≤ block.size
  bytes : ∀ index < size,
    kernel.heap.mem (block.addr + blockHeaderSize + index) = file index

/-- A block of the heap, filled with the beginning of a file. -/
theorem KernelOk.placed (ok : KernelOk kernel stop blocks) {heap : Heap}
    {live : List Nat} {block : Block} {blocks' : List Block}
    {file view : Bytes} {size : Nat} (ok' : HeapOk heap stop blocks')
    (list : heap.freeList = kernel.heap.freeList)
    (member : block ∈ blocks') (inUse : block.free = false)
    (fits : size ≤ block.size)
    (viewAt : ∀ index, view index =
      if index < size then file index
      else heap.mem (block.addr + blockHeaderSize + index)) :
    Buffered (({ kernel with heap, live } : Kernel).setView
        (block.addr + blockHeaderSize) view) stop blocks' block file size ∧
      ∀ index, index < kernel.heap.freeList ∨ stop ≤ index →
        (({ kernel with heap, live } : Kernel).setView
          (block.addr + blockHeaderSize) view).heap.mem index =
            heap.mem index := by
  have inside := ok'.tiled.inside member
  have header : blockHeaderSize = 12 := rfl
  generalize afterEq : ({ kernel with heap, live } : Kernel).setView
    (block.addr + blockHeaderSize) view = after
  have mem : ∀ index, after.heap.mem index =
      if block.addr + blockHeaderSize ≤ index then
        view (index - (block.addr + blockHeaderSize))
      else heap.mem index := fun _ => by
    rw [← afterEq]
    rfl
  have pmm : after.pmm = kernel.pmm := by
    rw [← afterEq]
    rfl
  have freeList : after.heap.freeList = heap.freeList := by
    rw [← afterEq]
    rfl
  have base : after.heap.heapStartVirt = heap.heapStartVirt := by
    rw [← afterEq]
    rfl
  refine ⟨⟨⟨?_, fun addr lower upper => ?_, ?_⟩, member, inUse, fits,
    fun index below => ?_⟩, fun index apart => ?_⟩
  · refine ok'.write freeList base
      fun other otherMember index lower upper => ?_
    rw [mem]
    split
    case isTrue above =>
      rw [viewAt, if_neg ?_]
      · congr 1
        omega
      · by_cases same : other = block
        · rw [same] at upper
          omega
        · have apart := ok'.tiled.apart otherMember member same
          omega
    case isFalse => rfl
  · rw [freeList, list] at lower
    have here := ok.backed addr lower upper
    rw [Backed, Kernel.memory, pmm]
    exact here
  · rw [pmm]
    exact ok.frames
  · rw [mem, if_pos (by omega), Nat.add_sub_cancel_left, viewAt,
      if_pos below]
  · rw [mem]
    split
    · rw [viewAt, if_neg (by omega)]
      congr 1
      omega
    · rfl

/-- The file is read into a block of its own. -/
theorem KernelOk.buffered (ok : KernelOk kernel stop blocks)
    (wellFormed : WellFormed kernel.volume)
    (sound : kernel.volume.disk.Sound)
    (power : PowerOfTwoClusters kernel.volume.bpb)
    (file : RegularFile kernel.volume path st)
    (room : ∃ block ∈ blocks, block.free = true ∧
      roundRequest (fatReadAllocSize kernel.volume.bpb
        (UInt32.ofNat st.size)).toNat ≤ block.size) :
    ∃ kernel' block blocks',
      loadFile kernel path =
        some (kernel', .ok (block.addr + blockHeaderSize)) ∧
      Buffered kernel' stop blocks' block (fileContent kernel.volume path)
        (storedSize kernel.volume.bpb st.size) ∧
      kernel'.pmm = kernel.pmm ∧
      kernel'.kernelDirectory = kernel.kernelDirectory ∧
      kernel'.heap.freeList = kernel.heap.freeList ∧
      ∀ index, index < kernel.heap.freeList ∨ stop ≤ index →
        kernel'.heap.mem index = kernel.heap.mem index := by
  obtain ⟨few, small, covers⟩ := file.storedSize_le wellFormed sound power
  have allocSize : (fatReadAllocSize kernel.volume.bpb
      (UInt32.ofNat st.size)).toNat = storedSize kernel.volume.bpb st.size :=
    fatReadAllocSize_eq power (by omega)
  obtain ⟨heap', block, blocks', done, ok', member, inUse, fits, list,
    outside⟩ := ok.heap.kmalloc_block _ room
  rw [allocSize] at done fits
  have request : storedSize kernel.volume.bpb st.size ≤ block.size := by
    rw [roundRequest, u32] at fits
    omega
  have nonzero : block.addr + blockHeaderSize ≠ 0 := by
    rw [blockHeaderSize]
    omega
  have read := file.read wellFormed sound
    (heap'.mem.shift (block.addr + blockHeaderSize))
  have viewAt : ∀ index, ((heap'.mem.shift (block.addr +
      blockHeaderSize)).copy 0 (fileContent kernel.volume path)
        (storedSize kernel.volume.bpb st.size)) index =
      if index < storedSize kernel.volume.bpb st.size then
        fileContent kernel.volume path index
      else heap'.mem (block.addr + blockHeaderSize + index) := by
    intro index
    by_cases below : index < storedSize kernel.volume.bpb st.size
    · rw [if_pos below, Bytes.copy_inside (by omega) (by omega),
        Nat.sub_zero]
    · rw [if_neg below, Bytes.copy_outside (by omega)]
      rfl
  generalize (heap'.mem.shift (block.addr + blockHeaderSize)).copy 0
    (fileContent kernel.volume path)
    (storedSize kernel.volume.bpb st.size) = view at *
  have loads : loadFile kernel path =
      some (({ kernel with
        heap := heap'
        live := (block.addr + blockHeaderSize) :: kernel.live } :
          Kernel).setView (block.addr + blockHeaderSize) view,
        .ok (block.addr + blockHeaderSize)) := by
    simp only [loadFile, Kernel.kmalloc, Option.bind_eq_bind,
      Option.pure_def, file.stat, Option.bind_some, allocSize, done,
      if_neg nonzero, read, ne_eq, not_true_eq_false, if_false]
  obtain ⟨buffered, kept⟩ := @KernelOk.placed _ _ _ ok _
    ((block.addr + blockHeaderSize) :: kernel.live) _ _ _ _ _ ok' list
    member inUse request viewAt
  exact ⟨_, block, blocks', loads, buffered, rfl, rfl, list,
    fun index apart => (kept index apart).trans (outside index apart)⟩

/-! ## The program -/

/-- The bytes of the buffer are backed. -/
theorem Buffered.backed {block : Block} {file : Bytes} {size : Nat}
    (buffered : Buffered kernel stop blocks block file size) :
    ∀ index < size, Backed kernel.memory
      (block.addr + blockHeaderSize + index) := by
  intro index below
  have inside := buffered.ok.heap.tiled.inside buffered.member
  have fits := buffered.fits
  exact buffered.ok.backed _ (by omega) (by omega)

/-- The header in the buffer is that of the file. -/
theorem Buffered.headerAt {block : Block} {file : Bytes} {size : Nat}
    (buffered : Buffered kernel stop blocks block file size)
    (large : exeHeaderSize ≤ size) :
    headerAt kernel.memory (block.addr + blockHeaderSize) =
      ExeHeader.ofBytes file :=
  ofBytes_congr fun index small => buffered.bytes index (by omega)

/-- An image only depends on the view and on the bytes of the segments. -/
theorem ShowsImage.congr {file file' : Bytes}
    (image : ShowsImage memory pd hdr file) (below : BelowKernel hdr)
    (same : ∀ addr < kernelVirtBase,
      userView memory' pd addr = userView memory pd addr)
    (bytes : ∀ index < exeHeaderSize + hdr.codeSize + hdr.dataSize,
      file' index = file index) : ShowsImage memory' pd hdr file' := by
  have codeBelow := below.code
  have dataBelow := below.data
  refine ⟨fun addr user => ?_, fun addr user cell there => ?_,
    fun addr user cell there => ?_, fun index inside => ?_,
    fun index inside => ?_, fun addr user cell there => ?_⟩
  · rw [same addr user]
    exact image.mapped addr user
  · rw [same addr user] at there
    exact image.user addr user cell there
  · rw [same addr user] at there
    exact image.writable addr user cell there
  · rw [same _ (by omega), image.code index inside, bytes _ (by omega)]
  · rw [same _ (by omega), image.data index inside, bytes _ (by omega)]
  · rw [same addr user] at there
    exact image.zero addr user cell there

/-- The four calls of a program in its buffer. -/
theorem Buffered.imageArgs {block : Block} {file : Bytes} {size : Nat}
    (buffered : Buffered kernel stop blocks block file size)
    (length : exeHeaderSize + hdr.codeSize + hdr.dataSize ≤ size)
    (below : BelowKernel hdr) :
    ImageArgs kernel.memory hdr (block.addr + blockHeaderSize) :=
  LoafOs.imageArgs below fun index inside =>
    buffered.backed index (by omega)

/-- Mapped segments make up the image, which the freeing of the buffer
leaves alone. -/
theorem Buffered.mapped {block : Block} {file : Bytes} {size : Nat}
    (buffered : Buffered kernel stop blocks block file size)
    (header : ExeHeader.ofBytes file = hdr) (magic : hdr.magic = exeMagic)
    (length : exeHeaderSize + hdr.codeSize + hdr.dataSize ≤ size)
    (below : BelowKernel hdr)
    (disjoint : ∀ addr, InRange hdr.codeVaddr hdr.codeSize addr →
      ¬ InRange hdr.dataVaddr hdr.dataSize addr)
    (created : pagingCreateAddressSpace kernel.memory = some (memory, pd))
    (done : mapSegments memory pd (block.addr + blockHeaderSize) =
      some (memory', 0))
    (shows : Shows kernel.memory memory' pd
      (UserView.loadAll (fun _ => none) (imageSegments kernel.memory.mem hdr
        (block.addr + blockHeaderSize)))) :
    ∃ kernel',
      execImage kernel (block.addr + blockHeaderSize) =
        some (kernel', .ok (.ofHeader pd hdr)) ∧
      ShowsImage kernel'.memory pd hdr file := by
  have ok := buffered.ok
  have hdrEq := (buffered.headerAt (by omega)).trans header
  have image := shows.image below disjoint
  have arena : ∀ addr, kernel.heap.freeList ≤ addr → addr < stop →
      memory'.mem addr = kernel.heap.mem addr := fun addr lower upper =>
    shows.ok.backed (ok.backed addr lower upper)
  have inside := ok.heap.tiled.inside buffered.member
  have heapOk : HeapOk { kernel.heap with mem := memory'.mem } stop
      blocks := by
    refine ok.heap.write rfl rfl fun other member index lower upper => ?_
    have otherInside := ok.heap.tiled.inside member
    have large : blockHeaderSize = 12 := rfl
    exact arena index (by omega) (by omega)
  obtain ⟨freed, blocks', freeing, _, _, _, payloads, outside⟩ :=
    heapOk.kfree buffered.member buffered.inUse
  have payload : ∀ index < size,
      freed.mem (block.addr + blockHeaderSize + index) = file index := by
    intro index inFile
    have fits := buffered.fits
    rw [payloads block buffered.member _ (by omega) (by omega)]
    exact (arena _ (by omega) (by omega)).trans
      (buffered.bytes index inFile)
  have final : LoafOs.headerAt ⟨freed.mem, memory'.pmm,
      kernel.kernelDirectory⟩ (block.addr + blockHeaderSize) = hdr := by
    rw [← header]
    exact ofBytes_congr fun index inHeader => payload index (by omega)
  have kept : ∀ role frame, roleFrame memory' pd role = some frame →
      FrameKept memory' ⟨freed.mem, memory'.pmm, kernel.kernelDirectory⟩
        frame := by
    intro role frame holds offset small
    refine outside _ ?_
    change physToVirt frame + offset < kernel.heap.freeList ∨
      stop ≤ physToVirt frame + offset
    by_contra within
    exact shows.ok.apart holds small
      (ok.backed (physToVirt frame + offset) (by omega) (by omega)) rfl
  refine ⟨{ kernel with
      heap := freed
      pmm := memory'.pmm
      live := kernel.live.erase (block.addr + blockHeaderSize) }, ?_,
    image.congr below (fun addr user => userView_congr kept user)
      fun index inFile => (buffered.bytes index (by omega)).symm⟩
  rw [LoafOs.execImage, if_neg (by rw [hdrEq, magic]; simp), created]
  simp only [Option.bind_eq_bind, Option.pure_def, Option.bind_some, done,
    ne_eq, not_true_eq_false, if_false, Kernel.setMemory, Kernel.kfree,
    freeing]
  rw [← final]
  rfl

/-- The image of a program in its buffer, when it has been built. -/
theorem Buffered.execImage_done {block : Block} {file : Bytes} {size : Nat}
    {kernel' : Kernel} {result : Except Nat Image}
    (buffered : Buffered kernel stop blocks block file size)
    (header : ExeHeader.ofBytes file = hdr) (magic : hdr.magic = exeMagic)
    (length : exeHeaderSize + hdr.codeSize + hdr.dataSize ≤ size)
    (below : BelowKernel hdr)
    (disjoint : ∀ addr, InRange hdr.codeVaddr hdr.codeSize addr →
      ¬ InRange hdr.dataVaddr hdr.dataSize addr)
    (done : execImage kernel (block.addr + blockHeaderSize) =
      some (kernel', result)) :
    ∃ pd, result = .ok (.ofHeader pd hdr) ∧
      ShowsImage kernel'.memory pd hdr file := by
  have small : kernel.memory.pmm.totalFrames ≤ 2 ^ 18 := buffered.ok.frames
  have hdrEq := (buffered.headerAt (by omega)).trans header
  obtain ⟨memory, pd, created, memory', mapped⟩ : ∃ memory pd,
      pagingCreateAddressSpace kernel.memory = some (memory, pd) ∧
      ∃ memory', mapSegments memory pd (block.addr + blockHeaderSize) =
        some memory' := by
    rw [execImage, if_neg (by rw [hdrEq, magic]; simp)] at done
    simp only [Option.bind_eq_bind, Option.bind_eq_some_iff] at done
    obtain ⟨⟨memory, pd⟩, created, ⟨memory', code⟩, mapped, _⟩ := done
    exact ⟨memory, pd, created, _, mapped⟩
  obtain ⟨memory', code⟩ := memory'
  obtain ⟨rfl, shows⟩ := mapSegments_done small created hdrEq
    (buffered.imageArgs length below) mapped
  obtain ⟨after, again, image⟩ := buffered.mapped header magic length below
    disjoint created mapped shows
  rw [again] at done
  simp only [Option.some.injEq, Prod.mk.injEq] at done
  obtain ⟨rfl, rfl⟩ := done
  exact ⟨pd, rfl, image⟩

/-- Building the image of a program that is in its buffer. -/
theorem Buffered.execImage {block : Block} {file : Bytes} {size : Nat}
    (buffered : Buffered kernel stop blocks block file size)
    (header : ExeHeader.ofBytes file = hdr) (magic : hdr.magic = exeMagic)
    (length : exeHeaderSize + hdr.codeSize + hdr.dataSize ≤ size)
    (below : BelowKernel hdr)
    (disjoint : ∀ addr, InRange hdr.codeVaddr hdr.codeSize addr →
      ¬ InRange hdr.dataVaddr hdr.dataSize addr)
    (room : neededFrames (imagePages hdr) ≤
      (freeBelow kernel.pmm kernel.pmm.totalFrames).card) :
    ∃ kernel' pd,
      execImage kernel (block.addr + blockHeaderSize) =
        some (kernel', .ok (.ofHeader pd hdr)) ∧
      ShowsImage kernel'.memory pd hdr file := by
  have small : kernel.memory.pmm.totalFrames ≤ 2 ^ 18 := buffered.ok.frames
  have hdrEq := (buffered.headerAt (by omega)).trans header
  have positive : 0 < (freeBelow kernel.pmm kernel.pmm.totalFrames).card := by
    have need : 0 < neededFrames (imagePages hdr) := by
      rw [neededFrames]
      omega
    omega
  obtain ⟨taken, frame, alloc⟩ := allocFrame_some small positive
  obtain ⟨memory, pd, created⟩ : ∃ memory pd,
      pagingCreateAddressSpace kernel.memory = some (memory, pd) := by
    rw [pagingCreateAddressSpace, alloc]
    exact ⟨_, _, rfl⟩
  obtain ⟨memory', done, shows⟩ := mapSegments_shows small created hdrEq
    (buffered.imageArgs length below) room
  obtain ⟨kernel', builds, image⟩ := buffered.mapped header magic length
    below disjoint created done shows
  exact ⟨kernel', pd, builds, image⟩

/-- The load succeeds when there is room for the file and the image. -/
theorem execLoad_builds (ok : KernelOk kernel stop blocks)
    (wellFormed : WellFormed kernel.volume)
    (sound : kernel.volume.disk.Sound)
    (power : PowerOfTwoClusters kernel.volume.bpb)
    (file : RegularFile kernel.volume path st)
    (header : ExeHeader.ofBytes (fileContent kernel.volume path) = hdr)
    (magic : hdr.magic = exeMagic)
    (length : exeHeaderSize + hdr.codeSize + hdr.dataSize ≤ st.size)
    (below : BelowKernel hdr)
    (disjoint : ∀ addr, InRange hdr.codeVaddr hdr.codeSize addr →
      ¬ InRange hdr.dataVaddr hdr.dataSize addr)
    (heapRoom : ∃ block ∈ blocks, block.free = true ∧
      roundRequest (fatReadAllocSize kernel.volume.bpb
        (UInt32.ofNat st.size)).toNat ≤ block.size)
    (frameRoom : neededFrames (imagePages hdr) ≤
      (freeBelow kernel.pmm kernel.pmm.totalFrames).card) :
    ∃ kernel' pd,
      execLoad kernel path = some (kernel', .ok (.ofHeader pd hdr)) ∧
      ShowsImage kernel'.memory pd hdr (fileContent kernel.volume path) := by
  obtain ⟨_, _, covers⟩ := file.storedSize_le wellFormed sound power
  obtain ⟨kernel', block, blocks', loads, buffered, pmm, _⟩ :=
    ok.buffered wellFormed sound power file heapRoom
  obtain ⟨kernel'', pd, done, image⟩ :=
    buffered.execImage header magic (length.trans covers) below disjoint
      (pmm ▸ frameRoom)
  refine ⟨kernel'', pd, ?_, image⟩
  rw [execLoad_eq, loads]
  exact done

def sampleHeader : ExeHeader :=
  ⟨exeMagic, 0x400000, 0x400000, 8, 0x400008, 4, 0x40000c, 4⟩

def sampleImage : List UInt8 :=
  [0x4c, 0x4f, 0x41, 0x46, 0, 0, 0x40, 0, 0, 0, 0x40, 0, 8, 0, 0, 0,
    8, 0, 0x40, 0, 4, 0, 0, 0, 0x0c, 0, 0x40, 0, 4, 0, 0, 0,
    1, 2, 3, 4, 5, 6, 7, 8, 9, 10, 11, 12]

def samplePrograms : List FatCall :=
  [.writeFile samplePath (fun index => sampleImage.getD index 0) 44]

def sampleKernel : Kernel where
  heap := sampleHeap
  live := []
  pmm := samplePmm.setRun 0 1
  kernelDirectory := 0x101000
  volume := afterCalls sampleVolume samplePrograms

theorem sampleKernel_ok :
    KernelOk sampleKernel (sampleHeap.freeList + 1 * pageSize)
      [⟨sampleHeap.freeList, 1 * pageSize - blockHeaderSize, true⟩] := by
  refine ⟨(heapInit_ok (by decide) sampleHeap_booted).heap,
    fun addr lower upper => ?_, by decide⟩
  have base : sampleHeap.freeList = 3221225472 := rfl
  have page : pageSize = 4096 := rfl
  have zero : physToVirt 0 = 3221225472 := by decide
  have marked : sampleKernel.memory.pmm.used (0 / 4096) = true := by decide
  rw [base, page] at upper
  change 3221225472 ≤ addr at lower
  exact ⟨0, addr - 3221225472, ⟨by decide, by decide⟩, marked, by omega,
    by omega⟩

end LoafOs
