import LoafOs.Fs.File
import LoafOs.Mm.Heap
import LoafOs.Mm.Paging

/-!
# Loading an executable

`src/userspace/exe.c`.  A call that panics ends the kernel and has no
result; the loops over pages never pass the end of the address space.
-/

namespace LoafOs

def userStackTop : Nat := 0xbffff000
def userStackSize : Nat := 0x4000
def userHeapMax : Nat := userStackTop - userStackSize - 0x1000

/-- `EXE_MAGIC`. -/
def exeMagic : Nat := 0x46414f4c

/-- `exe_header_t`. -/
structure ExeHeader where
  magic : Nat
  entryPoint : Nat
  codeVaddr : Nat
  codeSize : Nat
  dataVaddr : Nat
  dataSize : Nat
  bssVaddr : Nat
  bssSize : Nat
  deriving DecidableEq, Repr

/-- `sizeof(exe_header_t)`. -/
def exeHeaderSize : Nat := 32

/-- The packed structure as it lies in memory. -/
def ExeHeader.ofBytes (mem : Bytes) : ExeHeader where
  magic := mem.word32 0
  entryPoint := mem.word32 4
  codeVaddr := mem.word32 8
  codeSize := mem.word32 12
  dataVaddr := mem.word32 16
  dataSize := mem.word32 20
  bssVaddr := mem.word32 24
  bssSize := mem.word32 28

/-- `(vaddr + size + 0xfff) & ~0xfff`. -/
def segmentEnd (vaddr size : Nat) : Nat := frameOf (u32 (vaddr + size + 0xfff))

/-- The page that `map_and_copy` uses for `va`: one that is already mapped,
re-flagged when the segment is writable, or a new one.  `none` in the second
component is the error return. -/
def mapSegmentPage (memory : Memory) (pd va flags : Nat) :
    Option (Memory × Option Nat) :=
  match pagingWalk memory pd va with
  | some existing => do
      let frame := frameOf existing
      if isRw flags then
        let (memory, _) ← pagingMapPage memory pd va frame flags
        return (memory, some frame)
      else
        return (memory, some frame)
  | none => do
      let (memory, frame) ← memory.allocFrame
      if frame = 0 then
        return (memory, none)
      let (memory, code) ← pagingMapPage memory pd va frame flags
      if code ≠ 0 then
        return (memory, none)
      return (memory.clearPage frame, some frame)

/-- `if (src && copy_len > 0) memcpy(...)`. -/
def copySegment (memory : Memory) (frame pageOff : Nat) (src : Option Nat)
    (copied copyLen : Nat) : Memory :=
  match src with
  | none => memory
  | some src =>
      { memory with
        mem := memory.mem.copy (physToVirt frame + pageOff)
          (memory.mem.shift (src + copied)) copyLen }

/-- The loop of `map_and_copy` at `va`, with `copied` bytes behind it. -/
def mapAndCopyFrom (pd vaddr : Nat) (src : Option Nat) (size flags : Nat) :
    Nat → Memory → Nat → Nat → Option (Memory × Nat)
  | 0, _, _, _ => none
  | fuel + 1, memory, va, copied =>
      if va < segmentEnd vaddr size then do
        let (memory, page) ← mapSegmentPage memory pd va flags
        match page with
        | none => return (memory, 1)
        | some frame =>
            let pageOff :=
              if va = frameOf vaddr then vaddr - frameOf vaddr else 0
            let remaining := u32 (size + 2 ^ 32 - copied)
            let copyLen :=
              if remaining < pageSize - pageOff then remaining
              else pageSize - pageOff
            let memory := copySegment memory frame pageOff src copied copyLen
            mapAndCopyFrom pd vaddr src size flags fuel memory
              (va + pageSize) (copied + copyLen)
      else
        some (memory, 0)

/-- `map_and_copy`. -/
def mapAndCopy (memory : Memory) (pd vaddr : Nat) (src : Option Nat)
    (size flags : Nat) : Option (Memory × Nat) :=
  mapAndCopyFrom pd vaddr src size flags (2 ^ 20 + 1) memory (frameOf vaddr)
    0

/-- `size && map_and_copy(...)`. -/
def mapSegment (memory : Memory) (pd vaddr : Nat) (src : Option Nat)
    (size flags : Nat) : Option (Memory × Nat) :=
  if size = 0 then some (memory, 0)
  else mapAndCopy memory pd vaddr src size flags

def codeFlags : Nat := pagePresent ||| pageUser
def dataFlags : Nat := pagePresent ||| pageRw ||| pageUser

/-- `hdr`, which points into the file buffer. -/
def headerAt (memory : Memory) (fileBuf : Nat) : ExeHeader :=
  ExeHeader.ofBytes (memory.mem.shift fileBuf)

/-- The four `map_and_copy` calls of `exec_load`; the result is the memory
and the return value, 0 when all of them succeed. -/
def mapSegments (memory : Memory) (pd fileBuf : Nat) :
    Option (Memory × Nat) := do
  let hdr := headerAt memory fileBuf
  let (memory, code) ← mapSegment memory pd hdr.codeVaddr
    (some (fileBuf + exeHeaderSize)) hdr.codeSize codeFlags
  if code ≠ 0 then
    return (memory, 5)
  let hdr := headerAt memory fileBuf
  let (memory, code) ← mapSegment memory pd hdr.dataVaddr
    (some (u32 (fileBuf + exeHeaderSize + hdr.codeSize))) hdr.dataSize
    dataFlags
  if code ≠ 0 then
    return (memory, 6)
  let hdr := headerAt memory fileBuf
  let (memory, code) ← mapSegment memory pd hdr.bssVaddr none hdr.bssSize
    dataFlags
  if code ≠ 0 then
    return (memory, 7)
  let (memory, code) ← mapAndCopy memory pd (userStackTop - userStackSize)
    none userStackSize dataFlags
  if code ≠ 0 then
    return (memory, 8)
  return (memory, 0)

/-- The fields of `process_t` that `exec_load` sets. -/
structure Image where
  pdPhys : Nat
  entryPoint : Nat
  userStackTop : Nat
  heapStart : Nat
  heapBreak : Nat
  heapMax : Nat
  deriving DecidableEq, Repr

/-- The assignments at the end of `exec_load`. -/
def Image.ofHeader (pd : Nat) (hdr : ExeHeader) : Image :=
  let heapStart := frameOf (u32 (u32 (hdr.bssVaddr + hdr.bssSize) + 0xfff))
  { pdPhys := pd
    entryPoint := hdr.entryPoint
    userStackTop := LoafOs.userStackTop
    heapStart
    heapBreak := heapStart
    heapMax := userHeapMax }

/-- The parts of the kernel that loading a program works on.  `live` keeps
the pointers that `kmalloc` returned and that were not freed since. -/
structure Kernel where
  heap : Heap
  live : List Nat
  pmm : Pmm
  kernelDirectory : Nat
  volume : Volume

namespace Kernel

/-- The memory as the page-table code sees it. -/
def memory (kernel : Kernel) : Memory :=
  ⟨kernel.heap.mem, kernel.pmm, kernel.kernelDirectory⟩

def setMemory (kernel : Kernel) (memory : Memory) : Kernel :=
  { kernel with
    heap := { kernel.heap with mem := memory.mem }
    pmm := memory.pmm }

/-- `kmalloc`. -/
def kmalloc (kernel : Kernel) (bytes : Nat) : Option (Kernel × Nat) := do
  let (heap, ptr) ← LoafOs.kmalloc kernel.heap bytes
  return ({ kernel with
    heap
    live := if ptr = 0 then kernel.live else ptr :: kernel.live }, ptr)

/-- `kfree`. -/
def kfree (kernel : Kernel) (ptr : Nat) : Option Kernel := do
  let heap ← LoafOs.kfree kernel.heap ptr
  return { kernel with heap, live := kernel.live.erase ptr }

/-- The bytes that a driver call left behind a pointer. -/
def setView (kernel : Kernel) (ptr : Nat) (view : Bytes) : Kernel :=
  { kernel with
    heap := { kernel.heap with
      mem := fun index =>
        if ptr ≤ index then view (index - ptr) else kernel.heap.mem index } }

end Kernel

/-- `exec_load` after the file has been read. -/
def execImage (kernel : Kernel) (fileBuf : Nat) :
    Option (Kernel × Except Nat Image) := do
  if (headerAt kernel.memory fileBuf).magic ≠ exeMagic then
    return (kernel, .error 4)
  let (memory, pd) ← pagingCreateAddressSpace kernel.memory
  let (memory, code) ← mapSegments memory pd fileBuf
  let kernel := kernel.setMemory memory
  if code ≠ 0 then
    return (kernel, .error code)
  let kernel ← kernel.kfree fileBuf
  return (kernel, .ok (.ofHeader pd (headerAt kernel.memory fileBuf)))

/-- `exec_load`; the error is its return value. -/
def execLoad (kernel : Kernel) (path : CString) :
    Option (Kernel × Except Nat Image) := do
  match ← fatStat kernel.volume path with
  | .error _ => return (kernel, .error 1)
  | .ok st =>
      let (kernel, fileBuf) ← kernel.kmalloc
        (fatReadAllocSize kernel.volume.bpb (UInt32.ofNat st.size)).toNat
      if fileBuf = 0 then
        return (kernel, .error 2)
      let read ← fatReadFile kernel.volume path
        (kernel.heap.mem.shift fileBuf)
      let kernel := kernel.setView fileBuf read.dest
      if read.code ≠ 0 then
        return (kernel, .error 3)
      execImage kernel fileBuf

end LoafOs
