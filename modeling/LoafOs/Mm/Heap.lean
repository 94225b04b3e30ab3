import LoafOs.Lib.Arena
import LoafOs.Lib.ByteMemory
import LoafOs.Lib.Runs
import LoafOs.Mm.Pmm

/-!
# The kernel heap

`src/mm/heap.c` keeps its block list inside the arena that it manages.  The
memory is seen through kernel addresses; a header holds the payload size,
the address of the next header and the `free` mark.
-/

namespace LoafOs

open Arena

/-- `BLOCK_HEADER_SIZE`: two words, the mark and three bytes of padding. -/
def blockHeaderSize : Nat := 12

/-- The static variables of the heap and the memory they point into. -/
structure Heap where
  mem : Bytes
  freeList : Nat
  heapStart : Nat
  heapEnd : Nat
  heapStartVirt : Nat

/-- `block->size`. -/
def blockSize (mem : Bytes) (block : Nat) : Nat := mem.word32 block

/-- `block->next`. -/
def blockNext (mem : Bytes) (block : Nat) : Nat := mem.word32 (block + 4)

/-- `block->free`. -/
def blockFree (mem : Bytes) (block : Nat) : Bool := mem (block + 8) != 0

/-- The three stores that fill in a header. -/
def putBlock (mem : Bytes) (block size next : Nat) (free : UInt8) : Bytes :=
  ((mem.putWord32 block size).putWord32 (block + 4) next).put
    (block + 8) free

/-- `heap_init`. -/
def heapInit (pmm : Pmm) (mem : Bytes) (numFrames : Nat) :
    Option (Pmm × Heap) :=
  match pmm.allocFrames numFrames with
  | none => none
  | some (pmm, heapStart) =>
      let freeList := physToVirt heapStart
      let size := u32 (u32 (numFrames * pageSize) + 2 ^ 32 -
        blockHeaderSize)
      some (pmm,
        { mem := putBlock mem freeList size 0 1
          freeList := freeList
          heapStart := heapStart
          heapEnd := u32 (freeList + size)
          heapStartVirt := physToVirt heapStart })

/-- `(bytes + 3) & ~3`. -/
def roundRequest (bytes : Nat) : Nat := u32 (bytes + 3) / 4 * 4

/-- The loop of `kmalloc` at `curr`; `none` when it runs out of fuel. -/
def kmallocFrom (heap : Heap) (bytes : Nat) :
    Nat → Nat → Option (Heap × Nat)
  | 0, _ => none
  | fuel + 1, curr =>
      if curr = 0 then
        some (heap, 0)
      else if blockFree heap.mem curr ∧ bytes ≤ blockSize heap.mem curr then
        let mem :=
          if u32 (bytes + blockHeaderSize + 4) ≤ blockSize heap.mem curr then
            let newBlock := u32 (curr + blockHeaderSize + bytes)
            let split := putBlock heap.mem newBlock
              (u32 (blockSize heap.mem curr + 2 ^ 32 +
                2 ^ 32 - bytes - blockHeaderSize))
              (blockNext heap.mem curr) 1
            (split.putWord32 curr bytes).putWord32 (curr + 4) newBlock
          else heap.mem
        some ({ heap with mem := mem.put (curr + 8) 0 },
          u32 (curr + blockHeaderSize))
      else
        kmallocFrom heap bytes fuel (blockNext heap.mem curr)

/-- Fuel for the walks over the block list. -/
def walkFuel : Nat := 2 ^ 32

/-- `kmalloc`. -/
def kmalloc (heap : Heap) (bytes : Nat) : Option (Heap × Nat) :=
  kmallocFrom heap (roundRequest bytes) walkFuel heap.freeList

/-- The merging loop of `kfree` at `curr`; `none` when it runs out of
fuel. -/
def coalesceFrom (mem : Bytes) : Nat → Nat → Option Bytes
  | 0, _ => none
  | fuel + 1, curr =>
      if curr = 0 ∨ blockNext mem curr = 0 then
        some mem
      else
        let next := blockNext mem curr
        if blockFree mem curr ∧ blockFree mem next ∧
            u32 (curr + blockHeaderSize + blockSize mem curr) = next then
          let grown := mem.putWord32 curr
            (u32 (blockSize mem curr +
              (blockHeaderSize + blockSize mem next)))
          coalesceFrom
            (grown.putWord32 (curr + 4)
              (blockNext grown (blockNext grown curr)))
            fuel curr
        else
          coalesceFrom mem fuel next

/-- `kfree`; the two refusals only print a warning. -/
def kfree (heap : Heap) (ptr : Nat) : Option Heap :=
  if ptr = 0 then
    some heap
  else if ptr < heap.heapStartVirt ∨ heap.heapEnd ≤ ptr then
    some heap
  else
    let block := u32 (ptr + 2 ^ 32 - blockHeaderSize)
    if blockFree heap.mem block then
      some heap
    else
      (coalesceFrom (heap.mem.put (block + 8) 1) walkFuel
        heap.freeList).map fun mem => { heap with mem := mem }

/-! ## The list in memory -/

/-- The blocks that the links in memory spell out from an address. -/
def Threaded (mem : Bytes) : Nat → List Block → Prop
  | curr, [] => curr = 0
  | curr, block :: rest =>
      curr ≠ 0 ∧ block.addr = curr ∧ blockSize mem curr = block.size ∧
        blockFree mem curr = block.free ∧
        Threaded mem (blockNext mem curr) rest

section Headers

variable {mem mem' : Bytes} {block other size next : Nat} {free : UInt8}

theorem blockSize_putBlock (bound : size < 2 ^ 32) :
    blockSize (putBlock mem block size next free) block = size := by
  have kept : (putBlock mem block size next free).word32 block =
      (mem.putWord32 block size).word32 block := by
    refine Bytes.word32_congr fun index small => ?_
    rw [putBlock, Bytes.put_other (by omega),
      Bytes.putWord32_other (by omega)]
  rw [blockSize, kept, Bytes.word32_putWord32 bound]

theorem blockNext_putBlock (bound : next < 2 ^ 32) :
    blockNext (putBlock mem block size next free) block = next := by
  have kept : (putBlock mem block size next free).word32 (block + 4) =
      ((mem.putWord32 block size).putWord32 (block + 4) next).word32
        (block + 4) := by
    refine Bytes.word32_congr fun index small => ?_
    rw [putBlock, Bytes.put_other (by omega)]
  rw [blockNext, kept, Bytes.word32_putWord32 bound]

theorem blockFree_putBlock :
    blockFree (putBlock mem block size next free) block = (free != 0) := by
  rw [blockFree, putBlock, Bytes.put_same]

/-- A header write stays inside the header. -/
theorem putBlock_other {index : Nat}
    (outside : index < block ∨ block + 9 ≤ index) :
    putBlock mem block size next free index = mem index := by
  rw [putBlock, Bytes.put_other (by omega),
    Bytes.putWord32_other (by omega), Bytes.putWord32_other (by omega)]

/-- Two memories that agree on a header agree on its three fields. -/
theorem header_congr
    (agree : ∀ index, block ≤ index → index < block + 9 →
      mem' index = mem index) :
    blockSize mem' block = blockSize mem block ∧
      blockNext mem' block = blockNext mem block ∧
      blockFree mem' block = blockFree mem block := by
  refine ⟨?_, ?_, ?_⟩
  · exact Bytes.word32_congr fun index small =>
      agree _ (by omega) (by omega)
  · exact Bytes.word32_congr fun index small =>
      agree _ (by omega) (by omega)
  · rw [blockFree, blockFree, agree _ (by omega) (by omega)]

end Headers

section Lists

variable {mem mem' : Bytes} {curr start stop : Nat} {block : Block}
  {blocks before after : List Block}

/-- A list only depends on the headers of its blocks. -/
theorem Threaded.congr (threaded : Threaded mem curr blocks)
    (agree : ∀ block ∈ blocks, ∀ index, block.addr ≤ index →
      index < block.addr + 9 → mem' index = mem index) :
    Threaded mem' curr blocks := by
  induction blocks generalizing curr with
  | nil => exact threaded
  | cons first rest inductionHypothesis =>
      obtain ⟨nonzero, position, size, free, tail⟩ := threaded
      have same : ∀ index, curr ≤ index → index < curr + 9 →
          mem' index = mem index := fun index lower upper =>
        agree first (List.mem_cons_self ..) index
          (by rw [position]; exact lower) (by rw [position]; exact upper)
      obtain ⟨size', next', free'⟩ := header_congr same
      refine ⟨nonzero, position, size'.trans size, free'.trans free, ?_⟩
      rw [next']
      exact inductionHypothesis tail fun block member =>
        agree block (List.mem_cons_of_mem _ member)

theorem Threaded.size_eq (threaded : Threaded mem curr blocks)
    (member : block ∈ blocks) : blockSize mem block.addr = block.size := by
  induction blocks generalizing curr with
  | nil => simp at member
  | cons first rest inductionHypothesis =>
      obtain ⟨_, position, size, _, tail⟩ := threaded
      rcases List.mem_cons.mp member with same | later
      · rw [same, position, size]
      · exact inductionHypothesis tail later

theorem Threaded.free_eq (threaded : Threaded mem curr blocks)
    (member : block ∈ blocks) : blockFree mem block.addr = block.free := by
  induction blocks generalizing curr with
  | nil => simp at member
  | cons first rest inductionHypothesis =>
      obtain ⟨_, position, _, free, tail⟩ := threaded
      rcases List.mem_cons.mp member with same | later
      · rw [same, position, free]
      · exact inductionHypothesis tail later

end Lists

end LoafOs
