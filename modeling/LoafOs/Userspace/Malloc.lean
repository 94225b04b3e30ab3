import LoafOs.Mm.HeapRun

/-!
# The heap of a program

`src/libc/malloc.c`.  The block list is the one of the kernel heap, with the
same headers, but it grows at its end: `sys_sbrk` moves the break, and the
new bytes become the last block.
-/

namespace LoafOs

open Arena

/-- The memory of a program and its break. -/
structure Space where
  mem : Bytes
  brk : Nat

/-- `sys_sbrk` with a positive argument: the pointer that it returns, and the
memory afterwards. -/
def Sbrk := Space → Nat → Nat × Space

/-- The call fails and leaves the break unchanged, or returns the old break
and extends the memory. -/
structure SbrkOk (sbrk : Sbrk) : Prop where
  result : ∀ space delta, 0 < delta → delta < 2 ^ 31 →
    sbrk space delta = (0, space) ∨
      ∃ mem, sbrk space delta = (space.brk, ⟨mem, space.brk + delta⟩) ∧
        space.brk ≠ 0 ∧ space.brk + delta < 2 ^ 32 ∧
        ∀ index < space.brk, mem index = space.mem index

/-- The static variables of the allocator and the memory they point into. -/
structure UserHeap where
  space : Space
  freeList : Nat
  heapEnd : Nat

/-- `MIN_GROWTH`. -/
def minGrowth : Nat := 4096

/-- The loop that looks for the last block. -/
def lastBlock (mem : Bytes) : Nat → Nat → Option Nat
  | 0, _ => none
  | fuel + 1, curr =>
      if blockNext mem curr = 0 then some curr
      else lastBlock mem fuel (blockNext mem curr)

/-- The loop of `malloc` at `curr`: the memory and the pointer when it takes
a block. -/
def mallocFrom (size : Nat) :
    Nat → Bytes → Nat → Option (Option (Bytes × Nat))
  | 0, _, _ => none
  | fuel + 1, mem, curr =>
      if curr = 0 then
        some none
      else if blockFree mem curr ∧ size ≤ blockSize mem curr then
        let mem' :=
          if u32 (size + blockHeaderSize + 4) ≤ blockSize mem curr then
            let newBlock := u32 (curr + blockHeaderSize + size)
            let split := putBlock mem newBlock
              (u32 (blockSize mem curr + 2 ^ 32 + 2 ^ 32 - size -
                blockHeaderSize))
              (blockNext mem curr) 1
            (split.putWord32 curr size).putWord32 (curr + 4) newBlock
          else mem
        some (some (mem'.put (curr + 8) 0, u32 (curr + blockHeaderSize)))
      else
        mallocFrom size fuel mem (blockNext mem curr)

namespace UserHeap

def setMem (heap : UserHeap) (mem : Bytes) : UserHeap :=
  { heap with space := { heap.space with mem } }

/-- `grow_heap`. -/
def growHeap (sbrk : Sbrk) (heap : UserHeap) (need : Nat) :
    Option (UserHeap × Bool) := do
  let growAmount := if minGrowth < need then need else minGrowth
  let (base, space) := sbrk heap.space growAmount
  let heap := { heap with space }
  if base = 0 then
    return (heap, false)
  let mem := putBlock space.mem base
    (u32 (growAmount + 2 ^ 32 - blockHeaderSize)) 0 1
  let heapEnd := u32 (base + growAmount)
  if heap.freeList = 0 then
    return (⟨{ space with mem }, base, heapEnd⟩, true)
  let last ← lastBlock mem walkFuel heap.freeList
  return (⟨{ space with mem := mem.putWord32 (last + 4) base },
    heap.freeList, heapEnd⟩, true)

/-- `malloc`, up to a depth of recursion.  The list has an entry for every
call of `sys_sbrk`, whether it succeeded. -/
def malloc (sbrk : Sbrk) : Nat → UserHeap → Nat →
    Option (UserHeap × Nat × List Bool)
  | 0, _, _ => none
  | depth + 1, heap, bytes => do
      let size := roundRequest bytes
      match ← mallocFrom size walkFuel heap.space.mem heap.freeList with
      | some (mem, ptr) => return (heap.setMem mem, ptr, [])
      | none =>
          let (heap, grown) ← heap.growHeap sbrk (u32 (size + blockHeaderSize))
          if ¬ grown then
            return (heap, 0, [false])
          let (heap, ptr, calls) ← malloc sbrk depth heap size
          return (heap, ptr, true :: calls)

/-- `free`. -/
def free (heap : UserHeap) (ptr : Nat) : Option UserHeap :=
  if ptr = 0 then
    some heap
  else
    let block := u32 (ptr + 2 ^ 32 - blockHeaderSize)
    (coalesceFrom (heap.space.mem.put (block + 8) 1) walkFuel
      heap.freeList).map heap.setMem

end UserHeap

/-! ## The loops -/

section Loops

variable {mem : Bytes} {size fuel curr start stop base : Nat}
  {blocks blocks' : List Block} {taken : Block}

/-- The search loop is the one of `kmalloc`. -/
theorem kmallocFrom_mallocFrom (heap : Heap) (fuel curr : Nat) :
    kmallocFrom heap size fuel curr =
      (mallocFrom size fuel heap.mem curr).map fun found =>
        match found with
        | none => (heap, 0)
        | some (mem, ptr) => ({ heap with mem }, ptr) := by
  induction fuel generalizing curr with
  | zero => rfl
  | succ fuel inductionHypothesis =>
      rw [kmallocFrom, mallocFrom]
      split
      case isTrue => rfl
      case isFalse =>
        split
        case isTrue => rfl
        case isFalse => exact inductionHypothesis _

/-- No block is large enough. -/
theorem mallocFrom_none (threaded : Threaded mem curr blocks)
    (small : ∀ block ∈ blocks, block.free = true → block.size < size)
    (enough : blocks.length < fuel) :
    mallocFrom size fuel mem curr = some none := by
  induction blocks generalizing curr fuel with
  | nil =>
      obtain ⟨fuel, rfl⟩ := Nat.exists_eq_add_one_of_ne_zero
        (Nat.ne_of_gt enough)
      have done : curr = 0 := threaded
      rw [mallocFrom, if_pos done]
  | cons first rest inductionHypothesis =>
      obtain ⟨fuel, rfl⟩ := Nat.exists_eq_add_one_of_ne_zero
        (Nat.ne_of_gt (Nat.lt_of_le_of_lt (Nat.zero_le _) enough))
      obtain ⟨nonzero, _, isSize, isFree, tail⟩ := threaded
      have unfit : ¬ (blockFree mem curr = true ∧
          size ≤ blockSize mem curr) := by
        rintro ⟨free, fits⟩
        have less := small first (List.mem_cons_self ..) (isFree ▸ free)
        omega
      rw [mallocFrom, if_neg nonzero, if_neg unfit]
      exact inductionHypothesis tail
        (fun block member => small block (List.mem_cons_of_mem _ member))
        (Nat.lt_of_succ_lt_succ enough)

/-- The search is first fit. -/
theorem mallocFrom_some (threaded : Threaded mem curr blocks)
    (tiled : Tiled blockHeaderSize start stop blocks)
    (low : 16 ≤ start) (high : stop < 2 ^ 32)
    (enough : blocks.length < fuel)
    (found : firstFit blockHeaderSize 4 size blocks =
      some (blocks', taken)) :
    ∃ mem', mallocFrom size fuel mem curr =
        some (some (mem', taken.addr + blockHeaderSize)) ∧
      Threaded mem' curr blocks' := by
  have search := @kmallocFrom_eq ⟨mem, curr, 0, 0, 0⟩ size fuel curr start
    stop blocks threaded tiled low high enough
  rw [found] at search
  obtain ⟨mem', done, threaded', _⟩ := search
  rw [kmallocFrom_mallocFrom] at done
  obtain ⟨result, reached, same⟩ := Option.map_eq_some_iff.mp done
  have header : blockHeaderSize = 12 := rfl
  cases result with
  | none =>
      injection same with _ zero
      omega
  | some result =>
      injection same with sameHeap samePtr
      injection sameHeap with sameMem
      refine ⟨mem', ?_, threaded'⟩
      rw [reached, ← sameMem, ← samePtr]

/-- The walk ends at the last block of the list. -/
theorem lastBlock_eq {before : List Block} {last : Block}
    (threaded : Threaded mem curr (before ++ [last]))
    (enough : before.length < fuel) :
    lastBlock mem fuel curr = some last.addr := by
  induction before generalizing curr fuel with
  | nil =>
      obtain ⟨fuel, rfl⟩ := Nat.exists_eq_add_one_of_ne_zero
        (Nat.ne_of_gt enough)
      obtain ⟨_, position, _, _, ends⟩ := threaded
      have zero : blockNext mem curr = 0 := ends
      rw [lastBlock, if_pos zero, position]
  | cons first rest inductionHypothesis =>
      obtain ⟨fuel, rfl⟩ := Nat.exists_eq_add_one_of_ne_zero
        (Nat.ne_of_gt (Nat.lt_of_le_of_lt (Nat.zero_le _) enough))
      have tail := threaded.2.2.2.2
      have going : blockNext mem curr ≠ 0 := by
        cases rest with
        | nil => exact tail.1
        | cons _ _ => exact tail.1
      rw [lastBlock, if_neg going]
      exact inductionHypothesis tail (Nat.lt_of_succ_lt_succ enough)

/-- The next pointer of the last block is set to a list that follows. -/
theorem Threaded.link {before after : List Block} {last : Block}
    (threaded : Threaded mem curr (before ++ [last]))
    (tiled : Tiled blockHeaderSize start base (before ++ [last]))
    (word : base < 2 ^ 32)
    (tail : Threaded (mem.putWord32 (last.addr + 4) base) base after) :
    Threaded (mem.putWord32 (last.addr + 4) base) curr
      (before ++ last :: after) := by
  have header : blockHeaderSize = 12 := rfl
  induction before generalizing curr start with
  | nil =>
      obtain ⟨nonzero, position, isSize, isFree, _⟩ := threaded
      have size' : blockSize (mem.putWord32 (last.addr + 4) base) curr =
          blockSize mem curr :=
        Bytes.word32_congr fun index small =>
          Bytes.putWord32_other (by omega)
      have free' : blockFree (mem.putWord32 (last.addr + 4) base) curr =
          blockFree mem curr := by
        rw [blockFree, Bytes.putWord32_other (by omega)]
        rfl
      have next' : blockNext (mem.putWord32 (last.addr + 4) base) curr =
          base := by
        rw [blockNext, ← position]
        exact Bytes.word32_putWord32 word
      refine ⟨nonzero, position, size'.trans isSize, free'.trans isFree, ?_⟩
      rw [next']
      exact tail
  | cons first rest inductionHypothesis =>
      have place : curr = start := threaded.2.1.symm.trans tiled.1
      have beyond : start + blockHeaderSize + first.size ≤ last.addr :=
        (tiled.2.inside (List.mem_append_right rest
          (List.mem_singleton_self last))).1
      refine threaded.cons_congr (fun index lower upper =>
        Bytes.putWord32_other (by omega)) ?_
      exact inductionHypothesis threaded.2.2.2.2 tiled.2

end Loops

end LoafOs
