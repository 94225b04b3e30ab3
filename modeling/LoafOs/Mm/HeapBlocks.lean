import LoafOs.Mm.Heap

/-!
# The heap operations on the block list

`kmalloc` is first fit and `kfree` is a release followed by one merging
pass, on the list that the links in memory spell out.
-/

namespace LoafOs

open Arena

variable {heap : Heap} {mem : Bytes} {bytes fuel curr start stop : Nat}
  {block current taken : Block} {blocks blocks' rest : List Block}

/-- The header of a block that is filled in anew. -/
theorem threaded_putBlock {size next : Nat} {free : UInt8}
    (nonzero : curr ≠ 0) (sizeBound : size < 2 ^ 32)
    (nextBound : next < 2 ^ 32)
    (tail : Threaded (putBlock mem curr size next free) next rest) :
    Threaded (putBlock mem curr size next free) curr
      (⟨curr, size, free != 0⟩ :: rest) := by
  refine ⟨nonzero, rfl, blockSize_putBlock sizeBound, blockFree_putBlock, ?_⟩
  rw [blockNext_putBlock nextBound]
  exact tail

/-- Writes below the blocks of a list do not change it. -/
theorem Threaded.congr_above {mem' : Bytes}
    (threaded : Threaded mem curr blocks)
    (tiled : Tiled blockHeaderSize start stop blocks)
    (agree : ∀ index, start ≤ index → mem' index = mem index) :
    Threaded mem' curr blocks :=
  threaded.congr fun _ member index lower _ =>
    agree index (Nat.le_trans (tiled.inside member).1 lower)

/-- A header kept by a write keeps its block at the head of the list. -/
theorem Threaded.cons_congr {mem' : Bytes} {blocks' : List Block}
    (threaded : Threaded mem curr (current :: rest))
    (agree : ∀ index, curr ≤ index → index < curr + 9 →
      mem' index = mem index)
    (tail : Threaded mem' (blockNext mem curr) blocks') :
    Threaded mem' curr (current :: blocks') := by
  obtain ⟨nonzero, position, size, free, _⟩ := threaded
  obtain ⟨size', next', free'⟩ := header_congr agree
  refine ⟨nonzero, position, size'.trans size, free'.trans free, ?_⟩
  rw [next']
  exact tail

/-- The mark of the first block changes. -/
theorem Threaded.mark {value : UInt8}
    (threaded : Threaded mem curr (current :: rest))
    (tiled : Tiled blockHeaderSize start stop (current :: rest)) :
    Threaded (mem.put (curr + 8) value) curr
      (⟨current.addr, current.size, value != 0⟩ :: rest) := by
  obtain ⟨nonzero, position, size, free, tail⟩ := threaded
  have header : blockHeaderSize = 12 := rfl
  have place : curr = start := position.symm.trans tiled.1
  have keeps : ∀ index, index ≠ curr + 8 →
      mem.put (curr + 8) value index = mem index :=
    fun index other => Bytes.put_other other
  have size' : blockSize (mem.put (curr + 8) value) curr =
      blockSize mem curr :=
    Bytes.word32_congr fun index small => keeps _ (by omega)
  have next' : blockNext (mem.put (curr + 8) value) curr =
      blockNext mem curr :=
    Bytes.word32_congr fun index small => keeps _ (by omega)
  refine ⟨nonzero, position, size'.trans size, ?_, ?_⟩
  · rw [blockFree, Bytes.put_same]
  · rw [next']
    exact tail.congr_above tiled.2 fun index above => keeps _ (by omega)

/-- The first block is cut in two: the headers of both are filled in. -/
theorem Threaded.split
    (threaded : Threaded mem curr (current :: rest))
    (tiled : Tiled blockHeaderSize start stop (current :: rest))
    (high : stop < 2 ^ 32)
    (fits : bytes + blockHeaderSize + 4 ≤ current.size) :
    Threaded (putBlock (putBlock mem (curr + blockHeaderSize + bytes)
        (current.size - bytes - blockHeaderSize) (blockNext mem curr) 1)
        curr bytes (curr + blockHeaderSize + bytes) 0) curr
      (⟨curr, bytes, false⟩ :: ⟨curr + blockHeaderSize + bytes,
        current.size - bytes - blockHeaderSize, true⟩ :: rest) := by
  obtain ⟨nonzero, position, size, free, tail⟩ := threaded
  have header : blockHeaderSize = 12 := rfl
  have place : curr = start := position.symm.trans tiled.1
  have restOrder := tiled.2.le
  refine threaded_putBlock nonzero (by omega) (by omega) ?_
  have inner : Threaded (putBlock mem (curr + blockHeaderSize + bytes)
      (current.size - bytes - blockHeaderSize) (blockNext mem curr) 1)
      (curr + blockHeaderSize + bytes)
      (⟨curr + blockHeaderSize + bytes,
        current.size - bytes - blockHeaderSize, true⟩ :: rest) := by
    refine threaded_putBlock (by omega) (by omega)
      (Bytes.word32_lt _ _) ?_
    refine tail.congr_above tiled.2 fun index above => ?_
    exact putBlock_other (by omega)
  have sizes : start + blockHeaderSize + current.size =
      curr + blockHeaderSize + bytes + blockHeaderSize +
        (current.size - bytes - blockHeaderSize) := by
    omega
  have innerTiled : Tiled blockHeaderSize
      (curr + blockHeaderSize + bytes) stop
      (⟨curr + blockHeaderSize + bytes,
        current.size - bytes - blockHeaderSize, true⟩ :: rest) :=
    ⟨rfl, sizes ▸ tiled.2⟩
  refine inner.congr_above innerTiled fun index above => ?_
  exact putBlock_other (by omega)

theorem kmallocFrom_eq (threaded : Threaded heap.mem curr blocks)
    (tiled : Tiled blockHeaderSize start stop blocks)
    (low : 16 ≤ start) (high : stop < 2 ^ 32)
    (enough : blocks.length < fuel) :
    match firstFit blockHeaderSize 4 bytes blocks with
    | none => kmallocFrom heap bytes fuel curr = some (heap, 0)
    | some (blocks', taken) =>
        ∃ mem, kmallocFrom heap bytes fuel curr =
            some ({ heap with mem := mem }, taken.addr + blockHeaderSize) ∧
          Threaded mem curr blocks' ∧
          ∀ index, index < taken.addr ∨
              taken.addr + blockHeaderSize + taken.size ≤ index →
            mem index = heap.mem index := by
  induction blocks generalizing curr start fuel with
  | nil =>
      obtain ⟨fuel, rfl⟩ := Nat.exists_eq_add_one_of_ne_zero
        (Nat.ne_of_gt enough)
      have done : curr = 0 := threaded
      simp only [firstFit, kmallocFrom, if_pos done]
  | cons first rest inductionHypothesis =>
      obtain ⟨fuel, rfl⟩ := Nat.exists_eq_add_one_of_ne_zero
        (Nat.ne_of_gt (Nat.lt_of_le_of_lt (Nat.zero_le _) enough))
      have whole := threaded
      obtain ⟨nonzero, position, size, free, tail⟩ := threaded
      have place : curr = start := position.symm.trans tiled.1
      have restOrder := tiled.2.le
      have header : blockHeaderSize = 12 := rfl
      simp only [firstFit]
      rw [kmallocFrom, if_neg nonzero, free, size]
      by_cases fits : first.free = true ∧ bytes ≤ first.size
      · rw [if_pos fits, if_pos fits]
        have pointer : u32 (curr + blockHeaderSize) =
            first.addr + blockHeaderSize := by
          rw [position]
          simp only [u32]
          omega
        have sum : u32 (bytes + blockHeaderSize + 4) =
            bytes + blockHeaderSize + 4 := by
          simp only [u32]
          omega
        rw [sum]
        by_cases splits : bytes + blockHeaderSize + 4 ≤ first.size
        · rw [if_pos splits, if_pos splits]
          have target : u32 (curr + blockHeaderSize + bytes) =
              curr + blockHeaderSize + bytes := by
            simp only [u32]
            omega
          have remaining : u32 (first.size + 2 ^ 32 + 2 ^ 32 - bytes -
              blockHeaderSize) = first.size - bytes - blockHeaderSize := by
            simp only [u32]
            omega
          rw [target, remaining]
          refine ⟨_, by rw [pointer], ?_, fun index outside => ?_⟩
          · rw [position]
            exact whole.split tiled high splits
          · rw [position] at outside
            have inner : putBlock heap.mem
                (curr + blockHeaderSize + bytes)
                (first.size - bytes - blockHeaderSize)
                (blockNext heap.mem curr) 1 index = heap.mem index :=
              putBlock_other (by omega)
            exact (putBlock_other (by omega)).trans inner
        · rw [if_neg splits, if_neg splits]
          refine ⟨_, by rw [pointer], ?_, fun index outside => ?_⟩
          · exact whole.mark tiled
          · rw [position] at outside
            exact Bytes.put_other (by omega)
      · rw [if_neg fits, if_neg fits]
        have step := inductionHypothesis tail tiled.2 (by omega)
          (Nat.lt_of_succ_lt_succ enough)
        cases foundRest : firstFit blockHeaderSize 4 bytes rest with
        | none =>
            rw [foundRest] at step
            exact step
        | some found =>
            obtain ⟨rest', taken⟩ := found
            rw [foundRest] at step
            obtain ⟨mem, result, threaded', outside⟩ := step
            have inside := (tiled.2.inside (firstFit_member foundRest)).1
            refine ⟨mem, result, ?_, outside⟩
            refine Threaded.cons_congr
              ⟨nonzero, position, size, free, tail⟩
              (fun index lower upper => outside index (by omega)) threaded'

/-- Setting the mark of one header releases its block. -/
theorem Threaded.release {addr : Nat}
    (threaded : Threaded mem curr blocks)
    (tiled : Tiled blockHeaderSize start stop blocks)
    (member : ∃ block ∈ blocks, block.addr = addr) :
    Threaded (mem.put (addr + 8) 1) curr (release addr blocks) := by
  induction blocks generalizing curr start with
  | nil => simp at member
  | cons first rest inductionHypothesis =>
      have header : blockHeaderSize = 12 := rfl
      have keeps : ∀ index, index ≠ addr + 8 →
          mem.put (addr + 8) 1 index = mem index :=
        fun index other => Bytes.put_other other
      have place : curr = start := threaded.2.1.symm.trans tiled.1
      rw [Arena.release]
      by_cases here : first.addr = addr
      · have target : addr = curr := here.symm.trans threaded.2.1
        rw [if_pos here, target]
        exact threaded.mark tiled
      · rw [if_neg here]
        have later : ∃ block ∈ rest, block.addr = addr := by
          obtain ⟨block, inList, same⟩ := member
          rcases List.mem_cons.mp inList with head | tail
          · exact absurd (head ▸ same) here
          · exact ⟨block, tail, same⟩
        have beyond : start + blockHeaderSize + first.size ≤ addr := by
          obtain ⟨block, inRest, same⟩ := later
          rw [← same]
          exact (tiled.2.inside inRest).1
        refine threaded.cons_congr
          (fun index lower upper => keeps _ (by omega)) ?_
        exact inductionHypothesis threaded.2.2.2.2 tiled.2 later

/-- The stores that take the next block into the current one. -/
def joinBlock (mem : Bytes) (curr size : Nat) : Bytes :=
  (mem.putWord32 curr size).putWord32 (curr + 4)
    (blockNext mem (blockNext mem curr))

theorem joinBlock_other {size index : Nat}
    (apart : index < curr ∨ curr + 8 ≤ index) :
    joinBlock mem curr size index = mem index := by
  rw [joinBlock, Bytes.putWord32_other (by omega),
    Bytes.putWord32_other (by omega)]

/-- Two free neighbours become one block. -/
theorem Threaded.join {next : Block}
    (threaded : Threaded mem curr (current :: next :: rest))
    (tiled : Tiled blockHeaderSize start stop (current :: next :: rest))
    (high : stop < 2 ^ 32) (isFree : current.free = true) :
    Threaded (joinBlock mem curr
        (current.size + (blockHeaderSize + next.size))) curr
      (⟨current.addr, current.size + (blockHeaderSize + next.size),
        true⟩ :: rest) := by
  obtain ⟨nonzero, position, size, free, tail⟩ := threaded
  obtain ⟨_, _, _, _, nextTail⟩ := tail
  have header : blockHeaderSize = 12 := rfl
  have place : curr = start := position.symm.trans tiled.1
  have restOrder := tiled.2.2.le
  generalize wholeEq : current.size + (blockHeaderSize + next.size) = whole
  have joinedSize : blockSize (joinBlock mem curr whole) curr = whole := by
    have kept : (joinBlock mem curr whole).word32 curr =
        (mem.putWord32 curr whole).word32 curr := by
      refine Bytes.word32_congr fun index small => ?_
      rw [joinBlock, Bytes.putWord32_other (by omega)]
    rw [blockSize, kept, Bytes.word32_putWord32 (by omega)]
  have joinedNext : blockNext (joinBlock mem curr whole) curr =
      blockNext mem (blockNext mem curr) :=
    Bytes.word32_putWord32 (Bytes.word32_lt _ _)
  have joinedFree : blockFree (joinBlock mem curr whole) curr = true := by
    rw [blockFree, joinBlock_other (by omega), ← isFree, ← free]
    rfl
  refine ⟨nonzero, position, joinedSize, joinedFree, ?_⟩
  rw [joinedNext]
  exact nextTail.congr_above tiled.2.2 fun index above =>
    joinBlock_other (by omega)

/-- The merging loop is one merging pass, and it only writes headers. -/
theorem coalesceFrom_eq
    (threaded : Threaded mem curr (current :: rest))
    (tiled : Tiled blockHeaderSize start stop (current :: rest))
    (low : 16 ≤ start) (high : stop < 2 ^ 32)
    (enough : rest.length < fuel) :
    ∃ mem', coalesceFrom mem fuel curr = some mem' ∧
      Threaded mem' curr (mergeFrom blockHeaderSize current rest) ∧
      (∀ index, index < curr ∨ stop ≤ index → mem' index = mem index) ∧
      ∀ block ∈ current :: rest, ∀ index,
        block.addr + blockHeaderSize ≤ index →
        index < block.addr + blockHeaderSize + block.size →
        mem' index = mem index := by
  induction rest generalizing mem curr current start fuel with
  | nil =>
      obtain ⟨fuel, rfl⟩ := Nat.exists_eq_add_one_of_ne_zero
        (Nat.ne_of_gt enough)
      have last : blockNext mem curr = 0 := threaded.2.2.2.2
      refine ⟨mem, ?_, threaded, fun _ _ => rfl, fun _ _ _ _ _ => rfl⟩
      rw [coalesceFrom, if_pos (Or.inr last)]
  | cons next rest inductionHypothesis =>
      obtain ⟨fuel, rfl⟩ := Nat.exists_eq_add_one_of_ne_zero
        (Nat.ne_of_gt (Nat.lt_of_le_of_lt (Nat.zero_le _) enough))
      have whole := threaded
      obtain ⟨nonzero, position, size, free, tail⟩ := threaded
      have nextWhole := tail
      obtain ⟨nextNonzero, nextPosition, nextSize, nextFree, nextTail⟩ :=
        tail
      have header : blockHeaderSize = 12 := rfl
      have place : curr = start := position.symm.trans tiled.1
      have nextPlace : blockNext mem curr =
          curr + blockHeaderSize + current.size := by
        rw [← nextPosition, tiled.2.1, place]
      have restOrder := tiled.2.2.le
      have adjacent : u32 (curr + blockHeaderSize + current.size) =
          blockNext mem curr := by
        rw [nextPlace]
        simp only [u32]
        omega
      have running : ¬ (curr = 0 ∨ blockNext mem curr = 0) := by
        rintro (zero | zero)
        · exact nonzero zero
        · exact nextNonzero zero
      rw [coalesceFrom, if_neg running, mergeFrom]
      simp only [free, nextFree, size, nextSize, adjacent, and_true]
      by_cases both : current.free = true ∧ next.free = true
      · rw [if_pos both, if_pos both]
        have sum : u32 (current.size + (blockHeaderSize + next.size)) =
            current.size + (blockHeaderSize + next.size) := by
          simp only [u32]
          omega
        have stays : ∀ at', curr + 4 ≤ at' →
            blockNext (mem.putWord32 curr
              (current.size + (blockHeaderSize + next.size))) at' =
                blockNext mem at' := fun at' above =>
          Bytes.word32_congr fun index small =>
            Bytes.putWord32_other (by omega)
        have link : blockNext (mem.putWord32 curr
            (current.size + (blockHeaderSize + next.size))) curr =
              blockNext mem curr :=
          Bytes.word32_congr fun index small =>
            Bytes.putWord32_other (by omega)
        rw [sum, link, stays _ (by omega)]
        have joinedThreaded := whole.join tiled high both.1
        have outside : ∀ index, index < curr ∨ curr + 8 ≤ index →
            joinBlock mem curr
              (current.size + (blockHeaderSize + next.size)) index =
                mem index :=
          fun index apart => joinBlock_other apart
        rw [joinBlock] at joinedThreaded outside
        have sizes : start + blockHeaderSize +
            (current.size + (blockHeaderSize + next.size)) =
              start + blockHeaderSize + current.size + blockHeaderSize +
                next.size := by
          omega
        have joinedTiled : Tiled blockHeaderSize start stop
            (⟨current.addr, current.size + (blockHeaderSize + next.size),
              true⟩ :: rest) :=
          ⟨tiled.1, sizes ▸ tiled.2.2⟩
        obtain ⟨mem', result, threaded', below, payloads⟩ :=
          inductionHypothesis joinedThreaded joinedTiled low
            (Nat.lt_of_succ_lt_succ enough)
        have joinedPayload := payloads _ (List.mem_cons_self ..)
        simp only at joinedPayload
        have nextAddr := tiled.2.1
        have here := tiled.1
        refine ⟨mem', result, threaded', fun index apart => ?_,
          fun block member index lower upper => ?_⟩
        · rw [below index apart, outside index (by omega)]
        · rcases List.mem_cons.mp member with same | later
          · rw [same] at lower upper
            rw [joinedPayload index (by omega) (by omega),
              outside index (by omega)]
          · rcases List.mem_cons.mp later with same | later
            · rw [same] at lower upper
              rw [joinedPayload index (by omega) (by omega),
                outside index (by omega)]
            · have beyond := (tiled.2.2.inside later).1
              rw [payloads block (List.mem_cons_of_mem _ later) index
                lower upper, outside index (.inr (by omega))]
      · rw [if_neg both, if_neg both]
        obtain ⟨mem', result, threaded', below, payloads⟩ :=
          inductionHypothesis nextWhole tiled.2 (by omega)
            (Nat.lt_of_succ_lt_succ enough)
        refine ⟨mem', result, ?_, fun index apart => below _ (by omega),
          fun block member index lower upper => ?_⟩
        · exact whole.cons_congr
            (fun index lower upper => below _ (by omega)) threaded'
        · rcases List.mem_cons.mp member with same | later
          · rw [same] at lower upper
            exact below _ (by omega)
          · exact payloads block later index lower upper

/-- The invariant of the heap: the links spell out blocks that tile the
arena, and no two neighbours are free. -/
structure HeapOk (heap : Heap) (stop : Nat) (blocks : List Block) :
    Prop where
  threaded : Threaded heap.mem heap.freeList blocks
  tiled : Tiled blockHeaderSize heap.freeList stop blocks
  settled : Settled blocks
  low : 16 ≤ heap.freeList
  high : stop < 2 ^ 32
  base : heap.heapStartVirt = heap.freeList

theorem HeapOk.enough (ok : HeapOk heap stop blocks) :
    blocks.length < walkFuel := by
  have length := ok.tiled.length_le
  have bound := ok.high
  have header : blockHeaderSize = 12 := rfl
  have fuel : walkFuel = 2 ^ 32 := rfl
  rw [header] at length
  omega

theorem HeapOk.kmalloc_eq (ok : HeapOk heap stop blocks) (bytes : Nat) :
    match firstFit blockHeaderSize 4 (roundRequest bytes) blocks with
    | none => kmalloc heap bytes = some (heap, 0)
    | some (blocks', taken) =>
        ∃ mem, kmalloc heap bytes =
            some ({ heap with mem := mem }, taken.addr + blockHeaderSize) ∧
          Threaded mem heap.freeList blocks' ∧
          ∀ index, index < taken.addr ∨
              taken.addr + blockHeaderSize + taken.size ≤ index →
            mem index = heap.mem index :=
  kmallocFrom_eq ok.threaded ok.tiled ok.low ok.high ok.enough

/-- A request that no free block can hold changes nothing. -/
theorem HeapOk.kmalloc_none (ok : HeapOk heap stop blocks)
    (full : firstFit blockHeaderSize 4 (roundRequest bytes) blocks = none) :
    kmalloc heap bytes = some (heap, 0) := by
  have result := ok.kmalloc_eq bytes
  rw [full] at result
  exact result

/-- A request that succeeds only writes inside the free block it takes. -/
theorem HeapOk.kmalloc_some (ok : HeapOk heap stop blocks)
    (found : firstFit blockHeaderSize 4 (roundRequest bytes) blocks =
      some (blocks', taken)) :
    ∃ heap', kmalloc heap bytes =
        some (heap', taken.addr + blockHeaderSize) ∧
      HeapOk heap' stop blocks' ∧
      heap'.freeList = heap.freeList ∧
      ∀ block ∈ blocks, block.free = false → ∀ index,
        block.addr ≤ index →
        index < block.addr + blockHeaderSize + block.size →
        heap'.mem index = heap.mem index := by
  have result := ok.kmalloc_eq bytes
  rw [found] at result
  obtain ⟨mem, done, threaded, outside⟩ := result
  refine ⟨_, done, ⟨threaded, ok.tiled.firstFit found,
    ok.settled.firstFit found, ok.low, ok.high, ok.base⟩, rfl,
    fun block member inUse index lower upper => ?_⟩
  have different : block ≠ taken := by
    intro same
    rw [same, (firstFit_split found).1] at inUse
    simp at inUse
  have apart := ok.tiled.apart member (firstFit_member found) different
  exact outside index (by omega)

/-- A request that some free block can hold returns a block of its size. -/
theorem HeapOk.kmalloc_block (ok : HeapOk heap stop blocks) (bytes : Nat)
    (enough : ∃ block ∈ blocks, block.free = true ∧
      roundRequest bytes ≤ block.size) :
    ∃ heap' block blocks',
      kmalloc heap bytes = some (heap', block.addr + blockHeaderSize) ∧
      HeapOk heap' stop blocks' ∧ block ∈ blocks' ∧ block.free = false ∧
      roundRequest bytes ≤ block.size ∧
      heap'.freeList = heap.freeList ∧
      ∀ index, index < heap.freeList ∨ stop ≤ index →
        heap'.mem index = heap.mem index := by
  cases found : firstFit blockHeaderSize 4 (roundRequest bytes) blocks with
  | none =>
      obtain ⟨block, member, free, large⟩ := enough
      have small := firstFit_none_iff.mp found block member free
      omega
  | some result =>
      obtain ⟨blocks', taken⟩ := result
      have equation := ok.kmalloc_eq bytes
      rw [found] at equation
      obtain ⟨mem, done, threaded, outside⟩ := equation
      obtain ⟨block, member, place, inUse, large⟩ := firstFit_taken found
      have inside := ok.tiled.inside (firstFit_member found)
      refine ⟨{ heap with mem := mem }, block, blocks',
        by rw [place]; exact done, ⟨threaded, ok.tiled.firstFit found, ok.settled.firstFit found,
          ok.low, ok.high, ok.base⟩, member, inUse, large, rfl,
        fun index apart => outside index (by omega)⟩

/-- Writes that keep every header keep the invariant. -/
theorem HeapOk.write {heap' : Heap} (ok : HeapOk heap stop blocks)
    (list : heap'.freeList = heap.freeList)
    (base : heap'.heapStartVirt = heap.heapStartVirt)
    (headers : ∀ block ∈ blocks, ∀ index, block.addr ≤ index →
      index < block.addr + 9 → heap'.mem index = heap.mem index) :
    HeapOk heap' stop blocks :=
  ⟨by rw [list]; exact ok.threaded.congr headers, by rw [list]; exact ok.tiled,
    ok.settled, by rw [list]; exact ok.low, ok.high,
    by rw [base, list, ok.base]⟩

/-- The bound check of `kfree` refuses a pointer. -/
def Refuses (heap : Heap) (ptr : Nat) : Prop :=
  ptr < heap.heapStartVirt ∨ heap.heapEnd ≤ ptr

theorem kfree_refused {ptr : Nat} (nonzero : ptr ≠ 0)
    (refused : Refuses heap ptr) : kfree heap ptr = some heap := by
  rw [Refuses] at refused
  rw [LoafOs.kfree, if_neg nonzero, if_pos refused]

/-- `kfree` of a block in use that the bound check lets through. -/
theorem HeapOk.kfree_released (ok : HeapOk heap stop blocks)
    (member : block ∈ blocks) (inUse : block.free = false)
    (admitted : ¬ Refuses heap (block.addr + blockHeaderSize)) :
    ∃ heap' blocks', kfree heap (block.addr + blockHeaderSize) =
        some heap' ∧
      HeapOk heap' stop blocks' ∧
      heap'.freeList = heap.freeList ∧
      (∀ other ∈ blocks, other.free = false → other.addr ≠ block.addr →
        other ∈ blocks') ∧
      (∃ current rest, release block.addr blocks = current :: rest ∧
        blocks' = mergeFrom blockHeaderSize current rest) ∧
      (∀ other ∈ blocks, ∀ index,
        other.addr + blockHeaderSize ≤ index →
        index < other.addr + blockHeaderSize + other.size →
        heap'.mem index = heap.mem index) ∧
      ∀ index, index < heap.freeList ∨ stop ≤ index →
        heap'.mem index = heap.mem index := by
  have header : blockHeaderSize = 12 := rfl
  have inside := ok.tiled.inside member
  have low := ok.low
  have high := ok.high
  rw [Refuses] at admitted
  rw [LoafOs.kfree, if_neg (by omega), if_neg admitted]
  have target : u32 (block.addr + blockHeaderSize + 2 ^ 32 -
      blockHeaderSize) = block.addr := by
    simp only [u32]
    omega
  have marked : blockFree heap.mem block.addr = false :=
    (ok.threaded.free_eq member).trans inUse
  simp only [target, marked]
  have released := ok.threaded.release ok.tiled
    ⟨block, member, rfl⟩
  have releasedTiled : Tiled blockHeaderSize heap.freeList stop
      (release block.addr blocks) := ok.tiled.release
  obtain ⟨current, rest, shape⟩ : ∃ current rest,
      release block.addr blocks = current :: rest := by
    cases blocks with
    | nil => simp at member
    | cons first rest =>
        rw [Arena.release]
        split
        · exact ⟨_, _, rfl⟩
        · exact ⟨_, _, rfl⟩
  have length : rest.length < walkFuel := by
    have bound := releasedTiled.length_le
    rw [shape, List.length_cons, header] at bound
    have fuel : walkFuel = 2 ^ 32 := rfl
    omega
  rw [shape] at released releasedTiled
  obtain ⟨mem', result, threaded, outside, payloads⟩ :=
    coalesceFrom_eq released releasedTiled low high length
  refine ⟨{ heap with mem := mem' },
    mergeFrom blockHeaderSize current rest, ?_,
    ⟨threaded, releasedTiled.mergeFrom, settled_mergeFrom, low, high,
      ok.base⟩, rfl,
    fun other otherMember otherInUse different => ?_,
    ⟨current, rest, shape, rfl⟩,
    fun other otherMember index lower upper => ?_,
    fun index apart => ?_⟩
  · rw [result]
    rfl
  · have kept : other ∈ current :: rest := by
      rw [← shape]
      exact release_keeps otherMember different
    exact mergeFrom_keeps kept otherInUse
  · have apart : other = block ∨ other.addr ≠ block.addr := by
      by_cases same : other.addr = block.addr
      · exact .inl (ok.tiled.eq_of_addr (by decide) otherMember member
          same)
      · exact .inr same
    have still : ∃ now ∈ current :: rest,
        now.addr = other.addr ∧ now.size = other.size := by
      rw [← shape]
      exact release_size otherMember
    obtain ⟨now, inside', sameAddr, sameSize⟩ := still
    have away : index ≠ block.addr + 8 := by
      rcases apart with same | different
      · rw [same] at lower
        omega
      · have distance := ok.tiled.apart otherMember member
          (fun same => different (congrArg Block.addr same))
        omega
    exact (payloads now inside' index (by omega) (by omega)).trans
      (Bytes.put_other away)
  · exact (outside index apart).trans (Bytes.put_other (by omega))

/-- `kfree` of a block in use, also where the bound check refuses it. -/
theorem HeapOk.kfree (ok : HeapOk heap stop blocks)
    (member : block ∈ blocks) (inUse : block.free = false) :
    ∃ heap' blocks', kfree heap (block.addr + blockHeaderSize) =
        some heap' ∧
      HeapOk heap' stop blocks' ∧
      heap'.freeList = heap.freeList ∧
      (∀ other ∈ blocks, other.free = false → other.addr ≠ block.addr →
        other ∈ blocks') ∧
      (∀ other ∈ blocks, ∀ index,
        other.addr + blockHeaderSize ≤ index →
        index < other.addr + blockHeaderSize + other.size →
        heap'.mem index = heap.mem index) ∧
      ∀ index, index < heap.freeList ∨ stop ≤ index →
        heap'.mem index = heap.mem index := by
  by_cases refused : Refuses heap (block.addr + blockHeaderSize)
  · have nonzero : block.addr + blockHeaderSize ≠ 0 := by
      simp only [blockHeaderSize]
      omega
    exact ⟨heap, blocks, kfree_refused nonzero refused, ok, rfl,
      fun other otherMember _ _ => otherMember, fun _ _ _ _ _ => rfl,
      fun _ _ => rfl⟩
  · obtain ⟨heap', blocks', done, ok', base, kept, _, payloads, outside⟩ :=
      ok.kfree_released member inUse refused
    exact ⟨heap', blocks', done, ok', base, kept, payloads, outside⟩

end LoafOs
