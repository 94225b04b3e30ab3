import LoafOs.Mm.HeapBlocks

/-!
# Histories of the kernel heap

A caller holds the pointers that `kmalloc` returned and that it has not
given back.  The invariant of the block list holds after every history of
calls, and with it every pointer that is held keeps its payload.
-/

namespace LoafOs

open Arena Runs

/-- The heap together with the pointers that its callers hold. -/
structure HeapUse where
  heap : Heap
  live : List Nat

/-- One call. -/
inductive HeapCall where
  | kmalloc (bytes : Nat)
  | kfree (ptr : Nat)

/-- A call with its effect; `kfree` is called with the null pointer or a
pointer that is held. -/
inductive HeapStep : HeapUse → HeapCall → HeapUse → Prop
  | kmalloc {use : HeapUse} {heap' : Heap} {bytes ptr : Nat}
      (word : bytes < 2 ^ 32)
      (done : LoafOs.kmalloc use.heap bytes = some (heap', ptr)) :
      HeapStep use (.kmalloc bytes)
        ⟨heap', if ptr = 0 then use.live else ptr :: use.live⟩
  | kfree {use : HeapUse} {heap' : Heap} {ptr : Nat}
      (held : ptr = 0 ∨ ptr ∈ use.live)
      (done : LoafOs.kfree use.heap ptr = some heap') :
      HeapStep use (.kfree ptr) ⟨heap', use.live.erase ptr⟩

/-- The payload size that the header before a pointer records. -/
def payloadSize (heap : Heap) (ptr : Nat) : Nat :=
  blockSize heap.mem (ptr - blockHeaderSize)

/-- The payload behind a pointer keeps its size and its bytes. -/
def PayloadKept (heap heap' : Heap) (ptr : Nat) : Prop :=
  payloadSize heap' ptr = payloadSize heap ptr ∧
    ∀ index < payloadSize heap ptr,
      heap'.mem (ptr + index) = heap.mem (ptr + index)

/-- A pointer that is held belongs to a block in use. -/
def Held (blocks : List Block) (ptr : Nat) : Prop :=
  ∃ block ∈ blocks, block.addr + blockHeaderSize = ptr ∧
    block.free = false

/-- What a caller may rely on. -/
structure HeapSound (use : HeapUse) (start stop : Nat)
    (blocks : List Block) : Prop where
  threaded : Threaded use.heap.mem start blocks
  tiled : Tiled blockHeaderSize start stop blocks
  settled : Settled blocks
  held : ∀ ptr ∈ use.live, Held blocks ptr
  inside : ∀ ptr ∈ use.live, start + blockHeaderSize ≤ ptr ∧
    ptr + payloadSize use.heap ptr ≤ stop
  disjoint : use.live.Pairwise fun ptr ptr' =>
    ptr + payloadSize use.heap ptr ≤ ptr' ∨
      ptr' + payloadSize use.heap ptr' ≤ ptr
  allocates : ∀ bytes, ∃ heap' ptr,
    kmalloc use.heap bytes = some (heap', ptr) ∧
      (ptr = 0 ↔ ∀ block ∈ blocks, block.free = true →
        block.size < roundRequest bytes) ∧
      ∀ other ∈ use.live, PayloadKept use.heap heap' other
  frees : ∀ ptr, ptr = 0 ∨ ptr ∈ use.live → ∃ heap',
    kfree use.heap ptr = some heap' ∧
      ∀ other ∈ use.live.erase ptr, PayloadKept use.heap heap' other

variable {heap heap' : Heap} {use use' : HeapUse} {call : HeapCall}
  {stop ptr bytes : Nat} {block : Block} {blocks : List Block}

/-- The invariant of a history. -/
structure HeapUse.Ok (use : HeapUse) (stop : Nat) (blocks : List Block) :
    Prop where
  heap : HeapOk use.heap stop blocks
  held : ∀ ptr ∈ use.live, Held blocks ptr
  nodup : use.live.Nodup

theorem HeapOk.payloadSize_eq (ok : HeapOk heap stop blocks)
    (member : block ∈ blocks) :
    payloadSize heap (block.addr + blockHeaderSize) = block.size := by
  rw [payloadSize, Nat.add_sub_cancel]
  exact ok.threaded.size_eq member

theorem HeapOk.payloadKept {blocks' : List Block}
    (ok : HeapOk heap stop blocks) (ok' : HeapOk heap' stop blocks')
    (member : block ∈ blocks) (member' : block ∈ blocks')
    (bytes : ∀ index, block.addr + blockHeaderSize ≤ index →
      index < block.addr + blockHeaderSize + block.size →
      heap'.mem index = heap.mem index) :
    PayloadKept heap heap' (block.addr + blockHeaderSize) := by
  have size := ok.payloadSize_eq member
  have size' := ok'.payloadSize_eq member'
  refine ⟨size'.trans size.symm, fun index bound => ?_⟩
  rw [size] at bound
  exact bytes _ (by omega) (by omega)

theorem payloadKept_refl : PayloadKept heap heap ptr :=
  ⟨rfl, fun _ _ => rfl⟩

/-- What `kmalloc` does to a history. -/
theorem HeapUse.Ok.kmalloc (ok : use.Ok stop blocks) (bytes : Nat) :
    ∃ heap' ptr blocks', LoafOs.kmalloc use.heap bytes =
        some (heap', ptr) ∧
      (ptr = 0 ↔ ∀ block ∈ blocks, block.free = true →
        block.size < roundRequest bytes) ∧
      (∀ other ∈ use.live, PayloadKept use.heap heap' other) ∧
      heap'.freeList = use.heap.freeList ∧
      HeapUse.Ok ⟨heap', if ptr = 0 then use.live else ptr :: use.live⟩
        stop blocks' := by
  cases found : firstFit blockHeaderSize 4 (roundRequest bytes) blocks with
  | none =>
      refine ⟨use.heap, 0, blocks, ok.heap.kmalloc_none found, ?_,
        fun _ _ => payloadKept_refl, rfl, ?_⟩
      · exact ⟨fun _ => firstFit_none_iff.mp found, fun _ => rfl⟩
      · rw [if_pos rfl]
        exact ok
  | some result =>
      obtain ⟨blocks', taken⟩ := result
      obtain ⟨heap', done, ok', base, same⟩ := ok.heap.kmalloc_some found
      have nonzero : taken.addr + blockHeaderSize ≠ 0 := by
        simp only [blockHeaderSize]
        omega
      have wasFree := (firstFit_split found).1
      obtain ⟨block, member, place, inUse, _⟩ := firstFit_taken found
      refine ⟨heap', _, blocks', done, ?_, ?_, base, ok', ?_, ?_⟩
      · refine ⟨fun zero => absurd zero nonzero, fun full => ?_⟩
        rw [firstFit_none_iff.mpr full] at found
        simp at found
      · intro other held
        obtain ⟨old, oldMember, oldPlace, oldInUse⟩ := ok.held other held
        rw [← oldPlace]
        refine ok.heap.payloadKept ok' oldMember
          (firstFit_keeps found oldMember oldInUse)
          fun index lower upper => ?_
        exact same old oldMember oldInUse index (by omega) upper
      · rw [if_neg nonzero]
        intro other held
        rcases List.mem_cons.mp held with new | old
        · exact ⟨block, member, by rw [new, place], inUse⟩
        · obtain ⟨oldBlock, oldMember, oldPlace, oldInUse⟩ :=
            ok.held other old
          exact ⟨oldBlock, firstFit_keeps found oldMember oldInUse,
            oldPlace, oldInUse⟩
      · rw [if_neg nonzero]
        refine List.nodup_cons.mpr ⟨fun held => ?_, ok.nodup⟩
        obtain ⟨oldBlock, oldMember, oldPlace, oldInUse⟩ := ok.held _ held
        have same := ok.heap.tiled.eq_of_addr (by decide) oldMember
          (firstFit_member found) (by omega)
        rw [same, wasFree] at oldInUse
        simp at oldInUse

/-- What `kfree` does to a history. -/
theorem HeapUse.Ok.kfree (ok : use.Ok stop blocks)
    (held : ptr = 0 ∨ ptr ∈ use.live) :
    ∃ heap' blocks', LoafOs.kfree use.heap ptr = some heap' ∧
      (∀ other ∈ use.live.erase ptr, PayloadKept use.heap heap' other) ∧
      heap'.freeList = use.heap.freeList ∧
      HeapUse.Ok ⟨heap', use.live.erase ptr⟩ stop blocks' := by
  by_cases zero : ptr = 0
  · refine ⟨use.heap, blocks, by rw [LoafOs.kfree, if_pos zero],
      fun _ _ => payloadKept_refl, rfl, ok.heap,
      fun other member => ok.held other (List.mem_of_mem_erase member),
      ok.nodup.erase _⟩
  · have member : ptr ∈ use.live := held.resolve_left zero
    obtain ⟨block, inList, place, inUse⟩ := ok.held ptr member
    obtain ⟨heap', blocks', done, ok', base, same, bytes, _⟩ :=
      ok.heap.kfree inList inUse
    rw [place] at done
    have others : ∀ other ∈ use.live.erase ptr, ∃ old ∈ blocks,
        old.addr + blockHeaderSize = other ∧ old.free = false ∧
          old.addr ≠ block.addr := by
      intro other kept
      obtain ⟨old, oldMember, oldPlace, oldInUse⟩ :=
        ok.held other (List.mem_of_mem_erase kept)
      refine ⟨old, oldMember, oldPlace, oldInUse, fun equal => ?_⟩
      have gone := (ok.nodup.mem_erase_iff.mp kept).1
      omega
    refine ⟨heap', blocks', done, fun other kept => ?_, base, ok',
      fun other kept => ?_, ok.nodup.erase _⟩
    · obtain ⟨old, oldMember, oldPlace, oldInUse, apart⟩ :=
        others other kept
      rw [← oldPlace]
      exact ok.heap.payloadKept ok' oldMember
        (same old oldMember oldInUse apart) (bytes old oldMember)
    · obtain ⟨old, oldMember, oldPlace, oldInUse, apart⟩ :=
        others other kept
      exact ⟨old, same old oldMember oldInUse apart, oldPlace,
        oldInUse⟩

theorem HeapStep.ok (step : HeapStep use call use')
    (ok : use.Ok stop blocks) :
    use'.heap.freeList = use.heap.freeList ∧
      ∃ blocks', use'.Ok stop blocks' := by
  cases step with
  | @kmalloc heap' bytes ptr word done =>
      obtain ⟨heap'', ptr', blocks', done', _, _, base, ok'⟩ :=
        ok.kmalloc bytes
      rw [done] at done'
      simp only [Option.some.injEq, Prod.mk.injEq] at done'
      obtain ⟨sameHeap, samePtr⟩ := done'
      subst sameHeap samePtr
      exact ⟨base, blocks', ok'⟩
  | @kfree heap' ptr held done =>
      obtain ⟨heap'', blocks', done', _, base, ok'⟩ := ok.kfree held
      rw [done] at done'
      simp only [Option.some.injEq] at done'
      subst done'
      exact ⟨base, blocks', ok'⟩

/-- The invariant gives the caller's view. -/
theorem HeapUse.Ok.sound (ok : use.Ok stop blocks) :
    HeapSound use use.heap.freeList stop blocks := by
  have header : blockHeaderSize = 12 := rfl
  refine ⟨ok.heap.threaded, ok.heap.tiled, ok.heap.settled, ok.held,
    fun ptr member => ?_, ?_, fun bytes => ?_, fun ptr held => ?_⟩
  · obtain ⟨block, inList, place, _⟩ := ok.held ptr member
    have inside := ok.heap.tiled.inside inList
    rw [← place, ok.heap.payloadSize_eq inList]
    omega
  · refine ok.nodup.imp_of_mem fun {ptr ptr'} member member' different => ?_
    obtain ⟨block, inList, place, _⟩ := ok.held ptr member
    obtain ⟨block', inList', place', _⟩ := ok.held ptr' member'
    have apart := ok.heap.tiled.apart inList inList' fun same =>
      different (by rw [← place, ← place', same])
    rw [← place, ← place', ok.heap.payloadSize_eq inList,
      ok.heap.payloadSize_eq inList']
    omega
  · obtain ⟨heap', ptr, _, done, full, kept, _, _⟩ := ok.kmalloc bytes
    exact ⟨heap', ptr, done, full, kept⟩
  · obtain ⟨heap', _, done, kept, _, _⟩ := ok.kfree held
    exact ⟨heap', done, kept⟩

/-- One free block that fills the arena. -/
theorem freshHeap_ok {mem : Bytes} {base size heapStart heapEnd : Nat}
    (low : 16 ≤ base) (large : blockHeaderSize ≤ size)
    (high : base + size < 2 ^ 32) :
    HeapUse.Ok
      ⟨{ mem := putBlock mem base (size - blockHeaderSize) 0 1
         freeList := base
         heapStart := heapStart
         heapEnd := heapEnd
         heapStartVirt := base }, []⟩
      (base + size) [⟨base, size - blockHeaderSize, true⟩] := by
  have sizes : base + blockHeaderSize + (size - blockHeaderSize) =
      base + size := by
    omega
  refine ⟨⟨?_, ⟨rfl, sizes⟩, trivial, low, high, rfl⟩,
    fun _ member => absurd member List.not_mem_nil, .nil⟩
  exact threaded_putBlock (by omega) (by omega) (by omega) rfl

/-- `heap_init` starts with one free block that fills the arena. -/
theorem heapInit_ok {pmm pmm' : Pmm} {mem : Bytes} {numFrames : Nat}
    (small : pmm.bitmapSize ≤ 520)
    (booted : heapInit pmm mem numFrames = some (pmm', heap)) :
    HeapUse.Ok ⟨heap, []⟩ (heap.freeList + numFrames * pageSize)
      [⟨heap.freeList, numFrames * pageSize - blockHeaderSize, true⟩] := by
  have total : pmm.totalFrames = pmm.bitmapSize * 32 := rfl
  rcases pmm.allocFrames_cases numFrames (by omega) with ⟨start, positive, fits, _, _, result⟩ | ⟨_, result⟩
  · rw [heapInit, result] at booted
    simp only [Option.some.injEq, Prod.mk.injEq] at booted
    obtain ⟨_, heapEq⟩ := booted
    have page : numFrames * pageSize = numFrames * 4096 := rfl
    have place := physToVirt_frameToAddr start (by omega)
    have low : 16 ≤ physToVirt (Pmm.frameToAddr start) := by
      rw [place]
      omega
    have high : physToVirt (Pmm.frameToAddr start) +
        numFrames * pageSize < 2 ^ 32 := by
      rw [place, page]
      omega
    have large : blockHeaderSize ≤ numFrames * pageSize := by
      rw [page, blockHeaderSize]
      omega
    have size : u32 (u32 (numFrames * pageSize) + 2 ^ 32 -
        blockHeaderSize) = numFrames * pageSize - blockHeaderSize := by
      simp only [u32, page, blockHeaderSize]
      omega
    rw [size] at heapEq
    generalize physToVirt (Pmm.frameToAddr start) = base at *
    subst heapEq
    exact freshHeap_ok low large high
  · rw [heapInit, result] at booted
    simp at booted

/-- The invariant holds after every history of the heap since boot. -/
theorem heapRun_ok {pmm pmm' : Pmm} {extKb : UInt16} {mem : Bytes}
    {numFrames : Nat} {calls : List HeapCall}
    (sized : pmm.bitmapSize = bitmapWords (highestAddr extKb))
    (booted : heapInit pmm mem numFrames = some (pmm', heap))
    (run : Run HeapStep ⟨heap, []⟩ calls use) :
    use.heap.freeList = heap.freeList ∧
      ∃ blocks, use.Ok (heap.freeList + numFrames * pageSize) blocks := by
  have start := heapInit_ok (sized ▸ bitmapWords_le extKb) booted
  apply run.invariant (fun state => state.heap.freeList = heap.freeList ∧
    ∃ blocks, state.Ok (heap.freeList + numFrames * pageSize) blocks)
  · intro before call after ok step
    obtain ⟨base, blocks, ok⟩ := ok
    obtain ⟨base', ok'⟩ := step.ok ok
    exact ⟨base'.trans base, ok'⟩
  · exact ⟨rfl, _, start⟩

/-- Every history of the heap keeps the block list and every payload. -/
theorem heapRun_sound {pmm pmm' : Pmm} {extKb : UInt16} {mem : Bytes}
    {numFrames : Nat} {calls : List HeapCall}
    (sized : pmm.bitmapSize = bitmapWords (highestAddr extKb))
    (booted : heapInit pmm mem numFrames = some (pmm', heap))
    (run : Run HeapStep ⟨heap, []⟩ calls use) :
    ∃ blocks, use.heap.freeList = heap.freeList ∧
      HeapSound use heap.freeList (heap.freeList + numFrames * pageSize)
        blocks := by
  obtain ⟨base, blocks, ok⟩ := heapRun_ok sized booted run
  exact ⟨blocks, base, base ▸ ok.sound⟩

/-- A bitmap of boot size in which every frame is free. -/
def samplePmm : Pmm := ⟨fun _ => 0, 8⟩

/-- The heap that `heap_init(1)` leaves over an empty bitmap. -/
def sampleHeap : Heap where
  mem := putBlock (fun _ => 0) 3221225472 4084 0 1
  freeList := 3221225472
  heapStart := 0
  heapEnd := 3221229556
  heapStartVirt := 3221225472

theorem sampleHeap_booted :
    heapInit samplePmm (fun _ => 0) 1 =
      some (samplePmm.setRun 0 1, sampleHeap) := by
  have result : samplePmm.allocFrames 1 =
      some (samplePmm.setRun 0 1, Pmm.frameToAddr 0) := rfl
  have place : physToVirt (Pmm.frameToAddr 0) = 3221225472 :=
    physToVirt_frameToAddr 0 (by decide)
  rw [heapInit, result]
  simp only [place]
  rfl

/-- After one request the heap is sound and its pointer is held. -/
theorem sampleHeap_sound : ∃ use blocks,
    Run HeapStep ⟨sampleHeap, []⟩ [.kmalloc 10] use ∧ use.live ≠ [] ∧
      HeapSound use sampleHeap.freeList
        (sampleHeap.freeList + 1 * pageSize) blocks := by
  have start := heapInit_ok (by decide) sampleHeap_booted
  obtain ⟨heap', ptr, _, done, full, _⟩ := start.kmalloc 10
  have run : Run HeapStep ⟨sampleHeap, []⟩ [.kmalloc 10]
      ⟨heap', if ptr = 0 then [] else [ptr]⟩ :=
    .cons (.kmalloc (by decide) done) .nil
  have nonzero : ptr ≠ 0 := fun zero => by
    have small := full.mp zero _ (List.mem_cons_self ..) rfl
    simp [pageSize, blockHeaderSize, roundRequest, u32] at small
  rw [if_neg nonzero] at run
  have sized : samplePmm.bitmapSize = bitmapWords (highestAddr 0) := by
    decide
  obtain ⟨blocks, _, sound⟩ := heapRun_sound sized sampleHeap_booted run
  exact ⟨_, blocks, run, List.cons_ne_nil _ _, sound⟩

end LoafOs
