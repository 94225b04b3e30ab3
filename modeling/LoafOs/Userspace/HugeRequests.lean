import LoafOs.Mm.HeapRestore
import LoafOs.Userspace.MallocRun
import LoafOs.Userspace.SbrkRun

/-!
# Requests of any size

`malloc` rounds the size up, adds a header and hands the sum to `sys_sbrk`
as a signed number.  The rounding of the three largest sizes gives zero,
and a sum that carries the break past the last address wraps around to a
break below the present one.
-/

namespace LoafOs

open Arena Runs Memory

/-- What `SYS_SBRK` does to a program whose heap has these bounds: outside
of them it refuses, and inside it moves the break, both modulo 2^32. -/
def SbrkCall (low high : Nat) (space : Space) (delta base : Nat)
    (space' : Space) : Prop :=
  if u32 (space.brk + delta) < low ∨ high < u32 (space.brk + delta) then
    base = 0 ∧ space' = space
  else
    base = space.brk ∧ space'.brk = u32 (space.brk + delta) ∧
      ∀ index < space.brk, index < u32 (space.brk + delta) →
        space'.mem index = space.mem index

/-- A kernel that answers every call so. -/
def SbrkLaw (low high : Nat) (sbrk : Sbrk) : Prop :=
  ∀ space delta, low ≤ space.brk → space.brk ≤ high →
    SbrkCall low high space delta (sbrk space delta).1 (sbrk space delta).2

/-- The breaks that the calls of `sys_sbrk` in one `malloc` leave. -/
def sbrkBreaks (sbrk : Sbrk) : Nat → UserHeap → Nat → List Nat
  | 0, _, _ => []
  | depth + 1, heap, bytes =>
      let size := roundRequest bytes
      match mallocFrom size walkFuel heap.space.mem heap.freeList with
      | some none =>
          let need := u32 (size + blockHeaderSize)
          (sbrk heap.space (max need minGrowth)).2.brk ::
            match heap.growHeap sbrk need with
            | some (heap, true) => sbrkBreaks sbrk depth heap size
            | _ => []
      | _ => []

/-- Some free block of the list has room for a size. -/
def HasFit (mem : Bytes) (freeList size : Nat) : Prop :=
  ∃ blocks, Threaded mem freeList blocks ∧
    ∃ block ∈ blocks, block.free = true ∧ size ≤ block.size

/-- The rounding does not lose the size. -/
def RoundsUp (bytes : Nat) : Prop := bytes < 2 ^ 32 - 3

/-- The header and the break do not carry the sum past the last address, or
they are not added. -/
def StaysUp (low : Nat) (heap : UserHeap) (bytes : Nat) : Prop :=
  HasFit heap.space.mem heap.freeList (roundRequest bytes) ∨
    2 ^ 32 ≤ roundRequest bytes + blockHeaderSize ∨
    heap.space.brk + (roundRequest bytes + blockHeaderSize) < 2 ^ 32 + low

/-- A request that the allocator can serve as it should. -/
def Honourable (low high : Nat) (heap : UserHeap) (bytes : Nat) : Prop :=
  (RoundsUp bytes ∨
    ¬ HasFit heap.space.mem heap.freeList 0 ∧
      high < heap.space.brk + minGrowth) ∧
  StaysUp low heap bytes

/-- A block with room for a request inside the mapped heap. -/
def Usable (low : Nat) (heap : UserHeap) (ptr bytes : Nat) : Prop :=
  low + blockHeaderSize ≤ ptr ∧
    bytes ≤ blockSize heap.space.mem (ptr - blockHeaderSize) ∧
    ptr + blockSize heap.space.mem (ptr - blockHeaderSize) ≤ heap.space.brk

/-- `malloc` returns `NULL` or such a block, and the break never moves
down. -/
def MallocHonours (low : Nat) (sbrk : Sbrk) (heap : UserHeap)
    (bytes : Nat) : Prop :=
  ∃ heap' ptr calls,
    heap.malloc sbrk mallocDepth bytes = some (heap', ptr, calls) ∧
    (ptr = 0 ∨ Usable low heap' ptr bytes) ∧
    (heap.space.brk :: sbrkBreaks sbrk mallocDepth heap bytes).Pairwise
      (· ≤ ·)

theorem roundRequest_lt (bytes : Nat) :
    roundRequest bytes < 2 ^ 32 ∧ 4 ∣ roundRequest bytes := by
  simp only [roundRequest, u32]
  omega

theorem roundRequest_round (bytes : Nat) :
    roundRequest (roundRequest bytes) = roundRequest bytes := by
  simp only [roundRequest, u32]
  omega

theorem roundRequest_ge {bytes : Nat} (up : RoundsUp bytes) :
    bytes ≤ roundRequest bytes := by
  rw [RoundsUp] at up
  simp only [roundRequest, u32]
  omega

theorem roundRequest_zero {bytes : Nat} (word : bytes < 2 ^ 32)
    (lost : ¬ RoundsUp bytes) : roundRequest bytes = 0 := by
  rw [RoundsUp] at lost
  simp only [roundRequest, u32]
  omega

theorem Threaded.hasFit_iff {mem : Bytes} {curr size : Nat}
    {blocks : List Block} (threaded : Threaded mem curr blocks) :
    HasFit mem curr size ↔
      ∃ block ∈ blocks, block.free = true ∧ size ≤ block.size := by
  refine ⟨fun ⟨blocks', threaded', fit⟩ => ?_, fun fit =>
    ⟨blocks, threaded, fit⟩⟩
  rw [threaded.unique threaded']
  exact fit

theorem Threaded.not_hasFit_iff {mem : Bytes} {curr size : Nat}
    {blocks : List Block} (threaded : Threaded mem curr blocks) :
    ¬ HasFit mem curr size ↔
      firstFit blockHeaderSize 4 size blocks = none := by
  rw [threaded.hasFit_iff, firstFit_none_iff]
  push Not
  exact Iff.rfl

/-! ## The kernel heap -/

namespace UserHeap

variable {low high bytes size depth ptr : Nat} {sbrk : Sbrk}
  {heap heap' : UserHeap} {blocks blocks' : List Block}

/-- How a call of `malloc` ends. -/
structure Served (sbrk : Sbrk) (low high : Nat) (heap : UserHeap)
    (blocks : List Block) (bytes depth : Nat) (heap' : UserHeap) (ptr : Nat)
    (blocks' : List Block) : Prop where
  done : ∃ calls, heap.malloc sbrk depth bytes = some (heap', ptr, calls)
  ok : heap'.Ok low blocks'
  bounded : heap'.space.brk ≤ high
  breaks : (heap.space.brk :: sbrkBreaks sbrk depth heap bytes).Pairwise
    (· ≤ ·)
  kept : ∀ old ∈ blocks, old.free = false → old ∈ blocks'
  handed : ptr = 0 ∨ ∃ block ∈ blocks',
    block.addr + blockHeaderSize = ptr ∧ block.free = false ∧
      roundRequest bytes ≤ block.size ∧
      ∀ old ∈ blocks, old.free = false → old.addr ≠ block.addr

/-- The bounds of the heap that the kernel keeps. -/
structure Bounds (low high : Nat) (sbrk : Sbrk) (heap : UserHeap) :
    Prop where
  law : SbrkLaw low high sbrk
  positive : 0 < low
  user : high ≤ kernelVirtBase
  last : heap.space.brk ≤ high

theorem Ok.low_le (ok : heap.Ok low blocks) : low ≤ heap.space.brk :=
  ok.tiled.le

/-- The bounds refuse the growth. -/
theorem Bounds.refused (bounds : Bounds low high sbrk heap)
    (ok : heap.Ok low blocks) {amount : Nat}
    (full : high < heap.space.brk + amount)
    (stays : heap.space.brk + amount < 2 ^ 32 + low) :
    sbrk heap.space amount = (0, heap.space) := by
  have call := bounds.law heap.space amount ok.low_le bounds.last
  have base : kernelVirtBase = 3221225472 := rfl
  have user := bounds.user
  have outside : u32 (heap.space.brk + amount) < low ∨
      high < u32 (heap.space.brk + amount) := by
    simp only [u32]
    omega
  rw [SbrkCall, if_pos outside] at call
  exact Prod.ext call.1 call.2

/-- The bounds allow the growth. -/
theorem Bounds.extended (bounds : Bounds low high sbrk heap)
    (ok : heap.Ok low blocks) {amount : Nat}
    (room : heap.space.brk + amount ≤ high) :
    ∃ mem, sbrk heap.space amount =
        (heap.space.brk, ⟨mem, heap.space.brk + amount⟩) ∧
      ∀ index < heap.space.brk, mem index = heap.space.mem index := by
  have call := bounds.law heap.space amount ok.low_le bounds.last
  have base : kernelVirtBase = 3221225472 := rfl
  have user := bounds.user
  have lower := ok.low_le
  have same : u32 (heap.space.brk + amount) = heap.space.brk + amount := by
    simp only [u32]
    omega
  rw [SbrkCall, same, if_neg (by omega)] at call
  obtain ⟨pointer, moved, kept⟩ := call
  refine ⟨(sbrk heap.space amount).2.mem, ?_, fun index below =>
    kept index below (by omega)⟩
  exact Prod.ext pointer (by
    cases result : (sbrk heap.space amount).2
    rw [result] at moved
    rw [← moved])

/-- A sum that wraps around inside the bounds lowers the break. -/
theorem Bounds.lowered (bounds : Bounds low high sbrk heap)
    (ok : heap.Ok low blocks) {amount : Nat} (word : amount < 2 ^ 32)
    (wraps : 2 ^ 32 + low ≤ heap.space.brk + amount) :
    (sbrk heap.space amount).2.brk < heap.space.brk := by
  have call := bounds.law heap.space amount ok.low_le bounds.last
  have base : kernelVirtBase = 3221225472 := rfl
  have user := bounds.user
  have last := bounds.last
  have same : u32 (heap.space.brk + amount) =
      heap.space.brk + amount - 2 ^ 32 := by
    simp only [u32]
    omega
  rw [SbrkCall, same, if_neg (by omega)] at call
  rw [call.2.1]
  omega

/-- The search finds a block. -/
theorem Ok.serve_fit (ok : heap.Ok low blocks)
    (bounded : heap.space.brk ≤ high)
    (fit : firstFit blockHeaderSize 4 (roundRequest bytes) blocks ≠ none) :
    ∃ heap' ptr blocks', ptr ≠ 0 ∧
      Served sbrk low high heap blocks bytes (depth + 1) heap' ptr
        blocks' := by
  obtain ⟨⟨blocks', taken⟩, found⟩ := Option.ne_none_iff_exists'.mp fit
  obtain ⟨mem, search, ok'⟩ := ok.take (roundRequest_lt bytes).2 found
  obtain ⟨block, member, place, inUse, large, others⟩ := ok.handed found
  refine ⟨heap.setMem mem, taken.addr + blockHeaderSize, blocks', ?_,
    ⟨[], ?_⟩, ok', bounded, ?_, fun old inList used =>
      (others old inList used).1, .inr ⟨block, member, place, inUse, large,
      fun old inList used => (others old inList used).2⟩⟩
  · simp [blockHeaderSize]
  · rw [UserHeap.malloc]
    simp only [search, Option.bind_eq_bind, Option.bind_some,
      Option.pure_def]
  · rw [sbrkBreaks]
    simp only [search]
    exact List.pairwise_singleton ..

/-- What a call without a fitting block does first. -/
theorem Ok.search_none (ok : heap.Ok low blocks)
    (full : firstFit blockHeaderSize 4 size blocks = none) :
    mallocFrom size walkFuel heap.space.mem heap.freeList = some none :=
  mallocFrom_none ok.threaded (firstFit_none_iff.mp full) ok.enough

/-- The search fails and the break cannot move. -/
theorem Ok.serve_refused (ok : heap.Ok low blocks)
    (bounded : heap.space.brk ≤ high)
    (full : firstFit blockHeaderSize 4 (roundRequest bytes) blocks = none)
    (refused : sbrk heap.space
      (max (u32 (roundRequest bytes + blockHeaderSize)) minGrowth) =
        (0, heap.space)) :
    Served sbrk low high heap blocks bytes (depth + 1) heap 0 blocks := by
  have search := ok.search_none full
  have grow := growHeap_refused refused
  refine ⟨⟨[false], ?_⟩, ok, bounded, ?_, fun old inList _ => inList,
    .inl rfl⟩
  · rw [UserHeap.malloc]
    simp only [search, grow, Option.bind_eq_bind, Option.bind_some,
      Option.pure_def]
    rfl
  · rw [sbrkBreaks]
    simp only [search, grow, refused]
    simp

/-- The search fails and the break moves up: the rest is the same request
on the grown heap. -/
theorem Served.grown {amount : Nat}
    (search : mallocFrom (roundRequest bytes) walkFuel heap.space.mem
      heap.freeList = some none)
    (isAmount : amount =
      max (u32 (roundRequest bytes + blockHeaderSize)) minGrowth)
    (moved : (sbrk heap.space amount).2.brk = heap'.space.brk)
    (up : heap.space.brk ≤ heap'.space.brk)
    (grow : heap.growHeap sbrk (u32 (roundRequest bytes + blockHeaderSize)) =
      some (heap', true))
    {heap'' : UserHeap}
    (served : Served sbrk low high heap'
      (blocks ++ [UserHeap.grown heap.space.brk amount])
      (roundRequest bytes) depth heap'' ptr blocks') :
    Served sbrk low high heap blocks bytes (depth + 1) heap'' ptr
      blocks' := by
  obtain ⟨calls, done⟩ := served.done
  refine ⟨⟨true :: calls, ?_⟩, served.ok, served.bounded, ?_,
    fun old inList used =>
      served.kept old (List.mem_append_left _ inList) used, ?_⟩
  · rw [UserHeap.malloc]
    simp only [search, grow, done, Option.bind_eq_bind, Option.bind_some,
      Option.pure_def]
    rfl
  · rw [sbrkBreaks]
    simp only [search, grow, ← isAmount, moved]
    refine List.pairwise_cons.mpr ⟨fun later member => ?_, served.breaks⟩
    rcases List.mem_cons.mp member with same | rest
    · rw [same]
      exact up
    · have above := (List.pairwise_cons.mp served.breaks).1 later rest
      omega
  · rcases served.handed with zero | ⟨block, member, place, inUse, large,
      others⟩
    · exact .inl zero
    · rw [roundRequest_round] at large
      exact .inr ⟨block, member, place, inUse, large,
        fun old inList => others old (List.mem_append_left _ inList)⟩

/-- The break moves up. -/
theorem Ok.growHeap_bounded (ok : heap.Ok low blocks)
    (bounds : Bounds low high sbrk heap) {need amount : Nat}
    (isAmount : amount = max need minGrowth) (aligned : 4 ∣ need)
    (room : heap.space.brk + amount ≤ high) :
    ∃ heap', heap.growHeap sbrk need = some (heap', true) ∧
      heap'.space.brk = heap.space.brk + amount ∧
      (sbrk heap.space amount).2.brk = heap'.space.brk ∧
      heap'.Ok low (blocks ++ [grown heap.space.brk amount]) ∧
      Bounds low high sbrk heap' := by
  have base : kernelVirtBase = 3221225472 := rfl
  have user := bounds.user
  have lower := ok.low_le
  have positive := bounds.positive
  obtain ⟨mem, call, kept⟩ := bounds.extended ok room
  obtain ⟨heap', grow, moved, ok'⟩ := ok.growHeap_extended isAmount aligned
    call (by omega) (by omega) kept
  refine ⟨heap', grow, moved, ?_, ok', bounds.law, positive, user, ?_⟩
  · rw [call, moved]
  · rw [moved]
    exact room

/-- The search fails and the new block has room. -/
theorem Ok.serve_grow (ok : heap.Ok low blocks)
    (bounds : Bounds low high sbrk heap)
    (full : firstFit blockHeaderSize 4 (roundRequest bytes) blocks = none)
    (word : roundRequest bytes + blockHeaderSize < 2 ^ 32)
    (room : heap.space.brk +
      max (roundRequest bytes + blockHeaderSize) minGrowth ≤ high) :
    ∃ heap' ptr blocks', ptr ≠ 0 ∧
      Served sbrk low high heap blocks bytes (depth + 2) heap' ptr
        blocks' := by
  have header : blockHeaderSize = 12 := rfl
  have minimum : minGrowth = 4096 := rfl
  have need : u32 (roundRequest bytes + blockHeaderSize) =
      roundRequest bytes + blockHeaderSize := by
    rw [u32, Nat.mod_eq_of_lt word]
  have aligned := (roundRequest_lt bytes).2
  obtain ⟨heap', grow, up, moved, ok', bounds'⟩ := ok.growHeap_bounded bounds
    rfl (Nat.dvd_add aligned (by decide : 4 ∣ blockHeaderSize)) room
  have fit : firstFit blockHeaderSize 4 (roundRequest (roundRequest bytes))
      (blocks ++ [grown heap.space.brk
        (max (roundRequest bytes + blockHeaderSize) minGrowth)]) ≠ none := by
    intro none
    rw [roundRequest_round] at none
    have less := firstFit_none_iff.mp none (grown heap.space.brk
      (max (roundRequest bytes + blockHeaderSize) minGrowth)) (by simp) rfl
    have size : (grown heap.space.brk
        (max (roundRequest bytes + blockHeaderSize) minGrowth)).size =
        max (roundRequest bytes + blockHeaderSize) minGrowth -
          blockHeaderSize := rfl
    omega
  obtain ⟨heap'', ptr, blocks', nonzero, served⟩ :=
    @Ok.serve_fit low high (roundRequest bytes) depth sbrk heap' _ ok'
      bounds'.last fit
  refine ⟨heap'', ptr, blocks', nonzero, Served.grown
    (ok.search_none full) (by rw [need]) moved (by omega) ?_ served⟩
  rw [need]
  exact grow

/-- A sum that wraps around to a few bytes never gives a block that fits:
the heap grows by a page each time until the kernel refuses. -/
theorem Ok.serve_fill (ok : heap.Ok low blocks)
    (bounds : Bounds low high sbrk heap)
    (wraps : 2 ^ 32 ≤ roundRequest bytes + blockHeaderSize)
    (enough : (high - heap.space.brk) / minGrowth < depth) :
    ∃ heap' blocks',
      Served sbrk low high heap blocks bytes depth heap' 0 blocks' := by
  induction depth generalizing heap blocks bytes with
  | zero => exact absurd enough (Nat.not_lt_zero _)
  | succ depth inductionHypothesis =>
      have header : blockHeaderSize = 12 := rfl
      have minimum : minGrowth = 4096 := rfl
      have base : kernelVirtBase = 3221225472 := rfl
      have user := bounds.user
      have last := bounds.last
      have small := roundRequest_lt bytes
      have full : firstFit blockHeaderSize 4 (roundRequest bytes) blocks =
          none := by
        refine firstFit_none_iff.mpr fun block member _ => ?_
        have inside := ok.tiled.inside member
        omega
      have amount : max (u32 (roundRequest bytes + blockHeaderSize))
          minGrowth = minGrowth := by
        simp only [u32]
        omega
      by_cases room : heap.space.brk + minGrowth ≤ high
      · obtain ⟨heap', grow, up, moved, ok', bounds'⟩ :=
          ok.growHeap_bounded bounds amount.symm
            (by simp only [u32]; omega) room
        have again : 2 ^ 32 ≤ roundRequest (roundRequest bytes) +
            blockHeaderSize := by
          rw [roundRequest_round]
          exact wraps
        rw [minimum] at enough up
        have fewer : (high - heap'.space.brk) / minGrowth < depth := by
          rw [minimum]
          omega
        obtain ⟨heap'', blocks', served⟩ :=
          inductionHypothesis ok' bounds' again fewer
        exact ⟨heap'', blocks', Served.grown (ok.search_none full)
          amount.symm moved (by omega) grow served⟩
      · refine ⟨heap, blocks, ok.serve_refused last full ?_⟩
        rw [amount]
        exact bounds.refused ok (by omega) (by omega)

/-- `malloc` returns when the sum stays up, and says exactly when it is out
of memory. -/
theorem Ok.serve (ok : heap.Ok low blocks)
    (bounds : Bounds low high sbrk heap) (stays : StaysUp low heap bytes)
    (deep : (high - heap.space.brk) / minGrowth < depth + 2) :
    ∃ heap' ptr blocks',
      Served sbrk low high heap blocks bytes (depth + 2) heap' ptr
        blocks' ∧
      (ptr = 0 ↔
        ¬ HasFit heap.space.mem heap.freeList (roundRequest bytes) ∧
          (2 ^ 32 ≤ roundRequest bytes + blockHeaderSize ∨
            high < heap.space.brk +
              max (roundRequest bytes + blockHeaderSize) minGrowth)) := by
  have header : blockHeaderSize = 12 := rfl
  have minimum : minGrowth = 4096 := rfl
  have base : kernelVirtBase = 3221225472 := rfl
  have user := bounds.user
  have last := bounds.last
  rw [ok.threaded.not_hasFit_iff]
  cases full : firstFit blockHeaderSize 4 (roundRequest bytes) blocks with
  | some result =>
      have fit : firstFit blockHeaderSize 4 (roundRequest bytes) blocks ≠
          none := by
        rw [full]
        simp
      obtain ⟨heap', ptr, blocks', nonzero, served⟩ :=
        @Ok.serve_fit low high bytes (depth + 1) sbrk heap blocks ok
          last fit
      exact ⟨heap', ptr, blocks', served, by simp [nonzero]⟩
  | none =>
      have unfit := ok.threaded.not_hasFit_iff.mpr full
      by_cases wraps : 2 ^ 32 ≤ roundRequest bytes + blockHeaderSize
      · obtain ⟨heap', blocks', served⟩ := ok.serve_fill bounds wraps deep
        exact ⟨heap', 0, blocks', served, by
          simp only [true_and, true_iff]
          exact .inl wraps⟩
      · clear deep
        have need : u32 (roundRequest bytes + blockHeaderSize) =
            roundRequest bytes + blockHeaderSize := by
          rw [u32, Nat.mod_eq_of_lt (by omega)]
        have sum := (stays.resolve_left unfit).resolve_left wraps
        by_cases room : heap.space.brk +
            max (roundRequest bytes + blockHeaderSize) minGrowth ≤ high
        · obtain ⟨heap', ptr, blocks', nonzero, served⟩ :=
            @Ok.serve_grow low high bytes depth sbrk heap blocks ok
              bounds full (by omega) room
          refine ⟨heap', ptr, blocks', served, ?_⟩
          simp only [nonzero, wraps, true_and, false_or, false_iff]
          omega
        · have refused := bounds.refused ok
            (Nat.lt_of_not_le room) (by omega)
          rw [← need] at refused
          refine ⟨heap, 0, blocks,
            @Ok.serve_refused low high bytes (depth + 1) sbrk heap
              blocks ok last full refused, ?_⟩
          simp only [true_and, true_iff]
          exact .inr (Nat.lt_of_not_le room)

/-- A sum that wraps around inside the bounds moves the break down first. -/
theorem Ok.breaks_lowered (ok : heap.Ok low blocks)
    (bounds : Bounds low high sbrk heap)
    (falls : ¬ StaysUp low heap bytes) :
    ¬ (heap.space.brk :: sbrkBreaks sbrk mallocDepth heap bytes).Pairwise
      (· ≤ ·) := by
  have minimum : minGrowth = 4096 := rfl
  have base : kernelVirtBase = 3221225472 := rfl
  have user := bounds.user
  have last := bounds.last
  simp only [StaysUp, not_or] at falls
  obtain ⟨unfit, word, wraps⟩ := falls
  have search := ok.search_none (ok.threaded.not_hasFit_iff.mp unfit)
  have need : u32 (roundRequest bytes + blockHeaderSize) =
      roundRequest bytes + blockHeaderSize := by
    rw [u32, Nat.mod_eq_of_lt (Nat.lt_of_not_le word)]
  have amount : max (roundRequest bytes + blockHeaderSize) minGrowth =
      roundRequest bytes + blockHeaderSize := by
    omega
  have lowered := bounds.lowered ok (Nat.lt_of_not_le word)
    (Nat.le_of_not_lt wraps)
  rw [mallocDepth_eq, sbrkBreaks]
  simp only [search, need, amount]
  intro sorted
  have first := (List.pairwise_cons.mp sorted).1 _ (List.mem_cons_self ..)
  omega

/-- `malloc` honours just the requests that it can serve as it should. -/
theorem Ok.honours_iff (ok : heap.Ok low blocks)
    (bounds : Bounds low high sbrk heap) (word : bytes < 2 ^ 32) :
    MallocHonours low sbrk heap bytes ↔ Honourable low high heap bytes := by
  have header : blockHeaderSize = 12 := rfl
  have minimum : minGrowth = 4096 := rfl
  have base : kernelVirtBase = 3221225472 := rfl
  have user := bounds.user
  have deep : (high - heap.space.brk) / minGrowth < 2 ^ 32 - 2 + 2 := by
    rw [minimum]
    omega
  by_cases stays : StaysUp low heap bytes
  · obtain ⟨heap', ptr, blocks', served, null⟩ := ok.serve bounds stays deep
    rw [← mallocDepth_eq] at served
    clear deep
    obtain ⟨calls, done⟩ := served.done
    have last := served.bounded
    refine ⟨fun honoured => ⟨?_, stays⟩, fun able => ⟨heap', ptr, calls,
      done, ?_, served.breaks⟩⟩
    · obtain ⟨heap'', ptr', calls', done', outcome, _⟩ := honoured
      rw [done] at done'
      simp only [Option.some.injEq, Prod.mk.injEq] at done'
      obtain ⟨sameHeap, samePtr, _⟩ := done'
      subst sameHeap samePtr
      by_cases up : RoundsUp bytes
      · exact .inl up
      · have zero := roundRequest_zero word up
        rw [zero] at null
        rcases outcome with isNull | ⟨_, fits, inside⟩
        · obtain ⟨unfit, full⟩ := null.mp isNull
          exact .inr ⟨unfit, by omega⟩
        · rw [RoundsUp] at up
          omega
    · by_cases up : RoundsUp bytes
      · have enough := roundRequest_ge up
        rcases served.handed with zero | ⟨block, member, place, _, large, _⟩
        · exact .inl zero
        · have inside := served.ok.tiled.inside member
          have size := served.ok.threaded.size_eq member
          have pointer : ptr - blockHeaderSize = block.addr := by omega
          rw [Usable, pointer, size]
          exact .inr ⟨by omega, by omega, by omega⟩
      · obtain ⟨unfit, full⟩ := able.1.resolve_left up
        rw [roundRequest_zero word up] at null
        exact .inl (null.mpr ⟨unfit, .inr (by omega)⟩)
  · refine ⟨fun ⟨_, _, _, _, _, sorted⟩ => ?_, fun able => ?_⟩
    · exact absurd sorted (ok.breaks_lowered bounds stays)
    · exact absurd able.2 stays

theorem free_brk (done : heap.free ptr = some heap') :
    heap'.space.brk = heap.space.brk := by
  rw [UserHeap.free] at done
  split at done
  case isTrue null => rw [← Option.some.inj done]
  case isFalse =>
    obtain ⟨mem, _, same⟩ := Option.map_eq_some_iff.mp done
    rw [← same]
    rfl

end UserHeap

/-! ## The kernel behind the calls -/

/-- What `sys_sbrk` returns for a value in `eax`. -/
def sbrkPointer (eax : Nat) : Nat := if eax = 2 ^ 32 - 1 then 0 else eax

/-- The heap of a program is what the kernel maps for it. -/
def ShowsHeap (space : Space) (memory : Memory) (proc : Image) : Prop :=
  space.brk = proc.heapBreak ∧
    ∀ addr, proc.heapStart ≤ addr → addr < pageCeil proc.heapBreak →
      userView memory proc.pdPhys addr = some ⟨space.mem addr, true, true⟩

/-- `SYS_SBRK` is a call of the kind that `SbrkLaw` describes. -/
theorem sysSbrk_call {start memory after : Memory} {proc next : Image}
    {space : Space} {delta : UInt32} {eax : Nat}
    (ok : BreakOk start memory proc) (shows : ShowsHeap space memory proc)
    (done : sysSbrk memory proc delta = some (after, next, eax)) :
    ∃ space', ShowsHeap space' after next ∧
      SbrkCall proc.heapStart proc.heapMax space delta.toNat
        (sbrkPointer eax) space' := by
  obtain ⟨brk, bytes⟩ := shows
  have target : u32 (space.brk + delta.toNat) = newBreak proc delta := by
    rw [brk, newBreak]
  have effect := ok.sysSbrk done
  by_cases outside : Outside proc delta
  · obtain ⟨isEax, sameMemory, sameProc⟩ := effect.refused outside
    rw [Outside] at outside
    rw [isEax, sameMemory, sameProc]
    refine ⟨space, ⟨brk, bytes⟩, ?_⟩
    rw [SbrkCall, target, if_pos outside]
    exact ⟨rfl, rfl⟩
  · obtain ⟨isEax, isNext, moved⟩ := effect.moved outside
    obtain ⟨_, _, _, high, top⟩ := ok.tops outside
    have base : kernelVirtBase = 3221225472 := rfl
    have last := ok.last
    have user := ok.user
    have pointer : sbrkPointer eax = space.brk := by
      rw [sbrkPointer, isEax, if_neg (by omega), brk]
    rw [isNext, pointer]
    refine ⟨⟨fun addr => if addr < pageCeil proc.heapBreak then
      space.mem addr else 0, newBreak proc delta⟩, ⟨rfl, ?_⟩, ?_⟩
    · intro addr lower upper
      have below : addr < kernelVirtBase := by
        change addr < pageCeil (newBreak proc delta) at upper
        omega
      change addr < pageCeil (newBreak proc delta) at upper
      change userView after proc.pdPhys addr =
        some ⟨if addr < pageCeil proc.heapBreak then space.mem addr else 0,
          true, true⟩
      rw [moved.view addr below, movedView, if_neg (by omega)]
      by_cases old : addr < pageCeil proc.heapBreak
      · rw [if_neg (by omega), if_pos old]
        exact bytes addr lower old
      · rw [if_pos (by omega), if_neg old]
    · rw [Outside] at outside
      rw [SbrkCall, target, if_neg outside]
      refine ⟨rfl, rfl, fun index below _ => ?_⟩
      have first : proc.heapBreak ≤ pageCeil proc.heapBreak := by
        rw [pageCeil_eq (by omega)]
        omega
      exact if_pos (by omega)

/-! ## Histories -/

/-- A call with its effect, for requests of any size. -/
inductive RequestStep (low high : Nat) :
    MallocUse → MallocCall → MallocUse → Prop
  | malloc {use : MallocUse} {sbrk : Sbrk} {heap' : UserHeap}
      {bytes ptr : Nat} {calls : List Bool} (law : SbrkLaw low high sbrk)
      (word : bytes < 2 ^ 32)
      (done : use.heap.malloc sbrk mallocDepth bytes =
        some (heap', ptr, calls)) :
      RequestStep low high use (.malloc bytes)
        ⟨heap', if ptr = 0 then use.live else (ptr, bytes) :: use.live⟩
  | free {use : MallocUse} {heap' : UserHeap} {ptr : Nat}
      (held : ptr = 0 ∨ ∃ bytes, (ptr, bytes) ∈ use.live)
      (done : use.heap.free ptr = some heap') :
      RequestStep low high use (.free ptr)
        ⟨heap', use.live.filter fun pair => pair.1 ≠ ptr⟩
  | store {use : MallocUse} {mem : Bytes}
      (outside : ∀ index, (∀ pair ∈ use.live,
        ¬ (pair.1 ≤ index ∧ index < pair.1 + pair.2)) →
          mem index = use.heap.space.mem index) :
      RequestStep low high use .store ⟨use.heap.setMem mem, use.live⟩

/-- A step whose request, if it is one, can be served as it should. -/
def HonourableStep (low high : Nat) (use : MallocUse) (call : MallocCall)
    (use' : MallocUse) : Prop :=
  RequestStep low high use call use' ∧
    ∀ bytes, call = .malloc bytes → Honourable low high use.heap bytes

section Histories

variable {low high : Nat} {use use' : MallocUse} {call : MallocCall}
  {calls : List MallocCall} {blocks : List Block}

/-- The heap is sound and its break is within the bounds. -/
def WithinBounds (low high : Nat) (use : MallocUse) : Prop :=
  (∃ blocks, use.Ok low blocks) ∧ use.heap.space.brk ≤ high

theorem HonourableStep.within (positive : 0 < low)
    (user : high ≤ kernelVirtBase)
    (step : HonourableStep low high use call use')
    (within : WithinBounds low high use) : WithinBounds low high use' := by
  obtain ⟨⟨blocks, ok⟩, last⟩ := within
  obtain ⟨step, able⟩ := step
  cases step with
  | @malloc sbrk heap' bytes ptr calls law word done =>
      have bounds : UserHeap.Bounds low high sbrk use.heap :=
        ⟨law, positive, user, last⟩
      have deep : (high - use.heap.space.brk) / minGrowth <
          2 ^ 32 - 2 + 2 := by
        have base : kernelVirtBase = 3221225472 := rfl
        rw [show minGrowth = 4096 from rfl]
        omega
      obtain ⟨heap'', ptr', blocks', served, _⟩ :=
        ok.heap.serve bounds (able bytes rfl).2 deep
      rw [← mallocDepth_eq] at served
      clear deep
      obtain ⟨calls', done'⟩ := served.done
      rw [done] at done'
      simp only [Option.some.injEq, Prod.mk.injEq] at done'
      obtain ⟨sameHeap, samePtr, _⟩ := done'
      subst sameHeap samePtr
      refine ⟨⟨blocks', ?_⟩, served.bounded⟩
      by_cases null : ptr = 0
      · rw [if_pos null]
        refine ⟨served.ok, fun pair held => ?_, ok.distinct⟩
        obtain ⟨block, member, place, inUse, fits⟩ := ok.held pair held
        exact ⟨block, served.kept block member inUse, place, inUse, fits⟩
      · rw [if_neg null]
        obtain ⟨block, member, place, inUse, large, others⟩ :=
          served.handed.resolve_left null
        have honoured := (ok.heap.honours_iff bounds word).mpr
          (able bytes rfl)
        obtain ⟨heap'', ptr'', _, done'', outcome, _⟩ := honoured
        rw [done] at done''
        simp only [Option.some.injEq, Prod.mk.injEq] at done''
        obtain ⟨sameHeap, samePtr, _⟩ := done''
        subst sameHeap samePtr
        obtain ⟨_, fits, _⟩ := outcome.resolve_left null
        have size := served.ok.threaded.size_eq member
        have pointer : ptr - blockHeaderSize = block.addr := by omega
        rw [pointer, size] at fits
        exact (ok.hand served.ok member place inUse fits
          fun old inList used =>
            ⟨served.kept old inList used, others old inList used⟩).2
  | @free heap' ptr held done =>
      obtain ⟨heap'', blocks', done', ok'⟩ := ok.free held
      rw [done] at done'
      have same : heap' = heap'' := Option.some.inj done'
      subst same
      refine ⟨⟨blocks', ok'⟩, ?_⟩
      have brk := UserHeap.free_brk done
      change heap'.space.brk ≤ high
      omega
  | @store mem outside => exact ⟨⟨blocks, ok.store outside⟩, last⟩

end Histories

/-- An empty list has no block that fits. -/
theorem not_hasFit_empty {mem : Bytes} {size : Nat} :
    ¬ HasFit mem 0 size := by
  have empty : Threaded mem 0 [] := rfl
  rw [empty.hasFit_iff]
  simp

end LoafOs
