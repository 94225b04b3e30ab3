import LoafOs.Userspace.Malloc

/-!
# Histories of a program's heap

The blocks tile the memory from the first break to the present one after
every history of `malloc`, `free` and stores to the memory that was handed
out.
-/

namespace LoafOs

open Arena Runs

variable {start size ptr depth base : Nat} {block current taken : Block}
  {blocks blocks' rest : List Block} {heap heap' : UserHeap} {sbrk : Sbrk}

namespace UserHeap

/-- The links spell out blocks that tile the memory up to the break. -/
structure Ok (heap : UserHeap) (start : Nat) (blocks : List Block) :
    Prop where
  threaded : Threaded heap.space.mem heap.freeList blocks
  tiled : Tiled blockHeaderSize start heap.space.brk blocks
  low : 16 ≤ start
  high : heap.space.brk < 2 ^ 32
  aligned : 4 ∣ start
  sizes : ∀ block ∈ blocks, 4 ∣ block.size

theorem Ok.enough (ok : heap.Ok start blocks) :
    blocks.length < walkFuel := by
  have length := ok.tiled.length_le
  have bound := ok.high
  have header : blockHeaderSize = 12 := rfl
  have fuel : walkFuel = 2 ^ 32 := rfl
  rw [header] at length
  omega

/-! ## Growing -/

/-- The new block at the end of the memory. -/
def grown (brk amount : Nat) : Block := ⟨brk, amount - blockHeaderSize, true⟩

/-- What `grow_heap` asks for. -/
theorem growAmount_eq (need : Nat) :
    (if minGrowth < need then need else minGrowth) = max need minGrowth := by
  split <;> omega

theorem growHeap_refused {need : Nat}
    (refused : sbrk heap.space (max need minGrowth) = (0, heap.space)) :
    heap.growHeap sbrk need = some (heap, false) := by
  rw [UserHeap.growHeap]
  simp only [growAmount_eq, refused, Option.bind_eq_bind, Option.pure_def,
    if_true]

/-- The memory that `sys_sbrk` adds becomes the last block. -/
theorem Ok.growHeap_extended (ok : heap.Ok start blocks)
    {need amount : Nat} {mem : Bytes}
    (isAmount : amount = max need minGrowth) (aligned : 4 ∣ need)
    (extended : sbrk heap.space amount =
      (heap.space.brk, ⟨mem, heap.space.brk + amount⟩))
    (nonzero : heap.space.brk ≠ 0)
    (word : heap.space.brk + amount < 2 ^ 32)
    (same : ∀ index < heap.space.brk, mem index = heap.space.mem index) :
    ∃ heap', heap.growHeap sbrk need = some (heap', true) ∧
      heap'.space.brk = heap.space.brk + amount ∧
      heap'.Ok start (blocks ++ [grown heap.space.brk amount]) := by
  have header : blockHeaderSize = 12 := rfl
  have minimum : minGrowth = 4096 := rfl
  have chosen : (if minGrowth < need then need else minGrowth) = amount :=
    (growAmount_eq need).trans isAmount.symm
  have fourAmount : 4 ∣ amount := by
    rw [isAmount]
    rcases Nat.le_total need minGrowth with less | more
    · rw [Nat.max_eq_right less]
      decide
    · rwa [Nat.max_eq_left more]
  rw [UserHeap.growHeap]
  simp only [chosen, Option.bind_eq_bind, Option.pure_def]
  rw [extended]
  simp only
  rw [if_neg nonzero]
  have size : u32 (amount + 2 ^ 32 - blockHeaderSize) =
      amount - blockHeaderSize := by
    simp only [u32]
    omega
  rw [size]
  have old : Threaded (putBlock mem heap.space.brk
      (amount - blockHeaderSize) 0 1) heap.freeList blocks := by
    refine ok.threaded.congr fun block member index lower upper => ?_
    have inside := ok.tiled.inside member
    exact (putBlock_other (by omega)).trans (same index (by omega))
  have fresh : ∀ mem', (∀ index, heap.space.brk ≤ index →
      mem' index = putBlock mem heap.space.brk
        (amount - blockHeaderSize) 0 1 index) →
      Threaded mem' heap.space.brk [grown heap.space.brk amount] := by
    intro mem' agree
    have here : Threaded (putBlock mem heap.space.brk
        (amount - blockHeaderSize) 0 1) heap.space.brk
        [grown heap.space.brk amount] :=
      threaded_putBlock nonzero (by omega) (by omega) rfl
    refine here.congr fun block member index lower _ => agree index ?_
    rw [List.mem_singleton.mp member] at lower
    exact lower
  have last : Tiled blockHeaderSize heap.space.brk
      (heap.space.brk + amount) [grown heap.space.brk amount] := by
    refine ⟨rfl, ?_⟩
    change heap.space.brk + blockHeaderSize +
      (amount - blockHeaderSize) = heap.space.brk + amount
    omega
  have tiled : Tiled blockHeaderSize start (heap.space.brk + amount)
      (blocks ++ [grown heap.space.brk amount]) :=
    Tiled.append_iff.mpr ⟨_, ok.tiled, last⟩
  have sizes : ∀ block ∈ blocks ++ [grown heap.space.brk amount],
      4 ∣ block.size := by
    intro block member
    rcases List.mem_append.mp member with before | new
    · exact ok.sizes block before
    · rw [List.mem_singleton.mp new]
      exact Nat.dvd_sub fourAmount (by decide)
  rcases List.eq_nil_or_concat' blocks with empty | ⟨before, final, cut⟩
  · subst empty
    have none : heap.freeList = 0 := ok.threaded
    rw [if_pos none]
    exact ⟨_, rfl, rfl, fresh _ fun _ _ => rfl, tiled, ok.low, word,
      ok.aligned, sizes⟩
  · subst cut
    have some : heap.freeList ≠ 0 := by
      have threaded := ok.threaded
      cases before with
      | nil => exact threaded.1
      | cons _ _ => exact threaded.1
    have length : before.length < walkFuel := by
      have enough := ok.enough
      rw [List.length_append] at enough
      omega
    have place := ok.tiled.inside (List.mem_append_right before
      (List.mem_singleton_self final))
    rw [if_neg some, lastBlock_eq old length]
    refine ⟨_, rfl, rfl, ?_, tiled, ok.low, word, ok.aligned, sizes⟩
    rw [List.append_assoc]
    exact old.link ok.tiled (by omega) (fresh _ fun index above =>
      Bytes.putWord32_other (by omega))

theorem Ok.growHeap (ok : heap.Ok start blocks) (sound : SbrkOk sbrk)
    {need amount : Nat} (isAmount : amount = max need minGrowth)
    (aligned : 4 ∣ need) (small : need < 2 ^ 31) :
    heap.growHeap sbrk need = some (heap, false) ∨
      ∃ heap', heap.growHeap sbrk need = some (heap', true) ∧
        heap'.Ok start (blocks ++ [grown heap.space.brk amount]) := by
  have minimum : minGrowth = 4096 := rfl
  rcases sound.result heap.space amount (by omega) (by omega) with
    failed | ⟨mem, extended, nonzero, word, same⟩
  · rw [isAmount] at failed
    exact .inl (growHeap_refused failed)
  · obtain ⟨heap', done, _, ok'⟩ :=
      ok.growHeap_extended isAmount aligned extended nonzero word same
    exact .inr ⟨heap', done, ok'⟩

/-! ## Allocating -/

/-- What a search that succeeds leaves. -/
theorem Ok.take (ok : heap.Ok start blocks) (aligned : 4 ∣ size)
    (found : firstFit blockHeaderSize 4 size blocks =
      some (blocks', taken)) :
    ∃ mem, mallocFrom size walkFuel heap.space.mem heap.freeList =
        some (some (mem, taken.addr + blockHeaderSize)) ∧
      (heap.setMem mem).Ok start blocks' := by
  obtain ⟨mem, done, threaded⟩ := mallocFrom_some ok.threaded ok.tiled
    ok.low ok.high ok.enough found
  exact ⟨mem, done, threaded, ok.tiled.firstFit found, ok.low, ok.high,
    ok.aligned, firstFit_dvd found (by decide) aligned ok.sizes⟩

theorem roundRequest_idem {bytes : Nat} (bound : bytes ≤ 2 ^ 31 - 16) :
    roundRequest (roundRequest bytes) = roundRequest bytes := by
  simp only [roundRequest, u32]
  omega

theorem roundRequest_le {bytes : Nat} (bound : bytes ≤ 2 ^ 31 - 16) :
    bytes ≤ roundRequest bytes ∧ roundRequest bytes ≤ 2 ^ 31 - 16 ∧
      4 ∣ roundRequest bytes := by
  simp only [roundRequest, u32]
  omega

/-- The block that a search takes was in nobody's hands. -/
theorem Ok.handed (ok : heap.Ok start blocks)
    (found : firstFit blockHeaderSize 4 size blocks =
      some (blocks', taken)) :
    ∃ block ∈ blocks', block.addr + blockHeaderSize =
        taken.addr + blockHeaderSize ∧ block.free = false ∧
      size ≤ block.size ∧ ∀ old ∈ blocks, old.free = false →
        old ∈ blocks' ∧ old.addr ≠ block.addr := by
  obtain ⟨block, member, place, inUse, fits⟩ := firstFit_taken found
  refine ⟨block, member, by rw [place], inUse, fits,
    fun old oldMember oldInUse =>
      ⟨firstFit_keeps found oldMember oldInUse, fun same => ?_⟩⟩
  have equal := ok.tiled.eq_of_addr (by decide) oldMember
    (firstFit_member found) (same.trans place)
  rw [equal, (firstFit_split found).1] at oldInUse
  simp at oldInUse

/-- `malloc` grows the heap at most once, and fails only when it could
not. -/
theorem Ok.malloc (ok : heap.Ok start blocks) (sound : SbrkOk sbrk)
    {bytes : Nat} (bound : bytes ≤ 2 ^ 31 - 16) :
    (∀ depth, heap.malloc sbrk (depth + 2) bytes =
        some (heap, 0, [false])) ∨
      ∃ heap' ptr calls blocks' block,
        (∀ depth, heap.malloc sbrk (depth + 2) bytes =
          some (heap', ptr, calls)) ∧
        (calls = [] ∨ calls = [true]) ∧ heap'.Ok start blocks' ∧
        block ∈ blocks' ∧ block.addr + blockHeaderSize = ptr ∧
        block.free = false ∧ bytes ≤ block.size ∧
        (∀ old ∈ blocks, old.free = false →
          old ∈ blocks' ∧ old.addr ≠ block.addr) := by
  obtain ⟨large, small, aligned⟩ := roundRequest_le bound
  have header : blockHeaderSize = 12 := rfl
  have idem := roundRequest_idem bound
  cases found : firstFit blockHeaderSize 4 (roundRequest bytes) blocks with
  | some result =>
      obtain ⟨blocks', first⟩ := result
      obtain ⟨mem, done, ok'⟩ := ok.take aligned found
      obtain ⟨block, member, place, inUse, fits, others⟩ := ok.handed found
      refine .inr ⟨heap.setMem mem, _, [], blocks', block, fun depth => ?_,
        .inl rfl, ok', member, place, inUse, by omega, others⟩
      rw [UserHeap.malloc]
      simp only [done, Option.bind_eq_bind, Option.bind_some,
        Option.pure_def]
  | none =>
      have full := mallocFrom_none ok.threaded (firstFit_none_iff.mp found)
        ok.enough
      have need : u32 (roundRequest bytes + blockHeaderSize) =
          roundRequest bytes + blockHeaderSize := by
        simp only [u32]
        omega
      have grows := ok.growHeap sound rfl
        (Nat.dvd_add aligned (by decide : 4 ∣ blockHeaderSize)) (by omega)
      rcases grows with failed | ⟨grownHeap, done, grownOk⟩
      · refine .inl fun depth => ?_
        rw [UserHeap.malloc]
        simp only [full, need, failed, Option.bind_eq_bind,
          Option.bind_some, Option.pure_def]
        rfl
      · have fits : ¬ firstFit blockHeaderSize 4 (roundRequest bytes)
            (blocks ++ [grown heap.space.brk
              (max (roundRequest bytes + blockHeaderSize) minGrowth)]) =
            none := by
          intro none
          have less := firstFit_none_iff.mp none (grown heap.space.brk
            (max (roundRequest bytes + blockHeaderSize) minGrowth))
            (by simp) rfl
          have size : (grown heap.space.brk
              (max (roundRequest bytes + blockHeaderSize) minGrowth)).size =
              max (roundRequest bytes + blockHeaderSize) minGrowth -
                blockHeaderSize := rfl
          omega
        obtain ⟨⟨blocks', first⟩, found'⟩ :=
          Option.ne_none_iff_exists'.mp fits
        obtain ⟨mem, search, ok'⟩ := grownOk.take aligned found'
        obtain ⟨block, member, place, inUse, fits, others⟩ :=
          grownOk.handed found'
        refine .inr ⟨grownHeap.setMem mem, _, [true], blocks', block,
          fun depth => ?_, .inr rfl, ok', member, place, inUse, by omega,
          fun old oldMember => others old (List.mem_append_left _ oldMember)⟩
        have second : grownHeap.malloc sbrk (depth + 1)
            (roundRequest bytes) = some (grownHeap.setMem mem,
              first.addr + blockHeaderSize, []) := by
          rw [UserHeap.malloc]
          simp only [idem, search, Option.bind_eq_bind, Option.bind_some,
            Option.pure_def]
        rw [UserHeap.malloc]
        simp only [full, need, done, second, Option.bind_eq_bind,
          Option.bind_some, Option.pure_def]
        rfl

/-- `free` of a pointer to a block. -/
theorem Ok.free (ok : heap.Ok start blocks) (member : block ∈ blocks) :
    ∃ heap' blocks', heap.free (block.addr + blockHeaderSize) =
        some heap' ∧ heap'.Ok start blocks' ∧
      ∀ other ∈ blocks, other.free = false → other.addr ≠ block.addr →
        other ∈ blocks' := by
  have header : blockHeaderSize = 12 := rfl
  have inside := ok.tiled.inside member
  have low := ok.low
  have high := ok.high
  have target : u32 (block.addr + blockHeaderSize + 2 ^ 32 -
      blockHeaderSize) = block.addr := by
    simp only [u32]
    omega
  rw [UserHeap.free, if_neg (by omega)]
  simp only [target]
  have released := ok.threaded.release ok.tiled ⟨block, member, rfl⟩
  have releasedTiled : Tiled blockHeaderSize start heap.space.brk
      (release block.addr blocks) := ok.tiled.release
  obtain ⟨current, rest, shape⟩ : ∃ current rest,
      release block.addr blocks = current :: rest := by
    cases blocks with
    | nil => simp at member
    | cons first rest =>
        rw [Arena.release]
        split
        · exact ⟨_, _, rfl⟩
        · exact ⟨_, _, rfl⟩
  have length : rest.length < walkFuel := by
    have bound := releasedTiled.length_le
    rw [shape, List.length_cons, header] at bound
    have fuel : walkFuel = 2 ^ 32 := rfl
    omega
  have sizes : ∀ now ∈ release block.addr blocks, 4 ∣ now.size :=
    release_dvd ok.sizes
  rw [shape] at released releasedTiled sizes
  have position : current.addr = start := releasedTiled.1
  obtain ⟨mem', result, threaded, _, _⟩ :=
    coalesceFrom_eq released releasedTiled low high length
  refine ⟨heap.setMem mem', mergeFrom blockHeaderSize current rest, ?_,
    ⟨threaded, releasedTiled.mergeFrom, low, high, ok.aligned,
      mergeFrom_dvd (by decide) sizes⟩,
    fun other otherMember otherInUse different => ?_⟩
  · rw [result]
    rfl
  · have kept : other ∈ current :: rest := by
      rw [← shape]
      exact release_keeps otherMember different
    exact mergeFrom_keeps kept otherInUse

end UserHeap

/-! ## Histories -/

/-- The heap together with the pointers that the program holds, each with the
size that was asked for. -/
structure MallocUse where
  heap : UserHeap
  live : List (Nat × Nat)

inductive MallocCall where
  | malloc (bytes : Nat)
  | free (ptr : Nat)
  | store

/-- The depth that `malloc` may recurse to. -/
def mallocDepth : Nat := 2 ^ 32

theorem mallocDepth_eq : mallocDepth = 2 ^ 32 - 2 + 2 := by
  decide

/-- A call with its effect.  Each call of `malloc` may see another kernel; a
program stores only to memory that it holds. -/
inductive MallocStep : MallocUse → MallocCall → MallocUse → Prop
  | malloc {use : MallocUse} {sbrk : Sbrk} {heap' : UserHeap}
      {bytes ptr : Nat} {calls : List Bool} (sound : SbrkOk sbrk)
      (bound : bytes ≤ 2 ^ 31 - 16)
      (done : use.heap.malloc sbrk mallocDepth bytes =
        some (heap', ptr, calls)) :
      MallocStep use (.malloc bytes)
        ⟨heap', if ptr = 0 then use.live else (ptr, bytes) :: use.live⟩
  | free {use : MallocUse} {heap' : UserHeap} {ptr : Nat}
      (held : ptr = 0 ∨ ∃ bytes, (ptr, bytes) ∈ use.live)
      (done : use.heap.free ptr = some heap') :
      MallocStep use (.free ptr)
        ⟨heap', use.live.filter fun pair => pair.1 ≠ ptr⟩
  | store {use : MallocUse} {mem : Bytes}
      (outside : ∀ index, (∀ pair ∈ use.live,
        ¬ (pair.1 ≤ index ∧ index < pair.1 + pair.2)) →
          mem index = use.heap.space.mem index) :
      MallocStep use .store ⟨use.heap.setMem mem, use.live⟩

variable {use use' : MallocUse} {call : MallocCall}
  {calls : List MallocCall}

/-- A pointer that is held belongs to a block in use that is large enough. -/
def HeldFor (blocks : List Block) (pair : Nat × Nat) : Prop :=
  ∃ block ∈ blocks, block.addr + blockHeaderSize = pair.1 ∧
    block.free = false ∧ pair.2 ≤ block.size

/-- The invariant of a history. -/
structure MallocUse.Ok (use : MallocUse) (start : Nat)
    (blocks : List Block) : Prop where
  heap : use.heap.Ok start blocks
  held : ∀ pair ∈ use.live, HeldFor blocks pair
  distinct : (use.live.map Prod.fst).Nodup

/-- A block that is handed out joins what the program holds. -/
theorem MallocUse.Ok.hand (ok : use.Ok start blocks) {bytes : Nat}
    (ok' : heap'.Ok start blocks') (member : block ∈ blocks')
    (place : block.addr + blockHeaderSize = ptr) (inUse : block.free = false)
    (fits : bytes ≤ block.size)
    (others : ∀ old ∈ blocks, old.free = false →
      old ∈ blocks' ∧ old.addr ≠ block.addr) :
    ptr ≠ 0 ∧ MallocUse.Ok ⟨heap', (ptr, bytes) :: use.live⟩ start
      blocks' := by
  have nonzero : ptr ≠ 0 := by
    rw [← place]
    simp [blockHeaderSize]
  refine ⟨nonzero, ok', fun pair held => ?_, ?_⟩
  · rcases List.mem_cons.mp held with rfl | before
    · exact ⟨block, member, place, inUse, fits⟩
    · obtain ⟨old, oldMember, oldPlace, oldInUse, oldFits⟩ :=
        ok.held pair before
      exact ⟨old, (others old oldMember oldInUse).1, oldPlace, oldInUse,
        oldFits⟩
  · refine List.nodup_cons.mpr ⟨fun held => ?_, ok.distinct⟩
    obtain ⟨pair, inside, same⟩ := List.mem_map.mp held
    obtain ⟨old, oldMember, oldPlace, oldInUse, _⟩ := ok.held pair inside
    have apart := (others old oldMember oldInUse).2
    omega

theorem MallocUse.Ok.malloc (ok : use.Ok start blocks)
    (sound : SbrkOk sbrk) {bytes : Nat} (bound : bytes ≤ 2 ^ 31 - 16) :
    ∃ heap' ptr calls blocks',
      (∀ depth, use.heap.malloc sbrk (depth + 2) bytes =
        some (heap', ptr, calls)) ∧ calls.length ≤ 1 ∧
      (ptr = 0 → calls = [false]) ∧
      MallocUse.Ok ⟨heap', if ptr = 0 then use.live
        else (ptr, bytes) :: use.live⟩ start blocks' := by
  rcases ok.heap.malloc sound bound with
    failed | ⟨heap', ptr, calls, blocks', block, done, once, ok', member,
      place, inUse, fits, others⟩
  · refine ⟨_, 0, [false], blocks, failed, Nat.le_refl _, fun _ => rfl, ?_⟩
    rw [if_pos rfl]
    exact ok
  · obtain ⟨nonzero, okUse⟩ := ok.hand ok' member place inUse fits others
    refine ⟨heap', ptr, calls, blocks', done, ?_,
      fun zero => absurd zero nonzero, ?_⟩
    · rcases once with none | one
      · simp [none]
      · simp [one]
    · rw [if_neg nonzero]
      exact okUse

theorem MallocUse.Ok.free (ok : use.Ok start blocks)
    (held : ptr = 0 ∨ ∃ bytes, (ptr, bytes) ∈ use.live) :
    ∃ heap' blocks', use.heap.free ptr = some heap' ∧
      MallocUse.Ok ⟨heap', use.live.filter fun pair => pair.1 ≠ ptr⟩ start
        blocks' := by
  have distinct : ((use.live.filter fun pair => pair.1 ≠ ptr).map
      Prod.fst).Nodup := ok.distinct.sublist (List.filter_sublist.map _)
  by_cases zero : ptr = 0
  · refine ⟨use.heap, blocks, by rw [UserHeap.free, if_pos zero], ok.heap,
      fun pair kept => ok.held pair (List.mem_filter.mp kept).1, distinct⟩
  · obtain ⟨bytes, member⟩ := held.resolve_left zero
    obtain ⟨block, inList, place, _, _⟩ := ok.held _ member
    obtain ⟨heap', blocks', done, ok', others⟩ := ok.heap.free inList
    have pointer : block.addr + blockHeaderSize = ptr := place
    rw [pointer] at done
    refine ⟨heap', blocks', done, ok', fun pair kept => ?_, distinct⟩
    obtain ⟨inside, other⟩ := List.mem_filter.mp kept
    have different : pair.1 ≠ ptr := by simpa using other
    obtain ⟨old, oldMember, oldPlace, oldInUse, fits⟩ := ok.held pair inside
    exact ⟨old, others old oldMember oldInUse (by omega), oldPlace, oldInUse,
      fits⟩

theorem MallocUse.Ok.store (ok : use.Ok start blocks) {mem : Bytes}
    (outside : ∀ index, (∀ pair ∈ use.live,
      ¬ (pair.1 ≤ index ∧ index < pair.1 + pair.2)) →
        mem index = use.heap.space.mem index) :
    MallocUse.Ok ⟨use.heap.setMem mem, use.live⟩ start blocks := by
  have header : blockHeaderSize = 12 := rfl
  refine ⟨⟨?_, ok.heap.tiled, ok.heap.low, ok.heap.high, ok.heap.aligned,
    ok.heap.sizes⟩, ok.held, ok.distinct⟩
  refine ok.heap.threaded.congr fun block member index lower upper => ?_
  refine outside index fun pair held ⟨above, below⟩ => ?_
  obtain ⟨old, oldMember, oldPlace, _, fits⟩ := ok.held pair held
  by_cases same : old = block
  · rw [same] at oldPlace
    omega
  · have apart := ok.heap.tiled.apart oldMember member same
    omega

theorem MallocStep.ok (step : MallocStep use call use')
    (ok : use.Ok start blocks) : ∃ blocks', use'.Ok start blocks' := by
  cases step with
  | @malloc sbrk heap' bytes ptr calls sound bound done =>
      obtain ⟨heap'', ptr', calls', blocks', done', _, _, ok'⟩ :=
        ok.malloc sound bound
      rw [mallocDepth_eq, done'] at done
      simp only [Option.some.injEq, Prod.mk.injEq] at done
      obtain ⟨rfl, rfl, _⟩ := done
      exact ⟨blocks', ok'⟩
  | @free heap' ptr held done =>
      obtain ⟨heap'', blocks', done', ok'⟩ := ok.free held
      rw [done] at done'
      obtain rfl := Option.some.inj done'
      exact ⟨blocks', ok'⟩
  | store outside => exact ⟨blocks, ok.store outside⟩

/-- What a program may rely on. -/
structure MallocSound (use : MallocUse) (start : Nat)
    (blocks : List Block) : Prop where
  /-- The list is in the order of addresses and tiles the heap. -/
  threaded : Threaded use.heap.space.mem use.heap.freeList blocks
  tiled : Tiled blockHeaderSize start use.heap.space.brk blocks
  held : ∀ pair ∈ use.live, HeldFor blocks pair ∧ pair.1 % 4 = 0
  disjoint : use.live.Pairwise fun left right =>
    left.1 + blockSize use.heap.space.mem (left.1 - blockHeaderSize) ≤
        right.1 ∨
      right.1 + blockSize use.heap.space.mem (right.1 - blockHeaderSize) ≤
        left.1
  /-- `malloc` recurses at most once, and fails only when `sys_sbrk` did. -/
  mallocs : ∀ sbrk, SbrkOk sbrk → ∀ bytes ≤ 2 ^ 31 - 16,
    ∃ heap' ptr calls, (∀ depth, use.heap.malloc sbrk (depth + 2) bytes =
        some (heap', ptr, calls)) ∧ calls.length ≤ 1 ∧
      (ptr = 0 → calls = [false])
  frees : ∀ ptr, (ptr = 0 ∨ ∃ bytes, (ptr, bytes) ∈ use.live) →
    ∃ heap', use.heap.free ptr = some heap'

theorem MallocUse.Ok.sound (ok : use.Ok start blocks) :
    MallocSound use start blocks := by
  have header : blockHeaderSize = 12 := rfl
  have four : 4 ∣ blockHeaderSize := by decide
  obtain ⟨addresses, _⟩ :=
    ok.heap.tiled.dvd four ok.heap.aligned ok.heap.sizes
  refine ⟨ok.heap.threaded, ok.heap.tiled,
    fun pair member => ⟨ok.held pair member, ?_⟩, ?_,
    fun sbrk sound bytes bound => ?_, fun ptr held => ?_⟩
  · obtain ⟨block, inList, place, _⟩ := ok.held pair member
    have divides := addresses block inList
    omega
  · have distinct := List.pairwise_map.mp ok.distinct
    refine distinct.imp_of_mem fun {left right} inLeft inRight different => ?_
    obtain ⟨block, inList, place, _⟩ := ok.held left inLeft
    obtain ⟨block', inList', place', _⟩ := ok.held right inRight
    have apart := ok.heap.tiled.apart inList inList' fun same =>
      different (by rw [← place, ← place', same])
    have size := ok.heap.threaded.size_eq inList
    have size' := ok.heap.threaded.size_eq inList'
    rw [← place, ← place', Nat.add_sub_cancel, Nat.add_sub_cancel, size,
      size']
    omega
  · obtain ⟨heap', ptr, calls, _, done, once, fails, _⟩ :=
      ok.malloc sound bound
    exact ⟨heap', ptr, calls, done, once, fails⟩
  · obtain ⟨heap', _, done, _⟩ := ok.free held
    exact ⟨heap', done⟩

/-- The allocator of a program that has not called it: no blocks, and the
break at a page. -/
def emptyHeap (mem : Bytes) (start : Nat) : UserHeap :=
  ⟨⟨mem, start⟩, 0, 0⟩

theorem emptyHeap_ok {mem : Bytes} (nonzero : start ≠ 0)
    (page : pageSize ∣ start) (word : start < 2 ^ 32) :
    MallocUse.Ok ⟨emptyHeap mem start, []⟩ start [] := by
  have size : pageSize = 4096 := rfl
  rw [size] at page
  obtain ⟨pages, rfl⟩ := page
  have positive : 0 < pages := Nat.pos_of_ne_zero fun zero => nonzero (by
    rw [zero, Nat.mul_zero])
  refine ⟨⟨rfl, rfl, by omega, word, ⟨1024 * pages, by omega⟩, by simp⟩,
    by simp, .nil⟩

/-- After every history of calls the heap of a program is sound. -/
theorem mallocRun_sound {mem : Bytes} (nonzero : start ≠ 0)
    (page : pageSize ∣ start) (word : start < 2 ^ 32)
    (run : Run MallocStep ⟨emptyHeap mem start, []⟩ calls use) :
    ∃ blocks, MallocSound use start blocks := by
  obtain ⟨blocks, ok⟩ := run.invariant (fun use => ∃ blocks, use.Ok start blocks)
    (fun _ _ _ ⟨_, ok⟩ step => step.ok ok) ⟨[], emptyHeap_ok nonzero page word⟩
  exact ⟨blocks, ok.sound⟩

/-- A kernel that extends the memory as long as the break is below 2^30. -/
def sampleSbrk : Sbrk := fun space delta =>
  if space.brk = 0 ∨ 2 ^ 30 < space.brk then (0, space)
  else (space.brk, ⟨space.mem, space.brk + delta⟩)

theorem sampleSbrk_ok : SbrkOk sampleSbrk := by
  refine ⟨fun space delta positive bound => ?_⟩
  rw [sampleSbrk]
  split
  case isTrue => exact .inl rfl
  case isFalse low =>
    refine .inr ⟨space.mem, rfl, by omega, by omega, fun _ _ => rfl⟩

/-- A program asks for ten bytes and then for two pages. -/
theorem sampleMalloc_sound : ∃ use blocks,
    Run MallocStep ⟨emptyHeap (fun _ => 0) pageSize, []⟩
        [.malloc 10, .malloc 8192] use ∧
      MallocSound use pageSize blocks := by
  have empty : MallocUse.Ok ⟨emptyHeap (fun _ => 0) pageSize, []⟩ pageSize
    [] := emptyHeap_ok (by decide) (by decide) (by decide)
  obtain ⟨first, ptr, _, _, done, _, _, ok⟩ :=
    empty.malloc sampleSbrk_ok (by decide : 10 ≤ 2 ^ 31 - 16)
  obtain ⟨second, ptr', _, _, done', _, _, _⟩ :=
    ok.malloc sampleSbrk_ok (by decide : 8192 ≤ 2 ^ 31 - 16)
  have reached := done (2 ^ 32 - 2)
  have reached' := done' (2 ^ 32 - 2)
  rw [← mallocDepth_eq] at reached reached'
  have run : Run MallocStep ⟨emptyHeap (fun _ => 0) pageSize, []⟩
      [.malloc 10, .malloc 8192] _ :=
    .cons (.malloc sampleSbrk_ok (by decide) reached)
      (.cons (.malloc sampleSbrk_ok (by decide) reached') .nil)
  obtain ⟨blocks, sound⟩ :=
    mallocRun_sound (by decide) (by decide) (by decide) run
  exact ⟨_, blocks, run, sound⟩

end LoafOs
