import LoafOs.Mm.HeapRun

/-!
# Giving all of the heap back

`kfree` compares a pointer with `heap_end`, which `heap_init` sets one
header below the end of the arena.  A last block of at most that many
payload bytes has its pointer on the wrong side of the bound: `kmalloc`
hands it out and `kfree` never takes it back.  Every other pointer is
taken back, and a history that frees all it was given then ends with the
one block that it started with.
-/

namespace LoafOs

open Arena Runs

/-- The payload behind a pointer ends the arena and is no longer than the
header by which `heap_end` falls short of it. -/
def EndsShort (heap : Heap) (stop ptr : Nat) : Prop :=
  ptr + payloadSize heap ptr = stop ∧
    payloadSize heap ptr ≤ blockHeaderSize

/-- A call that frees no such pointer. -/
def ClearOfEnd (stop : Nat) (use : HeapUse) (call : HeapCall) : Prop :=
  ∀ ptr ∈ use.live, call = .kfree ptr → ¬ EndsShort use.heap stop ptr

/-- A call that frees no pointer outside the heap bounds. -/
def Admitted (use : HeapUse) (call : HeapCall) : Prop :=
  ∀ ptr ∈ use.live, call = .kfree ptr → ¬ Refuses use.heap ptr

/-- The heap is a single free block of a size. -/
def SingleFree (heap : Heap) (start size : Nat) : Prop :=
  heap.freeList = start ∧ blockSize heap.mem start = size ∧
    blockNext heap.mem start = 0 ∧ blockFree heap.mem start = true

variable {heap heap' : Heap} {use use' : HeapUse} {call : HeapCall}
  {mem : Bytes} {start stop curr ptr bytes fuel : Nat}
  {blocks blocks' : List Block}

/-- The links in memory spell out one list. -/
theorem Threaded.unique (threaded : Threaded mem curr blocks)
    (threaded' : Threaded mem curr blocks') : blocks = blocks' := by
  induction blocks generalizing curr blocks' with
  | nil =>
      cases blocks' with
      | nil => rfl
      | cons first' rest' => exact absurd threaded threaded'.1
  | cons first rest inductionHypothesis =>
      cases blocks' with
      | nil => exact absurd threaded' threaded.1
      | cons first' rest' =>
          obtain ⟨_, position, size, free, tail⟩ := threaded
          obtain ⟨_, position', size', free', tail'⟩ := threaded'
          have same : first = first' := by
            cases first
            cases first'
            simp_all
          rw [same, inductionHypothesis tail tail']

/-! ## The bound -/

theorem kmallocFrom_heapEnd
    (done : kmallocFrom heap bytes fuel curr = some (heap', ptr)) :
    heap'.heapEnd = heap.heapEnd := by
  induction fuel generalizing curr with
  | zero => simp [kmallocFrom] at done
  | succ fuel inductionHypothesis =>
      rw [kmallocFrom] at done
      split at done
      case isTrue zero =>
        simp only [Option.some.injEq, Prod.mk.injEq] at done
        rw [← done.1]
      case isFalse nonzero =>
        split at done
        case isTrue fits =>
          simp only [Option.some.injEq, Prod.mk.injEq] at done
          rw [← done.1]
        case isFalse small => exact inductionHypothesis done

theorem kfree_heapEnd (done : kfree heap ptr = some heap') :
    heap'.heapEnd = heap.heapEnd := by
  rw [kfree] at done
  split at done
  case isTrue zero => rw [← Option.some.inj done]
  case isFalse nonzero =>
    split at done
    case isTrue refused => rw [← Option.some.inj done]
    case isFalse admitted =>
      simp only at done
      split at done
      case isTrue free => rw [← Option.some.inj done]
      case isFalse inUse =>
        obtain ⟨mem', _, same⟩ := Option.map_eq_some_iff.mp done
        rw [← same]

theorem HeapStep.heapEnd (step : HeapStep use call use') :
    use'.heap.heapEnd = use.heap.heapEnd := by
  cases step with
  | kmalloc word done => exact kmallocFrom_heapEnd done
  | kfree held done => exact kfree_heapEnd done

/-! ## Which pointers stay in use -/

/-- The invariant of a history with the place of the bound and the size of
the last block. -/
structure HeapUse.Bounded (use : HeapUse) (stop : Nat)
    (blocks : List Block) : Prop where
  ok : use.Ok stop blocks
  limit : use.heap.heapEnd + blockHeaderSize = stop
  roomy : RoomyEnd 4 blocks

/-- The bound check refuses just the pointers that end short. -/
theorem HeapUse.Bounded.refuses_iff (bounded : use.Bounded stop blocks)
    (held : ptr ∈ use.live) :
    Refuses use.heap ptr ↔ EndsShort use.heap stop ptr := by
  obtain ⟨block, member, place, _⟩ := bounded.ok.held ptr held
  have inside := bounded.ok.heap.tiled.inside member
  have behind := bounded.ok.heap.tiled.behind bounded.roomy member
  have size := bounded.ok.heap.payloadSize_eq member
  have base := bounded.ok.heap.base
  have limit := bounded.limit
  have header : blockHeaderSize = 12 := rfl
  rw [place] at size
  rw [Refuses, EndsShort, size, base]
  omega

/-- What first fit does to the pointers in use. -/
theorem firstFit_held {need : Nat} {taken : Block}
    (found : firstFit blockHeaderSize 4 need blocks =
      some (blocks', taken)) :
    Held blocks' ptr ↔
      Held blocks ptr ∨ taken.addr + blockHeaderSize = ptr := by
  refine ⟨fun held => ?_, fun held => ?_⟩
  · obtain ⟨block, member, place, inUse⟩ := held
    rcases firstFit_used found member inUse with old | new
    · exact .inl ⟨block, old, place, inUse⟩
    · exact .inr (new ▸ place)
  · rcases held with ⟨block, member, place, inUse⟩ | new
    · exact ⟨block, firstFit_keeps found member inUse, place, inUse⟩
    · obtain ⟨block, member, place, inUse, _⟩ := firstFit_taken found
      exact ⟨block, member, by rw [place, new], inUse⟩

/-- The block that first fit takes is not in use. -/
theorem HeapOk.taken_unheld {need : Nat} {taken : Block}
    (ok : HeapOk heap stop blocks)
    (found : firstFit blockHeaderSize 4 need blocks =
      some (blocks', taken)) :
    ¬ Held blocks (taken.addr + blockHeaderSize) := by
  rintro ⟨block, member, place, inUse⟩
  have same := ok.tiled.eq_of_addr (by decide) member
    (firstFit_member found) (Nat.add_right_cancel place)
  rw [same, (firstFit_split found).1] at inUse
  simp at inUse

/-- Two accounts of one heap agree. -/
theorem HeapOk.unique (ok : HeapOk heap stop blocks)
    (ok' : HeapOk heap stop blocks') : blocks = blocks' :=
  ok.threaded.unique ok'.threaded

/-- A pointer that `kmalloc` hands out was not in use. -/
theorem HeapUse.Bounded.kmalloc (bounded : use.Bounded stop blocks)
    (step : HeapStep use (.kmalloc bytes) use') :
    ∃ blocks', use'.Bounded stop blocks' ∧
      ((use'.live = use.live ∧ blocks' = blocks) ∨
        ∃ ptr, use'.live = ptr :: use.live ∧ ¬ Held blocks ptr ∧
          ∀ other, Held blocks' other ↔ Held blocks other ∨ ptr = other) := by
  have limit : use'.heap.heapEnd + blockHeaderSize = stop := by
    rw [step.heapEnd]
    exact bounded.limit
  obtain ⟨_, after, ok'⟩ := step.ok bounded.ok
  cases step with
  | @kmalloc heap' bytes ptr word done =>
      cases found : firstFit blockHeaderSize 4 (roundRequest bytes) blocks with
      | none =>
          have same := bounded.ok.heap.kmalloc_none found
          rw [done] at same
          simp only [Option.some.injEq, Prod.mk.injEq] at same
          obtain ⟨sameHeap, zero⟩ := same
          subst sameHeap
          have equal := bounded.ok.heap.unique ok'.heap
          subst equal
          refine ⟨blocks, ⟨ok', limit, bounded.roomy⟩, .inl ⟨?_, rfl⟩⟩
          rw [if_pos zero]
      | some result =>
          obtain ⟨blocks', taken⟩ := result
          obtain ⟨heap'', done', okHeap, _, _⟩ :=
            bounded.ok.heap.kmalloc_some found
          rw [done] at done'
          simp only [Option.some.injEq, Prod.mk.injEq] at done'
          obtain ⟨sameHeap, samePtr⟩ := done'
          subst sameHeap samePtr
          have equal := okHeap.unique ok'.heap
          subst equal
          have nonzero : taken.addr + blockHeaderSize ≠ 0 := by
            simp only [blockHeaderSize]
            omega
          refine ⟨blocks', ⟨ok', limit,
            bounded.roomy.firstFit (Nat.le_refl 4) found⟩,
            .inr ⟨taken.addr + blockHeaderSize, by rw [if_neg nonzero],
              bounded.ok.heap.taken_unheld found,
              fun other => firstFit_held found⟩⟩

/-- A pointer that is freed leaves use unless the bound check refuses it. -/
theorem HeapUse.Bounded.kfree (bounded : use.Bounded stop blocks)
    (member : ptr ∈ use.live) (step : HeapStep use (.kfree ptr) use') :
    ∃ blocks', use'.Bounded stop blocks' ∧
      use'.live = use.live.erase ptr ∧
      ((Refuses use.heap ptr ∧ blocks' = blocks) ∨
        (¬ Refuses use.heap ptr ∧
          ∀ other, Held blocks' other ↔ Held blocks other ∧ ptr ≠ other)) := by
  have limit : use'.heap.heapEnd + blockHeaderSize = stop := by
    rw [step.heapEnd]
    exact bounded.limit
  obtain ⟨_, after, ok'⟩ := step.ok bounded.ok
  obtain ⟨block, inList, place, inUse⟩ := bounded.ok.held ptr member
  have nonzero : ptr ≠ 0 := by
    rw [← place]
    simp only [blockHeaderSize]
    omega
  cases step with
  | @kfree heap' ptr held done =>
      by_cases refused : Refuses use.heap ptr
      · have same := kfree_refused nonzero refused
        rw [done] at same
        have sameHeap : heap' = use.heap := Option.some.inj same
        subst sameHeap
        have equal := bounded.ok.heap.unique ok'.heap
        subst equal
        exact ⟨blocks, ⟨ok', limit, bounded.roomy⟩, rfl,
          .inl ⟨refused, rfl⟩⟩
      · rw [← place] at done refused
        obtain ⟨heap'', blocks', done', okHeap, _, kept, shape, _, _⟩ :=
          bounded.ok.heap.kfree_released inList inUse refused
        rw [done] at done'
        have sameHeap : heap' = heap'' := Option.some.inj done'
        subst sameHeap
        have equal := okHeap.unique ok'.heap
        subst equal
        obtain ⟨current, rest, front, merged⟩ := shape
        have roomy : RoomyEnd 4 blocks' := by
          have released : RoomyEnd 4 (release block.addr blocks) :=
            bounded.roomy.release
          rw [front] at released
          rw [merged]
          exact released.mergeFrom
        refine ⟨blocks', ⟨ok', limit, roomy⟩, rfl,
          .inr ⟨place ▸ refused, fun other => ⟨?_, ?_⟩⟩⟩
        · rintro ⟨block', member', place', inUse'⟩
          rw [merged] at member'
          have released := mergeFrom_used member' inUse'
          rw [← front] at released
          obtain ⟨old, apart⟩ := release_used bounded.ok.heap.tiled
            (by decide) released inUse'
          exact ⟨⟨block', old, place', inUse'⟩, by omega⟩
        · rintro ⟨⟨block', member', place', inUse'⟩, different⟩
          exact ⟨block', kept block' member' inUse' (by omega), place',
            inUse'⟩

theorem HeapUse.Bounded.ne_zero (bounded : use.Bounded stop blocks)
    (member : ptr ∈ use.live) : ptr ≠ 0 := by
  obtain ⟨block, _, place, _⟩ := bounded.ok.held ptr member
  rw [← place]
  simp only [blockHeaderSize]
  omega

/-- `kfree(NULL)` changes nothing. -/
theorem HeapUse.Bounded.kfree_null (bounded : use.Bounded stop blocks)
    (step : HeapStep use (.kfree 0) use') : use' = use := by
  cases step with
  | @kfree heap' ptr held done =>
      have same : heap' = use.heap := by
        rw [LoafOs.kfree, if_pos rfl] at done
        exact (Option.some.inj done).symm
      have absent : 0 ∉ use.live := fun member =>
        bounded.ne_zero member rfl
      rw [same, List.erase_of_not_mem absent]

/-! ## Runs -/

/-- Every block in use belongs to a pointer that is held. -/
def Tracked (stop : Nat) (use : HeapUse) : Prop :=
  ∃ blocks, use.Bounded stop blocks ∧
    ∀ ptr, Held blocks ptr → ptr ∈ use.live

/-- Some block in use belongs to nobody. -/
def Lost (stop : Nat) (use : HeapUse) : Prop :=
  ∃ blocks, use.Bounded stop blocks ∧
    ∃ ptr, Held blocks ptr ∧ ptr ∉ use.live

/-- Freeing clear of the end keeps every block in use tracked. -/
theorem Tracked.step (tracked : Tracked stop use)
    (step : HeapStep use call use') (clear : ClearOfEnd stop use call) :
    Tracked stop use' := by
  obtain ⟨blocks, bounded, owned⟩ := tracked
  cases call with
  | kmalloc bytes =>
      obtain ⟨blocks', bounded', same | taken⟩ := bounded.kmalloc step
      · refine ⟨blocks', bounded', fun other held => ?_⟩
        rw [same.1]
        exact owned other (same.2 ▸ held)
      · obtain ⟨ptr, live, _, held⟩ := taken
        refine ⟨blocks', bounded', fun other inUse => ?_⟩
        rw [live]
        rcases (held other).mp inUse with old | new
        · exact List.mem_cons_of_mem _ (owned other old)
        · exact new ▸ List.mem_cons_self ..
  | kfree ptr =>
      by_cases member : ptr ∈ use.live
      · obtain ⟨blocks', bounded', live, refused | released⟩ :=
          bounded.kfree member step
        · have short := (bounded.refuses_iff member).mp refused.1
          exact absurd short (clear ptr member rfl)
        · refine ⟨blocks', bounded', fun other inUse => ?_⟩
          obtain ⟨old, different⟩ := (released.2 other).mp inUse
          rw [live]
          exact (List.mem_erase_of_ne (Ne.symm different)).mpr
            (owned other old)
      · have null : ptr = 0 := by
          cases step with
          | kfree held done => exact held.resolve_right member
        subst null
        rw [bounded.kfree_null step]
        exact ⟨blocks, bounded, owned⟩

/-- A block that is lost stays in use. -/
theorem Lost.step (lost : Lost stop use) (step : HeapStep use call use') :
    Lost stop use' := by
  obtain ⟨blocks, bounded, gone, inUse, unowned⟩ := lost
  cases call with
  | kmalloc bytes =>
      obtain ⟨blocks', bounded', same | taken⟩ := bounded.kmalloc step
      · exact ⟨blocks', bounded', gone, same.2 ▸ inUse, same.1 ▸ unowned⟩
      · obtain ⟨ptr, live, fresh, held⟩ := taken
        refine ⟨blocks', bounded', gone, (held gone).mpr (.inl inUse), ?_⟩
        rw [live]
        intro member
        rcases List.mem_cons.mp member with same | old
        · exact fresh (same ▸ inUse)
        · exact unowned old
  | kfree ptr =>
      by_cases member : ptr ∈ use.live
      · have away : gone ∉ use.live.erase ptr := fun kept =>
          unowned (List.mem_of_mem_erase kept)
        obtain ⟨blocks', bounded', live, refused | released⟩ :=
          bounded.kfree member step
        · exact ⟨blocks', bounded', gone, refused.2 ▸ inUse, live ▸ away⟩
        · have different : ptr ≠ gone := fun same =>
            unowned (same ▸ member)
          exact ⟨blocks', bounded', gone,
            (released.2 gone).mpr ⟨inUse, different⟩, live ▸ away⟩
      · have null : ptr = 0 := by
          cases step with
          | kfree held done => exact held.resolve_right member
        subst null
        rw [bounded.kfree_null step]
        exact ⟨blocks, bounded, gone, inUse, unowned⟩

/-- A pointer that ends short is lost when it is freed. -/
theorem Tracked.loses (tracked : Tracked stop use)
    (step : HeapStep use call use') (short : ¬ ClearOfEnd stop use call) :
    Lost stop use' := by
  obtain ⟨blocks, bounded, owned⟩ := tracked
  simp only [ClearOfEnd, not_forall, not_not] at short
  obtain ⟨ptr, member, freed, ends⟩ := short
  subst freed
  obtain ⟨blocks', bounded', live, refused | released⟩ :=
    bounded.kfree member step
  · refine ⟨blocks', bounded', ptr, refused.2 ▸ bounded.ok.held ptr member,
      ?_⟩
    rw [live]
    exact bounded.ok.nodup.not_mem_erase
  · exact absurd ((bounded.refuses_iff member).mpr ends) released.1

theorem Tracked.admitted_iff (tracked : Tracked stop use) :
    Admitted use call ↔ ClearOfEnd stop use call := by
  obtain ⟨blocks, bounded, _⟩ := tracked
  refine forall_congr' fun ptr => forall_congr' fun member =>
    forall_congr' fun freed => not_congr ?_
  exact bounded.refuses_iff member

/-- With nothing held, the arena is one free block just when nothing is
lost. -/
theorem Tracked.single (tracked : Tracked stop use)
    (room : use.heap.freeList < stop) (allFreed : use.live = []) :
    SingleFree use.heap use.heap.freeList
      (stop - use.heap.freeList - blockHeaderSize) := by
  obtain ⟨blocks, bounded, owned⟩ := tracked
  have unused : ∀ block ∈ blocks, block.free = true := by
    intro block member
    by_contra inUse
    have held := owned _ ⟨block, member, rfl, by simpa using inUse⟩
    rw [allFreed] at held
    simp at held
  have shape := bounded.ok.heap.settled.single bounded.ok.heap.tiled room
    unused
  have threaded := bounded.ok.heap.threaded
  rw [shape] at threaded
  exact ⟨rfl, threaded.2.2.1, threaded.2.2.2.2, threaded.2.2.2.1⟩

theorem Lost.not_single {start size : Nat} (lost : Lost stop use) :
    ¬ SingleFree use.heap start size := by
  rintro ⟨place, sized, last, marked⟩
  obtain ⟨blocks, bounded, ptr, ⟨block, member, _, inUse⟩, _⟩ := lost
  have nonzero : start ≠ 0 := by
    have low := bounded.ok.heap.low
    omega
  have alone : Threaded use.heap.mem use.heap.freeList
      [⟨start, size, true⟩] := by
    rw [place]
    exact ⟨nonzero, rfl, sized, marked, last⟩
  have same := bounded.ok.heap.threaded.unique alone
  rw [same] at member
  have only : block = ⟨start, size, true⟩ := by simpa using member
  rw [only] at inUse
  simp at inUse

theorem Tracked.freeList (tracked : Tracked stop use)
    (step : HeapStep use call use') :
    use'.heap.freeList = use.heap.freeList := by
  obtain ⟨blocks, bounded, _⟩ := tracked
  exact (step.ok bounded.ok).1

/-- A call with its effect that frees clear of the end of the arena. -/
def ClearStep (stop : Nat) (use : HeapUse) (call : HeapCall)
    (use' : HeapUse) : Prop :=
  HeapStep use call use' ∧ ClearOfEnd stop use call

/-- A call with its effect that the bound check does not refuse. -/
def AdmittedStep (use : HeapUse) (call : HeapCall) (use' : HeapUse) :
    Prop :=
  HeapStep use call use' ∧ Admitted use call

/-- What a run of clear steps preserves. -/
theorem Tracked.run {calls : List HeapCall} (tracked : Tracked stop use)
    (run : Run (ClearStep stop) use calls use') :
    Tracked stop use' ∧ use'.heap.freeList = use.heap.freeList :=
  run.invariant
    (fun state => Tracked stop state ∧
      state.heap.freeList = use.heap.freeList)
    (fun _ _ _ before step =>
      ⟨before.1.step step.1 step.2,
        (before.1.freeList step.1).trans before.2⟩)
    ⟨tracked, rfl⟩

/-- What any run preserves once a block is lost. -/
theorem Lost.run {calls : List HeapCall} (lost : Lost stop use)
    (run : Run HeapStep use calls use') : Lost stop use' :=
  run.invariant (Lost stop) (fun _ _ _ before step => before.step step) lost

/-- The runs in which nothing is refused are the clear ones. -/
theorem Tracked.admitted_run_iff {calls : List HeapCall}
    (tracked : Tracked stop use) :
    Run AdmittedStep use calls use' ↔ Run (ClearStep stop) use calls use' := by
  refine ⟨fun run => ?_, fun run => ?_⟩
  · induction run with
    | nil => exact .nil
    | cons first _ inductionHypothesis =>
        have clear := tracked.admitted_iff.mp first.2
        exact .cons ⟨first.1, clear⟩
          (inductionHypothesis (tracked.step first.1 clear))
  · induction run with
    | nil => exact .nil
    | cons first _ inductionHypothesis =>
        exact .cons ⟨first.1, tracked.admitted_iff.mpr first.2⟩
          (inductionHypothesis (tracked.step first.1 first.2))

/-- `heap_init` puts the bound one header below the end of the arena. -/
theorem heapInit_tracked {pmm pmm' : Pmm} {numFrames : Nat}
    (small : pmm.bitmapSize ≤ 520)
    (booted : heapInit pmm mem numFrames = some (pmm', heap)) :
    heap.freeList < heap.freeList + numFrames * pageSize ∧
      Tracked (heap.freeList + numFrames * pageSize) ⟨heap, []⟩ := by
  have ok := heapInit_ok small booted
  have high := ok.heap.high
  have sum := ok.heap.tiled.2
  have header : blockHeaderSize = 12 := rfl
  have page : numFrames * pageSize = numFrames * 4096 := rfl
  have filled : heap.freeList + blockHeaderSize +
      (numFrames * pageSize - blockHeaderSize) =
        heap.freeList + numFrames * pageSize := sum
  have limit : heap.heapEnd = heap.freeList +
      (numFrames * pageSize - blockHeaderSize) := by
    rw [heapInit] at booted
    cases found : pmm.allocFrames numFrames with
    | none => simp [found] at booted
    | some result =>
        simp only [found, Option.some.injEq, Prod.mk.injEq] at booted
        have same := booted.2
        subst same
        simp only [u32] at high filled ⊢
        omega
  refine ⟨by omega, _, ⟨ok, ?_, ?_⟩, fun ptr held => ?_⟩
  · rw [limit]
    omega
  · intro last isLast
    have same := Option.some.inj isLast
    rw [← same]
    change 4 ≤ numFrames * pageSize - blockHeaderSize
    omega
  · obtain ⟨block, member, _, inUse⟩ := held
    have only := List.mem_singleton.mp member
    rw [only] at inUse
    simp at inUse

/-- When all pointers are given back, the heap is the one free block that
it was, and likewise `kfree` refused none of them, just when no call freed
a last block of at most twelve payload bytes. -/
theorem heapRun_restored_iff {pmm pmm' : Pmm} {extKb : UInt16}
    {numFrames : Nat} {calls : List HeapCall}
    (sized : pmm.bitmapSize = bitmapWords (highestAddr extKb))
    (booted : heapInit pmm mem numFrames = some (pmm', heap))
    (run : Run HeapStep ⟨heap, []⟩ calls use)
    (allFreed : use.live = []) :
    (SingleFree use.heap heap.freeList
        (numFrames * pageSize - blockHeaderSize) ↔
      Run (ClearStep (heap.freeList + numFrames * pageSize)) ⟨heap, []⟩
        calls use) ∧
    (Run AdmittedStep ⟨heap, []⟩ calls use ↔
      Run (ClearStep (heap.freeList + numFrames * pageSize)) ⟨heap, []⟩
        calls use) := by
  obtain ⟨room, start⟩ :=
    heapInit_tracked (sized ▸ bitmapWords_le extKb) booted
  refine ⟨⟨fun single => ?_, fun clear => ?_⟩, start.admitted_run_iff⟩
  · rcases run.all_or_first
      (ClearOfEnd (heap.freeList + numFrames * pageSize)) with all | found
    · exact all
    · obtain ⟨before, bad, after, earlier, later, good, step, short, rest⟩ :=
        found
      have lost := (start.run good).1.loses step short
      exact absurd single (lost.run rest).not_single
  · obtain ⟨tracked, place⟩ := start.run clear
    have same : use.heap.freeList = heap.freeList := place
    have single := tracked.single (by rw [same]; exact room) allFreed
    rw [same, Nat.add_sub_cancel_left] at single
    exact single

/-- A request that takes a known block. -/
theorem HeapUse.Ok.taking {need : Nat} {taken : Block}
    (ok : use.Ok stop blocks) (bytes : Nat) (word : bytes < 2 ^ 32)
    (rounded : roundRequest bytes = need)
    (found : firstFit blockHeaderSize 4 need blocks =
      some (blocks', taken)) :
    ∃ heap', HeapStep use (.kmalloc bytes)
        ⟨heap', (taken.addr + blockHeaderSize) :: use.live⟩ ∧
      HeapUse.Ok ⟨heap', (taken.addr + blockHeaderSize) :: use.live⟩ stop
        blocks' := by
  subst rounded
  obtain ⟨heap', done, ok', _, _⟩ := ok.heap.kmalloc_some found
  have nonzero : taken.addr + blockHeaderSize ≠ 0 := by
    simp only [blockHeaderSize]
    omega
  have step : HeapStep use (.kmalloc bytes) _ := .kmalloc word done
  rw [if_neg nonzero] at step
  obtain ⟨_, after, okAfter⟩ := step.ok ok
  have same := ok'.unique okAfter.heap
  exact ⟨heap', step, same ▸ okAfter⟩

/-- A release of a pointer that is held. -/
theorem HeapUse.Ok.giving (ok : use.Ok stop blocks) (ptr : Nat)
    (member : ptr ∈ use.live) :
    ∃ heap', HeapStep use (.kfree ptr) ⟨heap', use.live.erase ptr⟩ ∧
      ∃ blocks', HeapUse.Ok ⟨heap', use.live.erase ptr⟩ stop blocks' := by
  obtain ⟨heap', blocks', done, _, _, ok'⟩ := ok.kfree (.inr member)
  exact ⟨heap', .kfree (.inr member) done, blocks', ok'⟩

theorem clearOfEnd_kmalloc : ClearOfEnd stop use (.kmalloc bytes) :=
  fun _ _ freed => by simp at freed

/-- A request and its release on a heap of one frame. -/
theorem heapRun_restored_sample :
    ∃ use, Run HeapStep ⟨sampleHeap, []⟩
        [.kmalloc 10, .kfree 3221225484] use ∧
      SingleFree use.heap 3221225472 4084 ∧
      Run AdmittedStep ⟨sampleHeap, []⟩
        [.kmalloc 10, .kfree 3221225484] use := by
  have start := heapInit_ok (by decide) sampleHeap_booted
  obtain ⟨heap₁, taken, ok₁⟩ := start.taking 10 (by decide) rfl
    (by rfl : firstFit blockHeaderSize 4 12
      [⟨sampleHeap.freeList, 1 * pageSize - blockHeaderSize, true⟩] =
        some ([⟨3221225472, 12, false⟩, ⟨3221225496, 4060, true⟩],
          ⟨3221225472, 4084, true⟩))
  obtain ⟨heap₂, given, _⟩ := ok₁.giving 3221225484
    (List.mem_cons_self ..)
  have size : payloadSize heap₁ 3221225484 = 12 :=
    ok₁.heap.payloadSize_eq (List.mem_cons_self ..)
  have clear : ClearOfEnd (sampleHeap.freeList + 1 * pageSize)
      ⟨heap₁, [3221225484]⟩ (.kfree 3221225484) := by
    intro ptr member _ short
    have same : ptr = 3221225484 := by simpa using member
    have ends := short.1
    simp only [same, size, sampleHeap, pageSize] at ends
    omega
  have run : Run HeapStep ⟨sampleHeap, []⟩
      [.kmalloc 10, .kfree 3221225484] _ :=
    .cons taken (.cons given .nil)
  have sized : samplePmm.bitmapSize = bitmapWords (highestAddr 0) := by
    decide
  have iffs := heapRun_restored_iff sized sampleHeap_booted run rfl
  have clearRun : Run (ClearStep (sampleHeap.freeList + 1 * pageSize))
      ⟨sampleHeap, []⟩ [.kmalloc 10, .kfree 3221225484] _ :=
    .cons ⟨taken, clearOfEnd_kmalloc⟩ (.cons ⟨given, clear⟩ .nil)
  exact ⟨_, run, iffs.1.mpr clearRun, iffs.2.mpr clearRun⟩

/-- The four bytes that a request of 4068 leaves at the end of a frame are
handed out and not taken back. -/
theorem lastBlock_unreturned :
    ∃ use, Run HeapStep ⟨sampleHeap, []⟩
        [.kmalloc 4068, .kmalloc 4, .kfree 3221229564,
          .kfree 3221225484] use ∧
      use.live = [] ∧ ¬ SingleFree use.heap 3221225472 4084 := by
  have start := heapInit_ok (by decide) sampleHeap_booted
  obtain ⟨_, tracked⟩ := heapInit_tracked (by decide) sampleHeap_booted
  obtain ⟨heap₁, first, ok₁⟩ := start.taking 4068 (by decide) rfl
    (by rfl : firstFit blockHeaderSize 4 4068
      [⟨sampleHeap.freeList, 1 * pageSize - blockHeaderSize, true⟩] =
        some ([⟨3221225472, 4068, false⟩, ⟨3221229552, 4, true⟩],
          ⟨3221225472, 4084, true⟩))
  obtain ⟨heap₂, second, ok₂⟩ := ok₁.taking 4 (by decide) rfl
    (by rfl : firstFit blockHeaderSize 4 4
      [⟨3221225472, 4068, false⟩, ⟨3221229552, 4, true⟩] =
        some ([⟨3221225472, 4068, false⟩, ⟨3221229552, 4, false⟩],
          ⟨3221229552, 4, true⟩))
  obtain ⟨heap₃, third, _, ok₃⟩ := ok₂.giving 3221229564
    (List.mem_cons_self ..)
  have kept : 3221225484 ∈
      [3221229564, 3221225484].erase 3221229564 := by
    decide
  obtain ⟨heap₄, fourth, _⟩ := ok₃.giving 3221225484 kept
  have last : (⟨3221229552, 4, false⟩ : Block) ∈
      [⟨3221225472, 4068, false⟩, ⟨3221229552, 4, false⟩] := by
    simp
  have size : payloadSize heap₂ 3221229564 = 4 :=
    ok₂.heap.payloadSize_eq last
  have short : ¬ ClearOfEnd (sampleHeap.freeList + 1 * pageSize)
      ⟨heap₂, [3221229564, 3221225484]⟩ (.kfree 3221229564) := by
    intro clear
    refine clear _ (List.mem_cons_self ..) rfl ⟨?_, ?_⟩
    · rw [size]
      rfl
    · rw [size]
      decide
  have lost := ((tracked.step first clearOfEnd_kmalloc).step second
    clearOfEnd_kmalloc).loses third short
  exact ⟨_, .cons first (.cons second (.cons third (.cons fourth .nil))),
    rfl, (lost.step fourth).not_single⟩

end LoafOs
