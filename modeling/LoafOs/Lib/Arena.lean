import Mathlib.Data.List.Basic
import Mathlib.Data.List.Pairwise
import Mathlib.Data.Nat.Basic

/-!
# Blocks that tile an arena

An allocator of the first-fit kind cuts an arena into blocks, each a header
of fixed size followed by its payload.  The three operations are stated on
the list of blocks: take the first free block that is large enough and
split it when the rest can stand alone, mark a block free, and merge free
neighbours in one pass from the front.
-/

namespace Arena

/-- A block by the address of its header, its payload size and its mark. -/
structure Block where
  addr : Nat
  size : Nat
  free : Bool
  deriving DecidableEq, Repr

/-- The blocks fill the addresses from `start` to `stop` in order. -/
def Tiled (header : Nat) : Nat → Nat → List Block → Prop
  | start, stop, [] => start = stop
  | start, stop, block :: rest =>
      block.addr = start ∧
        Tiled header (start + header + block.size) stop rest

/-- No two neighbours are both free. -/
def Settled : List Block → Prop
  | [] => True
  | [_] => True
  | block :: next :: rest =>
      ¬ (block.free ∧ next.free) ∧ Settled (next :: rest)

/-- First fit.  The result is the new list and the block that was taken,
as it was before. -/
def firstFit (header slack need : Nat) :
    List Block → Option (List Block × Block)
  | [] => none
  | block :: rest =>
      if block.free = true ∧ need ≤ block.size then
        if need + header + slack ≤ block.size then
          some (⟨block.addr, need, false⟩ ::
            ⟨block.addr + header + need, block.size - need - header, true⟩ ::
              rest, block)
        else
          some (⟨block.addr, block.size, false⟩ :: rest, block)
      else
        (firstFit header slack need rest).map fun found =>
          (block :: found.1, found.2)

/-- Mark the block at an address free. -/
def release (addr : Nat) : List Block → List Block
  | [] => []
  | block :: rest =>
      if block.addr = addr then ⟨block.addr, block.size, true⟩ :: rest
      else block :: release addr rest

/-- One merging pass, with the block that it has reached. -/
def mergeFrom (header : Nat) (current : Block) : List Block → List Block
  | [] => [current]
  | next :: rest =>
      if current.free = true ∧ next.free = true then
        mergeFrom header
          ⟨current.addr, current.size + (header + next.size), true⟩ rest
      else
        current :: mergeFrom header next rest

variable {header slack need start stop addr : Nat}
  {block current taken : Block} {blocks blocks' rest : List Block}

theorem Tiled.le (tiled : Tiled header start stop blocks) :
    start ≤ stop := by
  induction blocks generalizing start with
  | nil => exact Nat.le_of_eq tiled
  | cons block rest inductionHypothesis =>
      have tail := inductionHypothesis tiled.2
      omega

theorem Tiled.length_le (tiled : Tiled header start stop blocks) :
    start + header * blocks.length ≤ stop := by
  induction blocks generalizing start with
  | nil => exact Nat.le_of_eq tiled
  | cons block rest inductionHypothesis =>
      have tail := inductionHypothesis tiled.2
      rw [List.length_cons, Nat.mul_add, Nat.mul_one]
      omega

/-- Every block lies inside the arena. -/
theorem Tiled.inside (tiled : Tiled header start stop blocks)
    (member : block ∈ blocks) :
    start ≤ block.addr ∧ block.addr + header + block.size ≤ stop := by
  induction blocks generalizing start with
  | nil => simp at member
  | cons first rest inductionHypothesis =>
      rcases List.mem_cons.mp member with same | tail
      · subst same
        have order := tiled.2.le
        have position := tiled.1
        omega
      · have lower := inductionHypothesis tiled.2 tail
        omega

/-- Blocks that stand in order do not overlap, headers included. -/
theorem Tiled.pairwise (tiled : Tiled header start stop blocks) :
    blocks.Pairwise fun left right =>
      left.addr + header + left.size ≤ right.addr := by
  induction blocks generalizing start with
  | nil => exact .nil
  | cons first rest inductionHypothesis =>
      refine .cons (fun other member => ?_)
        (inductionHypothesis tiled.2)
      have after := tiled.2.inside member
      have position := tiled.1
      omega

/-- A list of blocks is cut where one of them stands. -/
theorem Tiled.apart (tiled : Tiled header start stop blocks)
    {left right : Block} (leftMember : left ∈ blocks)
    (rightMember : right ∈ blocks) (different : left ≠ right) :
    left.addr + header + left.size ≤ right.addr ∨
      right.addr + header + right.size ≤ left.addr := by
  induction blocks generalizing start with
  | nil => simp at leftMember
  | cons first rest inductionHypothesis =>
      have position := tiled.1
      rcases List.mem_cons.mp leftMember with leftHead | leftTail
      · rcases List.mem_cons.mp rightMember with rightHead | rightTail
        · exact absurd (leftHead.trans rightHead.symm) different
        · have after := tiled.2.inside rightTail
          rw [leftHead]
          omega
      · rcases List.mem_cons.mp rightMember with rightHead | rightTail
        · have after := tiled.2.inside leftTail
          rw [rightHead]
          omega
        · exact inductionHypothesis tiled.2 leftTail rightTail

/-- The block at an address is unique. -/
theorem Tiled.eq_of_addr (tiled : Tiled header start stop blocks)
    (positive : 0 < header) {left right : Block}
    (leftMember : left ∈ blocks) (rightMember : right ∈ blocks)
    (same : left.addr = right.addr) : left = right := by
  by_cases equal : left = right
  · exact equal
  · have distance := tiled.apart leftMember rightMember equal
    omega

theorem Settled.tail (settled : Settled (block :: rest)) :
    Settled rest := by
  cases rest with
  | nil => trivial
  | cons next rest => exact settled.2

/-! ## First fit -/

theorem firstFit_none_iff :
    firstFit header slack need blocks = none ↔
      ∀ block ∈ blocks, block.free = true → block.size < need := by
  induction blocks with
  | nil => simp [firstFit]
  | cons first rest inductionHypothesis =>
      rw [firstFit]
      by_cases fits : first.free = true ∧ need ≤ first.size
      · rw [if_pos fits]
        refine ⟨fun none => ?_, fun small => ?_⟩
        · split at none
          · simp at none
          · simp at none
        · have tooSmall := small first (List.mem_cons_self ..) fits.1
          omega
      · rw [if_neg fits, Option.map_eq_none_iff, inductionHypothesis]
        refine ⟨fun small block member marked => ?_,
          fun small block member => small block
            (List.mem_cons_of_mem _ member)⟩
        rcases List.mem_cons.mp member with same | tail
        · subst same
          have notLarge : ¬ need ≤ block.size := fun large =>
            fits ⟨marked, large⟩
          omega
        · exact small block tail marked

/-- What first fit does to the list: everything before and after the block
it takes stays as it is. -/
theorem firstFit_split
    (found : firstFit header slack need blocks = some (blocks', taken)) :
    taken.free = true ∧ need ≤ taken.size ∧
      ∃ before after,
        blocks = before ++ taken :: after ∧
          ((need + header + slack ≤ taken.size ∧
              blocks' = before ++ ⟨taken.addr, need, false⟩ ::
                ⟨taken.addr + header + need,
                  taken.size - need - header, true⟩ :: after) ∨
            (¬ need + header + slack ≤ taken.size ∧
              blocks' = before ++ ⟨taken.addr, taken.size, false⟩ ::
                after)) := by
  induction blocks generalizing blocks' with
  | nil => simp [firstFit] at found
  | cons first rest inductionHypothesis =>
      rw [firstFit] at found
      by_cases fits : first.free = true ∧ need ≤ first.size
      · rw [if_pos fits] at found
        by_cases splits : need + header + slack ≤ first.size
        · rw [if_pos splits] at found
          simp only [Option.some.injEq, Prod.mk.injEq] at found
          obtain ⟨list, same⟩ := found
          subst same
          exact ⟨fits.1, fits.2, [], rest, rfl, .inl ⟨splits, list.symm⟩⟩
        · rw [if_neg splits] at found
          simp only [Option.some.injEq, Prod.mk.injEq] at found
          obtain ⟨list, same⟩ := found
          subst same
          exact ⟨fits.1, fits.2, [], rest, rfl, .inr ⟨splits, list.symm⟩⟩
      · rw [if_neg fits] at found
        obtain ⟨⟨tail, other⟩, inner, outer⟩ :=
          Option.map_eq_some_iff.mp found
        simp only [Prod.mk.injEq] at outer
        obtain ⟨list, same⟩ := outer
        subst same
        obtain ⟨marked, large, before, after, cut, outcome⟩ :=
          inductionHypothesis inner
        refine ⟨marked, large, first :: before, after,
          by rw [cut, List.cons_append], ?_⟩
        rcases outcome with ⟨splits, list'⟩ | ⟨splits, list'⟩
        · exact .inl ⟨splits, by rw [← list, list', List.cons_append]⟩
        · exact .inr ⟨splits, by rw [← list, list', List.cons_append]⟩

theorem firstFit_member
    (found : firstFit header slack need blocks = some (blocks', taken)) :
    taken ∈ blocks := by
  obtain ⟨_, _, before, after, cut, _⟩ := firstFit_split found
  rw [cut]
  exact List.mem_append_right before (List.mem_cons_self ..)

theorem Tiled.append_iff {before after : List Block} :
    Tiled header start stop (before ++ after) ↔
      ∃ middle, Tiled header start middle before ∧
        Tiled header middle stop after := by
  induction before generalizing start with
  | nil =>
      refine ⟨fun tiled => ⟨start, rfl, tiled⟩, fun ⟨middle, same, tiled⟩ => ?_⟩
      have equal : start = middle := same
      subst equal
      exact tiled
  | cons first before inductionHypothesis =>
      refine ⟨fun tiled => ?_, fun ⟨middle, front, back⟩ => ?_⟩
      · obtain ⟨middle, front, back⟩ := inductionHypothesis.mp tiled.2
        exact ⟨middle, ⟨tiled.1, front⟩, back⟩
      · exact ⟨front.1, inductionHypothesis.mpr ⟨middle, front.2, back⟩⟩

theorem Tiled.firstFit (tiled : Tiled header start stop blocks)
    (found : firstFit header slack need blocks = some (blocks', taken)) :
    Tiled header start stop blocks' := by
  obtain ⟨_, _, before, after, cut, outcome⟩ := firstFit_split found
  subst cut
  obtain ⟨middle, front, position, back⟩ := Tiled.append_iff.mp tiled
  rcases outcome with ⟨splits, list⟩ | ⟨_, list⟩
  · subst list
    refine Tiled.append_iff.mpr ⟨middle, front, position, ?_, ?_⟩
    · rw [position]
    · have sizes : middle + header + need + header +
          (taken.size - need - header) =
            middle + header + taken.size := by
        omega
      rw [sizes]
      exact back
  · subst list
    exact Tiled.append_iff.mpr ⟨middle, front, position, back⟩

theorem Settled.append_congr {before after after' : List Block}
    (settled : Settled (before ++ after)) (settled' : Settled after')
    (head : ∀ block ∈ after'.head?, block.free = true →
      ∃ old ∈ after.head?, old.free = true) :
    Settled (before ++ after') := by
  induction before with
  | nil => exact settled'
  | cons first before inductionHypothesis =>
      have tail := inductionHypothesis settled.tail
      cases before with
      | nil =>
          cases after' with
          | nil => trivial
          | cons next' rest' =>
              refine ⟨fun both => ?_, settled'⟩
              obtain ⟨old, member, marked⟩ := head next' rfl both.2
              cases after with
              | nil => simp at member
              | cons next rest =>
                  have same : next = old := by simpa using member
                  subst same
                  exact settled.1 ⟨both.1, marked⟩
      | cons second before => exact ⟨settled.1, tail⟩

theorem Settled.suffix {before after : List Block}
    (settled : Settled (before ++ after)) : Settled after := by
  induction before with
  | nil => exact settled
  | cons first before inductionHypothesis =>
      exact inductionHypothesis settled.tail

theorem Settled.firstFit (settled : Settled blocks)
    (found : firstFit header slack need blocks = some (blocks', taken)) :
    Settled blocks' := by
  obtain ⟨marked, _, before, after, cut, outcome⟩ := firstFit_split found
  subst cut
  have suffix := settled.suffix
  rcases outcome with ⟨_, list⟩ | ⟨_, list⟩
  · subst list
    refine settled.append_congr ⟨by simp, ?_⟩ (by simp)
    cases after with
    | nil => trivial
    | cons next after =>
        exact ⟨fun both => suffix.1 ⟨marked, both.2⟩, suffix.2⟩
  · subst list
    refine settled.append_congr ?_ (by simp)
    cases after with
    | nil => trivial
    | cons next after => exact ⟨by simp, suffix.2⟩

/-- A block that is in use stays as it is when another one is taken. -/
theorem firstFit_keeps
    (found : firstFit header slack need blocks = some (blocks', taken))
    (member : block ∈ blocks) (inUse : block.free = false) :
    block ∈ blocks' := by
  obtain ⟨marked, _, before, after, cut, outcome⟩ := firstFit_split found
  have other : block ≠ taken := by
    intro same
    rw [same, marked] at inUse
    simp at inUse
  have place : block ∈ before ∨ block ∈ after := by
    rw [cut] at member
    simpa [other] using member
  rcases outcome with ⟨_, list⟩ | ⟨_, list⟩
  · rw [list]
    rcases place with left | right
    · simp [left]
    · simp [right]
  · rw [list]
    rcases place with left | right
    · simp [left]
    · simp [right]

/-- The block that was taken is in use afterwards and is large enough. -/
theorem firstFit_taken
    (found : firstFit header slack need blocks = some (blocks', taken)) :
    ∃ block ∈ blocks', block.addr = taken.addr ∧ block.free = false ∧
      need ≤ block.size := by
  obtain ⟨_, large, before, after, _, outcome⟩ := firstFit_split found
  rcases outcome with ⟨_, list⟩ | ⟨_, list⟩
  · exact ⟨⟨taken.addr, need, false⟩, by simp [list], rfl, rfl, Nat.le_refl _⟩
  · exact ⟨⟨taken.addr, taken.size, false⟩, by simp [list], rfl, rfl, large⟩

/-- What is in use afterwards was in use before or is the block that was
taken. -/
theorem firstFit_used
    (found : firstFit header slack need blocks = some (blocks', taken))
    (member : block ∈ blocks') (inUse : block.free = false) :
    block ∈ blocks ∨ block.addr = taken.addr := by
  obtain ⟨_, _, before, after, cut, outcome⟩ := firstFit_split found
  subst cut
  rcases outcome with ⟨_, list⟩ | ⟨_, list⟩
  · rw [list] at member
    simp only [List.mem_append, List.mem_cons] at member
    rcases member with front | rfl | rfl | back
    · exact .inl (by simp [front])
    · exact .inr rfl
    · simp at inUse
    · exact .inl (by simp [back])
  · rw [list] at member
    simp only [List.mem_append, List.mem_cons] at member
    rcases member with front | rfl | back
    · exact .inl (by simp [front])
    · exact .inr rfl
    · exact .inl (by simp [back])

/-! ## Releasing and merging -/

theorem Tiled.release (tiled : Tiled header start stop blocks) :
    Tiled header start stop (release addr blocks) := by
  induction blocks generalizing start with
  | nil => exact tiled
  | cons first rest inductionHypothesis =>
      rw [Arena.release]
      split
      · exact tiled
      · exact ⟨tiled.1, inductionHypothesis tiled.2⟩

/-- A release moves and resizes no block. -/
theorem release_size (member : block ∈ blocks) :
    ∃ now ∈ release addr blocks,
      now.addr = block.addr ∧ now.size = block.size := by
  induction blocks with
  | nil => simp at member
  | cons first rest inductionHypothesis =>
      rw [release]
      rcases List.mem_cons.mp member with same | tail
      · subst same
        split
        · exact ⟨_, List.mem_cons_self .., rfl, rfl⟩
        · exact ⟨_, List.mem_cons_self .., rfl, rfl⟩
      · split
        · exact ⟨block, List.mem_cons_of_mem _ tail, rfl, rfl⟩
        · obtain ⟨now, inside, same⟩ := inductionHypothesis tail
          exact ⟨now, List.mem_cons_of_mem _ inside, same⟩

theorem release_keeps (member : block ∈ blocks)
    (other : block.addr ≠ addr) : block ∈ release addr blocks := by
  induction blocks with
  | nil => simp at member
  | cons first rest inductionHypothesis =>
      rw [release]
      rcases List.mem_cons.mp member with same | tail
      · subst same
        rw [if_neg other]
        exact List.mem_cons_self ..
      · split
        · exact List.mem_cons_of_mem _ tail
        · exact List.mem_cons_of_mem _ (inductionHypothesis tail)

/-- What is in use after a release stands elsewhere and was there. -/
theorem release_used (tiled : Tiled header start stop blocks)
    (positive : 0 < header) (member : block ∈ release addr blocks)
    (inUse : block.free = false) : block ∈ blocks ∧ block.addr ≠ addr := by
  induction blocks generalizing start with
  | nil => simp [release] at member
  | cons first rest inductionHypothesis =>
      rw [release] at member
      by_cases here : first.addr = addr
      · rw [if_pos here] at member
        rcases List.mem_cons.mp member with same | tail
        · rw [same] at inUse
          simp at inUse
        · have beyond := (tiled.2.inside tail).1
          have place := tiled.1
          exact ⟨List.mem_cons_of_mem _ tail, by omega⟩
      · rw [if_neg here] at member
        rcases List.mem_cons.mp member with same | tail
        · rw [same]
          exact ⟨List.mem_cons_self .., here⟩
        · obtain ⟨inside, other⟩ := inductionHypothesis tiled.2 tail
          exact ⟨List.mem_cons_of_mem _ inside, other⟩

theorem Tiled.mergeFrom
    (tiled : Tiled header start stop (current :: rest)) :
    Tiled header start stop (mergeFrom header current rest) := by
  induction rest generalizing start current with
  | nil => exact tiled
  | cons next rest inductionHypothesis =>
      rw [Arena.mergeFrom]
      split
      · refine inductionHypothesis ⟨tiled.1, ?_⟩
        have sizes : start + header +
            (current.size + (header + next.size)) =
              start + header + current.size + header + next.size := by
          omega
        rw [sizes]
        exact tiled.2.2
      · exact ⟨tiled.1, inductionHypothesis tiled.2⟩

/-- The first block after a merging pass keeps the mark of the first one
before it. -/
theorem mergeFrom_head :
    ∃ size rest', mergeFrom header current rest =
      ⟨current.addr, size, current.free⟩ :: rest' := by
  induction rest generalizing current with
  | nil => exact ⟨current.size, [], rfl⟩
  | cons next rest inductionHypothesis =>
      rw [mergeFrom]
      by_cases both : current.free = true ∧ next.free = true
      · rw [if_pos both, both.1]
        exact inductionHypothesis
      · rw [if_neg both]
        exact ⟨current.size, _, rfl⟩

/-- One pass from the front merges all free neighbours. -/
theorem settled_mergeFrom : Settled (mergeFrom header current rest) := by
  induction rest generalizing current with
  | nil => trivial
  | cons next rest inductionHypothesis =>
      rw [mergeFrom]
      by_cases both : current.free = true ∧ next.free = true
      · rw [if_pos both]
        exact inductionHypothesis
      · rw [if_neg both]
        have tail : Settled (mergeFrom header next rest) :=
          inductionHypothesis
        obtain ⟨size, rest', shape⟩ : ∃ size rest',
            mergeFrom header next rest = ⟨next.addr, size, next.free⟩ :: rest' :=
          mergeFrom_head
        rw [shape] at tail ⊢
        exact ⟨both, tail⟩

theorem mergeFrom_keeps (member : block ∈ current :: rest)
    (inUse : block.free = false) :
    block ∈ mergeFrom header current rest := by
  induction rest generalizing current with
  | nil => exact member
  | cons next rest inductionHypothesis =>
      rw [mergeFrom]
      by_cases both : current.free = true ∧ next.free = true
      · rw [if_pos both]
        refine inductionHypothesis (List.mem_cons_of_mem _ ?_)
        rcases List.mem_cons.mp member with same | tail
        · rw [same, both.1] at inUse
          simp at inUse
        · rcases List.mem_cons.mp tail with same | tail
          · rw [same, both.2] at inUse
            simp at inUse
          · exact tail
      · rw [if_neg both]
        rcases List.mem_cons.mp member with same | tail
        · rw [same]
          exact List.mem_cons_self ..
        · exact List.mem_cons_of_mem _ (inductionHypothesis tail)

theorem mergeFrom_used
    (member : block ∈ mergeFrom header current rest)
    (inUse : block.free = false) : block ∈ current :: rest := by
  induction rest generalizing current with
  | nil => exact member
  | cons next rest inductionHypothesis =>
      rw [mergeFrom] at member
      by_cases both : current.free = true ∧ next.free = true
      · rw [if_pos both] at member
        rcases List.mem_cons.mp (inductionHypothesis member) with
          joined | later
        · rw [joined] at inUse
          simp at inUse
        · simp [later]
      · rw [if_neg both] at member
        rcases List.mem_cons.mp member with same | later
        · rw [same]
          exact List.mem_cons_self ..
        · exact List.mem_cons_of_mem _ (inductionHypothesis later)

/-- Where nothing is in use and no free blocks are neighbours, one free
block fills the arena. -/
theorem Settled.single (settled : Settled blocks)
    (tiled : Tiled header start stop blocks) (room : start < stop)
    (unused : ∀ block ∈ blocks, block.free = true) :
    blocks = [⟨start, stop - start - header, true⟩] := by
  match blocks, settled, tiled, unused with
  | [], _, tiled, _ => exact absurd tiled (Nat.ne_of_lt room)
  | [⟨addr, size, free⟩], _, tiled, unused =>
      have marked : free = true := unused _ (List.mem_cons_self ..)
      have place : addr = start := tiled.1
      have sum : start + header + size = stop := tiled.2
      rw [marked, place]
      congr
      omega
  | first :: second :: rest, settled, _, unused =>
      exact absurd ⟨unused first (by simp), unused second (by simp)⟩
        settled.1

/-! ## The last block -/

/-- The last block has room for at least `least` bytes. -/
def RoomyEnd (least : Nat) (blocks : List Block) : Prop :=
  ∀ last ∈ blocks.getLast?, least ≤ last.size

theorem RoomyEnd.firstFit {least : Nat} (roomy : RoomyEnd least blocks)
    (enough : least ≤ slack)
    (found : firstFit header slack need blocks = some (blocks', taken)) :
    RoomyEnd least blocks' := by
  obtain ⟨_, _, before, after, cut, outcome⟩ := firstFit_split found
  subst cut
  rcases outcome with ⟨splits, list⟩ | ⟨_, list⟩
  · subst list
    cases after with
    | nil =>
        intro last isLast
        simp only [List.getLast?_append, List.getLast?_cons_cons,
          List.getLast?_singleton, Option.some_or, Option.mem_def,
          Option.some.injEq] at isLast
        rw [← isLast]
        simp only
        omega
    | cons next after => simpa [RoomyEnd] using roomy
  · subst list
    cases after with
    | nil => simpa [RoomyEnd] using roomy
    | cons next after => simpa [RoomyEnd] using roomy

theorem RoomyEnd.release {least : Nat} (roomy : RoomyEnd least blocks) :
    RoomyEnd least (release addr blocks) := by
  induction blocks with
  | nil => exact roomy
  | cons first rest inductionHypothesis =>
      cases rest with
      | nil =>
          rw [Arena.release]
          split
          · simpa [RoomyEnd] using roomy
          · simpa [RoomyEnd, Arena.release] using roomy
      | cons next rest =>
          have tail : RoomyEnd least (next :: rest) := by
            simpa [RoomyEnd] using roomy
          have shape : ∃ next' rest',
              Arena.release addr (next :: rest) = next' :: rest' := by
            rw [Arena.release]
            split
            · exact ⟨_, _, rfl⟩
            · exact ⟨_, _, rfl⟩
          have later := inductionHypothesis tail
          obtain ⟨next', rest', same⟩ := shape
          rw [same] at later
          rw [Arena.release, same]
          split
          · simpa [RoomyEnd] using roomy
          · simpa [RoomyEnd] using later

theorem RoomyEnd.mergeFrom {least : Nat}
    (roomy : RoomyEnd least (current :: rest)) :
    RoomyEnd least (mergeFrom header current rest) := by
  induction rest generalizing current with
  | nil => exact roomy
  | cons next rest inductionHypothesis =>
      have tail : RoomyEnd least (next :: rest) := by
        simpa [RoomyEnd] using roomy
      rw [Arena.mergeFrom]
      split
      · refine inductionHypothesis ?_
        cases rest with
        | nil =>
            have large : least ≤ next.size := tail next rfl
            intro last isLast
            have same : (⟨current.addr, current.size + (header + next.size),
                true⟩ : Block) = last := Option.some.inj isLast
            rw [← same]
            change least ≤ current.size + (header + next.size)
            omega
        | cons third rest => simpa [RoomyEnd] using tail
      · have merged := inductionHypothesis tail
        obtain ⟨size, rest', shape⟩ : ∃ size rest',
            Arena.mergeFrom header next rest =
              ⟨next.addr, size, next.free⟩ :: rest' := mergeFrom_head
        rw [shape] at merged ⊢
        simpa [RoomyEnd] using merged

/-- A block that does not end the arena has the last one behind it. -/
theorem Tiled.behind {least : Nat}
    (tiled : Tiled header start stop blocks)
    (roomy : RoomyEnd least blocks) (member : block ∈ blocks) :
    (block.addr + header + block.size = stop ∧ least ≤ block.size) ∨
      block.addr + header + block.size + header + least ≤ stop := by
  induction blocks generalizing start block with
  | nil => simp at member
  | cons first rest inductionHypothesis =>
      cases rest with
      | nil =>
          have only : block = first := by simpa using member
          have large : least ≤ first.size := roomy first rfl
          have place := tiled.1
          have sum : start + header + first.size = stop := tiled.2
          rw [only]
          exact .inl ⟨by omega, large⟩
      | cons next rest =>
          have tail : RoomyEnd least (next :: rest) := by
            simpa [RoomyEnd] using roomy
          rcases List.mem_cons.mp member with same | later
          · have onward := inductionHypothesis tiled.2 tail
              (List.mem_cons_self ..)
            have place := tiled.1
            have nextPlace := tiled.2.1
            rw [same]
            omega
          · exact inductionHypothesis tiled.2 tail later

/-! ## Alignment -/

/-- Where all sizes are multiples of a unit, so are all addresses. -/
theorem Tiled.dvd {unit : Nat} (tiled : Tiled header start stop blocks)
    (headers : unit ∣ header) (base : unit ∣ start)
    (sizes : ∀ block ∈ blocks, unit ∣ block.size) :
    (∀ block ∈ blocks, unit ∣ block.addr) ∧ unit ∣ stop := by
  induction blocks generalizing start with
  | nil =>
      have same : start = stop := tiled
      exact ⟨by simp, same ▸ base⟩
  | cons first rest inductionHypothesis =>
      have next : unit ∣ start + header + first.size :=
        Nat.dvd_add (Nat.dvd_add base headers)
          (sizes first (List.mem_cons_self ..))
      obtain ⟨tail, last⟩ := inductionHypothesis tiled.2 next
        fun block member => sizes block (List.mem_cons_of_mem _ member)
      refine ⟨fun block member => ?_, last⟩
      rcases List.mem_cons.mp member with same | later
      · rw [same, tiled.1]
        exact base
      · exact tail block later

theorem firstFit_dvd {unit : Nat}
    (found : firstFit header slack need blocks = some (blocks', taken))
    (headers : unit ∣ header) (request : unit ∣ need)
    (sizes : ∀ block ∈ blocks, unit ∣ block.size) :
    ∀ block ∈ blocks', unit ∣ block.size := by
  obtain ⟨_, _, before, after, cut, outcome⟩ := firstFit_split found
  have old : ∀ block, block ∈ before ∨ block = taken ∨ block ∈ after →
      unit ∣ block.size := fun block place => sizes block (by
    rw [cut]
    simpa [or_assoc] using place)
  have whole := old taken (.inr (.inl rfl))
  intro block member
  rcases outcome with ⟨_, list⟩ | ⟨_, list⟩
  · rw [list] at member
    simp only [List.mem_append, List.mem_cons] at member
    rcases member with front | rfl | rfl | back
    · exact old block (.inl front)
    · exact request
    · exact Nat.dvd_sub (Nat.dvd_sub whole request) headers
    · exact old block (.inr (.inr back))
  · rw [list] at member
    simp only [List.mem_append, List.mem_cons] at member
    rcases member with front | rfl | back
    · exact old block (.inl front)
    · exact whole
    · exact old block (.inr (.inr back))

theorem release_dvd {unit : Nat}
    (sizes : ∀ block ∈ blocks, unit ∣ block.size) :
    ∀ block ∈ release addr blocks, unit ∣ block.size := by
  induction blocks with
  | nil => simp [release]
  | cons first rest inductionHypothesis =>
      have head := sizes first (List.mem_cons_self ..)
      have tail := fun block member =>
        sizes block (List.mem_cons_of_mem _ member)
      intro block member
      rw [release] at member
      split at member
      · rcases List.mem_cons.mp member with rfl | later
        · exact head
        · exact tail block later
      · rcases List.mem_cons.mp member with rfl | later
        · exact head
        · exact inductionHypothesis tail block later

theorem mergeFrom_dvd {unit : Nat} (headers : unit ∣ header)
    (sizes : ∀ block ∈ current :: rest, unit ∣ block.size) :
    ∀ block ∈ mergeFrom header current rest, unit ∣ block.size := by
  induction rest generalizing current with
  | nil => exact sizes
  | cons next rest inductionHypothesis =>
      have first := sizes current (List.mem_cons_self ..)
      have second := sizes next (by simp)
      have later : ∀ block ∈ rest, unit ∣ block.size :=
        fun block member => sizes block (by simp [member])
      rw [mergeFrom]
      split
      · refine inductionHypothesis fun block member => ?_
        rcases List.mem_cons.mp member with rfl | tail
        · exact Nat.dvd_add first (Nat.dvd_add headers second)
        · exact later block tail
      · intro block member
        rcases List.mem_cons.mp member with rfl | tail
        · exact first
        · refine inductionHypothesis (fun other inside => ?_) block tail
          exact sizes other (List.mem_cons_of_mem _ inside)

end Arena
