import LoafOs.Userspace.ExeSegment

/-!
# The program break

`SYS_SBRK` of `src/userspace/syscalls.c`.  Both loops go from page to page
between two page-aligned addresses, so they are counted by the pages that
are left.
-/

namespace LoafOs

open Memory

/-- `(addr + 0xfff) & ~0xfff`. -/
def pageCeil (addr : Nat) : Nat := frameOf (u32 (addr + 0xfff))

/-- The loop that maps new pages.  Both of its `break`s leave the loop
only. -/
def growHeap (pd : Nat) : Nat → Memory → Nat → Option Memory
  | 0, memory, _ => some memory
  | count + 1, memory, va => do
      let (memory, frame) ← memory.allocFrame
      if frame = 0 then
        return memory
      let (memory, code) ← pagingMapPage memory pd va frame
        (pagePresent ||| pageRw ||| pageUser)
      if code ≠ 0 then
        return memory.freeFrame frame
      growHeap pd count (memory.clearPage frame) (va + pageSize)

/-- The loop that unmaps pages. -/
def shrinkHeap (pd : Nat) : Nat → Memory → Nat → Memory
  | 0, memory, _ => memory
  | count + 1, memory, va =>
      match pagingWalk memory pd va with
      | some paddr =>
          shrinkHeap pd count
            ((pagingUnmapPage memory pd va).freeFrame (frameOf paddr))
            (va + pageSize)
      | none => shrinkHeap pd count memory (va + pageSize)

/-- The two loops. -/
def moveHeap (memory : Memory) (pd oldTop newTop : Nat) : Option Memory :=
  if oldTop < newTop then
    growHeap pd ((newTop - oldTop) / pageSize) memory oldTop
  else if newTop < oldTop then
    some (shrinkHeap pd ((oldTop - newTop) / pageSize) memory newTop)
  else
    some memory

/-- The break that a call asks for. -/
def newBreak (proc : Image) (delta : UInt32) : Nat :=
  u32 (proc.heapBreak + delta.toNat)

/-- The break leaves the bounds of the heap. -/
def Outside (proc : Image) (delta : UInt32) : Prop :=
  newBreak proc delta < proc.heapStart ∨ proc.heapMax < newBreak proc delta

instance (proc : Image) (delta : UInt32) : Decidable (Outside proc delta) :=
  inferInstanceAs (Decidable (_ ∨ _))

/-- `SYS_SBRK`, with the value that it leaves in `eax`; `none` is the
`panic` of the frame allocator. -/
def sysSbrk (memory : Memory) (proc : Image) (delta : UInt32) :
    Option (Memory × Image × Nat) :=
  if Outside proc delta then
    some (memory, proc, 2 ^ 32 - 1)
  else do
    let memory ← moveHeap memory proc.pdPhys (pageCeil proc.heapBreak)
      (pageCeil (newBreak proc delta))
    return (memory, { proc with heapBreak := newBreak proc delta },
      proc.heapBreak)

variable {start memory memory' after : Memory}
  {pd va count frame addr stop : Nat} {proc : Image} {delta : UInt32}

/-! ## The page of one pass -/

theorem walk_isSome :
    (pagingWalk memory pd va).isSome = true ↔
      isPresent (pteAt memory pd va) = true := by
  rw [walk_eq]
  split
  case isTrue present => simp [present]
  case isFalse absent => simp [absent]

theorem absent_of_walk (unmapped : pagingWalk memory pd va = none) :
    isPresent (pteAt memory pd va) = false := by
  rw [← Bool.not_eq_true]
  intro present
  rw [walk_eq, if_pos present] at unmapped
  simp at unmapped

theorem walk_of_absent (absent : isPresent (pteAt memory pd va) = false) :
    pagingWalk memory pd va = none := by
  rw [walk_eq, absent, if_neg Bool.false_ne_true]

/-- A new page shows zeros. -/
theorem PageReady.view_fresh {flags : Nat} (ok' : SpaceOk start pd memory')
    (ready : PageReady memory memory' pd va flags frame)
    (users : UserTables memory' pd) (rws : RwTables memory' pd)
    (unmapped : pagingWalk memory pd va = none)
    (user : addr < kernelVirtBase) (same : addr / 4096 = va / 4096) :
    userView memory' pd addr =
      some { byte := 0, user := isUser flags, writable := isRw flags } := by
  have isFrame := (ok'.owned.frame _ _ ready.role).1
  obtain ⟨zero, here⟩ := ready.fresh unmapped
  have pte : pteAt memory' pd addr = pageEntry frame flags :=
    (pteAt_page same).trans here
  have present : isPresent (pteAt memory' pd addr) = true := by
    rw [pte, isPresent_pageEntry]
  rw [userView_some users rws user present, pte, frameOf_pageEntry,
    frameOf_frame isFrame, zero _ (Nat.mod_lt _ (by decide)),
    isUser_pageEntry, isRw_pageEntry]

/-- The view of an address follows its entry and the bytes of its frame. -/
theorem userView_kept (users : UserTables memory pd)
    (rws : RwTables memory pd) (users' : UserTables memory' pd)
    (rws' : RwTables memory' pd) (user : addr < kernelVirtBase)
    (entry : pteAt memory' pd addr = pteAt memory pd addr)
    (kept : isPresent (pteAt memory pd addr) = true →
      FrameKept memory memory' (frameOf (pteAt memory pd addr))) :
    userView memory' pd addr = userView memory pd addr := by
  cases present : isPresent (pteAt memory pd addr) with
  | false =>
      rw [userView_none present, userView_none (by rw [entry, present])]
  | true =>
      rw [userView_some users rws user present,
        userView_some users' rws' user (by rw [entry, present]), entry,
        kept present _ (Nat.mod_lt _ (by decide))]

end LoafOs
