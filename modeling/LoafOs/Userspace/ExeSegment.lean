import LoafOs.Userspace.ExeCopy

/-!
# Loading one segment

The loop of `map_and_copy` is the loading of a segment in the view of the
program, page by page.
-/

namespace LoafOs

open Memory

variable {start memory memory' : Memory}
  {pd va vaddr size flags frame addr copied code : Nat} {src : Option Nat}
  {view : UserView} {segment : Segment}

/-! ## Bits of a page entry -/

theorem frameOf_testBit {entry bit : Nat} (low : bit < 12) :
    (frameOf entry).testBit bit = false := by
  have shape : frameOf entry = entry / 4096 * 2 ^ 12 := rfl
  rw [shape, Nat.testBit_mul_two_pow]
  simp [low]

theorem pageEntry_testBit {paddr bit : Nat} (low : bit < 12)
    (positive : bit ≠ 0) :
    (pageEntry paddr flags).testBit bit = flags.testBit bit := by
  have shape : flags % 4096 = flags % 2 ^ 12 := rfl
  have present : Nat.testBit pagePresent bit = false := by
    rw [← Bool.not_eq_true, pagePresent,
      Nat.testBit_one_eq_true_iff_self_eq_zero]
    exact positive
  rw [pageEntry, Nat.testBit_or, Nat.testBit_or, frameOf_testBit low, shape,
    Nat.testBit_mod_two_pow, present]
  simp [low]

theorem isUser_pageEntry {paddr : Nat} :
    isUser (pageEntry paddr flags) = isUser flags :=
  pageEntry_testBit (by decide) (by decide)

theorem isRw_pageEntry {paddr : Nat} :
    isRw (pageEntry paddr flags) = isRw flags :=
  pageEntry_testBit (by decide) (by decide)

/-! ## Cells -/

theorem pteAt_page {other : Nat} (same : addr / 4096 = other / 4096) :
    pteAt memory pd addr = pteAt memory pd other := by
  have directory : pdIndex addr = pdIndex other := by
    simp only [pdIndex]
    omega
  have table : ptIndex addr = ptIndex other := by
    simp only [ptIndex]
    omega
  rw [pteAt, pteAt, directory, table]

theorem table_of_pteAt (present : isPresent (pteAt memory pd addr) = true) :
    isPresent (memory.entry pd (pdIndex addr)) = true := by
  cases table : isPresent (memory.entry pd (pdIndex addr)) with
  | true => rfl
  | false =>
      rw [pteAt_absent table] at present
      simp at present

theorem userView_none (absent : isPresent (pteAt memory pd addr) = false) :
    userView memory pd addr = none :=
  if_neg (by simp [absent])

theorem userView_some (users : UserTables memory pd)
    (rws : RwTables memory pd) (user : addr < kernelVirtBase)
    (present : isPresent (pteAt memory pd addr) = true) :
    userView memory pd addr = some
      { byte := memory.mem
          (physToVirt (frameOf (pteAt memory pd addr)) + addr % 4096)
        user := isUser (pteAt memory pd addr)
        writable := isRw (pteAt memory pd addr) } := by
  have table := table_of_pteAt present
  have low := pdIndex_lt user
  rw [userView, if_pos present, users _ low table, rws _ low table,
    Bool.true_and, Bool.true_and]

/-- An address that a frame marked at the start backs. -/
def Backed (memory : Memory) (addr : Nat) : Prop :=
  ∃ frame offset, IsFrame frame ∧
    memory.pmm.used (frame / 4096) = true ∧ offset < 4096 ∧
    addr = physToVirt frame + offset

theorem SpaceOk.backed (ok : SpaceOk start pd memory)
    (backed : Backed start addr) : memory.mem addr = start.mem addr := by
  obtain ⟨frame, offset, isFrame, marked, small, same⟩ := backed
  rw [same]
  exact ok.kept frame isFrame marked offset small

/-! ## The pages of the loop -/

/-- The address space shows the program this view. -/
structure Shows (start memory : Memory) (pd : Nat) (view : UserView) :
    Prop where
  ok : SpaceOk start pd memory
  users : UserTables memory pd
  rws : RwTables memory pd
  view : ∀ addr < kernelVirtBase, userView memory pd addr = view addr

/-- The segment that `map_and_copy` loads from these arguments. -/
def segmentOf (mem : Bytes) (vaddr size : Nat) (src : Option Nat)
    (flags : Nat) : Segment where
  vaddr := vaddr
  size := size
  bytes := src.map fun source index => mem (source + index)
  writable := isRw flags

/-- The number of bytes behind an address. -/
def copiedTo (vaddr size va : Nat) : Nat :=
  if va - vaddr < size then va - vaddr else size

theorem pageOffset_eq (aligned : va % 4096 = 0)
    (lower : frameOf vaddr ≤ va) : pageOffset vaddr va = vaddr - va := by
  rw [pageOffset]
  split
  case isTrue here =>
    rw [here]
  case isFalse later =>
    rw [frameOf] at lower later
    omega

theorem copiedTo_eq (positive : 0 < size) (upper : va < vaddr + size) :
    copiedTo vaddr size va = va - vaddr := by
  rw [copiedTo, if_pos (by omega)]

theorem copyLength_eq (word : size < 2 ^ 32) (aligned : va % 4096 = 0)
    (lower : frameOf vaddr ≤ va) (upper : va < vaddr + size) :
    copyLength vaddr size va (va - vaddr) =
      min (size - (va - vaddr)) (4096 - (vaddr - va)) := by
  have remaining : u32 (size + 2 ^ 32 - (va - vaddr)) =
      size - (va - vaddr) := by
    rw [u32]
    omega
  rw [copyLength, remaining, pageOffset_eq aligned lower, pageSize]
  split <;> omega

theorem copiedTo_next (positive : 0 < size) (word : size < 2 ^ 32)
    (aligned : va % 4096 = 0) (lower : frameOf vaddr ≤ va)
    (upper : va < vaddr + size) :
    copiedTo vaddr size va + copyLength vaddr size va
        (copiedTo vaddr size va) = copiedTo vaddr size (va + pageSize) := by
  rw [copiedTo_eq positive upper, copyLength_eq word aligned lower upper,
    copiedTo, pageSize]
  rw [frameOf] at lower
  split <;> omega

/-- Where the bytes of one pass lie in the page. -/
theorem filled_iff (positive : 0 < size) (word : size < 2 ^ 32)
    (aligned : va % 4096 = 0) (lower : frameOf vaddr ≤ va)
    (upper : va < vaddr + size) (same : addr / 4096 = va / 4096) :
    (pageOffset vaddr va ≤ addr % 4096 ∧ addr % 4096 <
      pageOffset vaddr va + copyLength vaddr size va
        (copiedTo vaddr size va)) ↔
      vaddr ≤ addr ∧ addr < vaddr + size := by
  rw [copiedTo_eq positive upper, copyLength_eq word aligned lower upper,
    pageOffset_eq aligned lower]
  rw [frameOf] at lower
  omega

theorem filled_index (positive : 0 < size) (aligned : va % 4096 = 0)
    (lower : frameOf vaddr ≤ va) (upper : va < vaddr + size)
    (same : addr / 4096 = va / 4096) (inside : vaddr ≤ addr) :
    copiedTo vaddr size va + (addr % 4096 - pageOffset vaddr va) =
      addr - vaddr := by
  rw [copiedTo_eq positive upper, pageOffset_eq aligned lower]
  rw [frameOf] at lower
  omega

/-- The bytes of the page are those of the segment, or what was there. -/
theorem fillPage_byteAt (ok' : SpaceOk start pd memory')
    (positive : 0 < size) (word : size < 2 ^ 32)
    (aligned : va % 4096 = 0) (lower : frameOf vaddr ≤ va)
    (upper : va < vaddr + size) (same : addr / 4096 = va / 4096)
    (source : ∀ source, src = some source → ∀ index < size,
      Backed start (source + index))
    {old : Option Cell}
    (before : memory'.mem (physToVirt frame + addr % 4096) =
      (old.map Cell.byte).getD 0) :
    (fillPage memory' vaddr size src va (copiedTo vaddr size va) frame).mem
        (physToVirt frame + addr % 4096) =
      (segmentOf start.mem vaddr size src flags).byteAt old addr := by
  rw [fillPage_byte, before]
  cases src with
  | none => rfl
  | some source' =>
      have here := filled_iff positive word aligned lower upper same
      by_cases covers : (segmentOf start.mem vaddr size (some source')
          flags).Covers addr
      · have range : vaddr ≤ addr ∧ addr < vaddr + size := covers
        simp only
        rw [if_pos (here.mpr covers), Segment.byteAt_covers rfl covers,
          Nat.add_assoc,
          filled_index positive aligned lower upper same range.1]
        exact ok'.backed (source source' rfl _ (by omega))
      · simp only
        rw [if_neg fun inside => covers (here.mp inside),
          Segment.byteAt_other (.inr covers)]

/-! ## The cells of one page -/

section Cells

variable {after : Memory}

/-- A page that was not there shows what was put into its frame. -/
theorem PageReady.freshCell
    (ready : PageReady memory memory' pd va flags frame)
    (isFrame : IsFrame frame) (users : UserTables after pd)
    (rws : RwTables after pd) (addrUser : addr < kernelVirtBase)
    (userFlags : isUser flags = true)
    (mapped : pagingWalk memory pd va = none)
    (pte : pteAt after pd addr = pteAt memory' pd va) :
    userView after pd addr = some
      { byte := after.mem (physToVirt frame + addr % 4096)
        user := true
        writable := isRw flags } := by
  rw [(ready.fresh mapped).2] at pte
  have present : isPresent (pteAt after pd addr) = true := by
    rw [pte, isPresent_pageEntry]
  rw [userView_some users rws addrUser present, pte, frameOf_pageEntry,
    frameOf_frame isFrame, isUser_pageEntry, userFlags, isRw_pageEntry]

/-- A page that was there keeps its frame, and may become writable. -/
theorem PageReady.reusedCell {paddr : Nat} {old : Cell}
    (ready : PageReady memory memory' pd va flags frame)
    (isFrame : IsFrame frame) (users : UserTables after pd)
    (rws : RwTables after pd) (addrUser : addr < kernelVirtBase)
    (userFlags : isUser flags = true)
    (mapped : pagingWalk memory pd va = some paddr)
    (same : addr / 4096 = va / 4096)
    (oldUsers : UserTables memory pd) (oldRws : RwTables memory pd)
    (there : userView memory pd addr = some old) (oldUser : old.user = true)
    (pte : pteAt after pd addr = pteAt memory' pd va) :
    old.byte = memory.mem (physToVirt frame + addr % 4096) ∧
      userView after pd addr = some
        { byte := after.mem (physToVirt frame + addr % 4096)
          user := true
          writable := isRw flags || old.writable } := by
  obtain ⟨frameEq, _, here⟩ := ready.reused paddr mapped
  obtain ⟨present, target⟩ := isPresent_of_walk mapped
  have cell := userView_some oldUsers oldRws addrUser
    (by rw [pteAt_page same]; exact present)
  rw [pteAt_page same, target, ← frameEq, there, Option.some.injEq] at cell
  subst cell
  refine ⟨rfl, ?_⟩
  rw [here] at pte
  cases writable : isRw flags with
  | true =>
      rw [writable, if_pos rfl] at pte
      have mappedNow : isPresent (pteAt after pd addr) = true := by
        rw [pte, isPresent_pageEntry]
      rw [userView_some users rws addrUser mappedNow, pte,
        frameOf_pageEntry, frameOf_frame isFrame, isUser_pageEntry,
        userFlags, isRw_pageEntry, writable, Bool.true_or]
  | false =>
      rw [writable, if_neg Bool.false_ne_true] at pte
      have mappedNow : isPresent (pteAt after pd addr) = true := by
        rw [pte]
        exact present
      simp only at oldUser
      rw [userView_some users rws addrUser mappedNow, pte, target,
        ← frameEq, oldUser, Bool.false_or]

/-- The other pages show what they showed before. -/
theorem PageReady.otherCell
    (ready : PageReady memory memory' pd va flags frame)
    (ok : SpaceOk start pd memory) (ok' : SpaceOk start pd memory')
    (oldUsers : UserTables memory pd) (oldRws : RwTables memory pd)
    (users : UserTables after pd) (rws : RwTables after pd)
    (addrUser : addr < kernelVirtBase)
    (different : addr / 4096 ≠ va / 4096)
    (kept : ∀ other, IsFrame other → other ≠ frame →
      FrameKept memory' after other)
    (entry : pteAt after pd addr = pteAt memory' pd addr) :
    userView after pd addr = userView memory pd addr := by
  have old := ready.elsewhere addr addrUser different
  have pte := entry.trans old
  cases present : isPresent (pteAt memory pd addr) with
  | false => rw [userView_none present, userView_none (by rw [pte, present])]
  | true =>
      rw [userView_some oldUsers oldRws addrUser present,
        userView_some users rws addrUser (by rw [pte, present]), pte]
      have role := pteAt_role addrUser present
      have role' := pteAt_role addrUser
        (show isPresent (pteAt memory' pd addr) = true by
          rw [old, present])
      rw [old] at role'
      have apart : frameOf (pteAt memory pd addr) ≠ frame := by
        intro equal
        rw [equal] at role'
        have clash := ok'.owned.single _ _ _ role' ready.role
        simp only [Role.page.injEq, pdIndex, ptIndex] at clash
        omega
      have same := (ready.pages _ _ _ role).trans
        (kept _ (ok.owned.frame _ _ role).1 apart)
      rw [same _ (Nat.mod_lt _ (by decide))]

end Cells

/-- One pass loads one page. -/
theorem Shows.pass
    (shows : Shows start memory pd
      ((segmentOf start.mem vaddr size src flags).loadTo view va))
    (all : view.AllUser) (positive : 0 < size) (word : size < 2 ^ 32)
    (aligned : va % 4096 = 0) (lower : frameOf vaddr ≤ va)
    (upper : va < vaddr + size) (user : va < kernelVirtBase)
    (userFlags : isUser flags = true)
    (source : ∀ source, src = some source → ∀ index < size,
      Backed start (source + index))
    (ok' : SpaceOk start pd memory')
    (ready : PageReady memory memory' pd va flags frame) :
    Shows start (fillPage memory' vaddr size src va
        (copiedTo vaddr size va) frame) pd
      ((segmentOf start.mem vaddr size src flags).loadTo view
        (va + pageSize)) := by
  have kernelLow : kernelPdeStart = 768 := rfl
  have isFrame := (ok'.owned.frame _ _ ready.role).1
  have bytes : ∀ addr old, addr / 4096 = va / 4096 →
      memory'.mem (physToVirt frame + addr % 4096) =
        (Option.map Cell.byte old).getD 0 →
      (fillPage memory' vaddr size src va (copiedTo vaddr size va)
        frame).mem (physToVirt frame + addr % 4096) =
        (segmentOf start.mem vaddr size src flags).byteAt old addr :=
    fun addr old same before => fillPage_byteAt ok'
      positive word aligned lower upper same source before
  have elsewhere : ∀ other, IsFrame other → other ≠ frame →
      FrameKept memory' (fillPage memory' vaddr size src va
        (copiedTo vaddr size va) frame) other :=
    fun other isOther different => fillPage_kept isFrame isOther different
  obtain ⟨ok'', extended, roles, directory, entries⟩ :=
    ok'.fill vaddr size (copiedTo vaddr size va) src user ready
  generalize fillPage memory' vaddr size src va (copiedTo vaddr size va)
    frame = after at *
  have users : UserTables after pd := by
    intro index low present
    rw [directory index (by omega)] at present ⊢
    exact ready.users userFlags shows.users index low present
  have rws : RwTables after pd := by
    intro index low present
    rw [directory index (by omega)] at present ⊢
    exact ready.rws shows.rws index low present
  refine ⟨ok'', users, rws, fun addr addrUser => ?_⟩
  have before := shows.view addr addrUser
  by_cases same : addr / 4096 = va / 4096
  · have inside : frameOf vaddr ≤ addr ∧ addr < va + pageSize := by
      rw [pageSize]
      omega
    have outside : ¬ (frameOf vaddr ≤ addr ∧ addr < va) := by omega
    have pte : pteAt after pd addr = pteAt memory' pd va :=
      (entries addr addrUser).trans (pteAt_page same)
    have before' : userView memory pd addr = view addr :=
      before.trans (Segment.loadTo_outside outside)
    have result : (segmentOf start.mem vaddr size src flags).loadTo view
        (va + pageSize) addr = some ((segmentOf start.mem vaddr size src
          flags).cellAt (view addr) addr) := Segment.loadTo_inside inside
    rw [result]
    cases mapped : pagingWalk memory pd va with
    | none =>
        have absent : isPresent (pteAt memory pd addr) = false := by
          rw [pteAt_page same, ← Bool.not_eq_true]
          intro present
          rw [walk_eq, if_pos present] at mapped
          simp at mapped
        rw [userView_none absent] at before'
        have byte := bytes addr none same
          ((ready.fresh mapped).1 _ (Nat.mod_lt _ (by decide)))
        rw [ready.freshCell isFrame users rws addrUser userFlags mapped pte,
          byte, ← before']
        simp [Segment.cellAt, segmentOf]
    | some paddr =>
        obtain ⟨old, there⟩ : ∃ old, userView memory pd addr = some old := by
          refine ⟨_, userView_some shows.users shows.rws addrUser ?_⟩
          rw [pteAt_page same]
          exact (isPresent_of_walk mapped).1
        rw [there] at before'
        obtain ⟨oldByte, cell⟩ := ready.reusedCell isFrame users rws addrUser
          userFlags mapped same shows.users shows.rws there
          (all addr old before'.symm) pte
        have inPage : addr % 4096 < 4096 := Nat.mod_lt addr (by decide)
        have kept := (ready.reused paddr mapped).2.1 _ inPage
        have byte := bytes addr (view addr) same (by
          rw [← before']
          exact kept.trans oldByte.symm)
        rw [cell, byte, ← before']
        simp [Segment.cellAt, segmentOf]
  · have inside : (frameOf vaddr ≤ addr ∧ addr < va + pageSize) ↔
        (frameOf vaddr ≤ addr ∧ addr < va) := by
      rw [pageSize]
      omega
    have unloaded : (segmentOf start.mem vaddr size src flags).loadTo view
        (va + pageSize) addr = (segmentOf start.mem vaddr size src
          flags).loadTo view va addr := if_congr inside rfl rfl
    rw [unloaded, ← before]
    exact ready.otherCell shows.ok ok' shows.users shows.rws users rws
      addrUser same elsewhere (entries addr addrUser)

/-! ## The whole segment -/

section Loop

variable {first : Memory} {pages : Finset Nat}

theorem segmentEnd_eq (below : vaddr + size ≤ kernelVirtBase) :
    segmentEnd vaddr size = frameOf (vaddr + size + 0xfff) := by
  rw [kernelVirtBase] at below
  rw [segmentEnd, u32, Nat.mod_eq_of_lt (by omega)]

/-- The state of the loop at a page. -/
structure SegmentLoop (start first memory : Memory) (pd vaddr size flags : Nat)
    (src : Option Nat) (view : UserView) (pages : Finset Nat)
    (va copied : Nat) : Prop where
  loading : Loading start first memory pd pages
  shows : Shows start memory pd
    ((segmentOf start.mem vaddr size src flags).loadTo view va)
  aligned : va % 4096 = 0
  lower : frameOf vaddr ≤ va
  upper : va ≤ frameOf (vaddr + size + 0xfff)
  copied : copied = copiedTo vaddr size va

/-- The arguments of a call that loads a segment of user space. -/
structure LoadArgs (start : Memory) (vaddr size flags : Nat)
    (src : Option Nat) (pages : Finset Nat) : Prop where
  positive : 0 < size
  below : vaddr + size ≤ kernelVirtBase
  user : isUser flags = true
  source : ∀ source, src = some source → ∀ index < size,
    Backed start (source + index)
  wanted : ∀ addr, frameOf vaddr ≤ addr → addr < segmentEnd vaddr size →
    addr / 4096 ∈ pages

theorem SegmentLoop.pass {page : Option Nat}
    (loop : SegmentLoop start first memory pd vaddr size flags src view pages
      va copied)
    (args : LoadArgs start vaddr size flags src pages)
    (all : view.AllUser) (inside : va < segmentEnd vaddr size)
    (done : mapSegmentPage memory pd va flags = some (memory', page)) :
    ∃ frame, page = some frame ∧
      SegmentLoop start first (fillPage memory' vaddr size src va copied frame)
        pd vaddr size flags src view pages (va + pageSize)
        (copied + copyLength vaddr size va copied) := by
  have positive := args.positive
  have below := args.below
  have aligned := loop.aligned
  have wanted := args.wanted va loop.lower inside
  rw [segmentEnd_eq below] at inside
  have page : pageSize = 4096 := rfl
  have kernel : kernelVirtBase = 3221225472 := rfl
  have bounds : va < vaddr + size ∧ va + 4096 ≤
      frameOf (vaddr + size + 0xfff) := by
    rw [frameOf] at inside ⊢
    omega
  have lower := loop.lower
  have user : va < kernelVirtBase := by omega
  obtain ⟨frame, pageEq, ok', ready, loading⟩ :=
    loop.loading.pass vaddr size copied src user wanted done
  have shows := loop.shows.pass all positive (by omega) aligned lower
    bounds.1 user args.user args.source ok' ready
  have next := copiedTo_next positive (by omega) aligned lower bounds.1
  rw [← loop.copied] at shows next
  exact ⟨frame, pageEq, loading, shows, by omega, by omega,
    by rw [page]; exact bounds.2, next⟩

theorem Shows.loop (shows : Shows start memory pd view)
    (within : Within memory pd pages)
    (args : LoadArgs start vaddr size flags src pages) :
    SegmentLoop start memory memory pd vaddr size flags src view pages
      (frameOf vaddr) 0 := by
  refine ⟨⟨shows.ok, .refl, within⟩, ?_, frameOf_aligned vaddr,
    Nat.le_refl _, ?_, ?_⟩
  · have same : (segmentOf start.mem vaddr size src flags).loadTo view
        (frameOf vaddr) = view := Segment.loadTo_start
    rw [same]
    exact shows
  · simp only [frameOf]
    omega
  · have positive := args.positive
    rw [copiedTo, frameOf]
    split <;> omega

/-- What a call that loads a segment leaves. -/
theorem Shows.mapAndCopy (shows : Shows start memory pd view)
    (all : view.AllUser) (within : Within memory pd pages)
    (args : LoadArgs start vaddr size flags src pages)
    (done : mapAndCopy memory pd vaddr src size flags =
      some (memory', code)) :
    code = 0 ∧ Loading start memory memory' pd pages ∧
      Shows start memory' pd
        ((segmentOf start.mem vaddr size src flags).load view) := by
  obtain ⟨codeEq, va, copied, past, loop⟩ :=
    mapAndCopyFrom_rule
      (SegmentLoop start memory · pd vaddr size flags src view pages)
      (fun _ _ _ _ _ loop inside step => loop.pass args all inside step)
      (shows.loop within args) done
  refine ⟨codeEq, loop.loading, ?_⟩
  rw [segmentEnd_eq args.below] at past
  have stop : va = (segmentOf start.mem vaddr size src flags).pageStop :=
    Nat.le_antisymm loop.upper past
  have whole : (segmentOf start.mem vaddr size src flags).loadTo view va =
      (segmentOf start.mem vaddr size src flags).load view := by
    rw [stop]
    exact Segment.loadTo_pageStop args.positive
  rw [← whole]
  exact loop.shows

/-- The call succeeds when there is room for all the pages. -/
theorem Shows.mapAndCopy_some (shows : Shows start memory pd view)
    (all : view.AllUser) (within : Within memory pd pages)
    (args : LoadArgs start vaddr size flags src pages)
    (room : neededFrames pages ≤
      (freeBelow start.pmm start.pmm.totalFrames).card) :
    ∃ memory', LoafOs.mapAndCopy memory pd vaddr src size flags =
      some (memory', 0) := by
  have below := args.below
  have kernel : kernelVirtBase = 3221225472 := rfl
  have stop := segmentEnd_eq below
  refine mapAndCopyFrom_total
    (SegmentLoop start memory · pd vaddr size flags src view pages)
    (fun _ _ _ _ _ loop inside step => loop.pass args all inside step)
    (fun memory va copied loop inside => ?_)
    (shows.loop within args) ?_
  · have wanted := args.wanted va loop.lower inside
    have user : va < kernelVirtBase := by
      rw [stop, frameOf] at inside
      omega
    refine loop.loading.ok.mapSegmentPage_some user fun unmapped => ?_
    have total := loop.loading.ok.owned.total
    rw [total]
    exact loop.loading.ok.room_page loop.loading.within wanted unmapped room
  · rw [stop, frameOf]
    omega

end Loop

end LoafOs
