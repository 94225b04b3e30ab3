import LoafOs.Mm.SpaceLife
import LoafOs.Userspace.ExeSegment

/-!
# The image of a program

The four segments of a program, one after the other, in a new address
space.
-/

namespace LoafOs

open Memory

variable {start memory memory' : Memory}
  {pd vaddr size flags fileBuf code : Nat} {src : Option Nat}
  {view : UserView} {pages : Finset Nat} {hdr : ExeHeader}

theorem Backed.shift {addr : Nat} (ok : SpaceOk start pd memory)
    (backed : ∀ index < size, Backed start (addr + index)) :
    ∀ index < size, memory.mem.shift addr index =
      start.mem.shift addr index :=
  fun index small => ok.backed (backed index small)

theorem ofBytes_congr {mem mem' : Bytes}
    (same : ∀ index < exeHeaderSize, mem' index = mem index) :
    ExeHeader.ofBytes mem' = ExeHeader.ofBytes mem := by
  have word : ∀ offset, offset + 4 ≤ 32 →
      mem'.word32 offset = mem.word32 offset := fun offset small =>
    Bytes.word32_congr fun index below => same _ (by
      rw [exeHeaderSize]
      omega)
  simp only [ExeHeader.ofBytes, word 0 (by decide), word 4 (by decide),
    word 8 (by decide), word 12 (by decide), word 16 (by decide),
    word 20 (by decide), word 24 (by decide), word 28 (by decide)]

/-- The header in the file buffer stays what it was. -/
theorem SpaceOk.headerAt (ok : SpaceOk start pd memory)
    (backed : ∀ index < exeHeaderSize, Backed start (fileBuf + index)) :
    headerAt memory fileBuf = LoafOs.headerAt start fileBuf :=
  ofBytes_congr (Backed.shift ok backed)

/-- What loading a segment leaves, unless it is empty. -/
theorem Shows.mapSegment_done (shows : Shows start memory pd view)
    (all : view.AllUser) (within : Within memory pd pages)
    (args : 0 < size → LoadArgs start vaddr size flags src pages)
    (done : mapSegment memory pd vaddr src size flags =
      some (memory', code)) :
    code = 0 ∧ Loading start memory memory' pd pages ∧
      Shows start memory' pd
        ((segmentOf start.mem vaddr size src flags).load view) := by
  rw [mapSegment] at done
  split at done
  case isTrue empty =>
    simp only [Option.some.injEq, Prod.mk.injEq] at done
    obtain ⟨rfl, rfl⟩ := done
    rw [Segment.load_empty empty]
    exact ⟨rfl, ⟨shows.ok, .refl, within⟩, shows⟩
  case isFalse positive =>
    exact shows.mapAndCopy all within (args (by omega)) done

/-- Loading a segment, unless it is empty. -/
theorem Shows.mapSegment (shows : Shows start memory pd view)
    (all : view.AllUser) (within : Within memory pd pages)
    (args : 0 < size → LoadArgs start vaddr size flags src pages)
    (room : neededFrames pages ≤
      (freeBelow start.pmm start.pmm.totalFrames).card) :
    ∃ memory', LoafOs.mapSegment memory pd vaddr src size flags =
        some (memory', 0) ∧ Loading start memory memory' pd pages ∧
      Shows start memory' pd
        ((segmentOf start.mem vaddr size src flags).load view) := by
  obtain ⟨memory', done⟩ : ∃ memory',
      LoafOs.mapSegment memory pd vaddr src size flags =
        some (memory', 0) := by
    rw [LoafOs.mapSegment]
    by_cases empty : size = 0
    · rw [if_pos empty]
      exact ⟨memory, rfl⟩
    · rw [if_neg empty]
      exact shows.mapAndCopy_some all within (args (by omega)) room
  obtain ⟨_, loading, shows'⟩ := shows.mapSegment_done all within args done
  exact ⟨memory', done, loading, shows'⟩

/-! ## The four segments -/

def codeSegment (mem : Bytes) (hdr : ExeHeader) (fileBuf : Nat) : Segment :=
  segmentOf mem hdr.codeVaddr hdr.codeSize
    (some (fileBuf + exeHeaderSize)) codeFlags

def dataSegment (mem : Bytes) (hdr : ExeHeader) (fileBuf : Nat) : Segment :=
  segmentOf mem hdr.dataVaddr hdr.dataSize
    (some (fileBuf + exeHeaderSize + hdr.codeSize)) dataFlags

/-- A segment of zeros. -/
def zeroSegment (vaddr size : Nat) : Segment :=
  ⟨vaddr, size, none, true⟩

/-- The segments that `exec_load` maps, in its order. -/
def imageSegments (mem : Bytes) (hdr : ExeHeader) (fileBuf : Nat) :
    List Segment :=
  [codeSegment mem hdr fileBuf, dataSegment mem hdr fileBuf,
    zeroSegment hdr.bssVaddr hdr.bssSize,
    zeroSegment (userStackTop - userStackSize) userStackSize]

/-- The pages of an image: its segments and the stack. -/
def imagePages (hdr : ExeHeader) : Finset Nat :=
  pagesOf hdr.codeVaddr hdr.codeSize ∪ pagesOf hdr.dataVaddr hdr.dataSize ∪
    pagesOf hdr.bssVaddr hdr.bssSize ∪
    pagesOf (userStackTop - userStackSize) userStackSize

/-- The segments of the header lie below the stack. -/
structure BelowStack (hdr : ExeHeader) : Prop where
  code : hdr.codeVaddr + hdr.codeSize ≤ userStackTop - userStackSize
  data : hdr.dataVaddr + hdr.dataSize ≤ userStackTop - userStackSize
  bss : hdr.bssVaddr + hdr.bssSize ≤ userStackTop - userStackSize

/-- The segments of the header lie in user space. -/
structure BelowKernel (hdr : ExeHeader) : Prop where
  code : hdr.codeVaddr + hdr.codeSize ≤ kernelVirtBase
  data : hdr.dataVaddr + hdr.dataSize ≤ kernelVirtBase
  bss : hdr.bssVaddr + hdr.bssSize ≤ kernelVirtBase

theorem BelowStack.belowKernel (below : BelowStack hdr) :
    BelowKernel hdr := by
  have user : userStackTop - userStackSize ≤ kernelVirtBase := by decide
  exact ⟨below.code.trans user, below.data.trans user,
    below.bss.trans user⟩

theorem loadArgs (below : vaddr + size ≤ kernelVirtBase)
    (user : isUser flags = true)
    (source : ∀ source, src = some source → ∀ index < size,
      Backed start (source + index))
    (inside : pagesOf vaddr size ⊆ pages) (positive : 0 < size) :
    LoadArgs start vaddr size flags src pages := by
  refine ⟨positive, below, user, source, fun addr lower upper => inside ?_⟩
  rw [segmentEnd_eq below] at upper
  have meets : (segmentOf start.mem vaddr size src flags).Meets addr :=
    ⟨positive, lower, upper⟩
  exact Segment.meets_iff.mp meets

/-- A new address space is empty. -/
theorem pagingCreate_shows (small : start.pmm.totalFrames ≤ 2 ^ 18)
    (done : pagingCreateAddressSpace start = some (memory, pd)) :
    Shows start memory pd (fun _ => none) ∧ Within memory pd pages := by
  have ok := pagingCreate_ok small done
  obtain ⟨_, _, _, _, _, _, _, _, empty, _⟩ := pagingCreate_spec small done
  have absent : ∀ index < kernelPdeStart,
      isPresent (memory.entry pd index) = false := fun index low => by
    rw [empty index low]
    rfl
  refine ⟨⟨ok, fun index low present => ?_, fun index low present => ?_,
    fun addr user => userView_none ?_⟩, fun role addr holds => ?_⟩
  · rw [absent index low] at present
    simp at present
  · rw [absent index low] at present
    simp at present
  · rw [pteAt_absent (absent _ (pdIndex_lt user))]
    rfl
  · cases role with
    | directory => exact Finset.mem_insert_self ..
    | table index =>
        simp only [roleFrame] at holds
        split at holds
        case isTrue all =>
          rw [absent index all.1] at all
          simp at all
        case isFalse => simp at holds
    | page index entry =>
        simp only [roleFrame] at holds
        split at holds
        case isTrue all =>
          rw [absent index all.1] at all
          simp at all
        case isFalse => simp at holds

/-- The calls of the four segments. -/
structure ImageArgs (start : Memory) (hdr : ExeHeader) (fileBuf : Nat) :
    Prop where
  header : ∀ index < exeHeaderSize, Backed start (fileBuf + index)
  code : 0 < hdr.codeSize → LoadArgs start hdr.codeVaddr hdr.codeSize
    codeFlags (some (fileBuf + exeHeaderSize)) (imagePages hdr)
  data : 0 < hdr.dataSize → LoadArgs start hdr.dataVaddr hdr.dataSize
    dataFlags (some (fileBuf + exeHeaderSize + hdr.codeSize))
    (imagePages hdr)
  bss : 0 < hdr.bssSize → LoadArgs start hdr.bssVaddr hdr.bssSize dataFlags
    none (imagePages hdr)
  stack : LoadArgs start (userStackTop - userStackSize) userStackSize
    dataFlags none (imagePages hdr)

theorem imageArgs (below : BelowKernel hdr)
    (backed : ∀ index < exeHeaderSize + hdr.codeSize + hdr.dataSize,
      Backed start (fileBuf + index)) : ImageArgs start hdr fileBuf := by
  have noSource : ∀ source : Nat, none = some source → ∀ size,
      ∀ index < size, Backed start (source + index) :=
    fun source none => by simp at none
  refine ⟨fun index small => backed index (by omega),
    loadArgs below.code rfl (fun source same index inside => ?_) ?_,
    loadArgs below.data rfl (fun source same index inside => ?_) ?_,
    loadArgs below.bss rfl (fun source same => noSource source same _) ?_,
    loadArgs (by decide) rfl (fun source same => noSource source same _) ?_
      (by decide)⟩
  · rw [← Option.some.inj same, Nat.add_assoc]
    exact backed _ (by omega)
  · intro page member
    simp only [imagePages, Finset.mem_union]
    exact .inl (.inl (.inl member))
  · rw [← Option.some.inj same, Nat.add_assoc, Nat.add_assoc]
    exact backed _ (by omega)
  · intro page member
    simp only [imagePages, Finset.mem_union]
    exact .inl (.inl (.inr member))
  · intro page member
    simp only [imagePages, Finset.mem_union]
    exact .inl (.inr member)
  · intro page member
    simp only [imagePages, Finset.mem_union]
    exact .inr member

/-- The data of a segment in backed memory lie below the end of the address
space. -/
theorem mapSegment_u32 {source : Nat}
    (backed : 0 < size → ∀ index < size, Backed start (source + index)) :
    mapSegment memory pd vaddr (some (u32 source)) size flags =
      mapSegment memory pd vaddr (some source) size flags := by
  by_cases empty : size = 0
  · rw [mapSegment, mapSegment, if_pos empty, if_pos empty]
  · obtain ⟨frame, offset, isFrame, _, small, same⟩ :=
      backed (by omega) 0 (by omega)
    have virt := isFrame.virt
    have aligned := isFrame.aligned
    have bound := isFrame.bound
    have here : u32 source = source := by
      rw [u32]
      omega
    rw [here]

/-- The four calls load the four segments. -/
theorem mapSegments_shows (small : start.pmm.totalFrames ≤ 2 ^ 18)
    (created : pagingCreateAddressSpace start = some (memory, pd))
    (header : headerAt start fileBuf = hdr)
    (args : ImageArgs start hdr fileBuf)
    (room : neededFrames (imagePages hdr) ≤
      (freeBelow start.pmm start.pmm.totalFrames).card) :
    ∃ memory', mapSegments memory pd fileBuf = some (memory', 0) ∧
      Shows start memory' pd (UserView.loadAll (fun _ => none)
        (imageSegments start.mem hdr fileBuf)) := by
  obtain ⟨shows₀, within₀⟩ : Shows start memory pd (fun _ => none) ∧
      Within memory pd (imagePages hdr) := pagingCreate_shows small created
  have all₀ : UserView.AllUser (fun _ => none) := by
    intro addr cell there
    simp at there
  have header₀ := (shows₀.ok.headerAt args.header).trans header
  obtain ⟨memory₁, done₁, loading₁, shows₁⟩ :=
    shows₀.mapSegment all₀ within₀ args.code room
  have all₁ := all₀.load (segmentOf start.mem hdr.codeVaddr hdr.codeSize
    (some (fileBuf + exeHeaderSize)) codeFlags)
  have header₁ := (shows₁.ok.headerAt args.header).trans header
  obtain ⟨memory₂, done₂, loading₂, shows₂⟩ :=
    shows₁.mapSegment all₁ loading₁.within args.data room
  have all₂ := all₁.load (segmentOf start.mem hdr.dataVaddr hdr.dataSize
    (some (fileBuf + exeHeaderSize + hdr.codeSize)) dataFlags)
  have header₂ := (shows₂.ok.headerAt args.header).trans header
  obtain ⟨memory₃, done₃, loading₃, shows₃⟩ :=
    shows₂.mapSegment all₂ loading₂.within args.bss room
  have all₃ := all₂.load (segmentOf start.mem hdr.bssVaddr hdr.bssSize none
    dataFlags)
  obtain ⟨memory₄, done₄⟩ :=
    shows₃.mapAndCopy_some all₃ loading₃.within args.stack room
  obtain ⟨_, _, shows₄⟩ :=
    shows₃.mapAndCopy all₃ loading₃.within args.stack done₄
  refine ⟨memory₄, ?_, shows₄⟩
  have source₂ : mapSegment memory₁ pd hdr.dataVaddr
      (some (u32 (fileBuf + exeHeaderSize + hdr.codeSize))) hdr.dataSize
      dataFlags = _ := mapSegment_u32
    fun positive => (args.data positive).source _ rfl
  simp only [mapSegments, header₀, header₁, header₂, done₁, source₂, done₂,
    done₃, done₄, Option.bind_eq_bind, Option.pure_def, Option.bind_some, ne_eq,
    not_true_eq_false, if_false]

/-- What the four calls leave when they return. -/
theorem mapSegments_done (small : start.pmm.totalFrames ≤ 2 ^ 18)
    (created : pagingCreateAddressSpace start = some (memory, pd))
    (header : headerAt start fileBuf = hdr)
    (args : ImageArgs start hdr fileBuf)
    (done : mapSegments memory pd fileBuf = some (memory', code)) :
    code = 0 ∧ Shows start memory' pd (UserView.loadAll (fun _ => none)
      (imageSegments start.mem hdr fileBuf)) := by
  obtain ⟨shows₀, within₀⟩ : Shows start memory pd (fun _ => none) ∧
      Within memory pd (imagePages hdr) := pagingCreate_shows small created
  have all₀ : UserView.AllUser (fun _ => none) := by
    intro addr cell there
    simp at there
  have header₀ := (shows₀.ok.headerAt args.header).trans header
  simp only [mapSegments, Option.bind_eq_bind, Option.pure_def,
    Option.bind_eq_some_iff, header₀] at done
  obtain ⟨⟨memory₁, code₁⟩, step₁, done⟩ := done
  obtain ⟨zero₁, loading₁, shows₁⟩ :=
    shows₀.mapSegment_done all₀ within₀ args.code step₁
  have all₁ := all₀.load (segmentOf start.mem hdr.codeVaddr hdr.codeSize
    (some (fileBuf + exeHeaderSize)) codeFlags)
  have header₁ := (shows₁.ok.headerAt args.header).trans header
  simp only [zero₁, ne_eq, not_true_eq_false, if_false,
    Option.bind_eq_some_iff, header₁] at done
  obtain ⟨⟨memory₂, code₂⟩, step₂, done⟩ := done
  rw [mapSegment_u32 fun positive => (args.data positive).source _ rfl]
    at step₂
  obtain ⟨zero₂, loading₂, shows₂⟩ :=
    shows₁.mapSegment_done all₁ loading₁.within args.data step₂
  have all₂ := all₁.load (segmentOf start.mem hdr.dataVaddr hdr.dataSize
    (some (fileBuf + exeHeaderSize + hdr.codeSize)) dataFlags)
  have header₂ := (shows₂.ok.headerAt args.header).trans header
  simp only [zero₂, not_true_eq_false, if_false,
    Option.bind_eq_some_iff, header₂] at done
  obtain ⟨⟨memory₃, code₃⟩, step₃, done⟩ := done
  obtain ⟨zero₃, loading₃, shows₃⟩ :=
    shows₂.mapSegment_done all₂ loading₂.within args.bss step₃
  have all₃ := all₂.load (segmentOf start.mem hdr.bssVaddr hdr.bssSize none
    dataFlags)
  simp only [zero₃, not_true_eq_false, if_false,
    Option.bind_eq_some_iff] at done
  obtain ⟨⟨memory₄, code₄⟩, step₄, done⟩ := done
  obtain ⟨zero₄, _, shows₄⟩ :=
    shows₃.mapAndCopy all₃ loading₃.within args.stack step₄
  simp only [zero₄, not_true_eq_false, if_false, Option.some.injEq,
    Prod.mk.injEq] at done
  exact ⟨done.2.symm, done.1 ▸ shows₄⟩

/-! ## What the image is -/

/-- An address in a range of addresses. -/
def InRange (vaddr size addr : Nat) : Prop :=
  vaddr ≤ addr ∧ addr < vaddr + size

/-- The pages that the program may write. -/
def writablePages (hdr : ExeHeader) : Finset Nat :=
  pagesOf hdr.dataVaddr hdr.dataSize ∪ pagesOf hdr.bssVaddr hdr.bssSize ∪
    pagesOf (userStackTop - userStackSize) userStackSize

/-- What the header describes: the bytes of the file at the addresses of
code and data, zeros on the rest of the pages, and the access rights. -/
structure ShowsImage (memory : Memory) (pd : Nat) (hdr : ExeHeader)
    (file : Nat → UInt8) : Prop where
  mapped : ∀ addr < kernelVirtBase,
    (userView memory pd addr).isSome = true ↔ addr / 4096 ∈ imagePages hdr
  user : ∀ addr < kernelVirtBase, ∀ cell,
    userView memory pd addr = some cell → cell.user = true
  writable : ∀ addr < kernelVirtBase, ∀ cell,
    userView memory pd addr = some cell →
    (cell.writable = true ↔ addr / 4096 ∈ writablePages hdr)
  code : ∀ index < hdr.codeSize,
    (userView memory pd (hdr.codeVaddr + index)).map Cell.byte =
      some (file (exeHeaderSize + index))
  data : ∀ index < hdr.dataSize,
    (userView memory pd (hdr.dataVaddr + index)).map Cell.byte =
      some (file (exeHeaderSize + hdr.codeSize + index))
  zero : ∀ addr < kernelVirtBase, ∀ cell,
    userView memory pd addr = some cell →
    ¬ InRange hdr.codeVaddr hdr.codeSize addr →
    ¬ InRange hdr.dataVaddr hdr.dataSize addr → cell.byte = 0

theorem map_byte_of_isSome {cell : Option Cell} (there : cell.isSome = true) :
    cell.map Cell.byte = some ((cell.map Cell.byte).getD 0) := by
  obtain ⟨value, rfl⟩ := Option.isSome_iff_exists.mp there
  rfl

/-- The four segments, loaded one after the other, make up the image. -/
theorem Shows.image (below : BelowKernel hdr)
    (disjoint : ∀ addr, InRange hdr.codeVaddr hdr.codeSize addr →
      ¬ InRange hdr.dataVaddr hdr.dataSize addr)
    (shows : Shows start memory pd (UserView.loadAll (fun _ => none)
      (imageSegments start.mem hdr fileBuf))) :
    ShowsImage memory pd hdr (start.mem.shift fileBuf) := by
  have codeBelow := below.code
  have dataBelow := below.data
  have mapped : ∀ addr, (UserView.loadAll (fun _ => none)
      (imageSegments start.mem hdr fileBuf) addr).isSome = true ↔
        addr / 4096 ∈ imagePages hdr := by
    intro addr
    simp only [UserView.loadAll, imageSegments, List.foldl_cons,
      List.foldl_nil, UserView.load_isSome, Segment.meets_iff,
      codeSegment, dataSegment, zeroSegment, segmentOf,
      Option.isSome_none, Bool.false_eq_true, or_false, imagePages, Finset.mem_union]
    tauto
  have all : (UserView.loadAll (fun _ => none)
      (imageSegments start.mem hdr fileBuf)).AllUser :=
    UserView.AllUser.loadAll (fun addr cell there => by simp at there) _
  have writable : ∀ addr, UserView.isWritable (UserView.loadAll
      (fun _ => none) (imageSegments start.mem hdr fileBuf)) addr = true ↔
        addr / 4096 ∈ writablePages hdr := by
    intro addr
    have code : isRw codeFlags = false := rfl
    have data : isRw dataFlags = true := rfl
    have empty : UserView.isWritable (fun _ => none) addr = false := rfl
    simp only [UserView.loadAll, imageSegments, List.foldl_cons,
      List.foldl_nil, UserView.isWritable_load, Segment.meets_iff,
      codeSegment, dataSegment, zeroSegment, segmentOf, code, data,
      Bool.false_eq_true, false_and, true_and, empty, or_false, writablePages, Finset.mem_union]
    tauto
  have byte : ∀ addr, ¬ InRange hdr.codeVaddr hdr.codeSize addr →
      ¬ InRange hdr.dataVaddr hdr.dataSize addr →
      UserView.byteOf (UserView.loadAll (fun _ => none)
        (imageSegments start.mem hdr fileBuf)) addr = 0 := by
    intro addr notCode notData
    have notCode' : ¬ (codeSegment start.mem hdr fileBuf).Covers addr :=
      notCode
    have notData' : ¬ (dataSegment start.mem hdr fileBuf).Covers addr :=
      notData
    simp only [UserView.loadAll, imageSegments, List.foldl_cons,
      List.foldl_nil]
    rw [UserView.byteOf_load_other (.inl rfl),
      UserView.byteOf_load_other (.inl rfl),
      UserView.byteOf_load_other (.inr notData'),
      UserView.byteOf_load_other (.inr notCode')]
    rfl
  have code : ∀ addr, InRange hdr.codeVaddr hdr.codeSize addr →
      UserView.byteOf (UserView.loadAll (fun _ => none)
        (imageSegments start.mem hdr fileBuf)) addr =
        start.mem (fileBuf + exeHeaderSize + (addr - hdr.codeVaddr)) := by
    intro addr inside
    have covers : (codeSegment start.mem hdr fileBuf).Covers addr := inside
    have notData : ¬ (dataSegment start.mem hdr fileBuf).Covers addr :=
      disjoint addr inside
    simp only [UserView.loadAll, imageSegments, List.foldl_cons,
      List.foldl_nil]
    rw [UserView.byteOf_load_other (.inl rfl),
      UserView.byteOf_load_other (.inl rfl),
      UserView.byteOf_load_other (.inr notData)]
    exact UserView.byteOf_load_covers rfl covers
  have data : ∀ addr, InRange hdr.dataVaddr hdr.dataSize addr →
      UserView.byteOf (UserView.loadAll (fun _ => none)
        (imageSegments start.mem hdr fileBuf)) addr =
        start.mem (fileBuf + exeHeaderSize + hdr.codeSize +
          (addr - hdr.dataVaddr)) := by
    intro addr inside
    have covers : (dataSegment start.mem hdr fileBuf).Covers addr := inside
    simp only [UserView.loadAll, imageSegments, List.foldl_cons,
      List.foldl_nil]
    rw [UserView.byteOf_load_other (.inl rfl),
      UserView.byteOf_load_other (.inl rfl)]
    exact UserView.byteOf_load_covers rfl covers
  generalize UserView.loadAll (fun _ => none)
    (imageSegments start.mem hdr fileBuf) = view at *
  have value : ∀ addr < kernelVirtBase, ∀ cell,
      userView memory pd addr = some cell → view addr = some cell :=
    fun addr user cell there => (shows.view addr user).symm.trans there
  refine ⟨fun addr user => ?_, fun addr user cell there =>
      all addr cell (value addr user cell there),
    fun addr user cell there => ?_, fun index inside => ?_,
    fun index inside => ?_, fun addr user cell there notCode notData => ?_⟩
  · rw [shows.view addr user]
    exact mapped addr
  · rw [← writable addr, UserView.isWritable, value addr user cell there]
    rfl
  · have covers : InRange hdr.codeVaddr hdr.codeSize
        (hdr.codeVaddr + index) := ⟨by omega, by omega⟩
    have isMapped := (mapped (hdr.codeVaddr + index)).mpr (by
      simp only [imagePages, Finset.mem_union, mem_pagesOf]
      exact .inl (.inl (.inl ⟨_, covers.1, covers.2, rfl⟩)))
    rw [shows.view _ (by omega), map_byte_of_isSome isMapped]
    refine congrArg some ((code _ covers).trans ?_)
    rw [Bytes.shift, Nat.add_sub_cancel_left, Nat.add_assoc]
  · have covers : InRange hdr.dataVaddr hdr.dataSize
        (hdr.dataVaddr + index) := ⟨by omega, by omega⟩
    have isMapped := (mapped (hdr.dataVaddr + index)).mpr (by
      simp only [imagePages, Finset.mem_union, mem_pagesOf]
      exact .inl (.inl (.inr ⟨_, covers.1, covers.2, rfl⟩)))
    rw [shows.view _ (by omega), map_byte_of_isSome isMapped]
    refine congrArg some ((data _ covers).trans ?_)
    rw [Bytes.shift, Nat.add_sub_cancel_left]
    simp only [Nat.add_assoc]
  · have zero := byte addr notCode notData
    rw [UserView.byteOf, value addr user cell there] at zero
    exact zero

end LoafOs
