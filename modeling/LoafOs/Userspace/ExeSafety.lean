import LoafOs.Userspace.ExeLoad

/-!
# Loading a program and the kernel's page tables

The segment addresses come from the file.  As long as no page of a segment
lies in the kernel's part of the address space, the frames that the loader
writes are those that it has just allocated.
-/

namespace LoafOs

open Arena Memory

variable {start first memory memory' : Memory}
  {pd va vaddr size flags frame fileBuf code copied : Nat}
  {src : Option Nat} {pages : Finset Nat} {hdr : ExeHeader}

/-- The pages that `map_and_copy` visits. -/
def visitedBy (vaddr size : Nat) : Finset Nat :=
  if size = 0 then ∅
  else Finset.Ico (vaddr / 4096) (segmentEnd vaddr size / 4096)

/-- The pages that the four calls visit. -/
def visitedPages (hdr : ExeHeader) : Finset Nat :=
  visitedBy hdr.codeVaddr hdr.codeSize ∪ visitedBy hdr.dataVaddr hdr.dataSize ∪
    visitedBy hdr.bssVaddr hdr.bssSize ∪
    visitedBy (userStackTop - userStackSize) userStackSize

/-- No page that a segment visits belongs to the kernel. -/
def StaysBelow (hdr : ExeHeader) : Prop :=
  ∀ page ∈ visitedPages hdr, page < kernelVirtBase / 4096

instance : Decidable (StaysBelow hdr) :=
  inferInstanceAs (Decidable (∀ page ∈ _, _))

/-- A frame that the allocator does not hand out while it takes this many
frames: it is marked, or enough free ones lie below it. -/
def Sheltered (pmm : Pmm) (need addr : Nat) : Prop :=
  pmm.used (addr / 4096) = true ∨
    need ≤ (freeBelow pmm (addr / 4096)).card

/-- The state of a new address space, with the frames that stay free. -/
structure Guarded (start first memory : Memory) (pd : Nat)
    (pages : Finset Nat) : Prop where
  loading : Loading start first memory pd pages
  avoids : ∀ frame, start.pmm.used frame = false →
    neededFrames pages ≤ (freeBelow start.pmm frame).card →
    memory.pmm.used frame = false

theorem Guarded.pass {page : Option Nat}
    (guarded : Guarded start first memory pd pages)
    (vaddr size copied : Nat) (src : Option Nat)
    (user : va < kernelVirtBase) (wanted : va / 4096 ∈ pages)
    (done : mapSegmentPage memory pd va flags = some (memory', page)) :
    ∃ frame, page = some frame ∧
      Guarded start first
        (fillPage memory' vaddr size src va copied frame) pd pages := by
  obtain ⟨frame, pageEq, _, _, loading⟩ :=
    guarded.loading.pass vaddr size copied src user wanted done
  have ok := guarded.loading.ok
  refine ⟨frame, pageEq, loading, fun other free room => ?_⟩
  rw [fillPage_pmm]
  exact ok.mapSegmentPage_avoids user
    (fun unmapped =>
      ok.room_page guarded.loading.within wanted unmapped room)
    done (guarded.avoids other free room)

/-- A call of `map_and_copy` below the kernel. -/
theorem Guarded.mapAndCopy (guarded : Guarded start first memory pd pages)
    (inside : ∀ va, frameOf vaddr ≤ va → va < segmentEnd vaddr size →
      va < kernelVirtBase ∧ va / 4096 ∈ pages)
    (done : LoafOs.mapAndCopy memory pd vaddr src size flags =
      some (memory', code)) :
    code = 0 ∧ Guarded start first memory' pd pages := by
  obtain ⟨codeEq, va, copied, _, _, final⟩ :=
    mapAndCopyFrom_rule
      (fun state va _ => frameOf vaddr ≤ va ∧
        Guarded start first state pd pages)
      (fun state va copied mapped page loop below step => by
        obtain ⟨lower, guarded⟩ := loop
        obtain ⟨user, wanted⟩ := inside va lower below
        obtain ⟨frame, pageEq, next⟩ :=
          guarded.pass vaddr size copied src user wanted step
        exact ⟨frame, pageEq, by omega, next⟩)
      ⟨Nat.le_refl _, guarded⟩ done
  exact ⟨codeEq, final⟩

theorem visitedBy_inside (positive : size ≠ 0)
    (subset : visitedBy vaddr size ⊆ pages)
    (below : ∀ page ∈ pages, page < kernelVirtBase / 4096) :
    ∀ va, frameOf vaddr ≤ va → va < segmentEnd vaddr size →
      va < kernelVirtBase ∧ va / 4096 ∈ pages := by
  intro va lower upper
  have member : va / 4096 ∈ pages := by
    refine subset ?_
    rw [visitedBy, if_neg positive, Finset.mem_Ico]
    rw [frameOf] at lower
    rw [segmentEnd, frameOf] at upper ⊢
    omega
  have bound := below _ member
  rw [kernelVirtBase] at bound ⊢
  exact ⟨by omega, member⟩

/-- A segment below the kernel, unless it is empty. -/
theorem Guarded.mapSegment (guarded : Guarded start first memory pd pages)
    (subset : visitedBy vaddr size ⊆ pages)
    (below : ∀ page ∈ pages, page < kernelVirtBase / 4096)
    (done : LoafOs.mapSegment memory pd vaddr src size flags =
      some (memory', code)) :
    code = 0 ∧ Guarded start first memory' pd pages := by
  rw [LoafOs.mapSegment] at done
  split at done
  case isTrue =>
    simp only [Option.some.injEq, Prod.mk.injEq] at done
    exact ⟨done.2.symm, done.1 ▸ guarded⟩
  case isFalse positive =>
    exact guarded.mapAndCopy (visitedBy_inside positive subset below) done

/-- A new address space. -/
theorem pagingCreate_guarded (small : start.pmm.totalFrames ≤ 2 ^ 18)
    (done : pagingCreateAddressSpace start = some (memory, pd)) :
    Guarded start memory memory pd pages := by
  obtain ⟨shows, within⟩ := pagingCreate_shows small done
  obtain ⟨found, _, _, _, least, _, used, _⟩ := pagingCreate_spec small done
  refine ⟨⟨shows.ok, .refl, within⟩, fun frame free room => ?_⟩
  have positive : 0 < (freeBelow start.pmm frame).card := by
    rw [neededFrames] at room
    omega
  obtain ⟨low, member⟩ := Finset.card_pos.mp positive
  obtain ⟨below, unmarked⟩ := mem_freeBelow.mp member
  have different : frame ≠ found := by
    intro same
    rw [least low (by omega)] at unmarked
    simp at unmarked
  rw [used, free]
  simp [different]

/-- The four calls do not fail and stay within the new address space. -/
theorem mapSegments_guarded (small : start.pmm.totalFrames ≤ 2 ^ 18)
    (created : pagingCreateAddressSpace start = some (memory, pd))
    (header : headerAt start fileBuf = hdr)
    (backed : ∀ index < exeHeaderSize, Backed start (fileBuf + index))
    (below : StaysBelow hdr)
    (done : mapSegments memory pd fileBuf = some (memory', code)) :
    code = 0 ∧ Guarded start memory memory' pd (visitedPages hdr) := by
  have guarded₀ : Guarded start memory memory pd (visitedPages hdr) :=
    pagingCreate_guarded small created
  have header₀ := (guarded₀.loading.ok.headerAt backed).trans header
  simp only [mapSegments, Option.bind_eq_bind, Option.pure_def,
    Option.bind_eq_some_iff, header₀] at done
  obtain ⟨⟨memory₁, code₁⟩, step₁, done⟩ := done
  obtain ⟨zero₁, guarded₁⟩ := guarded₀.mapSegment (by
    simp only [visitedPages, Finset.union_assoc]
    exact Finset.subset_union_left) below step₁
  have header₁ := (guarded₁.loading.ok.headerAt backed).trans header
  simp only [zero₁, ne_eq, not_true_eq_false, if_false,
    Option.bind_eq_some_iff, header₁] at done
  obtain ⟨⟨memory₂, code₂⟩, step₂, done⟩ := done
  obtain ⟨zero₂, guarded₂⟩ := guarded₁.mapSegment (by
    intro page member
    simp only [visitedPages, Finset.mem_union]
    exact .inl (.inl (.inr member))) below step₂
  have header₂ := (guarded₂.loading.ok.headerAt backed).trans header
  simp only [zero₂, ne_eq, not_true_eq_false, if_false,
    Option.bind_eq_some_iff, header₂] at done
  obtain ⟨⟨memory₃, code₃⟩, step₃, done⟩ := done
  obtain ⟨zero₃, guarded₃⟩ := guarded₂.mapSegment (by
    intro page member
    simp only [visitedPages, Finset.mem_union]
    exact .inl (.inr member)) below step₃
  simp only [zero₃, ne_eq, not_true_eq_false, if_false,
    Option.bind_eq_some_iff] at done
  obtain ⟨⟨memory₄, code₄⟩, step₄, done⟩ := done
  obtain ⟨zero₄, guarded₄⟩ := guarded₃.mapAndCopy
    (visitedBy_inside (by decide) (by
      intro page member
      simp only [visitedPages, Finset.mem_union]
      exact .inr member) below) step₄
  simp only [zero₄, ne_eq, not_true_eq_false, if_false, Option.some.injEq,
    Prod.mk.injEq] at done
  exact ⟨done.2.symm, done.1 ▸ guarded₄⟩

/-- A frame is taken during the load: it is free before and marked
afterwards. -/
def Taken (before after : Pmm) (frame : Nat) : Prop :=
  before.used (frame / 4096) = false ∧ after.used (frame / 4096) = true

/-- Every frame but those that the load takes keeps its bytes. -/
theorem Guarded.kept (small : start.pmm.totalFrames ≤ 2 ^ 18)
    (created : pagingCreateAddressSpace start = some (memory, pd))
    (guarded : Guarded start memory memory' pd pages)
    (isFrame : IsFrame frame)
    (other : ¬ Taken start.pmm memory'.pmm frame) :
    FrameKept start memory' frame := by
  have ok := guarded.loading.ok
  cases marked : start.pmm.used (frame / 4096) with
  | true => exact ok.kept frame isFrame marked
  | false =>
      have free : memory'.pmm.used (frame / 4096) = false := by
        rw [← Bool.not_eq_true]
        exact fun now => other ⟨marked, now⟩
      have foreign : ∀ role, roleFrame memory' pd role ≠ some frame := by
        intro role holds
        rw [ok.owned.marked holds] at free
        simp at free
      have notPd : frame ≠ pd := fun same =>
        foreign .directory (by rw [same]; rfl)
      obtain ⟨_, _, _, _, _, _, _, _, _, _, kept⟩ :=
        pagingCreate_spec small created
      exact (kept frame isFrame notPd).trans
        (guarded.loading.extended.kept frame isFrame foreign)

/-- A sheltered frame is not taken. -/
theorem Guarded.sheltered
    (guarded : Guarded start first memory pd pages)
    (sheltered : Sheltered start.pmm (neededFrames pages) frame) :
    ¬ Taken start.pmm memory.pmm frame := by
  rintro ⟨before, after⟩
  rcases sheltered with marked | room
  · rw [before] at marked
    simp at marked
  · rw [guarded.avoids _ before room] at after
    simp at after

/-! ## The whole load -/

variable {kernel kernel' : Kernel} {stop : Nat} {blocks : List Block}
  {path : CString} {st : FatStat} {result : Except Nat Image}

/-- A frame of the kernel's page tables: it lies outside the heap, and the
load does not take it. -/
structure TableFrame (kernel : Kernel) (stop need addr : Nat) : Prop where
  frame : IsFrame addr
  sheltered : Sheltered kernel.pmm need addr
  outside : ∀ offset < 4096,
    physToVirt addr + offset < kernel.heap.freeList ∨
      stop ≤ physToVirt addr + offset

/-- The page directory of `paging_init` and the tables that it leads to. -/
structure KernelTables (kernel : Kernel) (stop need : Nat) : Prop where
  directory : TableFrame kernel stop need kernel.kernelDirectory
  tables : ∀ index, kernelPdeStart ≤ index → index < 1024 →
    isPresent (kernel.memory.entry kernel.kernelDirectory index) = true →
    TableFrame kernel stop need
      (frameOf (kernel.memory.entry kernel.kernelDirectory index))

/-- The entries reached through the kernel's directory entries. -/
structure TablesKept (memory memory' : Memory) : Prop where
  directory : ∀ index, kernelPdeStart ≤ index → index < 1024 →
    memory'.entry memory.kernelDirectory index =
      memory.entry memory.kernelDirectory index
  tables : ∀ index, kernelPdeStart ≤ index → index < 1024 →
    isPresent (memory.entry memory.kernelDirectory index) = true →
    ∀ entry < 1024,
      memory'.entry
          (frameOf (memory.entry memory.kernelDirectory index)) entry =
        memory.entry
          (frameOf (memory.entry memory.kernelDirectory index)) entry

theorem KernelTables.kept {memory' : Memory} {need : Nat}
    (tables : KernelTables kernel stop need)
    (same : ∀ addr, TableFrame kernel stop need addr →
      FrameKept kernel.memory memory' addr) :
    TablesKept kernel.memory memory' :=
  ⟨fun _ _ upper => (same _ tables.directory).entry upper,
    fun index lower upper present _ small =>
      (same _ (tables.tables index lower upper present)).entry small⟩

/-- The segments of a buffer go into frames that the load takes. -/
theorem Buffered.stores {block : Block} {file : Bytes}
    (buffered : Buffered kernel stop blocks block file size)
    (large : exeHeaderSize ≤ size) (header : ExeHeader.ofBytes file = hdr)
    (below : StaysBelow hdr)
    (created : pagingCreateAddressSpace kernel.memory = some (memory, pd))
    (mapped : mapSegments memory pd (block.addr + blockHeaderSize) =
      some (memory', code))
    (isFrame : IsFrame frame)
    (untaken : ¬ Taken kernel.pmm memory'.pmm frame) :
    FrameKept kernel.memory memory' frame := by
  have small : kernel.memory.pmm.totalFrames ≤ 2 ^ 18 := buffered.ok.frames
  have hdrEq := (buffered.headerAt large).trans header
  have backed : ∀ index < exeHeaderSize, Backed kernel.memory
      (block.addr + blockHeaderSize + index) :=
    fun index below => buffered.backed index (by omega)
  obtain ⟨_, guarded⟩ :=
    mapSegments_guarded small created hdrEq backed below mapped
  exact guarded.kept small created isFrame untaken

theorem loadFile_full (ok : KernelOk kernel stop blocks)
    (file : RegularFile kernel.volume path st)
    (full : ∀ block ∈ blocks, block.free = true →
      block.size < roundRequest (fatReadAllocSize kernel.volume.bpb
        (UInt32.ofNat st.size)).toNat) :
    loadFile kernel path = some (kernel, .error 2) := by
  have none := ok.heap.kmalloc_none (firstFit_none_iff.mpr full)
  simp only [loadFile, Kernel.kmalloc, Option.bind_eq_bind, Option.pure_def,
    file.stat, Option.bind_some, none, if_true]

def wordByte (value offset : Nat) : UInt8 :=
  UInt8.ofNat (value / 256 ^ offset)

/-- The directory at 0x101000 leads to one table, at 0x102000, that maps the
first 4 MB of memory. -/
def tabledMem : Bytes := fun addr =>
  if 0xc0102000 ≤ addr ∧ addr < 0xc0103000 then
    wordByte ((addr - 0xc0102000) / 4 * 4096 + 3) (addr % 4)
  else if 0xc0101c00 ≤ addr ∧ addr < 0xc0101c04 then
    wordByte 0x102003 (addr % 4)
  else sampleHeap.mem addr

def tabledKernel (calls : List FatCall) : Kernel where
  heap := { sampleHeap with mem := tabledMem }
  live := []
  pmm := samplePmm.setRun 0 1
  kernelDirectory := 0x101000
  volume := afterCalls sampleVolume calls

variable {calls : List FatCall}

theorem tabledKernel_ok :
    KernelOk (tabledKernel calls) (sampleHeap.freeList + 1 * pageSize)
      [⟨sampleHeap.freeList, 1 * pageSize - blockHeaderSize, true⟩] := by
  have plain := sampleKernel_ok
  refine ⟨plain.heap.write rfl rfl fun block member index lower upper => ?_,
    plain.backed, plain.frames⟩
  rw [List.mem_singleton.mp member] at lower upper
  have base : sampleHeap.freeList = 3221225472 := rfl
  rw [base] at lower upper
  simp only at lower upper
  change tabledMem index = sampleHeap.mem index
  rw [tabledMem, if_neg (by omega), if_neg (by omega)]

end LoafOs
