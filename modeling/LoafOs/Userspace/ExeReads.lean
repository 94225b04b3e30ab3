import LoafOs.Fs.ReadBuffers
import LoafOs.Userspace.ExeSafety

/-!
# What the loader reads

`exec_load` reads the header, the code and the data of a program from its
file buffer.  The buffer has the size of the directory entry,
`fat_read_file` fills it with the clusters of the chain, and the header
says where code and data end; the loader compares none of the three.
-/

namespace LoafOs

open Arena Links Memory

/-! ## The bytes that are read -/

/-- A range of addresses: the first one and their number. -/
abbrev AddrRange := Nat × Nat

/-- The address lies in one of the ranges. -/
def InRanges (ranges : List AddrRange) (addr : Nat) : Prop :=
  ∃ range ∈ ranges, InRange range.1 range.2 addr

/-- What the loop of `map_and_copy` reads from `source`, up to the page that
ends it. -/
def mapAndCopyReads (pd vaddr source size flags : Nat) :
    Nat → Memory → Nat → Nat → List AddrRange
  | 0, _, _, _ => []
  | fuel + 1, memory, va, copied =>
      if va < segmentEnd vaddr size then
        match mapSegmentPage memory pd va flags with
        | some (memory, some frame) =>
            (source + copied, copyLength vaddr size va copied) ::
              mapAndCopyReads pd vaddr source size flags fuel
                (fillPage memory vaddr size (some source) va copied frame)
                (va + pageSize)
                (copied + copyLength vaddr size va copied)
        | _ => []
      else []

/-- What `size && map_and_copy(...)` reads. -/
def mapSegmentReads (memory : Memory) (pd vaddr source size flags : Nat) :
    List AddrRange :=
  if size = 0 then []
  else
    mapAndCopyReads pd vaddr source size flags (2 ^ 20 + 1) memory
      (frameOf vaddr) 0

/-- Where the data of the program lie in the memory. -/
def dataSource (hdr : ExeHeader) (fileBuf : Nat) : Nat :=
  u32 (fileBuf + exeHeaderSize + hdr.codeSize)

/-- The first call of `map_and_copy` in `exec_load`. -/
def mapCode (memory : Memory) (pd fileBuf : Nat) : Option (Memory × Nat) :=
  let hdr := headerAt memory fileBuf
  mapSegment memory pd hdr.codeVaddr (some (fileBuf + exeHeaderSize))
    hdr.codeSize codeFlags

/-- What the second call reads; `hdr` is read from the buffer once more. -/
def dataReads (memory : Memory) (pd fileBuf : Nat) : List AddrRange :=
  let hdr := headerAt memory fileBuf
  mapSegmentReads memory pd hdr.dataVaddr (dataSource hdr fileBuf)
    hdr.dataSize dataFlags

/-- What the calls of `map_and_copy` in `exec_load` read. -/
def segmentReads (memory : Memory) (pd fileBuf : Nat) : List AddrRange :=
  let hdr := headerAt memory fileBuf
  mapSegmentReads memory pd hdr.codeVaddr (fileBuf + exeHeaderSize)
      hdr.codeSize codeFlags ++
    match mapCode memory pd fileBuf with
    | some (memory, 0) => dataReads memory pd fileBuf
    | _ => []

/-- What `exec_load` reads of the file buffer: the header, then the
segments. -/
def imageReads (kernel : Kernel) (fileBuf : Nat) : List AddrRange :=
  (fileBuf, exeHeaderSize) ::
    match pagingCreateAddressSpace kernel.memory with
    | some (memory, pd) => segmentReads memory pd fileBuf
    | none => []

/-- The load reads what `fat_read_file` has delivered of the file, and
`fat_read_file` stores nothing outside the buffer. -/
structure ReadsOnlyFile (kernel : Kernel) (path : CString) : Prop where
  stores : ∀ st moved, fatStat kernel.volume path = some (.ok st) →
    fatReadMoved kernel.volume path = some moved →
    moved ≤ (fatReadAllocSize kernel.volume.bpb
      (UInt32.ofNat st.size)).toNat
  reads : ∀ st moved loaded fileBuf,
    fatStat kernel.volume path = some (.ok st) →
    fatReadMoved kernel.volume path = some moved →
    loadFile kernel path = some (loaded, .ok fileBuf) →
    ∀ addr, InRanges (imageReads loaded fileBuf) addr →
      InRange fileBuf (min st.size moved) addr

/-! ## When the lengths agree -/

/-- The bytes of a segment that `map_and_copy` copies: all of them, unless
the end of the segment wraps around. -/
def segmentBytes (vaddr size : Nat) : Nat :=
  min size (segmentEnd vaddr size - vaddr)

/-- The clusters fit in the buffer for the size of the entry; header, code
and data end before the entry and the chain do. -/
structure Covers (bpb : Bpb) (size count : Nat) (hdr dataHdr : ExeHeader) :
    Prop where
  chain : count * bpb.clusterSize ≤
    (fatReadAllocSize bpb (UInt32.ofNat size)).toNat
  header : exeHeaderSize ≤ min size (count * bpb.clusterSize)
  code : exeHeaderSize + segmentBytes hdr.codeVaddr hdr.codeSize ≤
    min size (count * bpb.clusterSize)
  data : 0 < segmentBytes dataHdr.dataVaddr dataHdr.dataSize →
    u32 (exeHeaderSize + dataHdr.codeSize) +
        segmentBytes dataHdr.dataVaddr dataHdr.dataSize ≤
      min size (count * bpb.clusterSize)

/-- The header of the file that the path leads to. -/
def fileHeader (volume : Volume) (path : CString) : ExeHeader :=
  ExeHeader.ofBytes (fileContent volume path)

/-- The entry, the chain and the header agree; `dataHdr` is the header that
the data segment is copied by. -/
def LengthsAgree (volume : Volume) (path : CString) (dataHdr : ExeHeader) :
    Prop :=
  ∀ st clusters, fatStat volume path = some (.ok st) →
    Path volume.next ChainStop st.firstCluster clusters →
    Covers volume.bpb st.size clusters.length (fileHeader volume path)
      dataHdr

/-- The header in the buffer after the code segment has been copied. -/
def headerAfterCode (kernel : Kernel) (path : CString) :
    Option ExeHeader := do
  let (kernel, result) ← loadFile kernel path
  match result with
  | .error _ => none
  | .ok fileBuf =>
      let (memory, pd) ← pagingCreateAddressSpace kernel.memory
      let (memory, _) ← mapCode memory pd fileBuf
      return headerAt memory fileBuf

/-- No page of the code segment belongs to the kernel. -/
def CodeBelow (hdr : ExeHeader) : Prop :=
  ∀ page ∈ visitedBy hdr.codeVaddr hdr.codeSize,
    page < kernelVirtBase / 4096

/-! ## The copies of a segment -/

section Copies

variable {memory memory' : Memory}
  {pd vaddr source size flags fuel va copied addr : Nat}

theorem inRanges_cons {range : AddrRange} {ranges : List AddrRange} :
    InRanges (range :: ranges) addr ↔
      InRange range.1 range.2 addr ∨ InRanges ranges addr := by
  simp only [InRanges, List.mem_cons, exists_eq_or_imp]

theorem inRanges_append {left right : List AddrRange} :
    InRanges (left ++ right) addr ↔
      InRanges left addr ∨ InRanges right addr := by
  simp only [InRanges, List.mem_append, or_and_right, exists_or]

theorem not_inRanges_nil : ¬ InRanges [] addr := by
  rintro ⟨range, member, _⟩
  cases member

/-- A page that the loop visits begins below the end of the segment, also
when that end has wrapped around. -/
theorem lt_of_segmentEnd (wordVaddr : vaddr < 2 ^ 32)
    (word : size < 2 ^ 32) (aligned : va % 4096 = 0)
    (inside : va < segmentEnd vaddr size) :
    va < vaddr + size ∧ va + 4096 ≤ segmentEnd vaddr size := by
  rw [segmentEnd, frameOf, u32] at inside ⊢
  omega

/-- The copies of a segment lie one behind the other. -/
theorem mapAndCopyReads_iff (wordVaddr : vaddr < 2 ^ 32)
    (positive : 0 < size) (word : size < 2 ^ 32)
    (aligned : va % 4096 = 0) (lower : frameOf vaddr ≤ va)
    (done : mapAndCopyFrom pd vaddr (some source) size flags fuel memory va
      (copiedTo vaddr size va) = some (memory', 0)) :
    InRanges (mapAndCopyReads pd vaddr source size flags fuel memory va
        (copiedTo vaddr size va)) addr ↔
      source + copiedTo vaddr size va ≤ addr ∧
        addr < source + segmentBytes vaddr size := by
  induction fuel generalizing memory va with
  | zero => cases done
  | succ fuel inductionHypothesis =>
      rw [mapAndCopyFrom_next] at done
      rw [mapAndCopyReads]
      split at done
      case isTrue inside =>
        obtain ⟨upper, room⟩ := lt_of_segmentEnd wordVaddr word aligned inside
        obtain ⟨⟨mapped, page⟩, step, rest⟩ := Option.bind_eq_some_iff.mp done
        have length := copiedTo_next positive word aligned lower upper
        rw [if_pos inside, step]
        cases page with
        | none => cases rest
        | some frame =>
            have next : va + pageSize = va + 4096 := rfl
            simp only [length] at rest ⊢
            rw [inRanges_cons, inductionHypothesis (by omega) (by omega) rest]
            simp only [InRange]
            have most : copiedTo vaddr size (va + pageSize) ≤
                segmentBytes vaddr size := by
              rw [copiedTo, segmentBytes, next]
              split <;> omega
            omega
      case isFalse outside =>
        rw [if_neg outside]
        refine iff_of_false not_inRanges_nil ?_
        rw [copiedTo, segmentBytes]
        split <;> omega

/-- What a segment that is loaded reads. -/
theorem mapSegmentReads_iff (wordVaddr : vaddr < 2 ^ 32)
    (word : size < 2 ^ 32)
    (done : mapSegment memory pd vaddr (some source) size flags =
      some (memory', 0)) :
    InRanges (mapSegmentReads memory pd vaddr source size flags) addr ↔
      InRange source (segmentBytes vaddr size) addr := by
  rw [mapSegment] at done
  rw [mapSegmentReads]
  split at done
  case isTrue empty =>
    have none : segmentBytes vaddr size = 0 := by
      rw [segmentBytes, empty, Nat.zero_min]
    rw [if_pos empty, none]
    exact iff_of_false not_inRanges_nil (by rw [InRange]; omega)
  case isFalse positive =>
    have lower : frameOf vaddr ≤ vaddr := by
      rw [frameOf]
      omega
    have first : copiedTo vaddr size (frameOf vaddr) = 0 := by
      rw [copiedTo_eq (by omega) (by omega)]
      omega
    have loop : mapAndCopyFrom pd vaddr (some source) size flags
        (2 ^ 20 + 1) memory (frameOf vaddr)
        (copiedTo vaddr size (frameOf vaddr)) = some (memory', 0) := by
      rw [first]
      exact done
    have reads := @mapAndCopyReads_iff _ _ _ _ _ _ _ _ _ addr wordVaddr
      (by omega) word (frameOf_aligned vaddr) (Nat.le_refl _) loop
    rw [first, Nat.add_zero] at reads
    rw [if_neg positive]
    exact reads

end Copies

/-! ## The delivered file -/

section Delivered

variable {volume : Volume} {path : CString} {st : FatStat}
  {clusters : List Nat}

theorem readChain_other {fuel start stored stored' : Nat}
    {dest dest' : Bytes} (other : Bytes)
    (done : readChain volume fuel start stored dest =
      some (0, stored', dest')) :
    ∃ other', readChain volume fuel start stored other =
      some (0, stored', other') := by
  induction fuel generalizing start stored dest other with
  | zero => cases done
  | succ fuel inductionHypothesis =>
      rw [readChain] at done ⊢
      split at done
      case isTrue stopped =>
        cases done
        rw [if_pos stopped]
        exact ⟨other, rfl⟩
      case isFalse going =>
        rw [if_neg going]
        split at done
        case h_1 => cases done
        case h_2 out readable =>
          have stays : ¬ Unreadable volume start := fun left => by
            rw [(unreadable_iff _ _).mpr left] at readable
            cases readable
          obtain ⟨out', readable'⟩ := Option.ne_none_iff_exists'.mp
            fun gone => stays ((unreadable_iff start _).mp gone)
          rw [readable']
          exact inductionHypothesis _ done

/-- Whether the file can be read does not depend on the buffer. -/
theorem fatReadFile_other {dest : Bytes} {read : FileRead} (other : Bytes)
    (done : fatReadFile volume path dest = some read)
    (ok : read.code = 0) :
    ∃ read', fatReadFile volume path other = some read' ∧
      read'.code = 0 := by
  rw [fatReadFile] at done ⊢
  simp only [Option.bind_eq_bind, Option.pure_def] at done ⊢
  obtain ⟨resolved, isResolved, done⟩ := Option.bind_eq_some_iff.mp done
  rw [isResolved, Option.bind_some]
  split at done
  case isTrue =>
    cases done
    cases ok
  case isFalse found =>
    rw [if_neg found]
    split at done
    case isTrue =>
      cases done
      cases ok
    case isFalse notRoot =>
      obtain ⟨⟨r, slot, volume'⟩, isSlot, done⟩ :=
        Option.bind_eq_some_iff.mp done
      dsimp only at done
      rw [if_neg notRoot, isSlot, Option.bind_some]
      dsimp only
      split at done
      case isTrue =>
        cases done
        cases ok
      case isFalse existing =>
        rw [if_neg existing]
        generalize readLba volume.disk slot.sector 1 scratch = sector
          at done ⊢
        cases sector with
        | none =>
          cases done
          cases ok
        | some sectorBuf =>
          obtain ⟨⟨code, stored, dest'⟩, copied, done⟩ :=
            Option.bind_eq_some_iff.mp done
          cases done
          change code = 0 at ok
          subst ok
          obtain ⟨other', copied'⟩ := readChain_other other copied
          dsimp only
          rw [copied']
          exact ⟨_, rfl, rfl⟩

/-- What a successful read delivers, whatever the volume looks like. -/
theorem fatReadFile_delivers {dest : Bytes} {read : FileRead}
    (done : fatReadFile volume path dest = some read)
    (ok : read.code = 0) :
    ∃ st clusters, fatStat volume path = some (.ok st) ∧
      Path volume.next ChainStop st.firstCluster clusters ∧
      read.stored = clusters.length * volume.bpb.clusterSize ∧
      ∀ index, read.dest index =
        if index < clusters.length * volume.bpb.clusterSize then
          fileContent volume path index
        else dest index := by
  obtain ⟨st, stat, chain⟩ := fatReadFile_ok done ok
  obtain ⟨read', done', ok'⟩ := fatReadFile_other scratch done ok
  obtain ⟨st', stat', chain'⟩ := fatReadFile_ok done' ok'
  rw [stat, Option.some.injEq, Except.ok.injEq] at stat'
  subst stat'
  obtain ⟨clusters, walk, total, outside, inside⟩ := readChain_bytes chain
  obtain ⟨clusters', walk', _, _, inside'⟩ := readChain_bytes chain'
  have sameWalk := walk'.unique walk
  subst sameWalk
  rw [Nat.zero_add] at total
  refine ⟨st, clusters', stat, walk, total, fun index => ?_⟩
  split
  case isTrue below =>
    have positive : 0 < volume.bpb.clusterSize :=
      Nat.pos_of_ne_zero fun zero => by
        rw [zero] at below
        omega
    have bound : index / volume.bpb.clusterSize < clusters'.length :=
      (Nat.div_lt_iff_lt_mul positive).mpr below
    have small := Nat.mod_lt index positive
    have place : 0 + index / volume.bpb.clusterSize *
        volume.bpb.clusterSize + index % volume.bpb.clusterSize = index := by
      rw [Nat.zero_add, Nat.mul_comm]
      exact Nat.div_add_mod ..
    have here := inside _ bound _ small
    have here' := inside' _ bound _ small
    rw [place] at here here'
    rw [here, fileContent, done', ← here']
  case isFalse above => exact outside index (.inr (by omega))

/-- No allocation size is so large that `kmalloc` rounds it to 0. -/
theorem fatReadAllocSize_le (bpb : Bpb) (size : UInt32) :
    (fatReadAllocSize bpb size).toNat ≤ 2 ^ 32 - 512 := by
  have byte : bpb.perCluster < 2 ^ 8 := bpb.sectorsPerCluster.toNat_lt
  have cluster : bpb.clusterSize = 512 * bpb.perCluster := rfl
  have one : (1 : UInt32).toNat = 1 := rfl
  have word : (UInt32.ofNat bpb.clusterSize).toNat = bpb.clusterSize :=
    UInt32.toNat_ofNat_of_lt' (by
      rw [UInt32.size]
      omega)
  have mask : 511 ≤ (UInt32.ofNat bpb.clusterSize - 1).toNat := by
    rw [UInt32.toNat_sub, word, one]
    omega
  rw [fatReadAllocSize, UInt32.toNat_and, UInt32.toNat_not]
  refine Nat.le_trans Nat.and_le_right ?_
  rw [UInt32.size]
  omega

theorem le_roundRequest {bytes : Nat} (small : bytes ≤ 2 ^ 32 - 512) :
    bytes ≤ roundRequest bytes := by
  rw [roundRequest, u32]
  omega

end Delivered

/-! ## The buffer after the load -/

section Loaded

variable {kernel loaded : Kernel} {stop fileBuf : Nat}
  {blocks : List Block} {path : CString} {st : FatStat}
  {clusters : List Nat} {memory memory' : Memory} {pd addr : Nat}

/-- What a load that fills the buffer has done. -/
theorem loadFile_ok (done : loadFile kernel path = some (loaded, .ok fileBuf)) :
    ∃ st heap live read, fatStat kernel.volume path = some (.ok st) ∧
      LoafOs.kmalloc kernel.heap (fatReadAllocSize kernel.volume.bpb
        (UInt32.ofNat st.size)).toNat = some (heap, fileBuf) ∧
      fileBuf ≠ 0 ∧
      fatReadFile kernel.volume path (heap.mem.shift fileBuf) = some read ∧
      read.code = 0 ∧
      loaded = ({ kernel with heap, live } : Kernel).setView fileBuf
        read.dest := by
  rw [loadFile] at done
  simp only [Option.bind_eq_bind, Option.pure_def] at done
  obtain ⟨stat, isStat, done⟩ := Option.bind_eq_some_iff.mp done
  cases stat with
  | error code => cases done
  | ok st =>
      obtain ⟨⟨after, ptr⟩, taken, done⟩ := Option.bind_eq_some_iff.mp done
      rw [Kernel.kmalloc] at taken
      obtain ⟨⟨heap, found⟩, isFound, same⟩ :=
        Option.bind_eq_some_iff.mp taken
      cases same
      dsimp only at done
      split at done
      case isTrue => cases done
      case isFalse nonzero =>
        obtain ⟨read, isRead, done⟩ := Option.bind_eq_some_iff.mp done
        split at done
        case isTrue => cases done
        case isFalse ok =>
          cases done
          exact ⟨st, heap, _, read, isStat, isFound, nonzero, isRead,
            Decidable.not_not.mp ok, rfl⟩

/-- A file that fits in its buffer is delivered into a block of its own. -/
theorem KernelOk.delivered (ok : KernelOk kernel stop blocks)
    (done : loadFile kernel path = some (loaded, .ok fileBuf))
    (stat : fatStat kernel.volume path = some (.ok st))
    (walk : Path kernel.volume.next ChainStop st.firstCluster clusters)
    (fits : clusters.length * kernel.volume.bpb.clusterSize ≤
      (fatReadAllocSize kernel.volume.bpb (UInt32.ofNat st.size)).toNat) :
    ∃ block blocks', fileBuf = block.addr + blockHeaderSize ∧
      Buffered loaded stop blocks' block (fileContent kernel.volume path)
        (clusters.length * kernel.volume.bpb.clusterSize) := by
  obtain ⟨st', heap, live, read, stat', taken, nonzero, isRead, code, same⟩ :=
    loadFile_ok done
  rw [stat, Option.some.injEq, Except.ok.injEq] at stat'
  subst stat'
  obtain ⟨st'', clusters', stat'', walk', _, bytes⟩ :=
    fatReadFile_delivers isRead code
  rw [stat, Option.some.injEq, Except.ok.injEq] at stat''
  subst stat''
  have sameWalk := walk'.unique walk
  subst sameWalk
  have room : ∃ block ∈ blocks, block.free = true ∧
      roundRequest (fatReadAllocSize kernel.volume.bpb
        (UInt32.ofNat st.size)).toNat ≤ block.size := by
    by_contra full
    have none : LoafOs.kmalloc kernel.heap (fatReadAllocSize
        kernel.volume.bpb (UInt32.ofNat st.size)).toNat =
          some (kernel.heap, 0) :=
      ok.heap.kmalloc_none (firstFit_none_iff.mpr
        fun block member free => by
          by_contra large
          exact full ⟨block, member, free, by omega⟩)
    rw [taken] at none
    cases none
    exact nonzero rfl
  obtain ⟨heap', block, blocks', again, ok', member, inUse, large, list, _⟩ :=
    ok.heap.kmalloc_block _ room
  rw [taken] at again
  cases again
  have rounded := le_roundRequest (fatReadAllocSize_le kernel.volume.bpb
    (UInt32.ofNat st.size))
  have held := (fits.trans rounded).trans large
  obtain ⟨buffered, _⟩ := @KernelOk.placed _ _ _ ok _ live _ _ _ _ _ ok' list
    member inUse held bytes
  subst same
  exact ⟨block, blocks', rfl, buffered⟩

theorem headerAt_lt (memory : Memory) (fileBuf : Nat) :
    (headerAt memory fileBuf).codeVaddr < 2 ^ 32 ∧
      (headerAt memory fileBuf).codeSize < 2 ^ 32 ∧
      (headerAt memory fileBuf).dataVaddr < 2 ^ 32 ∧
      (headerAt memory fileBuf).dataSize < 2 ^ 32 :=
  ⟨Bytes.word32_lt .., Bytes.word32_lt .., Bytes.word32_lt ..,
    Bytes.word32_lt ..⟩

/-- The four calls of `map_and_copy` begin with the code and the data. -/
theorem mapSegments_ok
    (done : mapSegments memory pd fileBuf = some (memory', 0)) :
    ∃ memory₁ memory₂, mapCode memory pd fileBuf = some (memory₁, 0) ∧
      mapSegment memory₁ pd (headerAt memory₁ fileBuf).dataVaddr
        (some (dataSource (headerAt memory₁ fileBuf) fileBuf))
        (headerAt memory₁ fileBuf).dataSize dataFlags =
          some (memory₂, 0) := by
  rw [mapSegments] at done
  simp only [Option.bind_eq_bind, Option.pure_def] at done
  obtain ⟨⟨memory₁, code₁⟩, step₁, done⟩ := Option.bind_eq_some_iff.mp done
  dsimp only at done
  split at done
  case isTrue => cases done
  case isFalse zero₁ =>
    obtain ⟨⟨memory₂, code₂⟩, step₂, done⟩ := Option.bind_eq_some_iff.mp done
    dsimp only at done
    split at done
    case isTrue => cases done
    case isFalse zero₂ =>
      rw [Decidable.not_not.mp zero₁] at step₁
      rw [Decidable.not_not.mp zero₂] at step₂
      exact ⟨memory₁, memory₂, step₁, step₂⟩

/-- What the segments of a program are read from. -/
theorem segmentReads_iff {memory₁ memory₂ : Memory}
    (code : mapCode memory pd fileBuf = some (memory₁, 0))
    (data : mapSegment memory₁ pd (headerAt memory₁ fileBuf).dataVaddr
      (some (dataSource (headerAt memory₁ fileBuf) fileBuf))
      (headerAt memory₁ fileBuf).dataSize dataFlags = some (memory₂, 0)) :
    InRanges (segmentReads memory pd fileBuf) addr ↔
      InRange (fileBuf + exeHeaderSize)
          (segmentBytes (headerAt memory fileBuf).codeVaddr
            (headerAt memory fileBuf).codeSize) addr ∨
        InRange (dataSource (headerAt memory₁ fileBuf) fileBuf)
          (segmentBytes (headerAt memory₁ fileBuf).dataVaddr
            (headerAt memory₁ fileBuf).dataSize) addr := by
  obtain ⟨codeVaddr, codeSize, _, _⟩ := headerAt_lt memory fileBuf
  obtain ⟨_, _, dataVaddr, dataSize⟩ := headerAt_lt memory₁ fileBuf
  rw [segmentReads, code]
  simp only [inRanges_append, dataReads]
  rw [mapSegmentReads_iff codeVaddr codeSize code,
    mapSegmentReads_iff dataVaddr dataSize data]

end Loaded

/-! ## Loads that succeed -/

/-- A load that succeeds, up to the copying of the data. -/
structure LoadSteps (kernel : Kernel) (path : CString) (loaded : Kernel)
    (fileBuf : Nat) (memory : Memory) (pd : Nat) (memory₁ memory₂ : Memory) :
    Prop where
  loads : loadFile kernel path = some (loaded, .ok fileBuf)
  created : pagingCreateAddressSpace loaded.memory = some (memory, pd)
  code : mapCode memory pd fileBuf = some (memory₁, 0)
  data : mapSegment memory₁ pd (headerAt memory₁ fileBuf).dataVaddr
    (some (dataSource (headerAt memory₁ fileBuf) fileBuf))
    (headerAt memory₁ fileBuf).dataSize dataFlags = some (memory₂, 0)

section Steps

variable {kernel kernel' loaded : Kernel} {stop fileBuf pd : Nat}
  {blocks : List Block} {path : CString} {st : FatStat}
  {clusters : List Nat} {memory memory₁ memory₂ : Memory}
  {image : Image} {dataHdr : ExeHeader}

theorem execLoad_steps
    (done : execLoad kernel path = some (kernel', .ok image)) :
    ∃ loaded fileBuf memory pd memory₁ memory₂,
      LoadSteps kernel path loaded fileBuf memory pd memory₁ memory₂ := by
  rw [execLoad_eq] at done
  obtain ⟨⟨loaded, result⟩, loads, done⟩ := Option.bind_eq_some_iff.mp done
  cases result with
  | error code => cases done
  | ok fileBuf =>
      dsimp only at done
      rw [execImage] at done
      simp only [Option.bind_eq_bind, Option.pure_def] at done
      split at done
      case isTrue => cases done
      case isFalse =>
        obtain ⟨⟨memory, pd⟩, created, done⟩ :=
          Option.bind_eq_some_iff.mp done
        obtain ⟨⟨memory', code⟩, mapped, done⟩ :=
          Option.bind_eq_some_iff.mp done
        dsimp only at mapped done
        split at done
        case isTrue => cases done
        case isFalse zero =>
          rw [Decidable.not_not.mp zero] at mapped
          obtain ⟨memory₁, memory₂, first, second⟩ := mapSegments_ok mapped
          exact ⟨loaded, fileBuf, memory, pd, memory₁, memory₂, loads,
            created, first, second⟩

theorem inRange_subset {first count first' count' : Nat} :
    (∀ addr, InRange first count addr → InRange first' count' addr) ↔
      (0 < count → first' ≤ first ∧ first + count ≤ first' + count') := by
  simp only [InRange]
  constructor
  · intro subset positive
    have low := subset first ⟨Nat.le_refl _, by omega⟩
    have high := subset (first + count - 1) ⟨by omega, by omega⟩
    omega
  · intro within addr inside
    have bounds := within (by omega)
    omega

/-- The property in terms of the ranges that a successful load reads. -/
theorem LoadSteps.readsOnly_iff
    (steps : LoadSteps kernel path loaded fileBuf memory pd memory₁ memory₂)
    (stat : fatStat kernel.volume path = some (.ok st))
    (walk : Path kernel.volume.next ChainStop st.firstCluster clusters) :
    ReadsOnlyFile kernel path ↔
      clusters.length * kernel.volume.bpb.clusterSize ≤
        (fatReadAllocSize kernel.volume.bpb (UInt32.ofNat st.size)).toNat ∧
      ∀ addr, InRange fileBuf exeHeaderSize addr ∨
        InRange (fileBuf + exeHeaderSize)
          (segmentBytes (headerAt memory fileBuf).codeVaddr
            (headerAt memory fileBuf).codeSize) addr ∨
        InRange (dataSource (headerAt memory₁ fileBuf) fileBuf)
          (segmentBytes (headerAt memory₁ fileBuf).dataVaddr
            (headerAt memory₁ fileBuf).dataSize) addr →
        InRange fileBuf (min st.size
          (clusters.length * kernel.volume.bpb.clusterSize)) addr := by
  obtain ⟨st', heap, live, read, stat', _, _, isRead, code, _⟩ :=
    loadFile_ok steps.loads
  obtain ⟨st'', clusters', stat'', walk', stored, _⟩ :=
    fatReadFile_delivers isRead code
  rw [stat, Option.some.injEq, Except.ok.injEq] at stat''
  subst stat''
  have sameWalk := walk'.unique walk
  subst sameWalk
  have isMoved := fatReadMoved_of_read isRead code
  rw [stored] at isMoved
  have ranges : ∀ addr, InRanges (imageReads loaded fileBuf) addr ↔ _ :=
    fun addr => by
      rw [imageReads, steps.created, inRanges_cons,
        segmentReads_iff steps.code steps.data]
  constructor
  · intro only
    exact ⟨only.stores _ _ stat isMoved, fun addr inside =>
      only.reads _ _ _ _ stat isMoved steps.loads addr
        ((ranges addr).mpr inside)⟩
  · rintro ⟨fits, inside⟩
    refine ⟨fun other moved again isOther => ?_,
      fun other moved loaded' fileBuf' again isOther loads addr isRead => ?_⟩
    · rw [stat, Option.some.injEq, Except.ok.injEq] at again
      rw [isMoved, Option.some.injEq] at isOther
      rw [← again, ← isOther]
      exact fits
    · rw [stat, Option.some.injEq, Except.ok.injEq] at again
      rw [isMoved, Option.some.injEq] at isOther
      rw [steps.loads] at loads
      cases loads
      rw [← again, ← isOther]
      exact inside addr ((ranges addr).mp isRead)

/-- The header of a file that fits in its buffer is in place when the code
is copied, and afterwards if the code segment stays below the kernel. -/
theorem LoadSteps.headers (ok : KernelOk kernel stop blocks)
    (steps : LoadSteps kernel path loaded fileBuf memory pd memory₁ memory₂)
    (stat : fatStat kernel.volume path = some (.ok st))
    (walk : Path kernel.volume.next ChainStop st.firstCluster clusters)
    (fits : clusters.length * kernel.volume.bpb.clusterSize ≤
      (fatReadAllocSize kernel.volume.bpb (UInt32.ofNat st.size)).toNat)
    (large : exeHeaderSize ≤
      clusters.length * kernel.volume.bpb.clusterSize) :
    fileBuf + clusters.length * kernel.volume.bpb.clusterSize < 2 ^ 32 ∧
      headerAt memory fileBuf = fileHeader kernel.volume path ∧
      (CodeBelow (fileHeader kernel.volume path) →
        headerAt memory₁ fileBuf = fileHeader kernel.volume path) := by
  obtain ⟨block, blocks', place, buffered⟩ :=
    ok.delivered steps.loads stat walk fits
  have inside := buffered.ok.heap.tiled.inside buffered.member
  have high := buffered.ok.heap.high
  have held := buffered.fits
  have isHeader := buffered.headerAt large
  rw [← place] at isHeader
  have backed : ∀ index < exeHeaderSize,
      Backed loaded.memory (fileBuf + index) := fun index below => by
    rw [place]
    exact buffered.backed index (by omega)
  have small : loaded.memory.pmm.totalFrames ≤ 2 ^ 18 := buffered.ok.frames
  have created := @pagingCreate_guarded _ _ _
    (visitedBy (headerAt memory fileBuf).codeVaddr
      (headerAt memory fileBuf).codeSize) small steps.created
  have first := (created.loading.ok.headerAt backed).trans isHeader
  refine ⟨by omega, first, fun below => ?_⟩
  rw [CodeBelow, fileHeader, ← first] at below
  obtain ⟨_, after⟩ :=
    created.mapSegment (Finset.Subset.refl _) below steps.code
  exact (after.loading.ok.headerAt backed).trans isHeader

/-- A successful load reads only the file exactly if the lengths agree. -/
theorem LoadSteps.covers_iff (ok : KernelOk kernel stop blocks)
    (steps : LoadSteps kernel path loaded fileBuf memory pd memory₁ memory₂)
    (stat : fatStat kernel.volume path = some (.ok st))
    (walk : Path kernel.volume.next ChainStop st.firstCluster clusters)
    (same : clusters.length * kernel.volume.bpb.clusterSize ≤
        (fatReadAllocSize kernel.volume.bpb (UInt32.ofNat st.size)).toNat →
      exeHeaderSize ≤ clusters.length * kernel.volume.bpb.clusterSize →
      dataHdr = headerAt memory₁ fileBuf) :
    ReadsOnlyFile kernel path ↔
      Covers kernel.volume.bpb st.size clusters.length
        (fileHeader kernel.volume path) dataHdr := by
  have headerLength : exeHeaderSize = 32 := rfl
  rw [steps.readsOnly_iff stat walk]
  simp only [or_imp, forall_and]
  rw [inRange_subset, inRange_subset, inRange_subset]
  by_cases enough : clusters.length * kernel.volume.bpb.clusterSize ≤
        (fatReadAllocSize kernel.volume.bpb (UInt32.ofNat st.size)).toNat ∧
      exeHeaderSize ≤ min st.size
        (clusters.length * kernel.volume.bpb.clusterSize)
  case neg =>
    refine iff_of_false (fun ⟨fits, header, _⟩ => enough ⟨fits, ?_⟩)
      fun covers => enough ⟨covers.chain, covers.header⟩
    have bounds := header (by decide)
    omega
  case pos =>
    obtain ⟨fits, large⟩ := enough
    obtain ⟨high, first, _⟩ :=
      steps.headers ok stat walk fits (by omega)
    obtain ⟨_, _, _, codeSize⟩ := headerAt_lt memory₁ fileBuf
    have second := same fits (by omega)
    obtain ⟨_, dataCode, _, _⟩ := headerAt_lt memory₁ fileBuf
    rw [← second] at dataCode ⊢
    rw [first, dataSource, u32]
    constructor
    · rintro ⟨_, header, code, data⟩
      refine ⟨fits, large, ?_, fun positive => ?_⟩
      · by_cases none : segmentBytes (fileHeader kernel.volume path).codeVaddr
            (fileHeader kernel.volume path).codeSize = 0
        · omega
        · have bounds := code (by omega)
          omega
      · have bounds := data positive
        rw [u32]
        omega
    · intro covers
      have code := covers.code
      refine ⟨fits, fun _ => by omega, fun _ => by omega, fun positive => ?_⟩
      have data := covers.data positive
      rw [u32] at data
      omega

/-- What `exec_load` reads and stores in a load that succeeds is bounded by
the file exactly if the three lengths agree.  The data are copied by the
header that the code segment has left in the buffer, which is that of the
file if the code segment stays below the kernel. -/
theorem execLoad_readsOnlyFile_iff {kernel kernel' : Kernel} {stop : Nat}
    {blocks : List Block} {path : CString} {image : Image}
    (ok : KernelOk kernel stop blocks)
    (done : execLoad kernel path = some (kernel', .ok image)) :
    ∃ dataHdr, headerAfterCode kernel path = some dataHdr ∧
      (ReadsOnlyFile kernel path ↔
        LengthsAgree kernel.volume path dataHdr) ∧
      (CodeBelow (fileHeader kernel.volume path) →
        (ReadsOnlyFile kernel path ↔
          LengthsAgree kernel.volume path
            (fileHeader kernel.volume path))) := by
  obtain ⟨loaded, fileBuf, memory, pd, memory₁, memory₂, steps⟩ :=
    execLoad_steps done
  obtain ⟨_, heap, live, read, _, _, _, isRead, code, _⟩ :=
    loadFile_ok steps.loads
  obtain ⟨st, clusters, stat, walk, _, _⟩ := fatReadFile_delivers isRead code
  have lengths : ∀ dataHdr, LengthsAgree kernel.volume path dataHdr ↔
      Covers kernel.volume.bpb st.size clusters.length
        (fileHeader kernel.volume path) dataHdr := by
    intro dataHdr
    constructor
    · exact fun agree => agree st clusters stat walk
    · intro covers st' clusters' stat' walk'
      rw [stat, Option.some.injEq, Except.ok.injEq] at stat'
      subst stat'
      rw [walk'.unique walk]
      exact covers
  refine ⟨headerAt memory₁ fileBuf, ?_, ?_, fun below => ?_⟩
  · rw [headerAfterCode, steps.loads]
    simp only [Option.bind_eq_bind, Option.bind_some, steps.created,
      steps.code, Option.pure_def]
  · rw [lengths]
    exact steps.covers_iff ok stat walk fun _ _ => rfl
  · rw [lengths]
    exact steps.covers_iff ok stat walk fun fits large =>
      ((steps.headers ok stat walk fits large).2.2 below).symm

end Steps

/-! The sample program, and one whose header asks for 600 bytes of code in a
file of 36 bytes. -/

theorem sampleProgram_onlyFile : ReadsOnlyFile sampleKernel samplePath := by
  have returns : (execLoad sampleKernel samplePath).map
      (fun loaded => loaded.2.isOk) = some true := by decide +kernel
  obtain ⟨⟨kernel', result⟩, done, isOk⟩ := Option.map_eq_some_iff.mp returns
  obtain _ | image := result
  · cases isOk
  · have header : fileHeader sampleKernel.volume samplePath =
        sampleHeader := by decide +kernel
    have stat : fatStat sampleKernel.volume samplePath =
        some (.ok ⟨[0x44], 44, 2, 0x20⟩) := by decide +kernel
    have walk : Path sampleKernel.volume.next ChainStop 2 [2] :=
      .more (by decide) (.done (by decide +kernel))
    obtain ⟨_, _, _, agree⟩ := execLoad_readsOnlyFile_iff sampleKernel_ok done
    rw [header] at agree
    refine (agree (by rw [CodeBelow]; decide +kernel)).mpr
      fun st clusters stat' walk' => ?_
    rw [stat, Option.some.injEq, Except.ok.injEq] at stat'
    subst stat'
    rw [walk'.unique walk, header]
    exact ⟨by decide +kernel, by decide +kernel, by decide +kernel,
      fun _ => by decide +kernel⟩

def longImage : List UInt8 :=
  [0x4c, 0x4f, 0x41, 0x46, 0, 0, 0x40, 0, 0, 0, 0x40, 0, 0x58, 2, 0, 0,
    0, 0x10, 0x40, 0, 0, 0, 0, 0, 0, 0x10, 0x40, 0, 0, 0, 0, 0, 1, 2, 3, 4]

def longPrograms : List FatCall :=
  [.writeFile samplePath (fun index => longImage.getD index 0) 36]

def longKernel : Kernel :=
  { sampleKernel with volume := afterCalls sampleVolume longPrograms }

/-- The load succeeds and copies 568 bytes from behind the file. -/
theorem longProgram_overreads :
    ¬ ∀ (kernel kernel' : Kernel) (stop : Nat) (blocks : List Block)
      (path : CString) (image : Image),
      KernelOk kernel stop blocks → WellFormed kernel.volume →
      kernel.volume.disk.Sound →
      execLoad kernel path = some (kernel', .ok image) →
      ReadsOnlyFile kernel path := by
  intro claim
  obtain ⟨wellFormed, sound⟩ : WellFormed longKernel.volume ∧
      longKernel.volume.disk.Sound :=
    callsOk_wellFormed longPrograms sampleVolume_wellFormed
      blankDisk_sound (by decide +kernel)
  have returns : (execLoad longKernel samplePath).map
      (fun loaded => loaded.2.isOk) = some true := by decide +kernel
  obtain ⟨⟨kernel', result⟩, done, isOk⟩ := Option.map_eq_some_iff.mp returns
  obtain _ | image := result
  · cases isOk
  · have only := claim _ _ _ _ _ _ (sampleKernel_ok.setVolume _) wellFormed
      sound done
    have reads : (loadFile longKernel samplePath).map (fun loaded =>
        (loaded.2.toOption, (imageReads loaded.1 0xc000000c))) =
          some (some 0xc000000c, [(0xc000000c, 32), (0xc000002c, 600)]) := by
      decide +kernel
    obtain ⟨⟨loaded, buffer⟩, loads, ranges⟩ :=
      Option.map_eq_some_iff.mp reads
    injection ranges with isBuffer ranges
    obtain _ | fileBuf := buffer
    · cases isBuffer
    · cases isBuffer
      have stat : fatStat longKernel.volume samplePath =
          some (.ok ⟨[0x44], 36, 2, 0x20⟩) := by decide +kernel
      have moved : fatReadMoved longKernel.volume samplePath = some 512 := by
        decide +kernel
      have within := only.reads _ _ _ _ stat moved loads 0xc0000200
        ⟨(0xc000002c, 600), by
          dsimp only at ranges
          rw [ranges]
          exact List.mem_cons_of_mem _ (List.mem_singleton_self _),
          by decide, by decide⟩
      exact absurd within.2 (by decide)

end LoafOs
