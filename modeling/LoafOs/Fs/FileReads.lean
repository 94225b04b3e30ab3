import LoafOs.Fs.FatEditing
import LoafOs.Fs.FileTable
import LoafOs.Lib.Runs

/-!
# What a read delivers

`file_read` copies as many bytes as the handle says are left, from a buffer
into which `fat_read_file` has read the file that the path names now.  The
handle keeps the size from when it was opened; another handle may have
truncated or replaced the file since.  Nothing is assumed of the volume
here, nor of the disk.
-/

namespace LoafOs

/-! ## The bytes of a file -/

theorem sectorOffset_lt (index : Nat) : index % 512 < 512 :=
  Nat.mod_lt _ (by decide)

/-- Byte `index` of a block of sectors. -/
def diskByte (disk : Disk) (lba index : Nat) : UInt8 :=
  disk.sectors (lbaToChs (u32 (lba + index / 512)))
    ⟨index % 512, sectorOffset_lt index⟩

def clusterByte (volume : Volume) (cluster index : Nat) : UInt8 :=
  diskByte volume.disk (volume.bpb.clusterLba cluster) index

/-- The path leads to a file whose recorded size is above `pos`, and the
chain of the file holds this byte at `pos`. -/
def FileByte (volume : Volume) (path : CString) (pos : Nat)
    (byte : UInt8) : Prop :=
  ∃ stat clusters, fatStat volume path = some (.ok stat) ∧
    Links.Path volume.next ChainStop stat.firstCluster clusters ∧
    pos < stat.size ∧
    ∃ number, ∃ bound : number < clusters.length,
      ∃ index < volume.bpb.clusterSize,
        pos = number * volume.bpb.clusterSize + index ∧
          byte = clusterByte volume clusters[number] index

/-- The number of bytes that `file_read` copies. -/
def OpenFile.toCopy (f : OpenFile) (len : UInt32) : UInt32 :=
  if len < f.size - f.offset then len else f.size - f.offset

/-- What a read is about to copy lies in the file that the path names now,
and in its clusters. -/
def Covered (volume : Volume) (f : OpenFile) (len : UInt32) : Prop :=
  ∃ stat clusters, fatStat volume f.path = some (.ok stat) ∧
    Links.Path volume.next ChainStop stat.firstCluster clusters ∧
    f.offset.toNat + (f.toCopy len).toNat ≤ stat.size ∧
    f.offset.toNat + (f.toCopy len).toNat ≤
      clusters.length * volume.bpb.clusterSize

section Bytes

variable {disk : Disk} {volume : Volume} {path : CString}

theorem readLbaLoop_bytes {lba : Nat} :
    ∀ (count pass : Nat) (buffer : Bytes) {out : Bytes},
      readLbaLoop disk lba count pass buffer = some out →
      ∀ index, out index =
        if 512 * pass ≤ index ∧ index < 512 * (pass + count) then
          diskByte disk lba index
        else buffer index
  | 0, pass, buffer, out, done, index => by
      have outside :
          ¬ (512 * pass ≤ index ∧ index < 512 * (pass + 0)) := by omega
      rw [if_neg outside]
      exact congrFun (Option.some.inj done).symm index
  | count + 1, pass, buffer, out, done, index => by
      rw [readLbaLoop] at done
      simp only [Option.bind_eq_bind] at done
      obtain ⟨read, isRead, done⟩ := Option.bind_eq_some_iff.mp done
      rw [readLbaLoop_bytes count (pass + 1) _ done index]
      rw [ataReadSectors] at isRead
      split at isRead
      case isTrue => cases isRead
      case isFalse =>
        by_cases later : 512 * (pass + 1) ≤ index ∧
            index < 512 * (pass + 1 + count)
        · rw [if_pos later, if_pos ⟨by omega, by omega⟩]
        · rw [if_neg later]
          by_cases here : 512 * pass ≤ index ∧ index < 512 * pass + 512
          · have sector : index / 512 = pass := by omega
            have offset : index % 512 = index - 512 * pass := by omega
            have small : index - 512 * pass < 512 := by omega
            rw [Bytes.copy_inside here.1 here.2, if_pos ⟨here.1, by omega⟩,
              ← Option.some.inj isRead, diskByte]
            simp only [dif_pos small, sector, offset]
          · rw [Bytes.copy_outside (by omega), if_neg (by omega)]

/-- A transfer that ends without an error delivers the bytes of the
sectors and leaves the rest of the buffer alone. -/
theorem readLba_bytes {lba count : Nat} {buffer out : Bytes}
    (done : readLba disk lba count buffer = some out) (index : Nat) :
    out index =
      if index < 512 * count then diskByte disk lba index
      else buffer index := by
  rw [readLbaLoop_bytes count 0 buffer done index]
  simp only [Nat.mul_zero, Nat.zero_le, true_and, Nat.zero_add]

/-- The copy loop of `fat_read_file` walks the chain to its end. -/
theorem readChain_bytes :
    ∀ {fuel start stored stored' : Nat} {dest dest' : Bytes},
      readChain volume fuel start stored dest = some (0, stored', dest') →
      ∃ clusters, Links.Path volume.next ChainStop start clusters ∧
        stored' = stored + clusters.length * volume.bpb.clusterSize ∧
        (∀ index, index < stored ∨ stored' ≤ index →
          dest' index = dest index) ∧
        ∀ number (bound : number < clusters.length),
          ∀ index < volume.bpb.clusterSize,
            dest' (stored + number * volume.bpb.clusterSize + index) =
              clusterByte volume clusters[number] index
  | 0, _, _, _, _, _, done => nomatch done
  | fuel + 1, start, stored, stored', dest, dest', done => by
      rw [readChain] at done
      split at done
      case isTrue stopped =>
        injection done with done
        injection done with _ done
        injection done with total same
        subst same
        refine ⟨[], .done stopped, by simpa using total.symm,
          fun _ _ => rfl, fun number bound => ?_⟩
        exact absurd bound (Nat.not_lt_zero _)
      case isFalse going =>
        split at done
        case h_1 =>
          injection done with done
          injection done with code _
          cases code
        case h_2 out isRead =>
          obtain ⟨clusters, path, total, outside, inside⟩ :=
            readChain_bytes done
          refine ⟨start :: clusters, .more going path, ?_, ?_, ?_⟩
          · rw [total, List.length_cons, Nat.succ_mul]
            omega
          · intro index away
            rw [outside index (by omega), Bytes.copy_outside (by
              rw [total] at away
              omega)]
          · intro number bound index small
            cases number with
            | zero =>
                have first : dest' (stored + 0 * volume.bpb.clusterSize +
                    index) = out index := by
                  rw [outside _ (by omega), Bytes.copy_inside (by omega)
                    (by omega)]
                  congr 1
                  omega
                have sector : index < 512 * volume.bpb.perCluster := small
                rw [first, readLba_bytes isRead index, if_pos sector]
                rfl
            | succ number =>
                have later := inside number
                  (Nat.lt_of_succ_lt_succ bound) index small
                rw [List.getElem_cons_succ, ← later, Nat.succ_mul]
                congr 1
                omega

/-- When `fat_read_file` succeeds, `fat_stat` reports the entry that it
reads. -/
theorem fatReadFile_ok {dest : Bytes} {read : FileRead}
    (done : fatReadFile volume path dest = some read)
    (ok : read.code = 0) :
    ∃ stat, fatStat volume path = some (.ok stat) ∧
      readChain volume chainFuel stat.firstCluster 0 dest =
        some (0, read.stored, read.dest) := by
  rw [fatReadFile] at done
  simp only [Option.bind_eq_bind, Option.pure_def] at done
  obtain ⟨resolved, isResolved, done⟩ := Option.bind_eq_some_iff.mp done
  split at done
  case isTrue =>
    rw [← Option.some.inj done] at ok
    cases ok
  case isFalse found =>
  split at done
  case isTrue =>
    rw [← Option.some.inj done] at ok
    cases ok
  case isFalse notRoot =>
  obtain ⟨⟨r, slot, volume'⟩, isSlot, done⟩ :=
    Option.bind_eq_some_iff.mp done
  split at done
  case isTrue =>
    rw [← Option.some.inj done] at ok
    cases ok
  case isFalse existing =>
  split at done
  case h_1 =>
    rw [← Option.some.inj done] at ok
    cases ok
  case h_2 sectorBuf isSector =>
  obtain ⟨⟨code, stored, dest'⟩, copied, done⟩ :=
    Option.bind_eq_some_iff.mp done
  have same := Option.some.inj done
  subst same
  change code = 0 at ok
  subst ok
  refine ⟨⟨fromFatName (direntName sectorBuf slot.offset),
    direntSize sectorBuf slot.offset, direntFirst sectorBuf slot.offset,
    direntAttr sectorBuf slot.offset⟩, ?_, copied⟩
  rw [fatStat]
  simp only [Option.bind_eq_bind, Option.pure_def, isResolved,
    Option.bind_some, if_neg found, if_neg notRoot, isSlot,
    if_neg existing, isSector]

/-- The chain is long enough for every byte up to a position. -/
theorem cluster_of_pos {clusterSize count pos : Nat}
    (bound : pos < count * clusterSize) :
    ∃ number < count, ∃ index < clusterSize,
      pos = number * clusterSize + index := by
  have positive : 0 < clusterSize := by
    refine Nat.pos_of_ne_zero fun zero => ?_
    rw [zero, Nat.mul_zero] at bound
    exact absurd bound (Nat.not_lt_zero _)
  refine ⟨pos / clusterSize,
    (Nat.div_lt_iff_lt_mul positive).mpr bound, pos % clusterSize,
    Nat.mod_lt _ positive, ?_⟩
  rw [Nat.mul_comm, Nat.div_add_mod]

theorem cluster_pos_lt {clusterSize count number index : Nat}
    (bound : number < count) (small : index < clusterSize) :
    number * clusterSize + index < count * clusterSize := by
  have next : (number + 1) * clusterSize ≤ count * clusterSize :=
    Nat.mul_le_mul_right _ bound
  rw [Nat.succ_mul] at next
  omega

end Bytes

/-! ## Reads in a run -/

/-- What a read has delivered: the volume and the handle before the read,
the length asked for and the bytes. -/
structure Delivery where
  volume : Volume
  file : OpenFile
  len : UInt32
  bytes : List UInt8

/-- Every byte delivered is the byte of the file at its position. -/
def Delivery.Own (d : Delivery) : Prop :=
  ∀ (j : Nat) byte, d.bytes[j]? = some byte →
    FileByte d.volume d.file.path (d.file.offset.toNat + j) byte

/-- The calls on open files, from any process. -/
inductive FileCall where
  | open (stack : DirSlot) (path : CString) (writable : Bool)
  | close (idx : Int)
  | read (heap : Option Bytes) (idx : Int) (len : UInt32)
  | write (idx : Int) (stack : DirSlot) (data : Bytes) (len : UInt32)
  | unlink (path : CString)

/-- The file system, and what the reads have delivered so far. -/
structure FileReads where
  fs : FileSystem
  deliveries : List Delivery

namespace FileReads

def run (s : FileReads) : FileCall → Option FileReads
  | .open stack path writable =>
      (fileOpen s.fs stack path writable).map fun result =>
        { s with fs := result.2 }
  | .close idx => some { s with fs := fileClose s.fs idx }
  | .read heap idx len =>
      (fileRead s.fs heap idx len).map fun read =>
        { fs := read.fs
          deliveries :=
            match s.fs.handle idx with
            | none => s.deliveries
            | some f => ⟨s.fs.volume, f, len, read.bytes⟩ :: s.deliveries }
  | .write idx stack data len =>
      (fileWrite s.fs stack idx data len).map fun result =>
        { s with fs := result.2 }
  | .unlink path =>
      (fatDeleteFile s.fs.volume path).map fun result =>
        { s with fs := { s.fs with volume := result.2 } }

/-- One call. -/
def Step (s : FileReads) (call : FileCall) (s' : FileReads) : Prop :=
  s.run call = some s'

end FileReads

section Reads

variable {fs : FileSystem} {heap : Option Bytes} {idx : Int}
  {len : UInt32} {read : StreamRead} {f : OpenFile}

theorem slice_getElem? {mem : Bytes} {start count j : Nat} {byte : UInt8} :
    (mem.slice start count)[j]? = some byte ↔
      j < count ∧ mem (start + j) = byte := by
  rw [Bytes.slice, List.getElem?_map]
  by_cases inside : j < count
  · simp [inside]
  · simp [inside]

/-- A read delivers nothing, or the bytes that `fat_read_file` has left in
the buffer. -/
theorem fileRead_bytes (found : fs.handle idx = some f)
    (done : fileRead fs heap idx len = some read) :
    read.bytes = [] ∨ ∃ buffer content,
      fatReadFile fs.volume f.path buffer = some content ∧
        content.code = 0 ∧ read.bytes =
          content.dest.slice f.offset.toNat (f.toCopy len).toNat := by
  rw [fileRead, found] at done
  cases heap with
  | none =>
      rw [← Option.some.inj done]
      exact .inl rfl
  | some buffer =>
      simp only [Option.bind_eq_bind, Option.pure_def] at done
      obtain ⟨content, isContent, done⟩ := Option.bind_eq_some_iff.mp done
      split at done
      case isTrue =>
        rw [← Option.some.inj done]
        exact .inl rfl
      case isFalse ok =>
        rw [← Option.some.inj done]
        exact .inr ⟨buffer, content, isContent, not_not.mp ok, rfl⟩

/-- What one read delivers is the file's own exactly when it is nothing or
covered. -/
theorem fileRead_own_iff (found : fs.handle idx = some f)
    (done : fileRead fs heap idx len = some read) :
    (read.bytes = [] ∨ read.bytes.length = (f.toCopy len).toNat) ∧
      (Delivery.Own ⟨fs.volume, f, len, read.bytes⟩ ↔
        read.bytes = [] ∨ Covered fs.volume f len) := by
  rcases fileRead_bytes found done with
    nothing | ⟨buffer, content, isContent, ok, bytes⟩
  · refine ⟨.inl nothing, fun _ => .inl nothing, fun _ j byte here => ?_⟩
    rw [nothing] at here
    cases here
  obtain ⟨stat, isStat, copied⟩ := fatReadFile_ok isContent ok
  obtain ⟨clusters, path, total, _, inside⟩ := readChain_bytes copied
  rw [Nat.zero_add] at total
  have length : read.bytes.length = (f.toCopy len).toNat := by
    rw [bytes, Bytes.length_slice]
  refine ⟨.inr length, fun own => ?_, ?_⟩
  · by_cases nothing : read.bytes = []
    · exact .inl nothing
    have positive : 0 < (f.toCopy len).toNat := by
      rw [← length]
      exact List.length_pos_iff.mpr nothing
    obtain ⟨byte, here⟩ : ∃ byte,
        read.bytes[(f.toCopy len).toNat - 1]? = some byte := by
      exact ⟨_, List.getElem?_eq_getElem (by omega)⟩
    obtain ⟨stat', clusters', isStat', path', below, number, bound, index,
      small, position, _⟩ := own _ byte here
    rw [isStat'] at isStat
    cases isStat
    have far := cluster_pos_lt bound small
    refine .inr ⟨stat, clusters', isStat', path', ?_, ?_⟩
    · change f.offset.toNat + ((f.toCopy len).toNat - 1) < _ at below
      omega
    · change f.offset.toNat + ((f.toCopy len).toNat - 1) = _ at position
      change _ < clusters'.length * fs.volume.bpb.clusterSize at far
      omega
  · rintro (nothing | ⟨stat', clusters', isStat', path', size, chain⟩)
      j byte here
    · change read.bytes[j]? = some byte at here
      rw [nothing] at here
      cases here
    · change read.bytes[j]? = some byte at here
      rw [bytes] at here
      obtain ⟨less, isByte⟩ := slice_getElem?.mp here
      rw [isStat'] at isStat
      cases isStat
      rw [path'.unique path] at chain
      have within := Nat.add_lt_add_left less f.offset.toNat
      obtain ⟨number, bound, index, small, position⟩ :=
        cluster_of_pos (Nat.lt_of_lt_of_le within chain)
      refine ⟨stat, clusters, isStat', path,
        Nat.lt_of_lt_of_le within size, number, bound, index, small,
        position, ?_⟩
      rw [← inside number bound index small, Nat.zero_add, ← position,
        isByte]

/-- A handle whose size is not above the size that the file has now. -/
theorem Covered.of_size {volume : Volume} {stat : FatStat}
    {clusters : List Nat} (inFile : f.InFile)
    (isStat : fatStat volume f.path = some (.ok stat))
    (path : Links.Path volume.next ChainStop stat.firstCluster clusters)
    (enough : stat.size ≤ clusters.length * volume.bpb.clusterSize)
    (size : f.size.toNat ≤ stat.size) : Covered volume f len := by
  rw [OpenFile.InFile, UInt32.le_iff_toNat_le] at inFile
  have copied : (f.toCopy len).toNat ≤ f.size.toNat - f.offset.toNat := by
    rw [← UInt32.toNat_sub_of_le _ _ (UInt32.le_iff_toNat_le.mpr inFile),
      OpenFile.toCopy]
    split
    case isTrue less =>
      exact Nat.le_of_lt (UInt32.lt_iff_toNat_lt.mp less)
    case isFalse => exact Nat.le_refl _
  exact ⟨stat, clusters, isStat, path, by omega, by omega⟩

/-- On a well-formed volume the clusters of a file cover its size. -/
theorem covered_iff {volume : Volume} {entry : Nat}
    (wellFormed : WellFormed volume) (sound : volume.disk.Sound)
    (names : Names volume f.path entry)
    (regular : ¬ IsDir volume.mem entry) :
    Covered volume f len ↔
      f.offset.toNat + (f.toCopy len).toNat ≤
        direntSize volume.mem entry := by
  have isStat := names.fatStat_eq wellFormed sound
  obtain ⟨clusters, chain⟩ := wellFormed.chain entry names.reach
  constructor
  · rintro ⟨stat, _, isStat', _, size, _⟩
    rw [isStat] at isStat'
    cases isStat'
    exact size
  · intro size
    have enough : direntSize volume.mem entry ≤
        clusters.length * volume.bpb.clusterSize := by
      rw [(chain.regular regular).1]
      exact (clustersFor_le_iff wellFormed.geometry.clusterSize_pos
        _ _).mp (Nat.le_refl _)
    exact ⟨_, clusters, isStat, chain.path, size,
      Nat.le_trans size enough⟩

end Reads

/-- In every run of opens, closes, reads, writes and unlinks, a read that
does not fail copies as many bytes as its handle says are left, and they
are all bytes of the file that the path names at that moment exactly when
they lie in that file. -/
theorem fileReads_run {s s' : FileReads} {calls : List FileCall}
    (start : s.deliveries = [])
    (run : Runs.Run FileReads.Step s calls s') :
    ∀ d ∈ s'.deliveries,
      (d.bytes = [] ∨ d.bytes.length = (d.file.toCopy d.len).toNat) ∧
        (d.Own ↔ d.bytes = [] ∨ Covered d.volume d.file d.len) := by
  refine run.invariant
    (fun s => ∀ d ∈ s.deliveries,
      (d.bytes = [] ∨ d.bytes.length = (d.file.toCopy d.len).toNat) ∧
        (d.Own ↔ d.bytes = [] ∨ Covered d.volume d.file d.len))
    (fun before call after kept step => ?_) (by simp [start])
  rw [FileReads.Step] at step
  cases call with
  | «open» stack path writable =>
      obtain ⟨result, _, same⟩ := Option.map_eq_some_iff.mp step
      rw [← same]
      exact kept
  | close idx =>
      rw [← Option.some.inj step]
      exact kept
  | write idx stack data len =>
      obtain ⟨result, _, same⟩ := Option.map_eq_some_iff.mp step
      rw [← same]
      exact kept
  | unlink path =>
      obtain ⟨result, _, same⟩ := Option.map_eq_some_iff.mp step
      rw [← same]
      exact kept
  | read heap idx len =>
      obtain ⟨read, done, same⟩ := Option.map_eq_some_iff.mp step
      rw [← same]
      intro d member
      cases found : before.fs.handle idx with
      | none =>
          rw [found] at member
          exact kept d member
      | some f =>
          rw [found] at member
          rcases List.mem_cons.mp member with rfl | old
          · exact fileRead_own_iff found done
          · exact kept d old

/-! A handle on the sample file of 600 bytes; then another handle truncates
the file. -/

namespace FileReads

def runAll : List FileCall → FileReads → Option FileReads
  | [], s => some s
  | call :: calls, s => (s.run call).bind (runAll calls)

theorem runAll_run : ∀ {calls : List FileCall} {s s' : FileReads},
    runAll calls s = some s' → Runs.Run Step s calls s'
  | [], _, _, done => by
      cases done
      exact .nil
  | _ :: _, _, _, done => by
      obtain ⟨_, first, rest⟩ := Option.bind_eq_some_iff.mp done
      exact .cons first (runAll_run rest)

end FileReads

def sampleReads : FileReads := ⟨sampleSystem sampleStored, []⟩

def usedHeap : Bytes := fun _ => 0x53

/-- Bytes delivered, with what `fat_stat` says of the path at that time. -/
def deliveredBytes (s : FileReads) :
    List (List UInt8 × Option (Except Nat FatStat)) :=
  s.deliveries.map fun d => (d.bytes, fatStat d.volume d.file.path)

def sampleReadCalls : List FileCall :=
  [.open .unset sampleFile false, .read (some usedHeap) 0 4]

def sampleStaleCalls : List FileCall :=
  [.open .unset sampleFile false, .open .unset sampleFile true,
    .read (some usedHeap) 0 4]

theorem sampleReadCalls_delivered :
    (FileReads.runAll sampleReadCalls sampleReads).map deliveredBytes =
      some [([7, 7, 7, 7],
        some (.ok ⟨[0x41], 600, 3, attrArchive⟩))] := by
  decide +kernel

theorem sampleStaleCalls_delivered :
    (FileReads.runAll sampleStaleCalls sampleReads).map deliveredBytes =
      some [([0x53, 0x53, 0x53, 0x53],
        some (.ok ⟨[0x41], 0, 0, attrArchive⟩))] := by
  decide +kernel

/-- The read before the file is truncated. -/
theorem sampleReads_own : ∃ s',
    FileReads.runAll sampleReadCalls sampleReads = some s' ∧
      ∀ d ∈ s'.deliveries,
        (d.bytes = [] ∨ d.bytes.length = (d.file.toCopy d.len).toNat) ∧
          (d.Own ↔ d.bytes = [] ∨ Covered d.volume d.file d.len) := by
  obtain ⟨s', done, _⟩ :=
    Option.map_eq_some_iff.mp sampleReadCalls_delivered
  exact ⟨s', done, fileReads_run rfl (FileReads.runAll_run done)⟩

/-- After another handle has truncated the file, the first one delivers
four bytes of the heap. -/
theorem sampleStale_leaks : ∃ s' d,
    Runs.Run FileReads.Step sampleReads sampleStaleCalls s' ∧
      s'.deliveries = [d] ∧ d.bytes = [0x53, 0x53, 0x53, 0x53] ∧
      fatStat d.volume d.file.path =
        some (.ok ⟨[0x41], 0, 0, attrArchive⟩) ∧
      ¬ d.Own := by
  obtain ⟨s', done, delivered⟩ :=
    Option.map_eq_some_iff.mp sampleStaleCalls_delivered
  rw [deliveredBytes, List.map_eq_singleton_iff] at delivered
  obtain ⟨d, only, here⟩ := delivered
  injection here with bytes isStat
  refine ⟨s', d, FileReads.runAll_run done, only, bytes, isStat,
    fun own => ?_⟩
  have first : d.bytes[0]? = some 0x53 := by rw [bytes]; rfl
  obtain ⟨stat, _, isStat', _, below, _⟩ := own 0 0x53 first
  rw [isStat] at isStat'
  cases isStat'
  exact absurd below (Nat.not_lt_zero _)

end LoafOs
