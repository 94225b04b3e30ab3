import LoafOs.Fs.FatRemove

/-!
# Listing directories

`fat_opendir` and `fat_readdir`.  What `fat_opendir` hands out is the first
cluster of a directory, and from the first cluster of a directory
`fat_readdir` lists exactly the entries in the slots of that directory.
-/

namespace LoafOs

/-- `fat_dirent_info_t`. -/
structure DirentInfo where
  name : CString
  size : Nat
  firstCluster : Nat
  attr : UInt8
  deriving DecidableEq, Repr

def direntInfo (buffer : Bytes) (e : Nat) : DirentInfo where
  name := fromFatName (direntName buffer e)
  size := direntSize buffer e
  firstCluster := direntFirst buffer e
  attr := direntAttr buffer e

/-- `fat_opendir`; the error is its return value. -/
def fatOpendir (volume : Volume) (path : CString) :
    Option (Except Nat Nat) := do
  if path.dropWhile (· = 0x2f) = [] then
    return .ok 0
  let resolved ← resolvePath volume path
  if resolved.code ≠ 0 then
    return .error 1
  if resolved.isRoot then
    return .ok 0
  let (r, slot, _) ←
    dirLookup volume resolved.dirCluster resolved.finalName .unset false
  if r = 1 then
    return .error 1
  if r = 2 ∨ r = 3 ∨ ¬ slot.existing then
    return .error 2
  match readLba volume.disk slot.sector 1 scratch with
  | none => return .error 1
  | some sectorBuf =>
      if direntAttr sectorBuf slot.offset &&& attrDirectory = 0 then
        return .error 3
      return .ok (direntFirst sectorBuf slot.offset)

/-- The entries that `fat_readdir` skips in the root directory. -/
def skippedInRoot (buffer : Bytes) (e : Nat) : Bool :=
  buffer e = 0x00 || buffer e = 0xe5 ||
    direntAttr buffer e = attrLongName ||
    direntAttr buffer e &&& attrVolumeId ≠ 0

/-- The entries that it skips in a chained directory. -/
def skippedInChain (buffer : Bytes) (e : Nat) : Bool :=
  skippedInRoot buffer e ||
    (buffer e = 0x2e && buffer (e + 1) = 0x20) ||
    (buffer e = 0x2e && buffer (e + 1) = 0x2e && buffer (e + 2) = 0x20)

/-- How a part of the scan of `fat_readdir` ends: with a read error, with
the entry to report, or with the number of entries seen so far. -/
inductive ListStep where
  | failed
  | found (info : DirentInfo)
  | more (seen : Nat)

/-- The loop over the entries of one sector in `fat_readdir`. -/
def readdirEntries (skipped : Bytes → Nat → Bool) (index : Nat)
    (sectorBuf : Bytes) : (count i seen : Nat) → ListStep
  | 0, _, seen => .more seen
  | count + 1, i, seen =>
      let e := 32 * i
      if skipped sectorBuf e then
        readdirEntries skipped index sectorBuf count (i + 1) seen
      else if seen = index then
        .found (direntInfo sectorBuf e)
      else
        readdirEntries skipped index sectorBuf count (i + 1) (seen + 1)

/-- The loop over `count` consecutive sectors in `fat_readdir`. -/
def readdirSectors (disk : Disk) (skipped : Bytes → Nat → Bool)
    (index : Nat) : (count lba seen : Nat) → ListStep
  | 0, _, seen => .more seen
  | count + 1, lba, seen =>
      match readLba disk lba 1 scratch with
      | none => .failed
      | some sectorBuf =>
          match readdirEntries skipped index sectorBuf 16 0 seen with
          | .more seen =>
              readdirSectors disk skipped index count (u32 (lba + 1)) seen
          | step => step

/-- The loop over the clusters of a chained directory in `fat_readdir`. -/
def readdirChain (volume : Volume) (index : Nat) :
    (fuel cluster seen : Nat) → Option (Except Nat DirentInfo)
  | 0, _, _ => none
  | fuel + 1, cluster, seen =>
      if ChainStop cluster then
        some (.error 2)
      else
        match readdirSectors volume.disk skippedInChain index
            volume.bpb.perCluster (volume.bpb.clusterLba cluster) seen with
        | .failed => some (.error 1)
        | .found info => some (.ok info)
        | .more seen =>
            readdirChain volume index fuel (volume.next cluster) seen

/-- `fat_readdir`; the error is its return value. -/
def fatReaddir (volume : Volume) (dirCluster index : Nat) :
    Option (Except Nat DirentInfo) :=
  if dirCluster = 0 then
    match readdirSectors volume.disk skippedInRoot index
        volume.bpb.rootSectors volume.bpb.rootStart 0 with
    | .failed => some (.error 1)
    | .found info => some (.ok info)
    | .more _ => some (.error 2)
  else
    readdirChain volume index chainFuel dirCluster 0

/-! ## The entries in order -/

/-- The scan over the slots of a directory. -/
def listSlots (mem : Bytes) (skipped : Bytes → Nat → Bool) (index : Nat) :
    List Nat → Nat → ListStep
  | [], seen => .more seen
  | slot :: rest, seen =>
      if skipped mem slot then listSlots mem skipped index rest seen
      else if seen = index then .found (direntInfo mem slot)
      else listSlots mem skipped index rest (seen + 1)

/-- Equal entries are both skipped or both not. -/
def Reads (skipped : Bytes → Nat → Bool) : Prop :=
  ∀ mem mem' slot slot', SameEntry mem slot mem' slot' →
    skipped mem slot = skipped mem' slot'

theorem skippedInRoot_reads : Reads skippedInRoot := by
  intro mem mem' slot slot' same
  rw [skippedInRoot, skippedInRoot, same.head, same.attr]

theorem skippedInChain_reads : Reads skippedInChain := by
  intro mem mem' slot slot' same
  have second := same 1 (by decide)
  have third := same 2 (by decide)
  rw [skippedInChain, skippedInChain, skippedInRoot_reads _ _ _ _ same,
    same.head, second, third]

theorem skippedInChain_iff {mem : Bytes} {slot : Nat} :
    skippedInChain mem slot = false ↔ Live mem slot := by
  simp only [skippedInChain, skippedInRoot, Live, Listed, IsDot,
    Bool.or_eq_false_iff, Bool.and_eq_false_iff, decide_eq_false_iff_not,
    not_not, not_or, not_and]
  tauto

section Listing

variable {mem : Bytes} {skipped : Bytes → Nat → Bool} {index : Nat}

theorem listSlots_append (first second : List Nat) (seen : Nat) :
    listSlots mem skipped index (first ++ second) seen =
      match listSlots mem skipped index first seen with
      | .more seen => listSlots mem skipped index second seen
      | step => step := by
  induction first generalizing seen with
  | nil => rfl
  | cons slot rest inductionHypothesis =>
      rw [List.cons_append, listSlots, listSlots]
      split
      case isTrue => exact inductionHypothesis seen
      case isFalse =>
        split
        case isTrue => rfl
        case isFalse => exact inductionHypothesis (seen + 1)

/-- The scan reports the entry with the index among those not skipped. -/
theorem listSlots_eq (slots : List Nat) {seen : Nat} (before : seen ≤ index) :
    listSlots mem skipped index slots seen =
      match (slots.filter fun slot => !skipped mem slot)[index - seen]? with
      | some slot => .found (direntInfo mem slot)
      | none => .more
          (seen + (slots.filter fun slot => !skipped mem slot).length) := by
  induction slots generalizing seen with
  | nil => rfl
  | cons slot rest inductionHypothesis =>
      rw [listSlots]
      split
      case isTrue isSkipped =>
        rw [inductionHypothesis before,
          List.filter_cons_of_neg (by simp [isSkipped])]
      case isFalse isListed =>
        rw [List.filter_cons_of_pos (by simpa using isListed)]
        split
        case isTrue here =>
          rw [here, Nat.sub_self]
          rfl
        case isFalse later =>
          have less : seen + 1 ≤ index := by omega
          obtain ⟨gap, isGap⟩ := Nat.exists_eq_add_of_le less
          have distance : index - seen = gap + 1 := by omega
          have shorter : index - (seen + 1) = gap := by omega
          rw [inductionHypothesis less, distance, shorter,
            List.getElem?_cons_succ, List.length_cons, Nat.add_right_comm,
            ← Nat.add_assoc]

theorem readdirEntries_eq (reads : Reads skipped) (lba : Nat) :
    ∀ (count i seen : Nat), i + count ≤ 16 →
      readdirEntries skipped index
          (scratch.copy 0 (mem.shift (512 * lba)) 512) count i seen =
        listSlots mem skipped index
          (slotsFrom (512 * lba + 32 * i) count) seen
  | 0, _, _, _ => rfl
  | count + 1, i, seen, bound => by
      have same := sameEntry_sector mem lba
        (show 32 * i + 32 ≤ 512 by omega)
      have info : direntInfo (scratch.copy 0 (mem.shift (512 * lba)) 512)
          (32 * i) = direntInfo mem (512 * lba + 32 * i) := by
        rw [direntInfo, direntInfo, same.name, same.size, same.first,
          same.attr]
      have step : 512 * lba + 32 * i + 32 = 512 * lba + 32 * (i + 1) := by
        omega
      have rest (seen : Nat) :=
        readdirEntries_eq reads lba count (i + 1) seen (by omega)
      rw [slotsFrom_succ, step, readdirEntries, listSlots]
      simp only [reads _ _ _ _ same, rest, info]

theorem readdirSectors_eq {disk : Disk} (sound : disk.Sound)
    (reads : Reads skipped) :
    ∀ (count lba seen : Nat), lba + count ≤ lbaLimit →
      readdirSectors disk skipped index count lba seen =
        listSlots disk.mem skipped index
          (slotsFrom (512 * lba) (16 * count)) seen
  | 0, _, _, _ => rfl
  | count + 1, lba, seen, bound => by
      have readable : lba + 1 ≤ lbaLimit := by omega
      have next : 512 * lba + 32 * 16 = 512 * (lba + 1) := by omega
      have total : 16 * (count + 1) = 16 + 16 * count := by omega
      rw [total, slotsFrom_append, listSlots_append, readdirSectors,
        readLba_eq sound readable]
      simp only [Nat.mul_one]
      rw [readdirEntries_eq reads lba 16 0 seen (by omega)]
      simp only [Nat.mul_zero, Nat.add_zero, next]
      cases listSlots disk.mem skipped index (slotsFrom (512 * lba) 16)
          seen with
      | failed => rfl
      | found => rfl
      | more seen =>
          cases count with
          | zero => rfl
          | succ count =>
              have small := u32_nextLba (show lba < lbaLimit by omega)
              simp only [small]
              exact readdirSectors_eq sound reads (count + 1) (lba + 1)
                seen (by omega)

/-- The slots never end the scan with a read error. -/
theorem listSlots_not_failed (slots : List Nat) (seen : Nat) :
    listSlots mem skipped index slots seen ≠ .failed := by
  induction slots generalizing seen with
  | nil => exact nofun
  | cons slot rest inductionHypothesis =>
      rw [listSlots]
      split
      case isTrue => exact inductionHypothesis seen
      case isFalse =>
        split
        case isTrue => exact nofun
        case isFalse => exact inductionHypothesis (seen + 1)

end Listing

section Readdir

variable {volume : Volume} {index : Nat}

/-- The result for the end of a scan. -/
def ListStep.result : ListStep → Except Nat DirentInfo
  | failed => .error 1
  | found info => .ok info
  | more _ => .error 2

theorem readdirChain_eq (geometry : Geometry volume.bpb)
    (sound : volume.disk.Sound) :
    ∀ {clusters : List Nat} {fuel start : Nat} (seen : Nat),
      Links.Path volume.next ChainStop start clusters →
      (∀ cluster ∈ clusters, cluster < volume.bpb.totalClusters) →
      clusters.length < fuel →
        readdirChain volume index fuel start seen =
          some (listSlots volume.mem skippedInChain index
            (clusters.flatMap (clusterSlots volume.bpb)) seen).result
  | _, 0, _, _, _, _, short => absurd short (Nat.not_lt_zero _)
  | [], fuel + 1, start, seen, path, _, _ => by
      cases path with
      | done stopped =>
      rw [readdirChain, if_pos stopped]
      rfl
  | cluster :: rest, fuel + 1, start, seen, path, inside, short => by
      cases path with
      | more going tail =>
      have low : 2 ≤ cluster := by
        simp only [ChainStop, not_or] at going
        omega
      have high := inside cluster List.mem_cons_self
      have limit := geometry.clusters_inside low high
      have slots : slotsFrom
          (512 * (volume.bpb.dataStart +
            (cluster - 2) * volume.bpb.perCluster))
          (16 * volume.bpb.perCluster) =
          clusterSlots volume.bpb cluster := rfl
      have memEq : volume.disk.mem = volume.mem := rfl
      have onward (seen : Nat) :=
        readdirChain_eq geometry sound seen tail
          (fun other member =>
            inside other (List.mem_cons_of_mem cluster member))
          (Nat.lt_of_succ_lt_succ short)
      rw [readdirChain, if_neg going, geometry.clusterLba_eq low high,
        readdirSectors_eq sound skippedInChain_reads _ _ _ limit, slots,
        memEq, List.flatMap_cons, listSlots_append]
      cases listSlots volume.mem skippedInChain index
          (clusterSlots volume.bpb cluster) seen with
      | failed => rfl
      | found => rfl
      | more seen => exact onward seen

/-- The entries that `fat_readdir` lists in a directory with a given first
cluster. -/
def listedIn (volume : Volume) (dirCluster : Nat) (slots : List Nat) :
    List Nat :=
  slots.filter fun slot =>
    !(if dirCluster = 0 then skippedInRoot else skippedInChain)
      volume.mem slot

theorem ListStep.result_listSlots (mem : Bytes)
    (skipped : Bytes → Nat → Bool) (index : Nat) (slots : List Nat) :
    (listSlots mem skipped index slots 0).result =
      match (slots.filter fun slot => !skipped mem slot)[index]? with
      | some slot => .ok (direntInfo mem slot)
      | none => .error 2 := by
  rw [listSlots_eq slots (Nat.zero_le index), Nat.sub_zero]
  cases (slots.filter fun slot => !skipped mem slot)[index]? with
  | none => rfl
  | some slot => rfl

/-- From the first cluster of a directory, `fat_readdir` reports the entry
with the index among those listed in the slots of the directory. -/
theorem fatReaddir_eq (readable : Readable volume)
    (sound : volume.disk.Sound) {cur : Nat} {slots : List Nat}
    (dirSlots : DirSlots volume cur slots) (index : Nat) :
    fatReaddir volume cur index =
      some (match (listedIn volume cur slots)[index]? with
        | some slot => .ok (direntInfo volume.mem slot)
        | none => .error 2) := by
  cases dirSlots with
  | root =>
      have inside : volume.bpb.rootStart + volume.bpb.rootSectors ≤
          lbaLimit :=
        readable.geometry.rootSectors_inside
      have listed := ListStep.result_listSlots volume.mem skippedInRoot
        index (rootSlots volume.bpb)
      rw [listedIn, if_pos rfl, ← listed, fatReaddir, if_pos rfl,
        readdirSectors_eq sound skippedInRoot_reads _ _ _ inside]
      rw [rootSlots]
      have memEq : volume.disk.mem = volume.mem := rfl
      rw [memEq]
      cases listSlots volume.mem skippedInRoot index
          (slotsFrom (512 * volume.bpb.rootStart)
            (16 * volume.bpb.rootSectors)) 0 with
      | failed => rfl
      | found => rfl
      | more => rfl
  | @sub dir clusters reach isDir chain =>
      have low := (chain.first_owned isDir).low
      have nonzero : direntFirst volume.mem dir ≠ 0 := by omega
      rw [listedIn, if_neg nonzero, ← ListStep.result_listSlots, fatReaddir,
        if_neg nonzero]
      exact readdirChain_eq readable.geometry sound 0 chain.path
        chain.inside (chain_length_le chain.path)

/-- What `fat_opendir` hands out. -/
theorem fatOpendir_ok (readable : Readable volume)
    (sound : volume.disk.Sound) {path : CString} {cluster : Nat}
    (result : fatOpendir volume path = some (.ok cluster)) :
    cluster = 0 ∨ ∃ dir, Reach volume dir ∧ IsDir volume.mem dir ∧
      direntFirst volume.mem dir = cluster := by
  rw [fatOpendir] at result
  by_cases slashes : path.dropWhile (· = 0x2f) = []
  · rw [if_pos slashes] at result
    injection result with result
    injection result with zero
    exact .inl zero.symm
  rw [if_neg slashes] at result
  obtain ⟨resolved, resolveEq, inTree⟩ :=
    resolvePath_ends readable sound path
  rw [resolveEq] at result
  simp only [Option.bind_eq_bind, Option.bind_some] at result
  by_cases zero : resolved.code = 0
  swap
  · simp [zero] at result
  by_cases root : resolved.isRoot = true
  · simp only [zero, root, ne_eq, not_true, if_false, if_true] at result
    injection result with result
    injection result with zero
    exact .inl zero.symm
  have notRoot : resolved.isRoot = false := by simpa using root
  obtain ⟨slots, name, dirSlots, nameEq, _⟩ := inTree zero notRoot
  rcases dirLookup_find readable sound dirSlots resolved.finalName
      .unset with
    ⟨entry, found, lookup⟩ | ⟨_, code, slot', lookup, outcome⟩
  · have reach : Reach volume entry := Finds.reach dirSlots (nameEq ▸ found)
    obtain ⟨read, same⟩ := readSlot_eq sound
      (reach.treeSlot.onDisk readable) true
    have existing : (slotAt entry true).existing = true := rfl
    simp only [zero, root, lookup, ne_eq, not_true, if_false, existing,
      Option.bind_some, Option.pure_def, read, same.attr,
      same.first] at result
    rw [if_neg (by decide), if_neg (by decide)] at result
    by_cases isDir : IsDir volume.mem entry
    · rw [if_neg isDir] at result
      injection result with result
      injection result with first
      exact .inr ⟨entry, reach, isDir, first⟩
    · rw [if_pos (not_not.mp isDir)] at result
      cases result
  · simp only [zero, root, lookup, ne_eq, not_true, if_false,
      Option.bind_some] at result
    rcases outcome with ⟨rfl, missing⟩ | ⟨rfl, rfl⟩
    · simp [missing] at result
    · simp at result

end Readdir

end LoafOs
