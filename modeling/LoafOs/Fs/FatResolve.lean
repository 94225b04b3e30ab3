import LoafOs.Fs.FatFile
import LoafOs.Fs.FatLookup

/-!
# The outcomes of `dir_lookup` and `resolve_path`

On a well-formed volume without disk errors a lookup in a directory of the
tree always ends, and so does the resolution of a path.  `CreateResult`
lists what a lookup that may create leaves behind; `Names` says that a path
leads to an entry.
-/

namespace LoafOs

section Lookup

variable {volume : Volume} {cur : Nat} {slots : List Nat}

/-- A scan of the whole directory decides a lookup. -/
theorem dirLookup_eq (readable : Readable volume)
    (sound : volume.disk.Sound) (dirSlots : DirSlots volume cur slots)
    (target : List UInt8) (slot : DirSlot) (create : Bool) :
    ∃ full : Option (Nat × DirSlot × Volume),
      dirLookup volume cur target slot create =
        (match scan volume.mem target slots none with
          | .failed => some (1, slot, volume)
          | .done found => some (0, found, volume)
          | .more (some free) => some (0, free, volume)
          | .more none => full) ∧
      (cur = 0 ∧ full = some (2, slot, volume) ∨
        ∃ dir clusters, ∃ nonempty : clusters ≠ [],
          Reach volume dir ∧ IsDir volume.mem dir ∧
          Chain volume dir clusters ∧
          cur = direntFirst volume.mem dir ∧
          full = if create then
              dirGrow volume (clusters.getLast nonempty) slot
            else some (2, slot, volume)) := by
  cases dirSlots with
  | root =>
      exact ⟨_, dirLookup_root readable.geometry sound target slot create,
        Or.inl ⟨rfl, rfl⟩⟩
  | @sub dir clusters reach isDir chain =>
      have nonempty := chain.directory isDir
      exact ⟨_, dirLookup_chain readable.geometry sound target slot create
          nonempty chain.path chain.inside,
        Or.inr ⟨dir, clusters, nonempty, reach, isDir, chain, rfl, rfl⟩⟩

/-- A lookup that must not create. -/
theorem dirLookup_find (readable : Readable volume)
    (sound : volume.disk.Sound) (dirSlots : DirSlots volume cur slots)
    (target : List UInt8) (slot : DirSlot) :
    (∃ entry, Finds volume.mem target slots entry ∧
      dirLookup volume cur target slot false =
        some (0, slotAt entry true, volume)) ∨
    (∀ entry, ¬ Finds volume.mem target slots entry) ∧
      ∃ code slot', dirLookup volume cur target slot false =
          some (code, slot', volume) ∧
        (code = 0 ∧ slot'.existing = false ∨
          code = 2 ∧ slot' = slot) := by
  obtain ⟨full, lookup, whenFull⟩ :=
    dirLookup_eq readable sound dirSlots target slot false
  have fullEq : full = some (2, slot, volume) := by
    rcases whenFull with ⟨_, isFull⟩ | ⟨_, _, _, _, _, _, _, isFull⟩
    · exact isFull
    · exact isFull
  rw [lookup, fullEq]
  rcases scan_cases volume.mem target slots none with
    ⟨entry, found, result⟩ | ⟨none, carried, result, origin⟩
  · rw [result]
    exact Or.inl ⟨entry, found, rfl⟩
  · refine Or.inr ⟨none, ?_⟩
    rcases origin with ⟨carriedEq, _⟩ | ⟨_, vacant, _, carriedEq⟩
    · rcases result with more | ⟨found, foundEq, _⟩
      · rw [more, carriedEq]
        exact ⟨2, slot, rfl, Or.inr ⟨rfl, rfl⟩⟩
      · rw [carriedEq] at foundEq
        cases foundEq
    · rcases result with more | ⟨found, foundEq, done⟩
      · rw [more, carriedEq]
        exact ⟨0, _, rfl, Or.inl ⟨rfl, rfl⟩⟩
      · rw [carriedEq, Option.some.injEq] at foundEq
        rw [done, ← foundEq]
        exact ⟨0, _, rfl, Or.inl ⟨rfl, rfl⟩⟩

/-- The return value, the slot and the volume after a lookup that may
create. -/
inductive CreateResult (volume : Volume) (cur : Nat)
    (target : List UInt8) (slots : List Nat) (slot : DirSlot) :
    Nat → DirSlot → Volume → Prop
  | found {entry : Nat}
      (found : Finds volume.mem target slots entry) :
      CreateResult volume cur target slots slot 0 (slotAt entry true)
        volume
  | vacant {entry : Nat}
      (absent : ∀ other, ¬ Finds volume.mem target slots other)
      (first : FirstVacant volume.mem slots entry) :
      CreateResult volume cur target slots slot 0 (slotAt entry false)
        volume
  | rootFull (root : cur = 0)
      (absent : ∀ other, ¬ Finds volume.mem target slots other)
      (full : ∀ other ∈ slots, ¬ Vacant volume.mem other) :
      CreateResult volume cur target slots slot 2 slot volume
  | noCluster (chained : cur ≠ 0)
      (absent : ∀ other, ¬ Finds volume.mem target slots other)
      (full : ∀ other ∈ slots, ¬ Vacant volume.mem other)
      (exhausted : volume.free = []) :
      CreateResult volume cur target slots slot 3 slot volume
  | grown {volume' : Volume} {dir fresh : Nat} {clusters rest : List Nat}
      (absent : ∀ other, ¬ Finds volume.mem target slots other)
      (full : ∀ other ∈ slots, ¬ Vacant volume.mem other)
      (reach : Reach volume dir) (isDir : IsDir volume.mem dir)
      (chain : Chain volume dir clusters) (nonempty : clusters ≠ [])
      (first : cur = direntFirst volume.mem dir)
      (free : volume.free = fresh :: rest)
      (grown : Grown volume volume' (clusters.getLast nonempty) fresh) :
      CreateResult volume cur target slots slot 0
        (slotAt (volume.bpb.clusterAddr fresh) false) volume'

theorem dirLookup_create (wellFormed : WellFormed volume)
    (sound : volume.disk.Sound) (dirSlots : DirSlots volume cur slots)
    (target : List UInt8) (slot : DirSlot) :
    ∃ code slot' volume', dirLookup volume cur target slot true =
        some (code, slot', volume') ∧
      CreateResult volume cur target slots slot code slot' volume' := by
  obtain ⟨full, lookup, whenFull⟩ :=
    dirLookup_eq wellFormed sound dirSlots target slot true
  rw [lookup]
  rcases scan_cases volume.mem target slots none with
    ⟨entry, found, result⟩ | ⟨absent, carried, result, origin⟩
  · rw [result]
    exact ⟨_, _, _, rfl, .found found⟩
  rcases origin with
    ⟨carriedEq, noVacant⟩ | ⟨_, entry, first, carriedEq⟩
  · have notVacant := noVacant rfl
    rcases result with more | ⟨found, foundEq, _⟩
    · rw [more, carriedEq]
      rcases whenFull with ⟨root, fullEq⟩ |
        ⟨dir, clusters, nonempty, reach, isDir, chain, first, fullEq⟩
      · exact ⟨_, _, _, fullEq, .rootFull root absent notVacant⟩
      · cases free : volume.free with
        | nil =>
            have chained : cur ≠ 0 := by
              have low := (chain.first_owned isDir).low
              omega
            refine ⟨_, _, _, ?_,
              .noCluster chained absent notVacant free⟩
            rw [fullEq, if_pos rfl]
            exact dirGrow_none wellFormed.geometry free _ slot
        | cons fresh rest =>
            obtain ⟨volume', growEq, grown⟩ :=
              dirGrow_some wellFormed.geometry sound free
                (clusters.getLast nonempty) slot
            refine ⟨_, _, volume', ?_, .grown absent notVacant reach isDir
              chain nonempty first free grown⟩
            rw [fullEq, if_pos rfl]
            exact growEq
    · rw [carriedEq] at foundEq
      cases foundEq
  · rcases result with more | ⟨found, foundEq, done⟩
    · rw [more, carriedEq]
      exact ⟨_, _, _, rfl, .vacant absent first⟩
    · rw [carriedEq, Option.some.injEq] at foundEq
      rw [done, ← foundEq]
      exact ⟨_, _, _, rfl, .vacant absent first⟩

end Lookup

theorem Matches.head {mem : Bytes} {target : List UInt8} {slot : Nat}
    (matched : Matches mem target slot) :
    target.head? = some (mem slot) := by
  rw [← matched.2]
  rfl

/-- A lookup by path never ends at a dot entry. -/
theorem Matches.live {mem : Bytes} {target : List UInt8} {slot : Nat}
    (matched : Matches mem target slot)
    (dotless : target.head? ≠ some 0x2e) : Live mem slot := by
  refine ⟨matched.1, fun dot => dotless ?_⟩
  rw [matched.head]
  rcases dot with ⟨head, _⟩ | ⟨head, _, _⟩
  · rw [head]
  · rw [head]

/-! ## The volume that a successful lookup leaves -/

/-- The state in which an operation continues after `dir_lookup` has
returned 0: the slot belongs to the directory `cur`, and either holds the
entry with the name or is vacant while no entry has it. -/
structure Opened (volume : Volume) (cur : Nat) (target : List UInt8)
    (entry : Nat) (existing : Bool) : Prop where
  wellFormed : WellFormed volume
  sound : volume.disk.Sound
  dotless : target.head? ≠ some 0x2e
  found : ∃ slots, DirSlots volume cur slots ∧ entry ∈ slots ∧
    (existing = true → Finds volume.mem target slots entry) ∧
    (existing = false → FirstVacant volume.mem slots entry ∧
      ∀ other, ¬ Finds volume.mem target slots other)

section Opened

variable {volume volume' : Volume} {cur entry : Nat}
  {target : List UInt8} {existing : Bool}

theorem Opened.treeSlot (opened : Opened volume cur target entry existing) :
    TreeSlot volume entry := by
  obtain ⟨slots, dirSlots, member, _⟩ := opened.found
  exact dirSlots.treeSlot member

theorem Opened.matches (opened : Opened volume cur target entry true) :
    Matches volume.mem target entry := by
  obtain ⟨slots, _, _, found, _⟩ := opened.found
  exact (found rfl).matches

theorem Opened.reach (opened : Opened volume cur target entry true) :
    Reach volume entry :=
  opened.treeSlot.reach (opened.matches.live opened.dotless)

theorem Opened.vacant (opened : Opened volume cur target entry false) :
    Vacant volume.mem entry := by
  obtain ⟨slots, _, _, _, vacant⟩ := opened.found
  exact (vacant rfl).1.vacant

theorem Opened.not_reach (opened : Opened volume cur target entry false) :
    ¬ Reach volume entry :=
  fun reach => opened.vacant.not_listed reach.live.1

/-- A grown directory is still well formed and keeps all its names. -/
theorem Grown.wellFormed (wellFormed : WellFormed volume) {dir : Nat}
    {clusters : List Nat} (reach : Reach volume dir)
    (isDir : IsDir volume.mem dir) (chain : Chain volume dir clusters)
    (nonempty : clusters ≠ []) {fresh : Nat}
    (isFree : fresh ∈ volume.free)
    (grown : Grown volume volume' (clusters.getLast nonempty) fresh) :
    WellFormed volume' :=
  (grown.entryChange wellFormed reach isDir chain nonempty
    isFree).2.wellFormed wellFormed grown.copies

theorem Grown.namesKept (wellFormed : WellFormed volume) {dir : Nat}
    {clusters : List Nat} (reach : Reach volume dir)
    (isDir : IsDir volume.mem dir) (chain : Chain volume dir clusters)
    (nonempty : clusters ≠ []) {fresh : Nat}
    (isFree : fresh ∈ volume.free)
    (grown : Grown volume volume' (clusters.getLast nonempty) fresh) :
    NamesKept (fun _ => True) volume volume' := by
  obtain ⟨same, change⟩ :=
    grown.entryChange wellFormed reach isDir chain nonempty isFree
  have kept := change.namesKept wellFormed
    (by rw [same.head]; exact reach.live.1.1)
    (fun _ _ _ _ _ _ _ matched => same.matches_iff.mp matched)
    (fun _ _ => ⟨same, [fresh], rfl⟩)
  intro cur slots dirSlots
  obtain ⟨more, dirSlots', found⟩ := kept cur slots dirSlots
  exact ⟨more, dirSlots', fun target other isFound _ =>
    found target other isFound (Or.inr same)⟩

/-- After the return value 0 the operation continues in a well-formed
volume, and no name has been lost. -/
theorem CreateResult.opened {slots : List Nat} {slot slot' : DirSlot}
    (wellFormed : WellFormed volume) (sound : volume.disk.Sound)
    (dirSlots : DirSlots volume cur slots)
    (dotless : target.head? ≠ some 0x2e)
    (result : CreateResult volume cur target slots slot 0 slot' volume') :
    ∃ entry existing, slot' = slotAt entry existing ∧
      Opened volume' cur target entry existing ∧
      NamesKept (fun _ => True) volume volume' := by
  cases result with
  | @found entry found =>
      exact ⟨entry, true, rfl,
        ⟨wellFormed, sound, dotless, slots, dirSlots, found.member,
          fun _ => found, by simp⟩, .refl⟩
  | @vacant entry absent firstVacant =>
      exact ⟨entry, false, rfl,
        ⟨wellFormed, sound, dotless, slots, dirSlots, firstVacant.member,
          by simp,
          fun _ => ⟨firstVacant, absent⟩⟩, .refl⟩
  | @grown volume' dir fresh clusters rest absent full reach isDir chain
      nonempty first free grown =>
      have isFree : fresh ∈ volume.free := by
        rw [free]
        exact List.mem_cons_self
      obtain ⟨low, high, _⟩ := Volume.mem_free.mp isFree
      have wellFormed' :=
        grown.wellFormed wellFormed reach isDir chain nonempty isFree
      obtain ⟨same, change⟩ :=
        grown.entryChange wellFormed reach isDir chain nonempty isFree
      have reach' := (change.reach_iff wellFormed dir).mpr
        (Or.inl ⟨rfl, same.live_iff.mpr reach.live⟩)
      have chain' := change.newChain (same.live_iff.mpr reach.live)
      have dirSlots' : DirSlots volume' cur
          (slots ++ clusterSlots volume.bpb fresh) := by
        have before := DirSlots.sub reach isDir chain
        rw [first] at dirSlots
        rw [dirSlots.unique before, first, ← same.first]
        have after :=
          DirSlots.sub reach' (same.isDir_iff.mpr isDir) chain'
        rw [List.flatMap_append, change.bpb] at after
        simpa using after
      have head : volume.bpb.clusterAddr fresh ∈
          clusterSlots volume.bpb fresh := by
        have := wellFormed.geometry.perCluster_pos
        exact mem_slotsFrom.mpr ⟨0, by omega, rfl⟩
      have zero {other : Nat}
          (member : other ∈ clusterSlots volume.bpb fresh) :
          volume'.mem other = 0 :=
        cleared_slot grown.cleared member
      have sameOld : ∀ old ∈ slots,
          SameEntry volume'.mem old volume.mem old := by
        intro old member
        by_cases atDir : old = dir
        · rwa [atDir]
        · exact change.entries old (dirSlots.treeSlot member) atDir
      have firstVacant : FirstVacant volume'.mem
          (slots ++ clusterSlots volume.bpb fresh)
          (volume.bpb.clusterAddr fresh) := by
        have stillFull : ∀ other ∈ slots, ¬ Vacant volume'.mem other :=
          fun other member vacant =>
            full other member ((sameOld other member).vacant_iff.mp vacant)
        have count : 16 * volume.bpb.perCluster =
            16 * volume.bpb.perCluster - 1 + 1 := by
          have := wellFormed.geometry.perCluster_pos
          omega
        have vacant := zero head
        rw [clusterSlots, count, slotsFrom_succ]
        exact FirstVacant.append_left stillFull (.here (Or.inl vacant))
      refine ⟨volume.bpb.clusterAddr fresh, false, rfl,
        ⟨wellFormed', grown.kept.sound, dotless, _, dirSlots',
          List.mem_append_right _ head,
          by simp,
          fun _ => ⟨firstVacant, fun other found => ?_⟩⟩,
        grown.namesKept wellFormed reach isDir chain nonempty isFree⟩
      refine absent other ?_
      exact found.of_append sameOld fun old member =>
        Or.inl (zero member)

end Opened

/-! ## Reading and updating a slot -/

section Slot

variable {volume : Volume} {entry : Nat}

theorem TreeSlot.aligned (inTree : TreeSlot volume entry) :
    entry % 512 + 32 ≤ 512 := by
  rcases inTree with member | ⟨_, cluster, _, _, _, member⟩
  · obtain ⟨index, _, rfl⟩ := mem_slotsFrom.mp member
    omega
  · obtain ⟨index, _, rfl⟩ := mem_slotsFrom.mp member
    rw [Bpb.clusterAddr]
    omega

/-- The entry lies in one sector, and that on the disk. -/
structure OnDisk (entry : Nat) : Prop where
  aligned : entry % 512 + 32 ≤ 512
  inside : entry / 512 + 1 ≤ lbaLimit

theorem TreeSlot.onDisk (inTree : TreeSlot volume entry)
    (readable : Readable volume) : OnDisk entry := by
  refine ⟨inTree.aligned, ?_⟩
  rcases inTree with member | ⟨dir, cluster, reach, isDir, owned, member⟩
  · have bounds := rootSlot_bounds member
    have limit := readable.geometry.rootSectors_inside
    omega
  · have bounds := clusterSlot_bounds member
    obtain ⟨clusters, chain⟩ := readable.chain dir reach isDir
    have limit := readable.geometry.clusters_inside owned.low
      (chain.inside cluster (chain.owns_iff.mp owned))
    simp only [Bpb.clusterAddr, Bpb.clusterSize] at bounds
    omega

/-- The sector of an entry, as the code reads it. -/
def sectorOf (volume : Volume) (entry : Nat) : Bytes :=
  scratch.copy 0 (volume.mem.shift (512 * (entry / 512))) 512

theorem readSlot_eq (sound : volume.disk.Sound) (onDisk : OnDisk entry)
    (existing : Bool) :
    readLba volume.disk (slotAt entry existing).sector 1 scratch =
        some (sectorOf volume entry) ∧
      SameEntry (sectorOf volume entry) (slotAt entry existing).offset
        volume.mem entry := by
  constructor
  · exact readLba_eq sound onDisk.inside scratch
  · have same := sameEntry_sector volume.mem (entry / 512) onDisk.aligned
    have address : 512 * (entry / 512) + entry % 512 = entry := by omega
    rwa [address] at same

/-- `updateSlot` with a change of the 32 bytes of the entry. -/
theorem updateSlot_eq (sound : volume.disk.Sound)
    (onDisk : OnDisk entry) (existing : Bool) (change : Bytes → Bytes)
    (only : ∀ index, index < (slotAt entry existing).offset ∨
        (slotAt entry existing).offset + 32 ≤ index →
      change (sectorOf volume entry) index =
        sectorOf volume entry index) :
    ∃ volume', updateSlot volume (slotAt entry existing) change =
        (0, volume') ∧
      volume'.bpb = volume.bpb ∧ volume'.fatBuf = volume.fatBuf ∧
      volume'.disk.Sound ∧
      (∀ address, ¬ InSlot entry address →
        volume'.mem address = volume.mem address) ∧
      SameEntry volume'.mem entry (change (sectorOf volume entry))
        (slotAt entry existing).offset := by
  have aligned := onDisk.aligned
  have offsetEq : (slotAt entry existing).offset = entry % 512 := rfl
  obtain ⟨volume', written, bpb, fatBuf, sound', mem⟩ :=
    Volume.write_eq sound (entry / 512) onDisk.inside
      (change (sectorOf volume entry))
  refine ⟨volume', ?_, bpb, fatBuf, sound', ?_, ?_⟩
  · rw [updateSlot, (readSlot_eq sound onDisk existing).1]
    exact written
  · intro address outside
    rw [mem]
    by_cases inSector : 512 * (entry / 512) ≤ address ∧
        address < 512 * (entry / 512) + 512 * 1
    · rw [Bytes.copy_inside inSector.1 inSector.2]
      have away : address - 512 * (entry / 512) < entry % 512 ∨
          entry % 512 + 32 ≤ address - 512 * (entry / 512) := by
        by_contra inside
        exact outside ⟨by omega, by omega⟩
      rw [only _ away, sectorOf,
        Bytes.copy_inside (by omega) (by omega), Bytes.shift]
      exact congrArg volume.mem (by omega)
    · exact Bytes.copy_outside (by omega)
  · intro index small
    rw [mem, Bytes.copy_inside (by omega) (by omega), offsetEq]
    exact congrArg (change (sectorOf volume entry)) (by omega)

/-- Writes behind the tables leave the copies alone. -/
theorem CopiesEqual.frame {volume' : Volume}
    (copies : CopiesEqual volume) (bpb : volume'.bpb = volume.bpb)
    (fatBuf : volume'.fatBuf = volume.fatBuf)
    (mem : ∀ address < 512 * volume.bpb.rootStart,
      volume'.mem address = volume.mem address) :
    CopiesEqual volume' := by
  intro copy copyBound index indexBound
  rw [bpb] at copyBound indexBound ⊢
  have lastCopy : (copy + 1) * volume.bpb.perFat ≤
      volume.bpb.fatCount.toNat * volume.bpb.perFat :=
    Nat.mul_le_mul_right _ copyBound
  rw [Nat.succ_mul] at lastCopy
  rw [fatBuf, mem]
  · exact copies copy copyBound index indexBound
  · rw [Bpb.rootStart]
    omega

end Slot

/-! ## Resolving a path -/

theorem length_splitNext {path comp rest : CString}
    (split : splitNext path = some (comp, rest)) :
    rest.length < path.length := by
  rw [splitNext] at split
  have shorter : (path.dropWhile (· = 0x2f)).length ≤ path.length :=
    (List.dropWhile_sublist _).length_le
  cases tail : path.dropWhile (· = 0x2f) with
  | nil => simp [tail] at split
  | cons first others =>
      have notSlash : ¬ first = 0x2f := by
        intro slash
        have := List.head?_dropWhile_not (· = (0x2f : UInt8)) path
        rw [tail] at this
        simp [slash] at this
      simp only [tail, List.cons_ne_nil, if_false, Option.some.injEq,
        Prod.mk.injEq] at split
      obtain ⟨rfl, rfl⟩ := split
      rw [tail, List.length_cons] at shorter
      have taken : (first :: others).takeWhile (· ≠ 0x2f) =
          first :: others.takeWhile (· ≠ 0x2f) := by
        simp [notSlash]
      rw [taken, List.take_succ_cons, List.length_cons,
        List.drop_succ_cons, List.length_drop]
      omega

/-- The component and the rest consist of bytes of the path. -/
theorem splitNext_subset {path comp rest : CString}
    (split : splitNext path = some (comp, rest)) :
    (∀ byte ∈ comp, byte ∈ path) ∧ ∀ byte ∈ rest, byte ∈ path := by
  simp only [splitNext] at split
  split at split
  case isTrue => cases split
  case isFalse =>
    simp only [Option.some.injEq, Prod.mk.injEq] at split
    obtain ⟨rfl, rfl⟩ := split
    have tail : ∀ byte ∈ path.dropWhile (· = 0x2f), byte ∈ path :=
      fun byte member => (List.dropWhile_sublist _).subset member
    refine ⟨fun byte member => tail byte ?_,
      fun byte member => tail byte (List.mem_of_mem_drop member)⟩
    exact (List.takeWhile_sublist _).subset (List.mem_of_mem_take member)

/-- A converted name never begins with a dot. -/
theorem toFatName_head (name : CString) :
    (toFatName name).head? ≠ some 0x2e := by
  have noDot (c : UInt8) (other : c ≠ 0x2e) : toUpper c ≠ 0x2e := by
    rw [toUpper]
    split
    case isTrue lower =>
      intro same
      have value := congrArg UInt8.toNat same
      simp only [UInt8.le_iff_toNat_le, UInt8.toNat_sub] at lower value
      simp only [UInt8.reduceToNat] at lower value
      omega
    case isFalse => exact other
  rw [toFatName]
  cases name with
  | nil => simp [padName]
  | cons first others =>
      by_cases dot : first = 0x2e
      · simp [dot, padName]
      · have upper := noDot first dot
        simpa [dot, padName] using upper

/-- The path leads to the entry. -/
def Names (volume : Volume) (path : CString) (entry : Nat) : Prop :=
  ∃ cur name slots,
    resolvePath volume path = some ⟨0, false, cur, toFatName name⟩ ∧
      DirSlots volume cur slots ∧
      Finds volume.mem (toFatName name) slots entry

section Resolve

variable {volume volume' : Volume}

theorem Finds.reach {cur entry : Nat} {slots : List Nat} {name : CString}
    (dirSlots : DirSlots volume cur slots)
    (found : Finds volume.mem (toFatName name) slots entry) :
    Reach volume entry :=
  (dirSlots.treeSlot found.member).reach (found.matches.live (toFatName_head name))

theorem Names.reach {path : CString} {entry : Nat}
    (names : Names volume path entry) : Reach volume entry := by
  obtain ⟨_, _, _, _, dirSlots, found⟩ := names
  exact found.reach dirSlots

/-- A name that the directory holds is looked up. -/
theorem Finds.lookup (readable : Readable volume)
    (sound : volume.disk.Sound) {cur entry : Nat} {slots : List Nat}
    (dirSlots : DirSlots volume cur slots) {target : List UInt8}
    (found : Finds volume.mem target slots entry) (slot : DirSlot) :
    dirLookup volume cur target slot false =
      some (0, slotAt entry true, volume) := by
  rcases dirLookup_find readable sound dirSlots target slot with
    ⟨other, foundOther, lookup⟩ | ⟨absent, _⟩
  · rwa [found.unique foundOther]
  · exact absurd found (absent entry)

theorem resolveLoop_down (readable : Readable volume)
    (sound : volume.disk.Sound) {cur dir : Nat} {slots : List Nat}
    (dirSlots : DirSlots volume cur slots) {path comp rest pending : CString}
    (split : splitNext path = some (comp, rest))
    (found : Finds volume.mem (toFatName pending) slots dir)
    (isDir : IsDir volume.mem dir) (fuel : Nat) :
    resolveLoop volume (fuel + 1) path cur (some pending) =
      resolveLoop volume fuel rest (direntFirst volume.mem dir)
        (some comp) := by
  have reach := found.reach dirSlots
  obtain ⟨read, same⟩ :=
    readSlot_eq sound (reach.treeSlot.onDisk readable) true
  have attr : ¬ direntAttr (sectorOf volume dir)
      (slotAt dir true).offset &&& attrDirectory = 0 :=
    same.isDir_iff.mpr isDir
  have existing : (slotAt dir true).existing = true := rfl
  have lookup := found.lookup readable sound dirSlots .unset
  conv_lhs => unfold resolveLoop
  rw [split]
  simp only [lookup, Option.bind_eq_bind, Option.bind_some, existing, read, attr,
    same.first, if_false, Nat.zero_ne_one, not_true]
  rfl

/-- One pass of `resolve_path` through a directory of the tree. -/
theorem resolveLoop_step (readable : Readable volume)
    (sound : volume.disk.Sound) {cur : Nat} {slots : List Nat}
    (dirSlots : DirSlots volume cur slots) {path comp rest pending : CString}
    (split : splitNext path = some (comp, rest)) (fuel : Nat) :
    (∃ dir clusters, Finds volume.mem (toFatName pending) slots dir ∧
        IsDir volume.mem dir ∧ Chain volume dir clusters) ∨
      ∃ code, code ≠ 0 ∧
        resolveLoop volume (fuel + 1) path cur (some pending) =
          some (.error code) := by
  rcases dirLookup_find readable sound dirSlots (toFatName pending)
      .unset with
    ⟨entry, found, lookup⟩ | ⟨_, code, slot', lookup, outcome⟩
  · have reach := found.reach dirSlots
    by_cases isDir : IsDir volume.mem entry
    · obtain ⟨clusters, chain⟩ := readable.chain entry reach isDir
      exact Or.inl ⟨entry, clusters, found, isDir, chain⟩
    · obtain ⟨read, same⟩ :=
        readSlot_eq sound (reach.treeSlot.onDisk readable) true
      have attr : direntAttr (sectorOf volume entry)
          (slotAt entry true).offset &&& attrDirectory = 0 := by
        by_contra nonzero
        exact isDir (same.isDir_iff.mp nonzero)
      have existing : (slotAt entry true).existing = true := rfl
      refine Or.inr ⟨3, by decide, ?_⟩
      unfold resolveLoop
      rw [split]
      simp only [lookup, Option.bind_eq_bind, Option.bind_some, existing, read,
        attr, if_true, if_false, Nat.zero_ne_one, not_true]
      rfl
  · refine Or.inr ⟨2, by decide, ?_⟩
    unfold resolveLoop
    rw [split]
    simp only [lookup, Option.bind_eq_bind, Option.bind_some]
    rcases outcome with ⟨rfl, missing⟩ | ⟨rfl, rfl⟩
    · simp [missing]
    · simp

theorem resolveLoop_zero (volume : Volume) (cur fuel : Nat)
    {path : CString} (split : splitNext path = none)
    (pending : Option CString) :
    resolveLoop volume (fuel + 1) path cur pending =
      some (match pending with
        | none => ⟨0, true, 0, []⟩
        | some pending => ⟨0, false, cur, toFatName pending⟩) := by
  unfold resolveLoop
  rw [split]
  cases pending <;> rfl

theorem resolveLoop_first (volume : Volume) (cur fuel : Nat)
    {path comp rest : CString}
    (split : splitNext path = some (comp, rest)) :
    resolveLoop volume (fuel + 1) path cur none =
      resolveLoop volume fuel rest cur (some comp) := by
  conv_lhs => unfold resolveLoop
  rw [split]

/-- Resolving ends, and only at the root or in a directory of the tree. -/
private theorem resolveLoop_ends (readable : Readable volume)
    (sound : volume.disk.Sound) :
    ∀ {fuel cur : Nat} {path : CString} {slots : List Nat}
      (pending : Option CString), path.length < fuel →
      DirSlots volume cur slots →
        ∃ resolved, resolveLoop volume fuel path cur pending =
            some resolved ∧
          (resolved.code = 0 → resolved.isRoot = false →
            ∃ slots name, DirSlots volume resolved.dirCluster slots ∧
              resolved.finalName = toFatName name ∧
              ∀ byte ∈ name, byte ∈ path ∨ byte ∈ pending.getD [])
  | 0, _, _, _, _, short, _ => absurd short (Nat.not_lt_zero _)
  | fuel + 1, cur, path, slots, pending, short, dirSlots => by
      cases split : splitNext path with
      | none =>
          rw [resolveLoop_zero volume cur fuel split]
          refine ⟨_, rfl, ?_⟩
          cases pending with
          | none => simp
          | some pending =>
              exact fun _ _ => ⟨slots, pending, dirSlots, rfl,
                fun byte member => Or.inr member⟩
      | some found =>
          obtain ⟨comp, rest⟩ := found
          have shorter := length_splitNext split
          have enough : rest.length < fuel := by omega
          obtain ⟨inComp, inRest⟩ := splitNext_subset split
          have fromPath (name : CString)
              (bytes : ∀ byte ∈ name, byte ∈ rest ∨ byte ∈ comp) :
              ∀ byte ∈ name, byte ∈ path ∨ byte ∈ pending.getD [] :=
            fun byte member => Or.inl
              ((bytes byte member).elim (inRest byte) (inComp byte))
          cases pending with
          | none =>
              rw [resolveLoop_first volume cur fuel split]
              obtain ⟨resolved, result, inTree⟩ := resolveLoop_ends
                readable sound (some comp) enough dirSlots
              refine ⟨resolved, result, fun zero notRoot => ?_⟩
              obtain ⟨slots', name, dirSlots', nameEq, bytes⟩ :=
                inTree zero notRoot
              exact ⟨slots', name, dirSlots', nameEq, fromPath name bytes⟩
          | some pending =>
              rcases resolveLoop_step readable sound dirSlots split fuel
                with ⟨dir, clusters, inDir, isDir, chain⟩ |
                  ⟨code, nonzero, step⟩
              · rw [resolveLoop_down readable sound dirSlots split inDir
                  isDir]
                obtain ⟨resolved, result, inTree⟩ := resolveLoop_ends
                  readable sound (some comp) enough
                  (.sub (inDir.reach dirSlots) isDir chain)
                refine ⟨resolved, result, fun zero notRoot => ?_⟩
                obtain ⟨slots', name, dirSlots', nameEq, bytes⟩ :=
                  inTree zero notRoot
                exact ⟨slots', name, dirSlots', nameEq,
                  fromPath name bytes⟩
              · rw [step]
                exact ⟨_, rfl, fun zero => absurd zero nonzero⟩

theorem resolvePath_ends (readable : Readable volume)
    (sound : volume.disk.Sound) (path : CString) :
    ∃ resolved, resolvePath volume path = some resolved ∧
      (resolved.code = 0 → resolved.isRoot = false →
        ∃ slots name, DirSlots volume resolved.dirCluster slots ∧
          resolved.finalName = toFatName name ∧
          ∀ byte ∈ name, byte ∈ path) := by
  obtain ⟨resolved, result, inTree⟩ := resolveLoop_ends readable sound
    none (Nat.lt_succ_self path.length) .root
  refine ⟨resolved, result, fun zero notRoot => ?_⟩
  obtain ⟨slots, name, dirSlots, nameEq, bytes⟩ := inTree zero notRoot
  exact ⟨slots, name, dirSlots, nameEq, fun byte member =>
    (bytes byte member).elim id fun impossible => by
      cases impossible⟩

/-- A path that resolved still does when no directory lost its name. -/
private theorem resolveLoop_frame (readable : Readable volume)
    (sound : volume.disk.Sound) (readable' : Readable volume')
    (sound' : volume'.disk.Sound) {kept : Nat → Prop}
    (namesKept : NamesKept kept volume volume')
    (keptDirs : ∀ dir, Reach volume dir → IsDir volume.mem dir →
      kept dir) :
    ∀ {fuel cur : Nat} {path : CString} {slots : List Nat}
      {resolved : Resolved} (pending : Option CString),
      DirSlots volume cur slots →
      resolveLoop volume fuel path cur pending = some resolved →
      resolved.code = 0 →
        resolveLoop volume' fuel path cur pending = some resolved
  | 0, _, _, _, _, _, _, result, _ => by simp [resolveLoop] at result
  | fuel + 1, cur, path, slots, resolved, pending, dirSlots, result,
      zero => by
      cases split : splitNext path with
      | none =>
          rw [resolveLoop_zero volume cur fuel split] at result
          rw [resolveLoop_zero volume' cur fuel split, result]
      | some found =>
          obtain ⟨comp, rest⟩ := found
          cases pending with
          | none =>
              rw [resolveLoop_first volume cur fuel split] at result
              rw [resolveLoop_first volume' cur fuel split]
              exact resolveLoop_frame readable sound readable' sound'
                namesKept keptDirs _ dirSlots result zero
          | some pending =>
              rcases resolveLoop_step readable sound dirSlots split fuel
                with ⟨dir, clusters, found, isDir, chain⟩ |
                  ⟨code, nonzero, step⟩
              · rw [resolveLoop_down readable sound dirSlots split found
                  isDir] at result
                have reach := found.reach dirSlots
                obtain ⟨more, dirSlots', names⟩ :=
                  namesKept cur slots dirSlots
                obtain ⟨found', same⟩ :=
                  names _ dir found (keptDirs dir reach isDir)
                rw [resolveLoop_down readable' sound' dirSlots' split
                  found' (same.isDir_iff.mpr isDir), same.first]
                exact resolveLoop_frame readable sound readable' sound'
                  namesKept keptDirs _ (.sub reach isDir chain) result zero
              · rw [step, Option.some.injEq] at result
                rw [← result] at zero
                exact absurd zero nonzero

/-- A path that resolves does so after the change, with the same
results. -/
theorem resolvePath_frame (readable : Readable volume)
    (sound : volume.disk.Sound) (readable' : Readable volume')
    (sound' : volume'.disk.Sound) {kept : Nat → Prop}
    (namesKept : NamesKept kept volume volume')
    (keptDirs : ∀ dir, Reach volume dir → IsDir volume.mem dir →
      kept dir) {path : CString} {resolved : Resolved}
    (result : resolvePath volume path = some resolved)
    (zero : resolved.code = 0) : resolvePath volume' path = some resolved :=
  resolveLoop_frame readable sound readable' sound' namesKept keptDirs
    none .root result zero

theorem Names.frame (readable : Readable volume)
    (sound : volume.disk.Sound) (readable' : Readable volume')
    (sound' : volume'.disk.Sound) {kept : Nat → Prop}
    (namesKept : NamesKept kept volume volume')
    (keptDirs : ∀ dir, Reach volume dir → IsDir volume.mem dir →
      kept dir) {path : CString} {entry : Nat}
    (names : Names volume path entry) (keptEntry : kept entry) :
    Names volume' path entry ∧
      SameEntry volume'.mem entry volume.mem entry := by
  obtain ⟨cur, name, slots, resolved, dirSlots, found⟩ := names
  obtain ⟨more, dirSlots', namesThere⟩ := namesKept cur slots dirSlots
  obtain ⟨found', same⟩ := namesThere _ entry found keptEntry
  exact ⟨⟨cur, name, slots ++ more,
    resolvePath_frame readable sound readable' sound' namesKept keptDirs
      resolved rfl, dirSlots', found'⟩, same⟩

end Resolve

/-! ## The common beginning of the calls -/

/-- The path leads to a directory of the tree and a last component. -/
structure Located (volume : Volume) (path : CString) (cur : Nat)
    (slots : List Nat) (name : CString) : Prop where
  resolved :
    resolvePath volume path = some ⟨0, false, cur, toFatName name⟩
  dirSlots : DirSlots volume cur slots
  bytes : ∀ byte ∈ name, byte ∈ path

/-! The calls after their common beginning. -/

section Opening

variable {volume opened : Volume} {path : CString}
  {target : List UInt8} {cur r : Nat} {slot slot' : DirSlot}

theorem fatWriteFile_opened
    (ok : openTarget volume path 4 slot true =
      some (.ok (target, cur, r, slot', opened)))
    (data : Bytes) (size : Nat) :
    fatWriteFile volume slot path data size =
      if r = 1 then some (1, opened)
      else if r = 2 then some (2, opened)
      else replaceFile opened slot' target data size := by
  rw [fatWriteFile, ok]
  rfl

theorem fatWriteAt_opened
    (ok : openTarget volume path 4 slot true =
      some (.ok (target, cur, r, slot', opened)))
    {len : Nat} (positive : 1 ≤ len) (offset : Nat) (data : Bytes) :
    fatWriteAt volume slot path offset data len =
      if r = 1 then some (1, opened)
      else if r = 2 then some (2, opened)
      else spliceFile opened slot' target offset data len := by
  rw [fatWriteAt, if_neg (by omega), ok]
  rfl

theorem fatDeleteFile_opened
    (ok : openTarget volume path 4 .unset false =
      some (.ok (target, cur, r, slot', opened))) :
    fatDeleteFile volume path =
      if r = 1 then some (1, opened)
      else if r = 2 ∨ ¬ slot'.existing then some (2, opened)
      else deleteEntry opened slot' := by
  rw [fatDeleteFile, ok]
  rfl

theorem fatMkdir_opened
    (ok : openTarget volume path 5 .unset true =
      some (.ok (target, cur, r, slot', opened))) :
    fatMkdir volume path =
      if r = 1 then some (1, opened)
      else if r = 2 ∨ r = 3 then some (2, opened)
      else if slot'.existing then some (3, opened)
      else makeDirectory opened slot' target cur := by
  rw [fatMkdir, ok]
  rfl

theorem fatRmdir_opened
    (ok : openTarget volume path 6 .unset false =
      some (.ok (target, cur, r, slot', opened))) :
    fatRmdir volume path =
      if r = 1 then some (1, opened)
      else if r = 2 ∨ r = 3 ∨ ¬ slot'.existing then some (2, opened)
      else removeDirectory opened slot' := by
  rw [fatRmdir, ok]
  rfl

end Opening

section OpenTarget

variable {volume : Volume}

/-- A path that does not resolve, or is the root, ends a call at once. -/
theorem openTarget_cases (wellFormed : WellFormed volume)
    (sound : volume.disk.Sound) (path : CString) (rootCode : Nat)
    (slot : DirSlot) (create : Bool) :
    (∃ code, (code = 1 ∨ code = rootCode) ∧
      openTarget volume path rootCode slot create =
        some (.error code)) ∨
    ∃ cur slots name, Located volume path cur slots name ∧
      openTarget volume path rootCode slot create =
        (dirLookup volume cur (toFatName name) slot create).map
          fun (r, slot, volume) =>
            .ok (toFatName name, cur, r, slot, volume) := by
  obtain ⟨resolved, result, inTree⟩ :=
    resolvePath_ends wellFormed sound path
  rw [openTarget, result]
  by_cases zero : resolved.code = 0
  · cases root : resolved.isRoot with
    | true =>
        refine Or.inl ⟨rootCode, Or.inr rfl, ?_⟩
        simp [zero, root]
    | false =>
        obtain ⟨slots, name, dirSlots, nameEq, bytes⟩ := inTree zero root
        refine Or.inr ⟨resolved.dirCluster, slots, name,
          ⟨?_, dirSlots, bytes⟩, ?_⟩
        · rw [result, ← nameEq, ← root, ← zero]
        · simp only [Option.bind_eq_bind, Option.bind_some, zero, root,
            ne_eq, not_true, if_false, Bool.false_eq_true, nameEq]
          rw [Option.map_eq_bind]
          rfl
  · refine Or.inl ⟨1, Or.inl rfl, ?_⟩
    simp [zero]

/-- The beginning of the calls that may create an entry. -/
theorem openTarget_create (wellFormed : WellFormed volume)
    (sound : volume.disk.Sound) (path : CString) (rootCode : Nat)
    (slot : DirSlot) :
    (∃ code, (code = 1 ∨ code = rootCode) ∧
      openTarget volume path rootCode slot true = some (.error code)) ∨
    ∃ cur slots name code slot' volume',
      Located volume path cur slots name ∧
        CreateResult volume cur (toFatName name) slots slot code slot'
          volume' ∧
        dirLookup volume cur (toFatName name) slot true =
          some (code, slot', volume') ∧
        openTarget volume path rootCode slot true =
          some (.ok (toFatName name, cur, code, slot', volume')) := by
  rcases openTarget_cases wellFormed sound path rootCode slot true with
    stopped | ⟨cur, slots, name, located, result⟩
  · exact Or.inl stopped
  · obtain ⟨code, slot', volume', lookup, created⟩ :=
      dirLookup_create wellFormed sound located.dirSlots (toFatName name)
        slot
    rw [lookup] at result
    exact Or.inr ⟨cur, slots, name, code, slot', volume', located, created,
      lookup, result⟩

/-- The beginning of the calls that need an entry. -/
theorem openTarget_find (wellFormed : WellFormed volume)
    (sound : volume.disk.Sound) (path : CString) (rootCode : Nat)
    (slot : DirSlot) :
    (∃ code, (code = 1 ∨ code = rootCode) ∧
      openTarget volume path rootCode slot false = some (.error code)) ∨
    ∃ cur slots name code slot', Located volume path cur slots name ∧
      openTarget volume path rootCode slot false =
        some (.ok (toFatName name, cur, code, slot', volume)) ∧
      (code = 0 ∧ (∃ entry, Finds volume.mem (toFatName name) slots entry ∧
          slot' = slotAt entry true) ∨
        code = 0 ∧ slot'.existing = false ∨ code = 2) := by
  rcases openTarget_cases wellFormed sound path rootCode slot false with
    stopped | ⟨cur, slots, name, located, result⟩
  · exact Or.inl stopped
  · right
    rcases dirLookup_find wellFormed sound located.dirSlots
        (toFatName name) slot with
      ⟨entry, found, lookup⟩ | ⟨_, code, slot', lookup, outcome⟩
    · rw [lookup] at result
      exact ⟨cur, slots, name, 0, slotAt entry true, located, result,
        Or.inl ⟨rfl, entry, found, rfl⟩⟩
    · rw [lookup] at result
      exact ⟨cur, slots, name, code, slot', located, result,
        Or.inr (outcome.imp_right And.left)⟩

end OpenTarget

end LoafOs
