import LoafOs.Fs.FatFill

/-!
# Replacing a file

After the lookup, `fat_write_file` frees the old chain, fills a new one
from the free clusters, and stores the entry.  When the clusters suffice
the whole call is one `EntryChange`.
-/

namespace LoafOs

/-- The chain of the slot, empty when it holds no entry. -/
structure OldChain (volume : Volume) (entry : Nat) (old : List Nat) :
    Prop where
  chain : Reach volume entry → Chain volume entry old
  none : ¬ Reach volume entry → old = []

/-- The chain of the entry has been freed in the table. -/
structure Released (volume volume' : Volume) (entry : Nat)
    (old : List Nat) : Prop extends OldChain volume entry old where
  bpb : volume'.bpb = volume.bpb
  disk : volume'.disk = volume.disk
  next : ∀ cluster, volume'.next cluster =
    if cluster ∈ old then 0 else volume.next cluster

section Release

variable {volume volume' : Volume} {cur entry : Nat}
  {target : List UInt8} {existing : Bool} {old : List Nat}

theorem Opened.oldChain
    (opened : Opened volume cur target entry existing) :
    ∃ old, OldChain volume entry old := by
  by_cases reach : Reach volume entry
  · obtain ⟨old, chain⟩ := opened.wellFormed.chain entry reach
    exact ⟨old, fun _ => chain, fun unreached => absurd reach unreached⟩
  · exact ⟨[], fun reached => absurd reached reach, fun _ => rfl⟩

/-- The slot lies in none of the clusters of its own chain and in no free
one. -/
theorem OldChain.entry_apart
    (opened : Opened volume cur target entry existing)
    (oldChain : OldChain volume entry old) {cluster : Nat}
    (mine : cluster ∈ old ∨ cluster ∈ volume.free) :
    entry + 32 ≤ volume.bpb.clusterAddr cluster ∨
      volume.bpb.clusterAddr cluster + volume.bpb.clusterSize ≤ entry := by
  have wellFormed := opened.wellFormed
  have low : 2 ≤ cluster := by
    rcases mine with inOld | isFree
    · by_cases reach : Reach volume entry
      · exact (oldChain.chain reach).low cluster inOld
      · rw [oldChain.none reach] at inOld
        cases inOld
    · exact (Volume.mem_free.mp isFree).1
  rcases opened.treeSlot with
    member | ⟨dir, other, reach, isDir, owned, member⟩
  · have bounds := rootSlot_bounds member
    have start := dataStart_le_clusterAddr volume.bpb cluster
    omega
  · have bounds := clusterSlot_bounds member
    have different : other ≠ cluster := by
      rintro rfl
      rcases mine with inOld | isFree
      · by_cases reachEntry : Reach volume entry
        · have ownedByEntry :=
            (oldChain.chain reachEntry).owns_iff.mpr inOld
          have same := wellFormed.disjoint dir entry other reach reachEntry
            owned ownedByEntry
          subst same
          exact wellFormed.not_own_slot reach other owned member
        · rw [oldChain.none reachEntry] at inOld
          cases inOld
      · exact wellFormed.free_not_owned reach
          (Volume.mem_free.mp isFree).2.2 owned
    have apart := clusterAddr_apart volume.bpb owned.low low different
    omega

theorem Released.mem (released : Released volume volume' entry old) :
    volume'.mem = volume.mem := by
  rw [Volume.mem, released.disk]
  rfl

theorem Opened.onDisk (opened : Opened volume cur target entry existing) :
    OnDisk entry :=
  opened.treeSlot.onDisk opened.wellFormed

theorem freeFrom_eq (opened : Opened volume cur target entry true) :
    ∃ volume' old, freeFrom volume (direntFirst volume.mem entry) =
        some volume' ∧ Released volume volume' entry old := by
  have reach := opened.reach
  obtain ⟨clusters, chain⟩ := opened.wellFormed.chain entry reach
  rw [freeFrom]
  by_cases low : 2 ≤ direntFirst volume.mem entry
  · obtain ⟨volume', freed, bpb, disk, next⟩ :=
      Volume.freeChain_eq chain.path
    refine ⟨volume', clusters, ?_, ⟨fun _ => chain,
      fun unreached => absurd reach unreached⟩, bpb, disk, next⟩
    rw [if_pos low, freed]
  · have empty : clusters = [] :=
      chain.path.eq_nil_of_stop (Or.inl (by omega))
    refine ⟨volume, [], ?_, ⟨fun _ => empty ▸ chain, fun _ => rfl⟩,
      rfl, rfl, fun _ => rfl⟩
    rw [if_neg low]

theorem releaseOld_eq
    (opened : Opened volume cur target entry existing) :
    ∃ volume' old,
      releaseOld volume (slotAt entry existing) = some (0, volume') ∧
        Released volume volume' entry old := by
  cases existing with
  | false =>
      exact ⟨volume, [], rfl,
        ⟨fun reach => absurd reach opened.not_reach, fun _ => rfl⟩, rfl,
        rfl, fun _ => rfl⟩
  | true =>
      obtain ⟨read, same⟩ := readSlot_eq opened.sound opened.onDisk true
      obtain ⟨volume', old, freed, released⟩ := freeFrom_eq opened
      have existing_ : (slotAt entry true).existing = true := rfl
      refine ⟨volume', old, ?_, released⟩
      rw [releaseOld, if_pos existing_, read]
      simp only [same.first, freed]
      rfl

/-- The clusters that are free after the release. -/
theorem Released.free_cases
    (released : Released volume volume' entry old) {cluster : Nat}
    (isFree : cluster ∈ volume'.free) :
    cluster ∈ old ∨ volume.next cluster = 0 := by
  have unused := (Volume.mem_free.mp isFree).2.2
  rw [released.next] at unused
  by_cases member : cluster ∈ old
  · exact Or.inl member
  · rw [if_neg member] at unused
    exact Or.inr unused

/-- The slot itself lies in none of the clusters that are free after the
release. -/
theorem Released.entry_apart
    (opened : Opened volume cur target entry existing)
    (released : Released volume volume' entry old) {cluster : Nat}
    (isFree : cluster ∈ volume'.free) :
    entry + 32 ≤ volume.bpb.clusterAddr cluster ∨
      volume.bpb.clusterAddr cluster + volume.bpb.clusterSize ≤ entry := by
  refine released.toOldChain.entry_apart opened ?_
  obtain ⟨low, high, _⟩ := Volume.mem_free.mp isFree
  rw [released.bpb] at high
  exact (released.free_cases isFree).imp_right fun unused =>
    Volume.mem_free.mpr ⟨low, high, unused⟩

end Release

/-! ## Editing one entry -/

/-- The slot and the clusters of its new chain are all that was written,
and the table changed accordingly.  Neither before nor after is the entry
a directory with entries in it. -/
structure Edited (volume volume' : Volume) (entry : Nat)
    (old new : List Nat) : Prop where
  kept : Kept (fun address => InSlot entry address ∨
    InClusters volume.bpb new address) volume volume'
  oldChain : OldChain volume entry old
  oldLeaf : Reach volume entry → IsDir volume.mem entry →
    new = [] ∧ ∀ cluster ∈ old, ∀ slot ∈ clusterSlots volume.bpb cluster,
      ¬ Live volume.mem slot
  newChain : Live volume'.mem entry → Chain volume' entry new
  newNone : ¬ Live volume'.mem entry → new = []
  newLeaf : IsDir volume'.mem entry → ∀ cluster ∈ new,
    ∀ slot ∈ clusterSlots volume.bpb cluster, ¬ Live volume'.mem slot
  others : ∀ cluster, cluster ∉ old → cluster ∉ new →
    volume'.next cluster = volume.next cluster
  freed : ∀ cluster ∈ old, cluster ∉ new → volume'.next cluster = 0
  fresh : ∀ cluster ∈ new, 2 ≤ cluster ∧
    (cluster ∈ old ∨ volume.next cluster = 0)
  copies : CopiesEqual volume'

section Edit

variable {volume volume' : Volume} {cur entry : Nat}
  {target : List UInt8} {existing : Bool} {old new : List Nat}

/-- The clusters written belong to no directory. -/
theorem Edited.not_directory (edited : Edited volume volume' entry old new)
    (wellFormed : WellFormed volume) {cluster : Nat}
    (member : cluster ∈ new) {dir : Nat} (reach : Reach volume dir)
    (isDir : IsDir volume.mem dir) : ¬ Owns volume dir cluster := by
  intro owned
  rcases (edited.fresh cluster member).2 with inOld | unused
  · by_cases reachEntry : Reach volume entry
    · have ownedByEntry :=
        (edited.oldChain.chain reachEntry).owns_iff.mpr inOld
      have same := wellFormed.disjoint dir entry cluster reach reachEntry
        owned ownedByEntry
      subst same
      rw [(edited.oldLeaf reach isDir).1] at member
      cases member
    · rw [edited.oldChain.none reachEntry] at inOld
      cases inOld
  · exact wellFormed.free_not_owned reach unused owned

/-- The other entries of the tree keep their bytes. -/
theorem Edited.other_entry (edited : Edited volume volume' entry old new)
    (wellFormed : WellFormed volume) (atEntry : TreeSlot volume entry)
    {slot : Nat} (inTree : TreeSlot volume slot)
    (different : slot ≠ entry) :
    SameEntry volume'.mem slot volume.mem slot := by
  have slotApart := inTree.apart atEntry different
  refine edited.kept.sameEntry inTree.behind ?_
  rintro address ⟨first, last⟩
    (⟨entryFirst, entryLast⟩ | ⟨cluster, member, start, finish⟩)
  · omega
  · have outside := inTree.outside_cluster (edited.fresh cluster member).1
      fun dir reach isDir =>
        edited.not_directory wellFormed member reach isDir
    omega

theorem Edited.entryChange (edited : Edited volume volume' entry old new)
    (wellFormed : WellFormed volume) (inTree : TreeSlot volume entry) :
    EntryChange volume volume' entry old new where
  bpb := edited.kept.bpb
  inTree := inTree
  oldChain := edited.oldChain.chain
  oldNone := edited.oldChain.none
  newChain := edited.newChain
  newNone := edited.newNone
  entries := fun _ slotInTree different =>
    edited.other_entry wellFormed inTree slotInTree different
  kept := edited.others
  freed := edited.freed
  fresh := fun cluster member => (edited.fresh cluster member).2
  children := by
    intro slot
    constructor
    · rintro ⟨_, isDir, ⟨cluster, member, inCluster⟩, live⟩
      exact absurd live (edited.newLeaf isDir cluster member slot inCluster)
    · rintro ⟨reach, isDir, ⟨cluster, member, inCluster⟩, live⟩
      exact absurd live
        ((edited.oldLeaf reach isDir).2 cluster member slot inCluster)

theorem Edited.wellFormed (edited : Edited volume volume' entry old new)
    (wellFormed : WellFormed volume) (inTree : TreeSlot volume entry) :
    WellFormed volume' :=
  (edited.entryChange wellFormed inTree).wellFormed wellFormed
    edited.copies

/-- The name of an entry that was found can be stored. -/
theorem Opened.storable (opened : Opened volume cur target entry existing)
    (whenNew : existing = false → Storable target) : Storable target := by
  cases existing with
  | false => exact whenNew rfl
  | true => exact opened.matches.storable

/-- An entry that was not there before takes no name that was found, and
one that was there keeps its name. -/
theorem Opened.noMatch (opened : Opened volume cur target entry existing)
    {mem : Bytes} (named : direntName mem entry = target)
    {cur' other : Nat} {slots : List Nat} {target' : List UInt8}
    (dirSlots : DirSlots volume cur' slots) (member : entry ∈ slots)
    (found : Finds volume.mem target' slots other)
    (matched : Matches mem target' entry) :
    Matches volume.mem target' entry := by
  have sameName : target' = target := matched.2.symm.trans named
  subst sameName
  obtain ⟨slots', dirSlots', member', whenFound, whenVacant⟩ :=
    opened.found
  cases existing with
  | true => exact opened.matches
  | false =>
      have same := dirSlots.same_of_member opened.wellFormed dirSlots'
        member member'
      subst same
      exact absurd found ((whenVacant rfl).2 other)

/-- Storing a file under the name that was looked up keeps the names of the
other entries. -/
theorem Edited.namesKept (edited : Edited volume volume' entry old new)
    (opened : Opened volume cur target entry existing)
    (regular : Reach volume entry → ¬ IsDir volume.mem entry)
    (named : direntName volume'.mem entry = target)
    (live : Live volume'.mem entry) :
    NamesKept (fun other => other ≠ entry) volume volume' := by
  have change := edited.entryChange opened.wellFormed opened.treeSlot
  have kept := change.namesKept opened.wellFormed live.1.1
    (fun _ _ _ _ dirSlots member found matched =>
      opened.noMatch named dirSlots member found matched)
    (fun reach isDir => absurd isDir (regular reach))
  intro cur' slots dirSlots
  obtain ⟨more, dirSlots', found⟩ := kept cur' slots dirSlots
  exact ⟨more, dirSlots', fun target' other isFound different =>
    found target' other isFound (Or.inl different)⟩

end Edit

/-! ## The call -/

/-- What a successful `fat_write_file` leaves: `released` is the volume
after the old chain has been freed. -/
structure Replaced (volume released volume' : Volume) (entry : Nat)
    (target : List UInt8) (data : Bytes) (size : Nat) (new : List Nat) :
    Prop where
  building : Building released volume' [] new
  kept : Kept (fun address => InSlot entry address ∨
    InClusters volume.bpb new address) volume volume'
  entryIs : EntryIs volume'.mem entry target attrArchive (new.headD 0) size
  stored : Stored volume'.mem volume.bpb new data size
  length : new.length = clustersFor volume.bpb size
  copies : CopiesEqual volume'

section Finish

variable {volume released filled : Volume} {cur entry : Nat}
  {target : List UInt8} {existing : Bool} {old new : List Nat}
  {data : Bytes} {size : Nat}

/-- `fat_set_entry(prev_cluster, FAT12_EOC_MARK)` repeats what allocating
the last cluster did. -/
theorem Building.mark_again (building : Building released filled [] new) :
    (if new.getLastD 0 = 0 then filled
      else filled.setEntry (new.getLastD 0) fatEocMark) = filled := by
  by_cases empty : new = []
  · rw [empty]
    rfl
  · have last : new.getLastD 0 = new.getLast empty := by
      simp [List.getLastD_eq_getLast?, List.getLast?_eq_some_getLast empty]
    have marked := building.marked empty
    have same : fatSetEntry filled.fatBuf (new.getLast empty) fatEocMark =
        filled.fatBuf := by
      apply fatNext_injective
      rw [fatNext_fatSetEntry_eq_update]
      exact Function.update_eq_self_iff.mpr marked.symm
    split
    · rfl
    · rw [last, Volume.setEntry, same]

/-- The part of `fat_write_file` behind the loop: flush the table and store
the entry. -/
theorem Filling.finish (opened : Opened volume cur target entry existing)
    (isReleased : Released volume released entry old)
    (width : target.length = 11) (sizeBound : size < 2 ^ 32)
    (filling : Filling released filled data size new)
    (length : new.length = clustersFor volume.bpb size)
    (apart : ∀ cluster ∈ new, entry + 32 ≤ volume.bpb.clusterAddr cluster ∨
      volume.bpb.clusterAddr cluster + volume.bpb.clusterSize ≤ entry) :
    ∃ flushed volume', fatFlush filled = (0, flushed) ∧
      updateSlot flushed (slotAt entry existing) (fun sectorBuf =>
          putDirent sectorBuf (slotAt entry existing).offset target
            attrArchive (new.headD 0) size) = (0, volume') ∧
      Replaced volume released volume' entry target data size new := by
  have geometry := opened.wellFormed.geometry
  have geometry' : Geometry released.bpb := by
    rw [isReleased.bpb]
    exact geometry
  obtain ⟨flushed, flushEq, flushedKept, flushedBuf, flushedCopies⟩ :=
    fatFlush_kept (filling.geometry geometry') filling.building.sound
  obtain ⟨volume', updateEq, bpb, fatBuf, sound, outside, sameEntry⟩ :=
    updateSlot_eq flushedKept.sound opened.onDisk existing
      (fun sectorBuf => putDirent sectorBuf (slotAt entry existing).offset
        target attrArchive (new.headD 0) size)
      (fun _ => putDirent_other)
  have layout : flushed.bpb = volume.bpb :=
    flushedKept.bpb.trans (filling.building.bpb.trans isReleased.bpb)
  have firstBound : new.headD 0 < 65536 := by
    have few := geometry'.totalClusters_le
    cases new with
    | nil => exact Nat.zero_lt_succ _
    | cons first others =>
        have high := filling.building.inside first (by simp)
        rw [List.headD_cons]
        omega
  have order := rootStart_le_dataStart volume.bpb
  have entryBehind := opened.treeSlot.behind
  refine ⟨flushed, volume', flushEq, updateEq, ?_⟩
  exact
    { building :=
        filling.building.congr
          (bpb.trans flushedKept.bpb) sound (fatBuf.trans flushedBuf)
      kept :=
        { bpb := bpb.trans layout
          sound := sound
          mem := by
            intro address behind untouched
            rw [not_or] at untouched
            have inFilled := flushedKept.mem address
              (by rwa [filling.building.bpb, isReleased.bpb]) not_false
            rw [outside address untouched.1, inFilled,
              filling.outside address (by
                rw [isReleased.bpb]
                exact untouched.2), isReleased.mem] }
      entryIs := (putDirent_entryIs width firstBound sizeBound).congr
        sameEntry
      stored := by
        intro number bound index small
        have low := filling.building.low new[number]
          (by simp)
        have start := dataStart_le_clusterAddr volume.bpb new[number]
        have away := apart new[number] (List.getElem_mem bound)
        have block := filling.stored number bound index
          (by rwa [isReleased.bpb])
        rw [isReleased.bpb] at block
        rw [outside _ (by rintro ⟨first, last⟩; omega),
          flushedKept.mem _ (by
            rw [filling.building.bpb, isReleased.bpb]
            omega) not_false]
        exact block
      length := length
      copies := by
        refine flushedCopies.frame bpb fatBuf fun address front => ?_
        rw [layout] at front
        exact outside address (by rintro ⟨first, _⟩; omega) }

/-- How `fat_write_file` ends after a successful lookup. -/
inductive ReplaceOutcome (volume released : Volume) (entry : Nat)
    (target : List UInt8) (data : Bytes) (size : Nat) :
    Option (Nat × Volume) → Prop
  | stored {volume' : Volume}
      (enough : clustersFor volume.bpb size ≤ released.free.length)
      (replaced : Replaced volume released volume' entry target data size
        (released.free.take (clustersFor volume.bpb size))) :
      ReplaceOutcome volume released entry target data size
        (some (0, volume'))
  | full {volume' : Volume}
      (short : released.free.length < clustersFor volume.bpb size)
      (bpb : volume'.bpb = volume.bpb) (sound : volume'.disk.Sound)
      (fatBuf : volume'.fatBuf = released.fatBuf)
      (outside : ∀ address, ¬ InClusters volume.bpb released.free address →
        volume'.mem address = volume.mem address) :
      ReplaceOutcome volume released entry target data size
        (some (3, volume'))

theorem replaceFile_outcome
    (opened : Opened volume cur target entry existing)
    (width : target.length = 11) (sizeBound : size < 2 ^ 32)
    (data : Bytes) :
    ∃ released old,
      releaseOld volume (slotAt entry existing) = some (0, released) ∧
      Released volume released entry old ∧
      ReplaceOutcome volume released entry target data size
        (replaceFile volume (slotAt entry existing) target data size) := by
  obtain ⟨released, old, releaseEq, isReleased⟩ := releaseOld_eq opened
  refine ⟨released, old, releaseEq, isReleased, ?_⟩
  have geometry : Geometry released.bpb := by
    rw [isReleased.bpb]
    exact opened.wellFormed.geometry
  have sound : released.disk.Sound := by
    rw [isReleased.disk]
    exact opened.sound
  have few : released.free.length + 1 < chainFuel := by
    have inside : released.free ⊆
        List.range released.bpb.totalClusters := fun cluster member =>
      List.mem_range.mpr (Volume.mem_free.mp member).2.1
    have nodup : released.free.Nodup := freeClusters_nodup _ _
    have bound := (nodup.subperm inside).length_le
    have total := geometry.totalClusters_le
    rw [List.length_range] at bound
    rw [chainFuel]
    omega
  have loop := (Filling.start sound data size).loop geometry chainFuel few
  simp only [List.length_nil, Nat.zero_mul, Nat.min_zero, Nat.sub_zero,
    List.headD_nil, List.getLastD_nil] at loop
  rw [replaceFile, releaseEq]
  simp only [Option.bind_eq_bind, Option.bind_some, ne_eq, not_true,
    if_false]
  cases result : writeChain data chainFuel 0 0 0 size released with
  | none =>
      rw [result] at loop
      cases loop
  | some found =>
      rw [result] at loop
      cases loop with
      | @stored filled enough filling =>
          have apart : ∀ cluster ∈ released.free.take
                (clustersFor released.bpb size),
              entry + 32 ≤ volume.bpb.clusterAddr cluster ∨
                volume.bpb.clusterAddr cluster + volume.bpb.clusterSize ≤
                  entry := fun cluster member =>
            isReleased.entry_apart opened (List.mem_of_mem_take member)
          have length : (released.free.take
              (clustersFor released.bpb size)).length =
                clustersFor volume.bpb size := by
            rw [List.length_take, ← isReleased.bpb]
            omega
          obtain ⟨flushed, volume', flushEq, updateEq, replaced⟩ :=
            filling.finish opened isReleased width sizeBound length apart
          simp only [Option.bind_some, filling.building.mark_again,
            flushEq, updateEq, not_true, if_false]
          rw [isReleased.bpb] at enough replaced
          exact .stored enough replaced
      | @full first prev filled short bpb sound' fatBuf outside =>
          rw [isReleased.bpb] at short
          refine .full short (bpb.trans isReleased.bpb) sound' fatBuf ?_
          intro address notFree
          rw [outside address (by rwa [isReleased.bpb]), isReleased.mem]

theorem replaceFile_eq (opened : Opened volume cur target entry existing)
    (width : target.length = 11) (sizeBound : size < 2 ^ 32)
    (data : Bytes) :
    ∃ released old, Released volume released entry old ∧
      ReplaceOutcome volume released entry target data size
        (replaceFile volume (slotAt entry existing) target data size) := by
  obtain ⟨released, old, _, isReleased, outcome⟩ :=
    replaceFile_outcome opened width sizeBound data
  exact ⟨released, old, isReleased, outcome⟩

end Finish

/-! ## The change of the tree -/

section Change

variable {volume released volume' : Volume} {cur entry : Nat}
  {target : List UInt8} {existing : Bool} {old new : List Nat}
  {data : Bytes} {size : Nat}

theorem Replaced.live (opened : Opened volume cur target entry existing)
    (storable : Storable target)
    (replaced : Replaced volume released volume' entry target data size
      new) : Live volume'.mem entry :=
  replaced.entryIs.live storable opened.dotless (by decide) (by decide)

theorem Replaced.not_dir
    (replaced : Replaced volume released volume' entry target data size
      new) : ¬ IsDir volume'.mem entry := by
  rw [IsDir, replaced.entryIs.attr]
  decide

theorem Replaced.chain (isReleased : Released volume released entry old)
    (geometry : Geometry volume.bpb)
    (replaced : Replaced volume released volume' entry target data size
      new) : Chain volume' entry new where
  path := by
    rw [replaced.entryIs.first]
    exact replaced.building.path
  inside := by
    rw [replaced.kept.bpb, ← isReleased.bpb]
    exact replaced.building.inside
  linked := replaced.building.linked
  directory := fun isDir => absurd isDir replaced.not_dir
  regular := by
    intro _
    rw [replaced.entryIs.size, replaced.entryIs.first, replaced.kept.bpb]
    refine ⟨replaced.length, ?_⟩
    have fits := clustersFor_le_iff geometry.clusterSize_pos size 0
    rw [← replaced.length, Nat.zero_mul] at fits
    cases new with
    | nil => simpa using fits
    | cons first others =>
        have low := replaced.building.low first (by simp)
        rw [List.length_cons] at fits
        rw [List.headD_cons]
        omega

/-- A successful `fat_write_file` edits one entry. -/
theorem Replaced.edited
    (opened : Opened volume cur target entry existing)
    (isReleased : Released volume released entry old)
    (regular : Reach volume entry → ¬ IsDir volume.mem entry)
    (storable : Storable target)
    (replaced : Replaced volume released volume' entry target data size
      new) : Edited volume volume' entry old new where
  kept := replaced.kept
  oldChain := isReleased.toOldChain
  oldLeaf := fun reach isDir => absurd isDir (regular reach)
  newChain := fun _ =>
    replaced.chain isReleased opened.wellFormed.geometry
  newNone := fun dead => absurd (replaced.live opened storable) dead
  newLeaf := fun isDir => absurd isDir replaced.not_dir
  others := by
    intro cluster notOld notNew
    rw [replaced.building.others cluster notNew, isReleased.next,
      if_neg notOld]
  freed := by
    intro cluster inOld notNew
    rw [replaced.building.others cluster notNew, isReleased.next,
      if_pos inOld]
  fresh := by
    intro cluster member
    have isFree := replaced.building.taken_free cluster member
    exact ⟨(Volume.mem_free.mp isFree).1, isReleased.free_cases isFree⟩
  copies := replaced.copies

end Change

end LoafOs
