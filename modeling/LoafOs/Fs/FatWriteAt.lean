import LoafOs.Fs.FatSplice

/-!
# Writing in place: the whole call

`fat_write_at` after its lookup, from the entry it loads to the entry it
stores.  When the free clusters suffice, the call is one `EntryChange`, and
its bytes are those of `Spliced`.
-/

namespace LoafOs

/-! ## The entry -/

/-- The entry in `ent` is the one in the slot, or a fresh one. -/
structure Loaded (volume : Volume) (entry : Nat) (target : List UInt8)
    (existing : Bool) (ent : Bytes) (attr : UInt8) (first size : Nat) :
    Prop where
  entryIs : EntryIs ent 0 target attr first size
  whenOld : existing = true → SameEntry ent 0 volume.mem entry
  whenNew : existing = false → attr = attrArchive ∧ first = 0 ∧ size = 0

section Entry

variable {volume : Volume} {cur entry : Nat} {target : List UInt8}
  {existing : Bool}

theorem loadEntry_eq (opened : Opened volume cur target entry existing)
    (width : target.length = 11) :
    ∃ ent attr first size,
      loadEntry volume (slotAt entry existing) target = some ent ∧
        Loaded volume entry target existing ent attr first size := by
  cases existing with
  | false =>
      exact ⟨_, _, _, _, rfl,
        putDirent_entryIs width (by decide) (by decide), by simp,
        fun _ => ⟨rfl, rfl, rfl⟩⟩
  | true =>
      obtain ⟨read, same⟩ := readSlot_eq opened.sound opened.onDisk true
      have existing_ : (slotAt entry true).existing = true := rfl
      have loaded : SameEntry
          ((sectorOf volume entry).shift (slotAt entry true).offset) 0
          volume.mem entry := by
        intro index small
        rw [Nat.zero_add, Bytes.shift]
        exact same index small
      refine ⟨(sectorOf volume entry).shift (slotAt entry true).offset,
        direntAttr volume.mem entry, direntFirst volume.mem entry,
        direntSize volume.mem entry, ?_,
        ⟨loaded.name.trans opened.matches.2, loaded.attr, loaded.first,
          loaded.size⟩, fun _ => loaded, by simp⟩
      rw [loadEntry, if_pos existing_, read]
      rfl

/-- The entry that `fat_write_at` stores. -/
theorem EntryIs.resized {ent : Bytes} {attr : UInt8}
    {first size first' size' : Nat}
    (entryIs : EntryIs ent 0 target attr first size)
    (firstBound : first' < 65536) (sizeBound : size' < 2 ^ 32) :
    EntryIs ((ent.putWord16 26 first').putWord32 28 size') 0 target attr
      first' size' where
  name := by
    rw [← entryIs.name]
    refine Bytes.slice_congr fun index small => ?_
    rw [Bytes.putWord32_other (by omega), Bytes.putWord16_other (by omega)]
  attr := by
    rw [← entryIs.attr, direntAttr, Bytes.putWord32_other (by omega),
      Bytes.putWord16_other (by omega)]
    rfl
  first := by
    have same : direntFirst
          ((ent.putWord16 26 first').putWord32 28 size') 0 =
        (ent.putWord16 26 first').word16 26 :=
      Bytes.word16_congr fun index small => by
        rw [Bytes.putWord32_other (by omega)]
    rw [same, Bytes.word16_putWord16 firstBound]
  size := Bytes.word32_putWord32 sizeBound

theorem Chain.first_low_iff {clusters : List Nat}
    (geometry : Geometry volume.bpb)
    (chain : Chain volume entry clusters) :
    direntFirst volume.mem entry < 2 ↔ clusters = [] := by
  constructor
  · intro small
    exact chain.path.eq_nil_of_stop (Or.inl small)
  · rintro rfl
    by_cases isDir : IsDir volume.mem entry
    · exact absurd rfl (chain.directory isDir)
    · obtain ⟨length, zero⟩ := chain.regular isDir
      have fits := (clustersFor_le_iff geometry.clusterSize_pos
        (direntSize volume.mem entry) 0).mp (by
          rw [← length, List.length_nil])
      have empty := zero.mpr (by omega)
      omega

end Entry

/-! ## The call -/

/-- What a successful `fat_write_at` leaves. -/
structure SplicedFile (volume volume' : Volume) (entry : Nat)
    (target : List UInt8) (attr : UInt8) (size : Nat)
    (old taken : List Nat) (offset len : Nat) (data : Bytes) : Prop where
  building : Building volume volume' old taken
  length : (old ++ taken).length =
    max old.length ((offset + len - 1) / volume.bpb.clusterSize + 1)
  kept : Kept (fun address => InSlot entry address ∨
    InClusters volume.bpb (old ++ taken) address) volume volume'
  bytes : ∀ number (bound : number < (old ++ taken).length),
    ∀ index < volume.bpb.clusterSize,
      volume'.mem (volume.bpb.clusterAddr (old ++ taken)[number] + index) =
        if offset ≤ number * volume.bpb.clusterSize + index ∧
            number * volume.bpb.clusterSize + index < offset + len then
          data (number * volume.bpb.clusterSize + index - offset)
        else
          volume.mem
            (volume.bpb.clusterAddr (old ++ taken)[number] + index)
  entryIs : EntryIs volume'.mem entry target attr ((old ++ taken).headD 0)
    (max (offset + len) size)
  copies : CopiesEqual volume'

/-- How `fat_write_at` ends after a successful lookup. -/
inductive SpliceOutcome (volume : Volume) (entry : Nat)
    (target : List UInt8) (attr : UInt8) (size : Nat) (old : List Nat)
    (offset len : Nat) (data : Bytes) : Option (Nat × Volume) → Prop
  | spliced {volume' : Volume} {taken : List Nat}
      (spliced : SplicedFile volume volume' entry target attr size old
        taken offset len data) :
      SpliceOutcome volume entry target attr size old offset len data
        (some (0, volume'))
  | full {volume' : Volume}
      (exhausted : Exhausted volume volume' old
        ((offset + len - 1) / volume.bpb.clusterSize))
      (spliced : Spliced volume.bpb volume.mem volume'.mem
        (old ++ volume.free) offset
        ((old ++ volume.free).length * volume.bpb.clusterSize - offset)
        data) :
      SpliceOutcome volume entry target attr size old offset len data
        (some (3, volume'))

section Call

variable {volume : Volume} {cur entry : Nat} {target : List UInt8}
  {existing : Bool} {old : List Nat} {data : Bytes}

theorem Building.start (sound : volume.disk.Sound)
    (path : Links.Path volume.next ChainStop (old.headD 0) old)
    (inside : ∀ cluster ∈ old, cluster < volume.bpb.totalClusters)
    (linked : ∀ cluster ∈ old, 2 ≤ volume.next cluster) :
    Building volume volume old [] where
  bpb := rfl
  sound := sound
  path := by rwa [List.append_nil]
  inside := by rwa [List.append_nil]
  linked := by rwa [List.append_nil]
  others := fun _ _ => rfl
  same := fun _ => rfl
  marked := fun nonempty => absurd rfl nonempty
  free := (List.nil_append _).symm

theorem OldChain.building
    (opened : Opened volume cur target entry existing)
    (oldChain : OldChain volume entry old) :
    Building volume volume old [] := by
  by_cases reach : Reach volume entry
  · have chain := oldChain.chain reach
    refine Building.start opened.sound ?_ chain.inside chain.linked
    have path := chain.path
    cases old with
    | nil => exact .done (Or.inl (by decide))
    | cons first others =>
        rw [← path.head_eq] at path
        exact path
  · rw [oldChain.none reach]
    exact Building.start opened.sound (.done (Or.inl (by decide)))
      (by simp) (by simp)

/-- The first cluster that `fat_write_at` starts from. -/
theorem OldChain.first
    (opened : Opened volume cur target entry existing)
    (oldChain : OldChain volume entry old) {ent : Bytes} {attr : UInt8}
    {first size : Nat}
    (loaded : Loaded volume entry target existing ent attr first size) :
    (first < 2 ↔ old = []) ∧ (old ≠ [] → first = old.headD 0) := by
  cases existing with
  | false =>
      have empty := oldChain.none opened.not_reach
      obtain ⟨_, zero, _⟩ := loaded.whenNew rfl
      rw [empty, zero]
      simp
  | true =>
      have chain := oldChain.chain opened.reach
      have sameFirst : first = direntFirst volume.mem entry :=
        loaded.entryIs.first.symm.trans (loaded.whenOld rfl).first
      rw [sameFirst]
      refine ⟨chain.first_low_iff opened.wellFormed.geometry,
        fun nonempty => ?_⟩
      have path := chain.path
      cases old with
      | nil => exact absurd rfl nonempty
      | cons head others => exact path.head_eq.symm

/-- The first cluster is that of the entry, or a new one. -/
theorem OldChain.start
    (opened : Opened volume cur target entry existing)
    (oldChain : OldChain volume entry old) {ent : Bytes} {attr : UInt8}
    {first size : Nat}
    (loaded : Loaded volume entry target existing ent attr first size) :
    (∃ first' volume' taken,
      firstCluster volume first = some (first', volume') ∧
      first' ≠ 0 ∧ Along volume volume' old taken 0 first' ∧
      volume'.mem = volume.mem) ∨
    firstCluster volume first = some (0, volume) ∧
      Exhausted volume volume old 0 := by
  have geometry := opened.wellFormed.geometry
  have building := oldChain.building opened
  obtain ⟨lowIff, head⟩ := oldChain.first opened loaded
  rw [firstCluster]
  by_cases empty : old = []
  · rw [if_pos (lowIff.mpr empty)]
    subst empty
    cases free : volume.free with
    | nil =>
        refine Or.inr ⟨fatAllocCluster_none geometry free, ?_, ?_⟩
        · rw [free]
          exact building
        · rw [free]
          exact Nat.le_refl _
    | cons fresh rest =>
        have taken := building.take_first geometry free
        have low := taken.low fresh (by simp)
        exact Or.inl ⟨fresh, _, [fresh],
          fatAllocCluster_some geometry free, by omega,
          ⟨taken, rfl, rfl⟩, rfl⟩
  · have notLow : ¬ first < 2 := fun low => empty (lowIff.mp low)
    rw [if_neg notLow]
    refine Or.inl ⟨first, volume, [], rfl, by omega,
      ⟨building, ?_, ?_⟩, rfl⟩
    · rw [List.append_nil, head empty]
      cases old with
      | nil => exact absurd rfl empty
      | cons first others => rfl
    · have positive := List.length_pos_iff.mpr empty
      rw [List.append_nil]
      omega

/-- The part of `fat_write_at` behind the loop. -/
theorem Spliced.finish
    (opened : Opened volume cur target entry existing)
    (oldChain : OldChain volume entry old) {ent : Bytes} {attr : UInt8}
    {first size offset len : Nat}
    (loaded : Loaded volume entry target existing ent attr first size)
    (bound : offset + len < 2 ^ 32)
    {written : Volume} {taken : List Nat}
    (building : Building volume written old taken)
    (length : (old ++ taken).length =
      max old.length ((offset + len - 1) / volume.bpb.clusterSize + 1))
    (spliced : Spliced volume.bpb volume.mem written.mem (old ++ taken)
      offset len data) :
    ∃ flushed volume', fatFlush written = (0, flushed) ∧
      updateSlot flushed (slotAt entry existing) (fun sectorBuf =>
          sectorBuf.copy (slotAt entry existing).offset
            ((ent.putWord16 26 ((old ++ taken).headD 0)).putWord32 28
              (max (offset + len) size)) 32) = (0, volume') ∧
      SplicedFile volume volume' entry target attr size old taken offset
        len data := by
  have geometry := opened.wellFormed.geometry
  have apart : ∀ cluster ∈ old ++ taken,
      entry + 32 ≤ volume.bpb.clusterAddr cluster ∨
        volume.bpb.clusterAddr cluster + volume.bpb.clusterSize ≤
          entry := by
    intro cluster member
    refine oldChain.entry_apart opened ?_
    exact (List.mem_append.mp member).imp_right (building.taken_free _)
  obtain ⟨flushed, flushEq, flushedKept, flushedBuf, flushedCopies⟩ :=
    fatFlush_kept (building.geometry geometry) building.sound
  obtain ⟨volume', updateEq, bpb, fatBuf, sound, outside, sameEntry⟩ :=
    updateSlot_eq flushedKept.sound opened.onDisk existing
      (fun sectorBuf => sectorBuf.copy (slotAt entry existing).offset
        ((ent.putWord16 26 ((old ++ taken).headD 0)).putWord32 28
          (max (offset + len) size)) 32)
      (fun _ away => Bytes.copy_outside away)
  have layout : flushed.bpb = volume.bpb :=
    flushedKept.bpb.trans building.bpb
  have nonempty : old ++ taken ≠ [] := by
    apply List.length_pos_iff.mp
    rw [length]
    exact Nat.lt_of_lt_of_le (Nat.succ_pos _) (Nat.le_max_right _ _)
  have firstBound : (old ++ taken).headD 0 < 65536 := by
    have few := geometry.totalClusters_le
    have high := building.inside ((old ++ taken).headD 0) (by
      cases nodes : old ++ taken with
      | nil => exact absurd nodes nonempty
      | cons head others => exact List.mem_cons_self)
    omega
  have oldBound : size < 2 ^ 32 := by
    rw [← loaded.entryIs.size]
    exact Bytes.word32_lt _ _
  have order := rootStart_le_dataStart volume.bpb
  have entryBehind := opened.treeSlot.behind
  refine ⟨flushed, volume', flushEq, updateEq, ?_⟩
  exact
    { building := building.congr (bpb.trans flushedKept.bpb) sound
        (fatBuf.trans flushedBuf)
      length := length
      kept :=
        { bpb := bpb.trans layout
          sound := sound
          mem := by
            intro address behind untouched
            rw [not_or] at untouched
            rw [outside address untouched.1,
              flushedKept.mem address (by rwa [building.bpb]) not_false,
              spliced.outside address untouched.2] }
      bytes := by
        intro number numberBound index small
        have start := dataStart_le_clusterAddr volume.bpb
          (old ++ taken)[number]
        have away := apart _ (List.getElem_mem numberBound)
        rw [outside _ (by rintro ⟨lower, upper⟩; omega),
          flushedKept.mem _ (by rw [building.bpb]; omega) not_false]
        exact spliced.inside number numberBound index small
      entryIs := by
        refine (loaded.entryIs.resized firstBound
          (Nat.max_lt.mpr ⟨bound, oldBound⟩)).congr ?_
        intro index small
        rw [sameEntry index small,
          Bytes.copy_inside (by omega) (by omega),
          Nat.add_sub_cancel_left, Nat.zero_add]
      copies := by
        refine flushedCopies.frame bpb fatBuf fun address front => ?_
        rw [layout] at front
        exact outside address (by rintro ⟨lower, _⟩; omega) }

/-- The loops of `fat_write_at`: they end with the chain extended up to the
last cluster and the data in place, or without a free cluster. -/
theorem spliceFile_loops (opened : Opened volume cur target entry existing)
    (oldChain : OldChain volume entry old) {ent : Bytes} {attr : UInt8}
    {first size : Nat}
    (loadEq : loadEntry volume (slotAt entry existing) target = some ent)
    (loaded : Loaded volume entry target existing ent attr first size)
    {offset len : Nat} (positive : 1 ≤ len)
    (bound : offset + len ≤ 2 ^ 32) (data : Bytes) :
    (∃ written taken, Building volume written old taken ∧
      (old ++ taken).length =
        max old.length ((offset + len - 1) / volume.bpb.clusterSize + 1) ∧
      Spliced volume.bpb volume.mem written.mem (old ++ taken) offset len
        data ∧
      spliceFile volume (slotAt entry existing) target offset data len =
        (let (failed, flushed) := fatFlush written
        if failed ≠ 0 then some (1, flushed)
        else some (updateSlot flushed (slotAt entry existing)
          fun sectorBuf => sectorBuf.copy (slotAt entry existing).offset
            ((ent.putWord16 26 ((old ++ taken).headD 0)).putWord32 28
              (max (u32 (offset + len)) size)) 32))) ∨
    ∃ volume',
      spliceFile volume (slotAt entry existing) target offset data len =
          some (3, volume') ∧
        Exhausted volume volume' old
          ((offset + len - 1) / volume.bpb.clusterSize) ∧
        Spliced volume.bpb volume.mem volume'.mem (old ++ volume.free)
          offset ((old ++ volume.free).length * volume.bpb.clusterSize -
            offset) data := by
  have geometry := opened.wellFormed.geometry
  have clusterPos := geometry.clusterSize_pos
  have firstEq : ent.word16 26 = first := loaded.entryIs.first
  have sizeEq : ent.word32 28 = size := loaded.entryIs.size
  have endEq : u32 (offset + len - 1) = offset + len - 1 := by
    simp only [u32]
    omega
  have order : offset / volume.bpb.clusterSize ≤
      (offset + len - 1) / volume.bpb.clusterSize :=
    Nat.div_le_div_right (by omega)
  have exhaust {volume' : Volume} {position : Nat}
      (exhausted : Exhausted volume volume' old position)
      (before : position ≤ offset / volume.bpb.clusterSize)
      (mem : volume'.mem = volume.mem) :
      ∃ final, some (3, volume') = some (3, final) ∧
        Exhausted volume final old
          ((offset + len - 1) / volume.bpb.clusterSize) ∧
        Spliced volume.bpb volume.mem final.mem (old ++ volume.free)
          offset ((old ++ volume.free).length * volume.bpb.clusterSize -
            offset) data := by
    have short := exhausted.short
    have unreached : (old ++ volume.free).length *
        volume.bpb.clusterSize ≤ offset :=
      Nat.le_trans
        (Nat.mul_le_mul_right _ (Nat.le_trans short before))
        (Nat.div_mul_le_self _ _)
    have nothing : (old ++ volume.free).length *
        volume.bpb.clusterSize - offset = 0 := by omega
    refine ⟨volume', rfl, ⟨exhausted.building, by omega⟩, ?_⟩
    rw [nothing, mem]
    exact .zero _ _ _ _ _
  rw [spliceFile, loadEq]
  simp only [firstEq, sizeEq, endEq]
  rcases oldChain.start opened loaded with
    ⟨first', started, taken, startEq, nonzero, along, startMem⟩ |
      ⟨startEq, exhausted⟩
  swap
  · rw [startEq]
    exact Or.inr (exhaust exhausted (Nat.zero_le _) rfl)
  rw [startEq]
  simp only [Option.bind_eq_bind, Option.bind_some, nonzero, if_false]
  have headEq : first' = (old ++ taken).headD 0 := by
    have here := along.here
    cases nodes : old ++ taken with
    | nil => rw [nodes] at here; cases here
    | cons head others =>
        rw [nodes] at here
        exact (Option.some.inj here).symm
  rcases skipClusters_eq geometry (offset / volume.bpb.clusterSize) along
    with ⟨cluster, skipped, taken', skipEq, nonzero', along', skipMem⟩ |
      ⟨skipped, skipEq, exhausted, skipMem⟩
  swap
  · rw [skipEq]
    exact Or.inr (exhaust exhausted (by omega) (skipMem.trans startMem))
  rw [skipEq]
  simp only [Option.bind_some, nonzero', if_false]
  rw [Nat.zero_add] at along'
  rw [along'.building.bpb]
  obtain ⟨count, lastEq⟩ := Nat.exists_eq_add_of_le order
  have passes : (offset + len - 1) / volume.bpb.clusterSize + 1 -
      offset / volume.bpb.clusterSize = count + 1 := by omega
  have unspliced : Spliced volume.bpb volume.mem skipped.mem
      (old ++ taken') offset 0 data := by
    rw [skipMem, startMem]
    exact .zero _ _ _ _ _
  have reached : offset / volume.bpb.clusterSize *
        volume.bpb.clusterSize + offset % volume.bpb.clusterSize =
      offset + 0 :=
    Nat.div_add_mod' _ _
  have lower := Nat.div_mul_le_self (offset + len - 1)
    volume.bpb.clusterSize
  have upper : offset + len - 1 <
      (offset + len - 1) / volume.bpb.clusterSize *
        volume.bpb.clusterSize + volume.bpb.clusterSize :=
    Nat.lt_div_mul_add clusterPos
  have outcome := writeClusters_eq geometry count along' unspliced reached
    (Nat.mod_lt _ clusterPos) positive
    (by rw [← lastEq]; omega)
    (by rw [← lastEq, Nat.succ_mul]; omega)
  rw [Nat.sub_zero, ← lastEq] at outcome
  rw [passes]
  cases result : writeClusters data (count + 1) cluster
      (offset % volume.bpb.clusterSize) 0 len skipped with
  | none =>
      rw [result] at outcome
      cases outcome
  | some found =>
      rw [result] at outcome
      cases outcome with
      | @written written taken'' building length spliced =>
          have sameHead : (old ++ taken).headD 0 =
              (old ++ taken'').headD 0 := by
            rw [along.building.head (List.length_pos_iff.mp along.bound),
              building.head (List.length_pos_iff.mp (by
                rw [length]
                exact Nat.lt_of_lt_of_le (Nat.succ_pos _)
                  (Nat.le_max_right _ _)))]
          refine Or.inl ⟨written, taken'', building, length, spliced, ?_⟩
          simp only [Option.bind_some, ne_eq, not_true, if_false, headEq,
            sameHead]
          rfl
      | full exhausted spliced =>
          exact Or.inr ⟨_, rfl, exhausted, spliced⟩

theorem spliceFile_eq (opened : Opened volume cur target entry existing)
    (oldChain : OldChain volume entry old) (width : target.length = 11)
    {offset len : Nat} (positive : 1 ≤ len)
    (bound : offset + len < 2 ^ 32) (data : Bytes) :
    ∃ ent attr first size,
      Loaded volume entry target existing ent attr first size ∧
      SpliceOutcome volume entry target attr size old offset len data
        (spliceFile volume (slotAt entry existing) target offset data
          len) := by
  obtain ⟨ent, attr, first, size, loadEq, loaded⟩ :=
    loadEntry_eq opened width
  have sumEq : u32 (offset + len) = offset + len := by
    simp only [u32]
    omega
  refine ⟨ent, attr, first, size, loaded, ?_⟩
  rcases spliceFile_loops opened oldChain loadEq loaded positive
      (Nat.le_of_lt bound) data with
    ⟨written, taken, building, length, spliced, result⟩ |
      ⟨volume', result, exhausted, spliced⟩
  · obtain ⟨flushed, volume', flushEq, updateEq, splicedFile⟩ :=
      spliced.finish opened oldChain loaded bound building length
    rw [result, sumEq]
    simp only [flushEq, updateEq, ne_eq, not_true, if_false]
    exact .spliced splicedFile
  · rw [result]
    exact .full exhausted spliced

end Call

/-! ## The change of the tree -/

section Change

variable {volume volume' : Volume} {cur entry : Nat}
  {target : List UInt8} {existing : Bool} {old taken : List Nat}
  {data ent : Bytes} {attr : UInt8} {first size offset len : Nat}

/-- The attributes of an entry that `fat_write_at` may store. -/
theorem Loaded.attr_plain
    (opened : Opened volume cur target entry existing)
    (regular : Reach volume entry → ¬ IsDir volume.mem entry)
    (loaded : Loaded volume entry target existing ent attr first size) :
    attr ≠ attrLongName ∧ attr &&& attrVolumeId = 0 ∧
      attr &&& attrDirectory = 0 := by
  cases existing with
  | false =>
      rw [(loaded.whenNew rfl).1]
      decide
  | true =>
      have same := (loaded.whenOld rfl).attr
      have attrEq : attr = direntAttr volume.mem entry :=
        loaded.entryIs.attr.symm.trans same
      have live := opened.reach.live
      have notDir := regular opened.reach
      rw [IsDir, not_not] at notDir
      rw [attrEq]
      exact ⟨live.1.2.2.1, live.1.2.2.2, notDir⟩

theorem SplicedFile.live
    (opened : Opened volume cur target entry existing)
    (regular : Reach volume entry → ¬ IsDir volume.mem entry)
    (storable : Storable target)
    (loaded : Loaded volume entry target existing ent attr first size)
    (spliced : SplicedFile volume volume' entry target attr size old taken
      offset len data) : Live volume'.mem entry := by
  have plain := loaded.attr_plain opened regular
  exact spliced.entryIs.live storable opened.dotless plain.1 plain.2.1

theorem SplicedFile.not_dir
    (opened : Opened volume cur target entry existing)
    (regular : Reach volume entry → ¬ IsDir volume.mem entry)
    (loaded : Loaded volume entry target existing ent attr first size)
    (spliced : SplicedFile volume volume' entry target attr size old taken
      offset len data) : ¬ IsDir volume'.mem entry := by
  rw [IsDir, spliced.entryIs.attr, not_not]
  exact (loaded.attr_plain opened regular).2.2

/-- The old chain has as many clusters as the old size takes. -/
theorem Loaded.old_length
    (opened : Opened volume cur target entry existing)
    (regular : Reach volume entry → ¬ IsDir volume.mem entry)
    (oldChain : OldChain volume entry old)
    (loaded : Loaded volume entry target existing ent attr first size) :
    old.length = clustersFor volume.bpb size := by
  cases existing with
  | false =>
      have positive := opened.wellFormed.geometry.clusterSize_pos
      rw [oldChain.none opened.not_reach, (loaded.whenNew rfl).2.2,
        clustersFor, List.length_nil]
      exact (Nat.div_eq_of_lt (by omega)).symm
  | true =>
      have reach := opened.reach
      have chain := oldChain.chain reach
      have same := (loaded.whenOld rfl).size
      have sizeEq : size = direntSize volume.mem entry :=
        loaded.entryIs.size.symm.trans same
      rw [sizeEq]
      exact (chain.regular (regular reach)).1

theorem SplicedFile.chain
    (opened : Opened volume cur target entry existing)
    (regular : Reach volume entry → ¬ IsDir volume.mem entry)
    (oldChain : OldChain volume entry old) (positive : 1 ≤ len)
    (loaded : Loaded volume entry target existing ent attr first size)
    (spliced : SplicedFile volume volume' entry target attr size old taken
      offset len data) : Chain volume' entry (old ++ taken) := by
  have clusterPos := opened.wellFormed.geometry.clusterSize_pos
  have notDir := spliced.not_dir opened regular loaded
  have nonempty : 1 ≤ (old ++ taken).length := by
    rw [spliced.length]
    exact Nat.le_trans (Nat.succ_le_succ (Nat.zero_le _))
      (Nat.le_max_right _ _)
  exact
    { path := by
        rw [spliced.entryIs.first]
        exact spliced.building.path
      inside := by
        rw [spliced.kept.bpb]
        exact spliced.building.inside
      linked := spliced.building.linked
      directory := fun isDir => absurd isDir notDir
      regular := by
        intro _
        rw [spliced.entryIs.size, spliced.entryIs.first, spliced.kept.bpb]
        constructor
        · have last : clustersFor volume.bpb (offset + len) =
              (offset + len - 1) / volume.bpb.clusterSize + 1 := by
            rw [clustersFor, ← Nat.add_div_right _ clusterPos]
            exact congrArg (· / _) (by omega)
          rw [spliced.length, loaded.old_length opened regular oldChain,
            ← last]
          rcases Nat.le_total (offset + len) size with shorter | longer
          · rw [Nat.max_eq_right shorter]
            exact Nat.max_eq_left (Nat.div_le_div_right (by omega))
          · rw [Nat.max_eq_left longer]
            exact Nat.max_eq_right (Nat.div_le_div_right (by omega))
        · cases nodes : old ++ taken with
          | nil =>
              rw [nodes] at nonempty
              exact absurd nonempty (Nat.not_succ_le_zero 0)
          | cons head others =>
              have low := spliced.building.low head (by
                rw [nodes]
                exact List.mem_cons_self)
              rw [List.headD_cons]
              omega }

/-- A successful `fat_write_at` edits one entry. -/
theorem SplicedFile.edited
    (opened : Opened volume cur target entry existing)
    (regular : Reach volume entry → ¬ IsDir volume.mem entry)
    (storable : Storable target)
    (oldChain : OldChain volume entry old) (positive : 1 ≤ len)
    (loaded : Loaded volume entry target existing ent attr first size)
    (spliced : SplicedFile volume volume' entry target attr size old taken
      offset len data) : Edited volume volume' entry old (old ++ taken) where
  kept := spliced.kept
  oldChain := oldChain
  oldLeaf := fun reach isDir => absurd isDir (regular reach)
  newChain := fun _ =>
    spliced.chain opened regular oldChain positive loaded
  newNone := fun dead =>
    absurd (spliced.live opened regular storable loaded) dead
  newLeaf := fun isDir =>
    absurd isDir (spliced.not_dir opened regular loaded)
  others := fun cluster _ notNew => spliced.building.others cluster notNew
  freed := fun cluster inOld notNew =>
    absurd (List.mem_append_left _ inOld) notNew
  fresh := by
    intro cluster member
    refine ⟨spliced.building.low cluster member, ?_⟩
    rcases List.mem_append.mp member with inOld | inTaken
    · exact Or.inl inOld
    · have isFree := spliced.building.taken_free cluster inTaken
      exact Or.inr (Volume.mem_free.mp isFree).2.2
  copies := spliced.copies

end Change

end LoafOs
