import LoafOs.Fs.FatWriteAt

/-!
# Deleting files, making and removing directories

`fat_delete_file`, `fat_mkdir` and `fat_rmdir` after their lookup; each
successful call edits one entry.
-/

namespace LoafOs

/-! ## Deleting a file -/

/-- An entry whose first byte is 0xe5 is not live. -/
theorem not_live_of_deleted {mem : Bytes} {slot : Nat}
    (deleted : mem slot = 0xe5) : ¬ Live mem slot :=
  fun live => live.1.2.1 deleted

section Delete

variable {volume : Volume} {cur entry : Nat} {target : List UInt8}

/-- The chain of an entry has been freed and the entry marked as
deleted. -/
theorem Released.edited {released volume' : Volume} {old : List Nat}
    (isReleased : Released volume released entry old)
    (empty : Reach volume entry → IsDir volume.mem entry →
      ∀ cluster ∈ old, ∀ slot ∈ clusterSlots volume.bpb cluster,
        ¬ Live volume.mem slot)
    (kept : Kept (InSlot entry) volume volume')
    (fatBuf : volume'.fatBuf = released.fatBuf)
    (deleted : volume'.mem entry = 0xe5) (copies : CopiesEqual volume') :
    Edited volume volume' entry old [] := by
  have next := Volume.next_congr fatBuf
  exact
    { kept := kept.mono fun _ inside => Or.inl inside
      oldChain := isReleased.toOldChain
      oldLeaf := fun reach isDir => ⟨rfl, empty reach isDir⟩
      newChain := fun live => absurd live (not_live_of_deleted deleted)
      newNone := fun _ => rfl
      newLeaf := fun _ _ member => nomatch member
      others := by
        intro cluster notOld _
        rw [next, isReleased.next, if_neg notOld]
      freed := by
        intro cluster inOld _
        rw [next, isReleased.next, if_pos inOld]
      fresh := fun _ member => nomatch member
      copies := copies }

/-- Marking an entry as deleted. -/
theorem markDeleted {released : Volume} (sound : released.disk.Sound)
    (onDisk : OnDisk entry) (existing : Bool) :
    ∃ volume', updateSlot released (slotAt entry existing) (fun sectorBuf =>
          sectorBuf.put (slotAt entry existing).offset 0xe5) =
        (0, volume') ∧
      Kept (InSlot entry) released volume' ∧
      volume'.fatBuf = released.fatBuf ∧ volume'.mem entry = 0xe5 ∧
      ∀ address, ¬ InSlot entry address →
        volume'.mem address = released.mem address := by
  obtain ⟨volume', updateEq, bpb, fatBuf, sound', outside, same⟩ :=
    updateSlot_eq sound onDisk existing
      (fun sectorBuf =>
        sectorBuf.put (slotAt entry existing).offset 0xe5)
      (fun _ away => Bytes.put_other (by omega))
  refine ⟨volume', updateEq, ⟨bpb, sound', fun address _ untouched =>
    outside address untouched⟩, fatBuf, ?_, outside⟩
  rw [same.head, Bytes.put_same]

theorem deleteEntry_eq (opened : Opened volume cur target entry true) :
    (IsDir volume.mem entry ∧
      deleteEntry volume (slotAt entry true) = some (3, volume)) ∨
    ¬ IsDir volume.mem entry ∧ ∃ volume' old,
      deleteEntry volume (slotAt entry true) = some (0, volume') ∧
        volume'.disk.Sound ∧ volume'.mem entry = 0xe5 ∧
          Edited volume volume' entry old [] := by
  obtain ⟨read, same⟩ := readSlot_eq opened.sound opened.onDisk true
  rw [deleteEntry, read]
  by_cases isDir : IsDir volume.mem entry
  · refine Or.inl ⟨isDir, ?_⟩
    have attr : direntAttr (sectorOf volume entry)
        (slotAt entry true).offset &&& attrDirectory ≠ 0 :=
      same.isDir_iff.mpr isDir
    simp only [attr, ne_eq, not_false_eq_true, if_true]
    rfl
  · refine Or.inr ⟨isDir, ?_⟩
    have attr : ¬ direntAttr (sectorOf volume entry)
        (slotAt entry true).offset &&& attrDirectory ≠ 0 :=
      fun nonzero => isDir (same.isDir_iff.mp nonzero)
    obtain ⟨released, old, freed, isReleased⟩ := freeFrom_eq opened
    have sound : released.disk.Sound := by
      rw [isReleased.disk]
      exact opened.sound
    obtain ⟨marked, markEq, markKept, markBuf, deleted, _⟩ :=
      markDeleted sound opened.onDisk true
    have geometry : Geometry marked.bpb := by
      rw [markKept.bpb, isReleased.bpb]
      exact opened.wellFormed.geometry
    obtain ⟨flushed, flushEq, flushKept, flushBuf, copies⟩ :=
      fatFlush_kept geometry markKept.sound
    have writeEq : released.write (slotAt entry true).sector 1
        ((sectorOf volume entry).put (slotAt entry true).offset 0xe5) =
          (0, marked) := by
      rw [updateSlot, isReleased.disk, read] at markEq
      exact markEq
    have behind := opened.treeSlot.behind
    have flushedEntry : flushed.mem entry = 0xe5 := by
      rw [flushKept.mem entry (by
        rw [markKept.bpb, isReleased.bpb]
        exact behind) not_false, deleted]
    have kept : Kept (InSlot entry) volume flushed :=
      { bpb := flushKept.bpb.trans (markKept.bpb.trans isReleased.bpb)
        sound := flushKept.sound
        mem := by
          intro address back untouched
          rw [flushKept.mem address (by
              rwa [markKept.bpb, isReleased.bpb]) not_false,
            markKept.mem address (by rwa [isReleased.bpb]) untouched,
            isReleased.mem] }
    refine ⟨flushed, old, ?_, flushKept.sound, flushedEntry,
      isReleased.edited (fun _ directory => absurd directory isDir) kept
        (flushBuf.trans markBuf) flushedEntry copies⟩
    simp only [attr, if_false, same.first, freed, Option.bind_eq_bind,
      Option.bind_some, writeEq, ne_eq, not_true]
    rw [flushEq]
    rfl

end Delete

/-! ## The emptiness test -/

theorem SameEntry.skipped_eq {mem mem' : Bytes} {slot slot' : Nat}
    (same : SameEntry mem slot mem' slot') :
    skippedByEmpty mem slot = skippedByEmpty mem' slot' := by
  have second := same 1 (by decide)
  have third := same 2 (by decide)
  rw [skippedByEmpty, skippedByEmpty, same.head, same.attr, second, third]

/-- What the emptiness test skips is not live. -/
theorem not_live_of_skipped {mem : Bytes} {slot : Nat}
    (skipped : skippedByEmpty mem slot = true) : ¬ Live mem slot := by
  rintro ⟨⟨nonzero, notDeleted, short, _⟩, notDot⟩
  simp only [skippedByEmpty, Bool.or_eq_true, Bool.and_eq_true,
    decide_eq_true_eq] at skipped
  rcases skipped with ((((zero | deleted) | long) | ⟨dot, space⟩) |
    ⟨⟨dot, second⟩, space⟩)
  · exact nonzero zero
  · exact notDeleted deleted
  · exact short long
  · exact notDot (Or.inl ⟨dot, space⟩)
  · exact notDot (Or.inr ⟨dot, second, space⟩)

theorem sectorsEmpty_eq {disk : Disk} (sound : disk.Sound) :
    ∀ (count lba : Nat), lba + count ≤ lbaLimit →
      sectorsEmpty disk count lba =
        some ((slotsFrom (512 * lba) (16 * count)).all
          (skippedByEmpty disk.mem))
  | 0, lba, _ => rfl
  | count + 1, lba, bound => by
      have readable : lba + 1 ≤ lbaLimit := by omega
      have next : 512 * lba + 32 * 16 = 512 * (lba + 1) := by omega
      have total : 16 * (count + 1) = 16 + 16 * count := by omega
      have here : ((List.range 16).all fun i => skippedByEmpty
            (scratch.copy 0 (disk.mem.shift (512 * lba)) 512) (32 * i)) =
          (slotsFrom (512 * lba) 16).all (skippedByEmpty disk.mem) := by
        rw [slotsFrom, List.all_map]
        rw [Bool.eq_iff_iff, List.all_eq_true, List.all_eq_true]
        refine forall₂_congr fun index member => ?_
        rw [List.mem_range] at member
        have same := sameEntry_sector disk.mem lba
          (show 32 * index + 32 ≤ 512 by omega)
        rw [same.skipped_eq]
        rfl
      rw [total, slotsFrom_append, List.all_append, sectorsEmpty,
        readLba_eq sound readable]
      simp only [Nat.mul_one, here, next]
      cases (slotsFrom (512 * lba) 16).all (skippedByEmpty disk.mem) with
      | false => rfl
      | true =>
          cases count with
          | zero => rfl
          | succ count =>
              have small := u32_nextLba (show lba < lbaLimit by omega)
              rw [if_pos rfl, small]
              exact sectorsEmpty_eq sound (count + 1) (lba + 1) (by omega)

section Empty

variable {volume : Volume}

private theorem dirIsEmptyLoop_eq (geometry : Geometry volume.bpb)
    (sound : volume.disk.Sound) :
    ∀ {clusters : List Nat} {fuel start : Nat},
      Links.Path volume.next ChainStop start clusters →
      (∀ cluster ∈ clusters, cluster < volume.bpb.totalClusters) →
      clusters.length < fuel →
        dirIsEmptyLoop volume fuel start =
          some (if clusters.all fun cluster =>
              (clusterSlots volume.bpb cluster).all
                (skippedByEmpty volume.mem) then 1 else 0)
  | _, 0, _, _, _, short => absurd short (Nat.not_lt_zero _)
  | [], fuel + 1, start, path, _, _ => by
      cases path with
      | done stopped =>
      rw [dirIsEmptyLoop, if_pos stopped]
      rfl
  | cluster :: rest, fuel + 1, start, path, inside, short => by
      cases path with
      | more going tail =>
      have low : 2 ≤ cluster := by
        simp only [ChainStop, not_or] at going
        omega
      have high := inside cluster List.mem_cons_self
      have limit := geometry.clusters_inside low high
      have slots : slotsFrom
          (512 * (volume.bpb.dataStart +
            (cluster - 2) * volume.bpb.perCluster))
          (16 * volume.bpb.perCluster) =
          clusterSlots volume.bpb cluster := rfl
      have memEq : volume.disk.mem = volume.mem := rfl
      rw [dirIsEmptyLoop, if_neg going, geometry.clusterLba_eq low high,
        sectorsEmpty_eq sound _ _ limit, slots, memEq, List.all_cons]
      cases (clusterSlots volume.bpb cluster).all
          (skippedByEmpty volume.mem) with
      | false => rfl
      | true =>
          rw [Bool.true_and]
          exact dirIsEmptyLoop_eq geometry sound tail
            (fun other member =>
              inside other (List.mem_cons_of_mem cluster member))
            (Nat.lt_of_succ_lt_succ short)

/-- `dir_is_empty` says 1 only when the directory has no live entry. -/
theorem dirIsEmpty_eq (geometry : Geometry volume.bpb)
    (sound : volume.disk.Sound) {entry : Nat} {clusters : List Nat}
    (chain : Chain volume entry clusters) :
    ∃ empty : Int, dirIsEmpty volume (direntFirst volume.mem entry) =
        some empty ∧
      (empty = 0 ∨ empty = 1 ∧ ∀ cluster ∈ clusters,
        ∀ slot ∈ clusterSlots volume.bpb cluster,
          ¬ Live volume.mem slot) := by
  have loop := dirIsEmptyLoop_eq geometry sound chain.path chain.inside
    (chain_length_le chain.path)
  refine ⟨_, loop, ?_⟩
  split
  case isTrue all =>
    refine Or.inr ⟨rfl, fun cluster member slot inCluster => ?_⟩
    rw [List.all_eq_true] at all
    have here := all cluster member
    rw [List.all_eq_true] at here
    exact not_live_of_skipped (here slot inCluster)
  case isFalse => exact Or.inl rfl

end Empty

/-! ## Removing a directory -/

section Remove

variable {volume : Volume} {cur entry : Nat} {target : List UInt8}

theorem removeDirectory_eq
    (opened : Opened volume cur target entry true) :
    ∃ code volume', removeDirectory volume (slotAt entry true) =
        some (code, volume') ∧
      (code = 3 ∧ volume' = volume ∨ code = 5 ∧ volume' = volume ∨
        code = 0 ∧ IsDir volume.mem entry ∧ volume'.disk.Sound ∧
          volume'.mem entry = 0xe5 ∧
            ∃ old, Edited volume volume' entry old []) := by
  have geometry := opened.wellFormed.geometry
  have reach := opened.reach
  obtain ⟨read, same⟩ := readSlot_eq opened.sound opened.onDisk true
  rw [removeDirectory, read]
  by_cases isDir : IsDir volume.mem entry
  swap
  · have attr : direntAttr (sectorOf volume entry)
        (slotAt entry true).offset &&& attrDirectory = 0 := by
      by_contra nonzero
      exact isDir (same.isDir_iff.mp nonzero)
    refine ⟨3, volume, ?_, Or.inl ⟨rfl, rfl⟩⟩
    simp only [attr, if_true]
    rfl
  have attr : ¬ direntAttr (sectorOf volume entry)
      (slotAt entry true).offset &&& attrDirectory = 0 :=
    same.isDir_iff.mpr isDir
  obtain ⟨clusters, chain⟩ := opened.wellFormed.chain entry reach
  have low := (chain.first_owned isDir).low
  have notLow : ¬ direntFirst volume.mem entry < 2 := by omega
  obtain ⟨empty, emptyEq, outcome⟩ :=
    dirIsEmpty_eq geometry opened.sound chain
  simp only [attr, if_false, same.first, notLow, emptyEq,
    Option.bind_eq_bind, Option.bind_some]
  rcases outcome with rfl | ⟨rfl, noLive⟩
  · exact ⟨5, volume, rfl, Or.inr (Or.inl ⟨rfl, rfl⟩)⟩
  obtain ⟨released, freed, bpb, disk, next⟩ :=
    Volume.freeChain_eq chain.path
  have isReleased : Released volume released entry clusters :=
    ⟨⟨fun _ => chain, fun unreached => absurd reach unreached⟩, bpb, disk,
      next⟩
  have releasedGeometry : Geometry released.bpb := by
    rw [bpb]
    exact geometry
  obtain ⟨flushed, flushEq, flushKept, flushBuf, copies⟩ :=
    fatFlush_kept releasedGeometry (by rw [disk]; exact opened.sound)
  obtain ⟨marked, markEq, markKept, markBuf, deleted, outside⟩ :=
    markDeleted flushKept.sound opened.onDisk true
  have layout : flushed.bpb = volume.bpb := flushKept.bpb.trans bpb
  have behind := opened.treeSlot.behind
  have kept : Kept (InSlot entry) volume marked :=
    { bpb := markKept.bpb.trans layout
      sound := markKept.sound
      mem := by
        intro address back untouched
        rw [outside address untouched,
          flushKept.mem address (by rwa [bpb]) not_false,
          isReleased.mem] }
  have markedCopies : CopiesEqual marked := by
    refine copies.frame markKept.bpb markBuf fun address front => ?_
    rw [layout] at front
    exact outside address (by rintro ⟨lower, _⟩; omega)
  refine ⟨0, marked, ?_, Or.inr (Or.inr ⟨rfl, isDir, markKept.sound, deleted,
    clusters, isReleased.edited (fun _ _ => noLive) kept
      (markBuf.trans flushBuf) deleted markedCopies⟩)⟩
  simp only [freed, Option.bind_some, flushEq, ne_eq, not_true, if_false]
  rw [if_neg (by decide), if_neg (by decide)]
  exact congrArg some markEq

end Remove

/-! ## Making a directory -/

/-- A new directory holds nothing but its two dot entries. -/
theorem dotEntries_not_live {mem : Bytes} {bpb : Bpb} {newc parent : Nat}
    (holds : ∀ index < bpb.clusterSize,
      mem (bpb.clusterAddr newc + index) = dotEntries newc parent index)
    {slot : Nat} (member : slot ∈ clusterSlots bpb newc) :
    ¬ Live mem slot := by
  have bounds := clusterSlot_bounds member
  obtain ⟨number, _, rfl⟩ := mem_slotsFrom.mp member
  have byte (index : Nat) (small : index < 32) :
      mem (bpb.clusterAddr newc + 32 * number + index) =
        dotEntries newc parent (32 * number + index) := by
    rw [Nat.add_assoc]
    exact holds _ (by omega)
  have first := byte 0 (by decide)
  have second := byte 1 (by decide)
  have third := byte 2 (by decide)
  rw [Nat.add_zero] at first
  by_cases self : number = 0
  · subst self
    refine fun live => live.2 (Or.inl ⟨?_, ?_⟩)
    · rw [first, dotEntries, putDirent_other (by omega)]
      exact putDirent_name (show 0 < 11 by decide)
    · rw [second, dotEntries, putDirent_other (by omega)]
      exact putDirent_name (show 1 < 11 by decide)
  by_cases parent_ : number = 1
  · subst parent_
    refine fun live => live.2 (Or.inr ⟨?_, ?_, ?_⟩)
    · rw [first]
      exact putDirent_name (show 0 < 11 by decide)
    · rw [second]
      exact putDirent_name (show 1 < 11 by decide)
    · rw [third]
      exact putDirent_name (show 2 < 11 by decide)
  · refine not_live_of_zero ?_
    rw [first, dotEntries, putDirent_other (by omega),
      putDirent_other (by omega)]
    rfl

/-- The entry of a directory that `fat_mkdir` has just made, and its
cluster. -/
structure NewDirectory (volume : Volume) (entry : Nat)
    (target : List UInt8) (newc : Nat) : Prop where
  entryIs : EntryIs volume.mem entry target attrDirectory newc 0
  dots : ∃ parent, ∀ index < volume.bpb.clusterSize,
    volume.mem (volume.bpb.clusterAddr newc + index) =
      dotEntries newc parent index

section Make

variable {volume : Volume} {cur entry : Nat} {target : List UInt8}

theorem makeDirectory_eq
    (opened : Opened volume cur target entry false)
    (width : target.length = 11) (storable : Storable target)
    (parentCluster : Nat) :
    makeDirectory volume (slotAt entry false) target parentCluster =
        some (4, volume) ∨
      ∃ volume' newc,
        makeDirectory volume (slotAt entry false) target parentCluster =
            some (0, volume') ∧
          volume'.disk.Sound ∧ Edited volume volume' entry [] [newc] ∧
            NewDirectory volume' entry target newc := by
  have geometry := opened.wellFormed.geometry
  have oldChain : OldChain volume entry [] :=
    ⟨fun reach => absurd reach opened.not_reach, fun _ => rfl⟩
  rw [makeDirectory]
  cases free : volume.free with
  | nil =>
      rw [fatAllocCluster_none geometry free]
      exact Or.inl rfl
  | cons newc rest =>
      right
      have isFree : newc ∈ volume.free := by
        rw [free]
        exact List.mem_cons_self
      obtain ⟨low, high, unused⟩ := Volume.mem_free.mp isFree
      have few := geometry.totalClusters_le
      have nonzero : newc ≠ 0 := by omega
      have building :=
        (oldChain.building opened).take_first geometry free
      have again : (volume.setEntry newc fatEocMark).setEntry newc
          fatEocMark = volume.setEntry newc fatEocMark := by
        have marked := building.mark_again
        rw [List.getLastD_cons, List.getLastD_nil, if_neg nonzero]
          at marked
        exact marked
      obtain ⟨written, writeEq, writeKept, writeBuf, writeMem⟩ :=
        Volume.writeCluster_kept (building.geometry geometry)
          building.sound low high (dotEntries newc parentCluster)
      obtain ⟨flushed, flushEq, flushKept, flushBuf, copies⟩ :=
        fatFlush_kept (show Geometry written.bpb by
          rw [writeKept.bpb]
          exact geometry) writeKept.sound
      obtain ⟨volume', updateEq, bpb, fatBuf, sound', outside, sameEntry⟩ :=
        updateSlot_eq flushKept.sound opened.onDisk false
          (fun sectorBuf => putDirent sectorBuf
            (slotAt entry false).offset target attrDirectory newc 0)
          (fun _ => putDirent_other)
      have apart := oldChain.entry_apart opened (Or.inr isFree)
      have layout : flushed.bpb = volume.bpb :=
        flushKept.bpb.trans writeKept.bpb
      have building' := building.congr (bpb.trans layout) sound'
        (fatBuf.trans (flushBuf.trans writeBuf))
      have entryIs : EntryIs volume'.mem entry target attrDirectory newc
          0 :=
        (putDirent_entryIs width (by omega) (by decide)).congr sameEntry
      have behind := opened.treeSlot.behind
      have order := rootStart_le_dataStart volume.bpb
      have start := dataStart_le_clusterAddr volume.bpb newc
      have holds : ∀ index < volume.bpb.clusterSize,
          volume'.mem (volume.bpb.clusterAddr newc + index) =
            dotEntries newc parentCluster index := by
        intro index small
        rw [outside _ (by rintro ⟨lower, upper⟩; omega),
          flushKept.mem _ (by
            rw [writeKept.bpb]
            show 512 * volume.bpb.rootStart ≤ _
            omega) not_false, writeMem]
        show Bytes.copy _ (volume.bpb.clusterAddr newc) _
          volume.bpb.clusterSize _ = _
        rw [Bytes.copy_inside (by omega) (by omega),
          Nat.add_sub_cancel_left]
      refine ⟨volume', newc, ?_, sound', ?_, entryIs, parentCluster, ?_⟩
      · rw [fatAllocCluster_some geometry free]
        simp only [Option.bind_eq_bind, Option.bind_some, nonzero,
          if_false, again]
        have writeEq' : (volume.setEntry newc fatEocMark).write
            ((volume.setEntry newc fatEocMark).bpb.clusterLba newc)
            (volume.setEntry newc fatEocMark).bpb.perCluster
            (dotEntries newc parentCluster) = (0, written) := writeEq
        simp only [writeEq', ne_eq, not_true, if_false, flushEq]
        exact congrArg some updateEq
      · exact
          { kept :=
              { bpb := bpb.trans layout
                sound := sound'
                mem := by
                  intro address back untouched
                  rw [not_or] at untouched
                  rw [outside address untouched.1,
                    flushKept.mem address (by
                      rw [writeKept.bpb]
                      exact back) not_false,
                    writeKept.mem address back untouched.2]
                  rfl }
            oldChain := oldChain
            oldLeaf := fun reach => absurd reach opened.not_reach
            newChain := fun _ =>
              { path := by
                  rw [entryIs.first]
                  exact building'.path
                inside := by
                  rw [bpb.trans layout]
                  exact building'.inside
                linked := building'.linked
                directory := fun _ => by simp
                regular := fun notDir => by
                  rw [IsDir, entryIs.attr] at notDir
                  exact absurd (by decide) notDir }
            newNone := fun dead => absurd
              (entryIs.live storable opened.dotless (by decide)
                (by decide)) dead
            newLeaf := by
              intro _ cluster member slot inCluster
              rw [List.mem_singleton] at member
              subst member
              exact dotEntries_not_live holds inCluster
            others := fun cluster _ notNew =>
              building'.others cluster notNew
            freed := fun _ member => nomatch member
            fresh := by
              intro cluster member
              rw [List.mem_singleton] at member
              subst member
              exact ⟨low, Or.inr unused⟩
            copies := by
              refine copies.frame bpb fatBuf fun address front => ?_
              rw [layout] at front
              exact outside address (by rintro ⟨lower, _⟩; omega) }
      · rw [bpb.trans layout]
        exact holds

end Make

end LoafOs
