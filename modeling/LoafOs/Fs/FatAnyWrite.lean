import LoafOs.Fs.FatDisturb

/-!
# In-place writes of any length

`fat_write_at` computes the number of the last cluster in 32 bits, so for
an offset and a length whose sum wraps it walks too far or not far enough.
For every offset and every length it changes only the chain of its target,
free clusters and the entry of its target.
-/

namespace LoafOs

section AnyWrite

variable {base volume opened : Volume} {cur entry : Nat}
  {raw : List UInt8} {existing : Bool} {old taken : List Nat}
  {data ent : Bytes} {attr : UInt8} {first size : Nat}

/-- The second loop, whatever the number of passes and bytes. -/
theorem writeClusters_any (geometry : Geometry base.bpb) :
    ∀ (count : Nat) {volume : Volume} {taken : List Nat}
      {position cluster curOff pos bytesLeft : Nat},
      Along base volume old taken position cluster →
      curOff ≤ base.bpb.clusterSize →
      (∀ address, ¬ InClusters base.bpb (old ++ base.free) address →
        volume.mem address = base.mem address) →
        ∃ code volume' taken',
          writeClusters data count cluster curOff pos bytesLeft volume =
              some (code, volume') ∧
            Building base volume' old taken' ∧
            (∀ address, ¬ InClusters base.bpb (old ++ base.free) address →
              volume'.mem address = base.mem address) ∧
            (count ≤ 1 → code = 0)
  | 0, volume, taken, _, _, _, _, _, along, _, outside =>
      ⟨0, volume, taken, rfl, along.building, outside, fun _ => rfl⟩
  | count + 1, volume, taken, position, cluster, curOff, pos, bytesLeft,
      along, small, outside => by
      have building := along.building
      have layout := building.bpb
      have high := along.high
      rw [← layout] at high
      have fits : curOff + min bytesLeft (base.bpb.clusterSize - curOff) ≤
          volume.bpb.clusterSize := by
        rw [layout]
        omega
      obtain ⟨clusterBuf, volume', loadEq, written, bpb, fatBuf, sound,
          mem⟩ :=
        writePiece (building.geometry geometry) building.sound along.low
          high fits (data.shift pos)
      rw [layout] at loadEq written mem fits
      have building' := building.congr bpb sound fatBuf
      have member : cluster ∈ old ++ base.free := by
        refine (List.mem_append.mp (List.mem_of_getElem?
          along.here)).elim (List.mem_append_left _) fun inTaken => ?_
        exact List.mem_append_right _ (building.taken_free cluster inTaken)
      have outside' : ∀ address,
          ¬ InClusters base.bpb (old ++ base.free) address →
            volume'.mem address = base.mem address := by
        intro address away
        rw [mem, Bytes.copy_outside, outside address away]
        by_contra inside
        exact away ⟨cluster, member, by omega, by omega⟩
      rw [writeClusters, layout, loadEq]
      simp only [written, ne_eq, not_true, if_false]
      cases count with
      | zero =>
          rw [if_pos rfl]
          exact ⟨0, volume', taken, rfl, building', outside',
            fun _ => rfl⟩
      | succ count =>
          have along' : Along base volume' old taken position cluster :=
            ⟨building', along.here, along.length⟩
          rw [if_neg (Nat.succ_ne_zero count)]
          rcases along'.next geometry with
            ⟨next, stepped, more, stepEq, nonzero, onward, stepMem⟩ |
              ⟨stepEq, exhausted⟩
          · rw [stepEq]
            simp only [Option.bind_eq_bind, Option.bind_some, nonzero,
              if_false]
            have away := outside'
            rw [← stepMem] at away
            obtain ⟨code, final, taken', result, built, kept, _⟩ :=
              writeClusters_any geometry (count + 1) onward
                (Nat.zero_le _) away
            exact ⟨code, final, taken', result, built, kept,
              fun few => absurd few (by omega)⟩
          · rw [stepEq]
            exact ⟨3, volume', base.free, rfl, exhausted.building,
              outside', fun few => absurd few (by omega)⟩

/-- The change up to the end of the second loop. -/
theorem Building.disturbed
    (isOpened : Opened opened cur raw entry existing)
    (regular : Reach opened entry → ¬ IsDir opened.mem entry)
    (oldChain : OldChain opened entry old)
    (building : Building opened volume old taken)
    (outside : ∀ address,
      ¬ InClusters opened.bpb (old ++ opened.free) address →
        volume.mem address = opened.mem address) :
    Disturbed opened volume raw entry (old ++ opened.free) where
  kept := ⟨building.bpb, building.sound, fun address _ untouched =>
    outside address fun inside => untouched (Or.inr inside)⟩
  next := by
    intro cluster notTouched
    refine building.others cluster fun member => notTouched ?_
    refine (List.mem_append.mp member).elim (List.mem_append_left _)
      fun inTaken => ?_
    exact List.mem_append_right _ (building.taken_free cluster inTaken)
  low := by
    intro cluster member
    rcases List.mem_append.mp member with inOld | isFree
    · exact oldChain.low cluster inOld
    · exact (Volume.mem_free.mp isFree).1
  mine := by
    intro cluster member other reach different
    refine oldChain.mine isOpened.wellFormed ?_ reach different
    exact (List.mem_append.mp member).imp_right fun isFree =>
      (Volume.mem_free.mp isFree).2.2
  regular := regular
  entry := by
    refine Or.inl fun index bound => outside _ ?_
    rintro ⟨cluster, member, first, last⟩
    have apart := oldChain.entry_apart isOpened (List.mem_append.mp member)
    omega

/-- Writing the entry back. -/
theorem Disturbed.update
    (isOpened : Opened opened cur raw entry existing)
    (nonzero : raw.head? ≠ some 0x00)
    (loaded : Loaded opened entry raw existing ent attr first size)
    {touched : List Nat}
    (disturbed : Disturbed opened volume raw entry touched)
    {first' size' : Nat} (firstBound : first' < 65536)
    (sizeBound : size' < 2 ^ 32) :
    ∃ flushed volume', fatFlush volume = (0, flushed) ∧
      updateSlot flushed (slotAt entry existing) (fun sectorBuf =>
          sectorBuf.copy (slotAt entry existing).offset
            ((ent.putWord16 26 first').putWord32 28 size') 32) =
        (0, volume') ∧
      Disturbed opened volume' raw entry touched := by
  have geometry : Geometry volume.bpb := by
    rw [disturbed.kept.bpb]
    exact isOpened.wellFormed.geometry
  obtain ⟨flushed, flushEq, flushedKept, flushedBuf, _⟩ :=
    fatFlush_kept geometry disturbed.kept.sound
  obtain ⟨volume', updateEq, bpb, fatBuf, sound, outside, sameEntry⟩ :=
    updateSlot_eq flushedKept.sound isOpened.onDisk existing
      (fun sectorBuf => sectorBuf.copy (slotAt entry existing).offset
        ((ent.putWord16 26 first').putWord32 28 size') 32)
      (fun _ away => Bytes.copy_outside away)
  have layout : flushed.bpb = opened.bpb :=
    flushedKept.bpb.trans disturbed.kept.bpb
  have entryIs : EntryIs volume'.mem entry raw attr first' size' := by
    refine (loaded.entryIs.resized firstBound sizeBound).congr ?_
    intro index small
    rw [sameEntry index small, Bytes.copy_inside (by omega) (by omega),
      Nat.add_sub_cancel_left, Nat.zero_add]
  refine ⟨flushed, volume', flushEq, updateEq, ?_⟩
  exact
    { kept :=
        { bpb := bpb.trans layout
          sound := sound
          mem := by
            intro address behind untouched
            have away := not_or.mp untouched
            rw [outside address away.1, flushedKept.mem address
              (by rwa [disturbed.kept.bpb]) not_false]
            exact disturbed.kept.mem address behind untouched }
      next := by
        intro cluster notTouched
        rw [Volume.next_congr (fatBuf.trans flushedBuf)]
        exact disturbed.next cluster notTouched
      low := disturbed.low
      mine := disturbed.mine
      regular := disturbed.regular
      entry := by
        refine Or.inr ⟨?_, Or.inr ⟨entryIs.name, ?_⟩⟩
        · intro zero
          apply nonzero
          rw [← entryIs.name, direntName_head, zero]
        · have plain := loaded.attr_plain isOpened disturbed.regular
          rw [IsDir, entryIs.attr, not_not]
          exact plain.2.2 }

/-- `fat_write_at` after the lookup, for every offset and length.  When
their sum wraps, only the first loop can run out of clusters. -/
theorem spliceFile_any (isOpened : Opened opened cur raw entry existing)
    (regular : Reach opened entry → ¬ IsDir opened.mem entry)
    (oldChain : OldChain opened entry old) (width : raw.length = 11)
    (nonzero : raw.head? ≠ some 0x00) (offset len : Nat) (data : Bytes) :
    ∃ code volume',
      spliceFile opened (slotAt entry existing) raw offset data len =
          some (code, volume') ∧
        Disturbed opened volume' raw entry (old ++ opened.free) ∧
        (2 ^ 32 < offset + len → offset < 2 ^ 32 → len < 2 ^ 32 →
          code = 3 → ∃ position ≤ offset / opened.bpb.clusterSize,
            Exhausted opened volume' old position ∧
              volume'.mem = opened.mem) := by
  have geometry := isOpened.wellFormed.geometry
  obtain ⟨ent, attr, first, size, loadEq, loaded⟩ :=
    loadEntry_eq isOpened width
  have firstEq : ent.word16 26 = first := loaded.entryIs.first
  have stopped {volume' : Volume} {position : Nat}
      (exhausted : Exhausted opened volume' old position)
      (before : position ≤ offset / opened.bpb.clusterSize)
      (mem : volume'.mem = opened.mem) :
      ∃ code final, some (3, volume') = some (code, final) ∧
        Disturbed opened final raw entry (old ++ opened.free) ∧
        (2 ^ 32 < offset + len → offset < 2 ^ 32 → len < 2 ^ 32 →
          code = 3 → ∃ position ≤ offset / opened.bpb.clusterSize,
            Exhausted opened final old position ∧
              final.mem = opened.mem) :=
    ⟨3, volume', rfl, exhausted.building.disturbed isOpened regular
      oldChain fun address _ => by rw [mem],
      fun _ _ _ _ => ⟨position, before, exhausted, mem⟩⟩
  rw [spliceFile, loadEq]
  simp only [firstEq]
  rcases oldChain.start isOpened loaded with
    ⟨first', started, taken, startEq, started0, along, startMem⟩ |
      ⟨startEq, exhausted⟩
  swap
  · rw [startEq]
    exact stopped exhausted (Nat.zero_le _) rfl
  rw [startEq]
  simp only [Option.bind_eq_bind, Option.bind_some, started0, if_false]
  rcases skipClusters_eq geometry (offset / opened.bpb.clusterSize) along
    with ⟨cluster, skipped, taken', skipEq, cluster0, along', skipMem⟩ |
      ⟨skipped, skipEq, exhausted, skipMem⟩
  swap
  · rw [skipEq]
    exact stopped exhausted (by omega) (skipMem.trans startMem)
  rw [skipEq]
  simp only [Option.bind_some, cluster0, if_false]
  rw [along'.building.bpb]
  obtain ⟨code, written, taken'', writeEq, building, outside, brief⟩ :=
    writeClusters_any geometry
      (u32 (offset + len - 1) / opened.bpb.clusterSize + 1 -
        offset / opened.bpb.clusterSize) along'
      (Nat.le_of_lt (Nat.mod_lt offset geometry.clusterSize_pos))
      (fun address _ => by rw [skipMem, startMem])
  have wrapped (wraps : 2 ^ 32 < offset + len) (offsetBound : offset < 2 ^ 32)
      (lenBound : len < 2 ^ 32) : code = 0 := by
    refine brief ?_
    have lower : u32 (offset + len - 1) ≤ offset := by
      simp only [u32]
      omega
    have order : u32 (offset + len - 1) / opened.bpb.clusterSize ≤
        offset / opened.bpb.clusterSize := Nat.div_le_div_right lower
    omega
  rw [writeEq]
  simp only [Option.bind_some]
  have disturbed :=
    building.disturbed isOpened regular oldChain outside
  by_cases failed : code ≠ 0
  · rw [if_pos failed]
    exact ⟨code, written, rfl, disturbed,
      fun wraps offsetBound lenBound _ =>
        absurd (wrapped wraps offsetBound lenBound) failed⟩
  rw [if_neg failed]
  have firstBound : first' < 65536 := by
    have few := geometry.totalClusters_le
    have high := along.high
    omega
  have sizeBound : max (u32 (offset + len)) (ent.word32 28) < 2 ^ 32 :=
    Nat.max_lt.mpr ⟨Nat.mod_lt _ (by decide), Bytes.word32_lt _ _⟩
  obtain ⟨flushed, volume', flushEq, updateEq, changed⟩ :=
    disturbed.update isOpened nonzero loaded firstBound sizeBound
  simp only [flushEq, updateEq, ne_eq, not_true, if_false]
  exact ⟨0, volume', rfl, changed, fun _ _ _ impossible =>
    absurd impossible (by decide)⟩

/-- `fat_write_file` after the lookup, for every size. -/
theorem replaceFile_any (isOpened : Opened opened cur raw entry existing)
    (regular : Reach opened entry → ¬ IsDir opened.mem entry)
    (width : raw.length = 11) (nonzero : raw.head? ≠ some 0x00)
    {count : Nat} (bound : count < 2 ^ 32) (data : Bytes) :
    ∃ code volume' touched,
      replaceFile opened (slotAt entry existing) raw data count =
          some (code, volume') ∧
        Disturbed opened volume' raw entry touched := by
  obtain ⟨released, old, isReleased, outcome⟩ :=
    replaceFile_eq isOpened width bound data
  generalize replaceFile opened (slotAt entry existing) raw data count =
    call at outcome
  cases outcome with
  | @full volume' short bpb sound fatBuf outside =>
      exact ⟨3, volume', _, rfl, isReleased.disturbed isOpened regular bpb
        sound fatBuf outside⟩
  | @stored volume' enough replaced =>
      refine ⟨0, volume',
        old ++ released.free.take (clustersFor opened.bpb count), rfl, ?_⟩
      have free {cluster : Nat}
          (member : cluster ∈
            released.free.take (clustersFor opened.bpb count)) :
          cluster ∈ released.free := List.mem_of_mem_take member
      exact
        { kept := replaced.kept.mono fun address inside =>
            inside.imp_right fun inNew => inNew.mono fun cluster member =>
              List.mem_append_right _ member
          next := by
            intro cluster notTouched
            rw [replaced.building.others cluster fun member =>
                notTouched (List.mem_append_right _ member),
              isReleased.next, if_neg]
            exact fun inOld => notTouched (List.mem_append_left _ inOld)
          low := by
            intro cluster member
            rcases List.mem_append.mp member with inOld | inNew
            · exact isReleased.toOldChain.low cluster inOld
            · exact (Volume.mem_free.mp (free inNew)).1
          mine := by
            intro cluster member other reach different
            refine isReleased.toOldChain.mine isOpened.wellFormed ?_ reach
              different
            rcases List.mem_append.mp member with inOld | inNew
            · exact Or.inl inOld
            · exact isReleased.free_cases (free inNew)
          regular := regular
          entry := by
            refine Or.inr ⟨?_, Or.inr ⟨replaced.entryIs.name,
              replaced.not_dir⟩⟩
            intro zero
            apply nonzero
            rw [← replaced.entryIs.name, direntName_head, zero] }

end AnyWrite

end LoafOs
