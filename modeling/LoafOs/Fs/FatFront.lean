import LoafOs.Fs.FatRun

/-!
# The sectors in front of the table

No call of the driver writes to the reserved sectors, so the boot sector
stays as it is.
-/

namespace LoafOs

/-- Nothing in front of the table has changed. -/
structure FrontKept (volume volume' : Volume) : Prop where
  bpb : volume'.bpb = volume.bpb
  sound : volume'.disk.Sound
  front : ∀ address < 512 * volume.bpb.fatStart,
    volume'.mem address = volume.mem address

section Steps

variable {volume volume' volume'' : Volume} {cluster code : Nat}

theorem FrontKept.refl (sound : volume.disk.Sound) :
    FrontKept volume volume :=
  ⟨rfl, sound, fun _ _ => rfl⟩

theorem FrontKept.trans (first : FrontKept volume volume')
    (second : FrontKept volume' volume'') : FrontKept volume volume'' where
  bpb := second.bpb.trans first.bpb
  sound := second.sound
  front := fun address before =>
    (second.front address (by rwa [first.bpb])).trans
      (first.front address before)

theorem FrontKept.geometry (kept : FrontKept volume volume')
    (geometry : Geometry volume.bpb) : Geometry volume'.bpb := by
  rwa [kept.bpb]

/-- A change of `fat_buf` only. -/
theorem FrontKept.of_disk (sound : volume.disk.Sound)
    (bpb : volume'.bpb = volume.bpb) (disk : volume'.disk = volume.disk) :
    FrontKept volume volume' where
  bpb := bpb
  sound := by rwa [disk]
  front := fun address _ => by rw [Volume.mem, disk, Volume.mem]

theorem FrontKept.setEntry (sound : volume.disk.Sound)
    (cluster value : Nat) :
    FrontKept volume (volume.setEntry cluster value) :=
  .of_disk sound rfl rfl

theorem Volume.freeChain_front (sound : volume.disk.Sound)
    (result : volume.freeChain cluster = some volume') :
    FrontKept volume volume' := by
  rw [Volume.freeChain] at result
  obtain ⟨fatBuf, _, made⟩ :=
    Option.bind_eq_some_iff.mp result
  cases made
  exact .of_disk sound rfl rfl

theorem freeFrom_front (sound : volume.disk.Sound)
    (result : freeFrom volume cluster = some volume') :
    FrontKept volume volume' := by
  rw [freeFrom] at result
  split at result
  · exact Volume.freeChain_front sound result
  · cases result
    exact .refl sound

theorem fatAllocCluster_front (sound : volume.disk.Sound)
    (geometry : Geometry volume.bpb)
    (result : fatAllocCluster volume = some (cluster, volume')) :
    FrontKept volume volume' ∧ (cluster ≠ 0 → 2 ≤ cluster) ∧
      cluster < 65536 := by
  have few := geometry.totalClusters_le
  cases free : volume.free with
  | nil =>
      rw [fatAllocCluster_none geometry free] at result
      cases result
      exact ⟨.refl sound, fun nonzero => absurd rfl nonzero, by decide⟩
  | cons found rest =>
      rw [fatAllocCluster_some geometry free] at result
      cases result
      obtain ⟨low, high, _⟩ := Volume.mem_free.mp
        (free ▸ List.mem_cons_self : cluster ∈ volume.free)
      exact ⟨.setEntry sound _ _, fun _ => low, by omega⟩

/-- A transfer to sectors behind the reserved ones. -/
theorem Volume.write_front (sound : volume.disk.Sound) {lba count : Nat}
    {buffer : Bytes} (behind : volume.bpb.fatStart ≤ lba)
    (inside : lba + count ≤ lbaLimit)
    (result : volume.write lba count buffer = (code, volume')) :
    FrontKept volume volume' := by
  obtain ⟨written, writeEq, bpb, _, sound', mem⟩ :=
    Volume.write_eq sound lba inside buffer
  rw [result] at writeEq
  cases writeEq
  refine ⟨bpb, sound', fun address before => ?_⟩
  rw [mem, Bytes.copy_outside (by omega)]

/-- Every number of a cluster that a chain can hold lies on the disk. -/
theorem Geometry.cluster_onDisk {bpb : Bpb} (geometry : Geometry bpb)
    (low : 2 ≤ cluster) (small : cluster < 65536) :
    bpb.fatStart ≤ bpb.clusterLba cluster ∧
      bpb.clusterLba cluster + bpb.perCluster ≤ lbaLimit := by
  have reserved := bpb.reservedSectors.toNat_lt
  have copies := bpb.fatCount.toNat_lt
  have entries := bpb.rootEntryCount.toNat_lt
  have perCluster : bpb.perCluster < 256 := bpb.sectorsPerCluster.toNat_lt
  have tables : bpb.fatCount.toNat * bpb.perFat ≤ 255 * 9 :=
    Nat.mul_le_mul (by omega) geometry.perFat_le
  have clusters : (cluster - 2) * bpb.perCluster ≤ 65533 * 255 :=
    Nat.mul_le_mul (by omega) (by omega)
  have wrap : u32 (cluster + 2 ^ 32 - 2) = cluster - 2 := by
    rw [u32]
    omega
  rw [Bpb.clusterLba, wrap]
  simp only [Bpb.dataStart, Bpb.rootStart, Bpb.rootSectors, u32, lbaLimit]
  have reserved' : bpb.fatStart = bpb.reservedSectors.toNat := rfl
  omega

theorem Volume.writeCluster_front (sound : volume.disk.Sound)
    (geometry : Geometry volume.bpb) (low : 2 ≤ cluster)
    (small : cluster < 65536) {buffer : Bytes}
    (result : volume.write (volume.bpb.clusterLba cluster)
      volume.bpb.perCluster buffer = (code, volume')) :
    FrontKept volume volume' := by
  obtain ⟨behind, inside⟩ := geometry.cluster_onDisk low small
  exact Volume.write_front sound behind inside result

theorem fatFlush_front (sound : volume.disk.Sound)
    (geometry : Geometry volume.bpb)
    (result : fatFlush volume = (code, volume')) :
    FrontKept volume volume' := by
  obtain ⟨flushed, flushEq, bpb, _, sound', _, outside⟩ :=
    fatFlush_eq geometry sound
  rw [result] at flushEq
  cases flushEq
  exact ⟨bpb, sound', fun address before => outside address (.inl before)⟩

/-- A slot whose sector lies behind the reserved ones. -/
structure DirSlot.OnVolume (slot : DirSlot) (bpb : Bpb) : Prop where
  behind : bpb.fatStart ≤ slot.sector
  inside : slot.sector < lbaLimit

theorem updateSlot_front (sound : volume.disk.Sound) {slot : DirSlot}
    (onVolume : slot.OnVolume volume.bpb) {change : Bytes → Bytes}
    (result : updateSlot volume slot change = (code, volume')) :
    FrontKept volume volume' := by
  rw [updateSlot] at result
  cases read : readLba volume.disk slot.sector 1 scratch with
  | none =>
      rw [read] at result
      cases result
      exact .refl sound
  | some sectorBuf =>
      rw [read] at result
      exact Volume.write_front sound onVolume.behind onVolume.inside result

end Steps

/-! ## The parts of the calls -/

section Parts

variable {volume volume' : Volume} {code : Nat} {slot slot' : DirSlot}

theorem dirGrow_front (sound : volume.disk.Sound)
    (geometry : Geometry volume.bpb) {cluster : Nat}
    (result : dirGrow volume cluster slot = some (code, slot', volume')) :
    FrontKept volume volume' := by
  rw [dirGrow] at result
  obtain ⟨⟨newc, taken⟩, alloc, result⟩ :=
    Option.bind_eq_some_iff.mp result
  obtain ⟨kept, low, small⟩ := fatAllocCluster_front sound geometry alloc
  dsimp only at result
  split at result
  · cases result
    exact kept
  next nonzero =>
    have kept := kept.trans (.setEntry kept.sound cluster newc)
    generalize isWritten : Volume.write (taken.setEntry cluster newc) _ _ _ =
      step at result
    obtain ⟨failed, written⟩ := step
    have kept := kept.trans (Volume.writeCluster_front kept.sound
      (kept.geometry geometry) (low nonzero) small isWritten)
    dsimp only at result
    split at result
    · cases result
      exact kept
    generalize isFlushed : fatFlush written = step at result
    obtain ⟨failed', flushed⟩ := step
    have kept := kept.trans (fatFlush_front kept.sound
      (kept.geometry geometry) isFlushed)
    dsimp only at result
    split at result
    all_goals
      cases result
      exact kept

theorem dirLookupChain_front (sound : volume.disk.Sound)
    (geometry : Geometry volume.bpb) {target : List UInt8}
    {create : Bool} :
    ∀ {fuel cluster : Nat} {freeSlot : Option DirSlot},
      dirLookupChain volume target slot create fuel cluster freeSlot =
        some (code, slot', volume') → FrontKept volume volume'
  | 0, _, _, result => by cases result
  | fuel + 1, cluster, freeSlot, result => by
      rw [dirLookupChain] at result
      split at result
      · cases result
        exact .refl sound
      · cases result
        exact .refl sound
      dsimp only at result
      split at result
      · exact dirLookupChain_front sound geometry result
      split at result
      · cases result
        exact .refl sound
      split at result
      · exact dirGrow_front sound geometry result
      · cases result
        exact .refl sound

theorem dirLookup_front (sound : volume.disk.Sound)
    (geometry : Geometry volume.bpb) {target : List UInt8} {cur : Nat}
    {create : Bool}
    (result : dirLookup volume cur target slot create =
      some (code, slot', volume')) : FrontKept volume volume' := by
  rw [dirLookup] at result
  split at result
  case isTrue =>
    split at result
    all_goals
      cases result
      exact .refl sound
  case isFalse => exact dirLookupChain_front sound geometry result

theorem openTarget_front (sound : volume.disk.Sound)
    (geometry : Geometry volume.bpb) {path : CString} {rootCode cur : Nat}
    {create : Bool} {target : List UInt8}
    (result : openTarget volume path rootCode slot create =
      some (.ok (target, cur, code, slot', volume'))) :
    FrontKept volume volume' := by
  rw [openTarget] at result
  obtain ⟨resolved, _, result⟩ :=
    Option.bind_eq_some_iff.mp result
  split at result
  · cases result
  split at result
  · cases result
  obtain ⟨⟨r, found, opened⟩, lookup, result⟩ :=
    Option.bind_eq_some_iff.mp result
  cases result
  exact dirLookup_front sound geometry lookup

/-- The end of a call: the table is written, then the entry. -/
theorem flushUpdate_front (sound : volume.disk.Sound)
    (geometry : Geometry volume.bpb) (onVolume : slot.OnVolume volume.bpb)
    {change : Bytes → Bytes}
    (result : (let (failed, flushed) := fatFlush volume
      if failed ≠ 0 then some (1, flushed)
      else some (updateSlot flushed slot change)) = some (code, volume')) :
    FrontKept volume volume' := by
  generalize isFlushed : fatFlush volume = step at result
  obtain ⟨failed, flushed⟩ := step
  have kept := fatFlush_front sound geometry isFlushed
  dsimp only at result
  split at result
  · cases result
    exact kept
  · rw [Option.some.injEq] at result
    refine kept.trans (updateSlot_front kept.sound ?_ result)
    rwa [kept.bpb]

theorem releaseOld_front (sound : volume.disk.Sound)
    (result : releaseOld volume slot = some (code, volume')) :
    FrontKept volume volume' := by
  rw [releaseOld] at result
  split at result
  · split at result
    · cases result
      exact .refl sound
    · obtain ⟨freed, isFreed, made⟩ :=
        Option.bind_eq_some_iff.mp result
      cases made
      exact freeFrom_front sound isFreed
  · cases result
    exact .refl sound

theorem writeChain_front {data : Bytes} :
    ∀ {fuel first prev pos remaining first' prev' : Nat} {volume : Volume},
      volume.disk.Sound → Geometry volume.bpb →
      writeChain data fuel first prev pos remaining volume =
        some (code, first', prev', volume') → FrontKept volume volume'
  | 0, _, _, _, _, _, _, _, _, _, result => by cases result
  | fuel + 1, first, prev, pos, remaining, _, _, volume, sound, geometry,
      result => by
      rw [writeChain] at result
      split at result
      · cases result
        exact .refl sound
      obtain ⟨⟨c, taken⟩, alloc, result⟩ :=
        Option.bind_eq_some_iff.mp result
      obtain ⟨kept, low, small⟩ :=
        fatAllocCluster_front sound geometry alloc
      dsimp only at result
      split at result
      · split at result
        · cases result
          exact kept
        · obtain ⟨freed, isFreed, made⟩ :=
            Option.bind_eq_some_iff.mp result
          cases made
          exact kept.trans (Volume.freeChain_front kept.sound isFreed)
      next nonzero =>
        have kept : FrontKept volume
            (if prev = 0 then taken else taken.setEntry prev c) := by
          split
          · exact kept
          · exact kept.trans (.setEntry kept.sound prev c)
        generalize (if prev = 0 then taken else taken.setEntry prev c) =
          linked at kept result
        generalize isWritten : Volume.write linked _ _ _ = step at result
        obtain ⟨failed, written⟩ := step
        have kept := kept.trans (Volume.writeCluster_front kept.sound
          (kept.geometry geometry) (low nonzero) small isWritten)
        dsimp only at result
        split at result
        · cases result
          exact kept
        · exact kept.trans
            (writeChain_front kept.sound (kept.geometry geometry) result)

theorem replaceFile_front (sound : volume.disk.Sound)
    (geometry : Geometry volume.bpb) (onVolume : slot.OnVolume volume.bpb)
    {target : List UInt8} {data : Bytes} {size : Nat}
    (result : replaceFile volume slot target data size =
      some (code, volume')) : FrontKept volume volume' := by
  rw [replaceFile] at result
  obtain ⟨⟨failed, released⟩, isReleased, result⟩ :=
    Option.bind_eq_some_iff.mp result
  have kept := releaseOld_front sound isReleased
  dsimp only at result
  split at result
  · cases result
    exact kept
  obtain ⟨⟨code', first, prev, chained⟩, isChained, result⟩ :=
    Option.bind_eq_some_iff.mp result
  have kept := kept.trans
    (writeChain_front kept.sound (kept.geometry geometry) isChained)
  dsimp only at result
  split at result
  · cases result
    exact kept
  have kept : FrontKept volume
      (if prev = 0 then chained else chained.setEntry prev fatEocMark) := by
    split
    · exact kept
    · exact kept.trans (.setEntry kept.sound _ _)
  refine kept.trans (flushUpdate_front kept.sound (kept.geometry geometry)
    ?_ result)
  rwa [kept.bpb]

theorem deleteEntry_front (sound : volume.disk.Sound)
    (geometry : Geometry volume.bpb) (onVolume : slot.OnVolume volume.bpb)
    (result : deleteEntry volume slot = some (code, volume')) :
    FrontKept volume volume' := by
  rw [deleteEntry] at result
  split at result
  · cases result
    exact .refl sound
  next sectorBuf _ =>
    split at result
    · cases result
      exact .refl sound
    obtain ⟨freed, isFreed, result⟩ := Option.bind_eq_some_iff.mp result
    have kept := freeFrom_front sound isFreed
    generalize isWritten : Volume.write freed _ _ _ = step at result
    obtain ⟨failed, written⟩ := step
    have behind := onVolume.behind
    rw [← kept.bpb] at behind
    have kept := kept.trans
      (Volume.write_front kept.sound behind onVolume.inside isWritten)
    dsimp only at result
    split at result
    · cases result
      exact kept
    · exact kept.trans (fatFlush_front kept.sound (kept.geometry geometry)
        (Option.some.inj result))

theorem makeDirectory_front (sound : volume.disk.Sound)
    (geometry : Geometry volume.bpb) (onVolume : slot.OnVolume volume.bpb)
    {target : List UInt8} {parentCluster : Nat}
    (result : makeDirectory volume slot target parentCluster =
      some (code, volume')) : FrontKept volume volume' := by
  rw [makeDirectory] at result
  obtain ⟨⟨newc, taken⟩, alloc, result⟩ :=
    Option.bind_eq_some_iff.mp result
  obtain ⟨kept, low, small⟩ := fatAllocCluster_front sound geometry alloc
  dsimp only at result
  split at result
  · cases result
    exact kept
  next nonzero =>
    have kept := kept.trans (.setEntry kept.sound newc fatEocMark)
    generalize isWritten :
      Volume.write (taken.setEntry newc fatEocMark) _ _ _ = step at result
    obtain ⟨failed, written⟩ := step
    have kept := kept.trans (Volume.writeCluster_front kept.sound
      (kept.geometry geometry) (low nonzero) small isWritten)
    dsimp only at result
    split at result
    · cases result
      exact kept
    · refine kept.trans (flushUpdate_front kept.sound
        (kept.geometry geometry) ?_ result)
      rwa [kept.bpb]

theorem removeDirectory_front (sound : volume.disk.Sound)
    (geometry : Geometry volume.bpb) (onVolume : slot.OnVolume volume.bpb)
    (result : removeDirectory volume slot = some (code, volume')) :
    FrontKept volume volume' := by
  rw [removeDirectory] at result
  split at result
  · cases result
    exact .refl sound
  next sectorBuf _ =>
    split at result
    · cases result
      exact .refl sound
    dsimp only at result
    split at result
    · cases result
      exact .refl sound
    obtain ⟨empty, _, result⟩ := Option.bind_eq_some_iff.mp result
    split at result
    · cases result
      exact .refl sound
    split at result
    · cases result
      exact .refl sound
    obtain ⟨freed, isFreed, result⟩ := Option.bind_eq_some_iff.mp result
    have kept := Volume.freeChain_front sound isFreed
    refine kept.trans (flushUpdate_front kept.sound
      (kept.geometry geometry) ?_ result)
    rwa [kept.bpb]

end Parts

/-! ## The calls -/

section Calls

variable {volume volume' : Volume} {path : CString} {code : Nat}

theorem Opened.onVolume {cur entry : Nat} {target : List UInt8}
    {existing : Bool} (isOpened : Opened volume cur target entry existing) :
    (slotAt entry existing).OnVolume volume.bpb := by
  have inTree := isOpened.treeSlot
  have behind := inTree.behind
  have inside := (inTree.onDisk isOpened.wellFormed.readable).inside
  have order : volume.bpb.fatStart ≤ volume.bpb.rootStart :=
    Nat.le_add_right _ _
  refine ⟨?_, ?_⟩
  · change volume.bpb.fatStart ≤ entry / 512
    omega
  · change entry / 512 < lbaLimit
    omega

/-- `fat_write_at` changes nothing but clusters of the volume before it
writes the table. -/
theorem spliceFile_front {cur entry : Nat} {target : List UInt8}
    {existing : Bool} (isOpened : Opened volume cur target entry existing)
    (width : target.length = 11) {offset len : Nat} (positive : 1 ≤ len)
    (bound : offset + len ≤ 2 ^ 32) {data : Bytes}
    (result : spliceFile volume (slotAt entry existing) target offset data
      len = some (code, volume')) : FrontKept volume volume' := by
  obtain ⟨old, oldChain⟩ := isOpened.oldChain
  obtain ⟨ent, attr, first, size, loadEq, loaded⟩ :=
    loadEntry_eq isOpened width
  have kept {written : Volume} {old taken nodes : List Nat} {count : Nat}
      (building : Building volume written old taken)
      (spliced : Spliced volume.bpb volume.mem written.mem nodes offset
        count data) : FrontKept volume written :=
    ⟨building.bpb, building.sound, fun address before =>
      spliced.outside address fun inside => by
        have behind := inside.behind
        rw [Bpb.rootStart] at behind
        omega⟩
  rcases spliceFile_loops isOpened oldChain loadEq loaded positive bound
      data with
    ⟨written, taken, building, _, spliced, ends⟩ |
      ⟨full, ends, exhausted, spliced⟩
  · have keptWritten := kept building spliced
    rw [result] at ends
    refine keptWritten.trans (flushUpdate_front keptWritten.sound
      (keptWritten.geometry isOpened.wellFormed.geometry) ?_ ends.symm)
    rw [keptWritten.bpb]
    exact isOpened.onVolume
  · rw [result] at ends
    cases ends
    exact kept exhausted.building spliced

theorem fatWriteFile_front (wellFormed : WellFormed volume)
    (sound : volume.disk.Sound) (lookup : ¬ LookupFull volume path)
    {slot : DirSlot} {data : Bytes} {size : Nat}
    (result : fatWriteFile volume slot path data size =
      some (code, volume')) : FrontKept volume volume' := by
  have geometry := wellFormed.geometry
  rcases openTarget_opened wellFormed sound lookup 4 slot with
    ⟨_, _, stopped⟩ | ⟨_, _, _, full⟩ |
      ⟨cur, slots, name, entry, existing, opened, _, _, ok, isOpened, _⟩
  · rw [fatWriteFile, stopped] at result
    cases result
    exact .refl sound
  · rw [fatWriteFile_opened full] at result
    cases result
    exact .refl sound
  · rw [fatWriteFile_opened ok, if_neg (by decide), if_neg (by decide)]
      at result
    have kept := openTarget_front sound geometry ok
    exact kept.trans (replaceFile_front kept.sound (kept.geometry geometry)
      isOpened.onVolume result)

theorem fatWriteAt_front (wellFormed : WellFormed volume)
    (sound : volume.disk.Sound) (lookup : ¬ LookupFull volume path)
    {slot : DirSlot} {offset len : Nat} (bound : offset + len < 2 ^ 32)
    {data : Bytes}
    (result : fatWriteAt volume slot path offset data len =
      some (code, volume')) : FrontKept volume volume' := by
  by_cases none : len = 0
  · rw [fatWriteAt, if_pos none] at result
    cases result
    exact .refl sound
  have positive := Nat.pos_of_ne_zero none
  rcases openTarget_opened wellFormed sound lookup 4 slot with
    ⟨_, _, stopped⟩ | ⟨_, _, _, full⟩ |
      ⟨cur, slots, name, entry, existing, opened, _, _, ok, isOpened, _⟩
  · rw [fatWriteAt, if_neg none, stopped] at result
    cases result
    exact .refl sound
  · rw [fatWriteAt_opened full positive] at result
    cases result
    exact .refl sound
  · rw [fatWriteAt_opened ok positive, if_neg (by decide),
      if_neg (by decide)] at result
    exact (openTarget_front sound wellFormed.geometry ok).trans
      (spliceFile_front isOpened (length_toFatName name) positive
        (Nat.le_of_lt bound) result)

theorem fatDeleteFile_front (wellFormed : WellFormed volume)
    (sound : volume.disk.Sound)
    (result : fatDeleteFile volume path = some (code, volume')) :
    FrontKept volume volume' := by
  rcases openTarget_find wellFormed sound path 4 .unset with
    ⟨_, _, stopped⟩ | ⟨cur, slots, name, r, slot', located, ok, outcome⟩
  · rw [fatDeleteFile, stopped] at result
    cases result
    exact .refl sound
  rw [fatDeleteFile_opened ok] at result
  split at result
  · cases result
    exact .refl sound
  split at result
  · cases result
    exact .refl sound
  next present =>
    rcases outcome with
      ⟨rfl, entry, found, rfl⟩ | ⟨rfl, missing⟩ | rfl
    · exact deleteEntry_front sound wellFormed.geometry
        (located.opened wellFormed sound found).onVolume result
    · exact absurd (.inr (by rw [missing]; decide)) present
    · exact absurd (.inl rfl) present

theorem fatMkdir_front (wellFormed : WellFormed volume)
    (sound : volume.disk.Sound)
    (result : fatMkdir volume path = some (code, volume')) :
    FrontKept volume volume' := by
  have geometry := wellFormed.geometry
  rcases openTarget_create wellFormed sound path 5 .unset with
    ⟨_, _, stopped⟩ | ⟨cur, slots, name, r, slot', opened, located, created,
      _, ok⟩
  · rw [fatMkdir, stopped] at result
    cases result
    exact .refl sound
  have kept := openTarget_front sound geometry ok
  rw [fatMkdir_opened ok] at result
  split at result
  · cases result
    exact kept
  next noError =>
    split at result
    · cases result
      exact kept
    next noRoom =>
      split at result
      · cases result
        exact kept
      cases r with
      | zero =>
          obtain ⟨entry, existing, rfl, isOpened, _⟩ :=
            created.opened wellFormed sound located.dirSlots
              (toFatName_head name)
          exact kept.trans (makeDirectory_front kept.sound
            (kept.geometry geometry) isOpened.onVolume result)
      | succ r =>
          cases created with
          | rootFull _ _ _ => exact absurd (.inl rfl) noRoom
          | noCluster _ _ _ _ => exact absurd (.inr rfl) noRoom

theorem fatRmdir_front (wellFormed : WellFormed volume)
    (sound : volume.disk.Sound)
    (result : fatRmdir volume path = some (code, volume')) :
    FrontKept volume volume' := by
  rcases openTarget_find wellFormed sound path 6 .unset with
    ⟨_, _, stopped⟩ | ⟨cur, slots, name, r, slot', located, ok, outcome⟩
  · rw [fatRmdir, stopped] at result
    cases result
    exact .refl sound
  rw [fatRmdir_opened ok] at result
  split at result
  · cases result
    exact .refl sound
  split at result
  · cases result
    exact .refl sound
  next present =>
    rcases outcome with
      ⟨rfl, entry, found, rfl⟩ | ⟨rfl, missing⟩ | rfl
    · exact removeDirectory_front sound wellFormed.geometry
        (located.opened wellFormed sound found).onVolume result
    · exact absurd (.inr (.inr (by rw [missing]; decide))) present
    · exact absurd (.inl rfl) present

/-- A call leaves the front as it is, unless the slot of its lookup is not
set or the number of its last byte wraps. -/
theorem FatCall.front {call : FatCall} {slot : DirSlot}
    (wellFormed : WellFormed volume) (sound : volume.disk.Sound)
    (inRange : call.InRange)
    (lookup : call.Writes → ¬ LookupFull volume call.path)
    (result : call.run volume slot = some (code, volume')) :
    FrontKept volume volume' := by
  cases call with
  | writeFile path data size =>
      exact fatWriteFile_front wellFormed sound (lookup trivial) result
  | writeAt path offset data len =>
      exact fatWriteAt_front wellFormed sound (lookup trivial) inRange
        result
  | deleteFile path => exact fatDeleteFile_front wellFormed sound result
  | mkdir path => exact fatMkdir_front wellFormed sound result
  | rmdir path => exact fatRmdir_front wellFormed sound result

end Calls

end LoafOs
