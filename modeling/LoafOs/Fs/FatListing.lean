import LoafOs.Fs.DirectoryCalls
import LoafOs.Lib.Cursors

/-!
# What calls change in a listing

The entries that `fat_readdir` lists in a directory, before and after a call
on some path.  A call changes at most one of the slots: it gives the first
vacant slot to a new name, or empties the slot of an old one.
-/

namespace LoafOs

open Cursors

/-- `fat_readdir` lists the entry of the slot. -/
def listedAt (volume : Volume) (cluster slot : Nat) : Bool :=
  !(if cluster = 0 then skippedInRoot else skippedInChain) volume.mem slot

/-- The call gives the slot to a new name in the directory. -/
def Creates (volume : Volume) (path : CString) (slots : List Nat)
    (entry : Nat) : Prop :=
  ∃ cur raw, resolvePath volume path = some ⟨0, false, cur, raw⟩ ∧
    DirSlots volume cur slots ∧
    (∀ other, ¬ Finds volume.mem raw slots other) ∧
    FirstVacant volume.mem slots entry

/-- The call empties the slot of a file. -/
def Deletes (volume : Volume) (path : CString) (entry : Nat) : Prop :=
  Names volume path entry ∧ ¬ IsDir volume.mem entry

/-- The listing of a directory before and after a call. -/
inductive SlotsEdit (volume : Volume) (cluster : Nat) (slots : List Nat)
    (creates removes : Nat → Prop) (volume' : Volume) : Prop
  | kept {more : List Nat}
      (dirSlots : DirSlots volume' cluster (slots ++ more))
      (same : ∀ slot ∈ slots,
        listedAt volume' cluster slot = listedAt volume cluster slot)
  | created {entry : Nat} (creates : creates entry)
      (dirSlots : DirSlots volume' cluster slots)
      (others : ∀ slot ∈ slots, slot ≠ entry →
        listedAt volume' cluster slot = listedAt volume cluster slot)
  | removed {entry : Nat} (removes : removes entry)
      (dirSlots : DirSlots volume' cluster slots)
      (others : ∀ slot ∈ slots, slot ≠ entry →
        listedAt volume' cluster slot = listedAt volume cluster slot)
      (gone : listedAt volume' cluster entry = false)

section Edits

variable {volume volume' opened : Volume} {path : CString}
  {cluster cur entry size code : Nat} {slots slotsOf old new : List Nat}
  {raw : List UInt8} {slot : DirSlot} {existing : Bool}
  {creates removes : Nat → Prop}

theorem listedIn_eq :
    listedIn volume cluster slots =
      slots.filter (listedAt volume cluster) := rfl

theorem SameEntry.listedAt {here : Nat}
    (same : SameEntry volume'.mem here volume.mem here) :
    listedAt volume' cluster here = LoafOs.listedAt volume cluster here := by
  rw [LoafOs.listedAt, LoafOs.listedAt]
  split
  case isTrue => rw [skippedInRoot_reads _ _ _ _ same]
  case isFalse => rw [skippedInChain_reads _ _ _ _ same]

theorem skippedInRoot_iff {mem : Bytes} {here : Nat} :
    skippedInRoot mem here = false ↔ Listed mem here := by
  simp only [skippedInRoot, Listed, Bool.or_eq_false_iff,
    decide_eq_false_iff_not, not_not]
  tauto

theorem listedAt_of_live {here : Nat} (live : Live volume.mem here) :
    listedAt volume cluster here = true := by
  rw [listedAt]
  split
  case isTrue => rw [skippedInRoot_iff.mpr live.1, Bool.not_false]
  case isFalse => rw [skippedInChain_iff.mpr live, Bool.not_false]

theorem listedAt_of_not_listed {here : Nat}
    (absent : ¬ Listed volume.mem here) :
    listedAt volume cluster here = false := by
  rw [← Bool.not_eq_true, listedAt]
  intro isListed
  rw [Bool.not_eq_true'] at isListed
  split at isListed
  case isTrue => exact absent (skippedInRoot_iff.mp isListed)
  case isFalse => exact absent (skippedInChain_iff.mp isListed).1

/-! ## The slots of a directory -/

theorem slotsFrom_nodup (base count : Nat) : (slotsFrom base count).Nodup :=
  List.Nodup.map (fun left right same => by omega) List.nodup_range

theorem DirSlots.nodup (dirSlots : DirSlots volume cluster slots) :
    slots.Nodup := by
  cases dirSlots with
  | root => exact slotsFrom_nodup _ _
  | @sub dir clusters reach isDir chain =>
      refine List.nodup_flatMap.mpr
        ⟨fun owned _ => slotsFrom_nodup _ _, ?_⟩
      refine (List.pairwise_iff_getElem.mpr
        fun left right leftBound rightBound less => ?_)
      have different := List.pairwise_iff_getElem.mp chain.path.nodup left
        right leftBound rightBound less
      have apart := clusterAddr_apart volume.bpb
        (chain.low _ (List.getElem_mem leftBound))
        (chain.low _ (List.getElem_mem rightBound)) different
      intro slot inLeft inRight
      have bounds := clusterSlot_bounds inLeft
      have bounds' := clusterSlot_bounds inRight
      omega

/-- A directory has fewer slots than a handle can count. -/
theorem DirSlots.length_lt (geometry : Geometry volume.bpb)
    (dirSlots : DirSlots volume cluster slots) :
    slots.length < 2 ^ 30 := by
  cases dirSlots with
  | root =>
      have inside := geometry.rootSectors_inside
      rw [Bpb.dataStart, lbaLimit] at inside
      rw [rootSlots, slotsFrom, List.length_map, List.length_range]
      omega
  | @sub dir clusters reach isDir chain =>
      have few := chain_length_small chain.path
      have small : volume.bpb.perCluster < 2 ^ 8 :=
        volume.bpb.sectorsPerCluster.toNat_lt
      have each : ∀ owned, (clusterSlots volume.bpb owned).length =
          16 * volume.bpb.perCluster := fun owned => by
        rw [clusterSlots, slotsFrom, List.length_map, List.length_range]
      rw [List.length_flatMap]
      simp only [each, List.map_const', List.sum_replicate_nat]
      calc clusters.length * (16 * volume.bpb.perCluster)
          ≤ 0x0ff8 * (16 * 2 ^ 8) :=
            Nat.mul_le_mul few (by omega)
        _ < 2 ^ 30 := by decide

/-- What is in front of a listing stays in front, unless the call creates
before it or removes from it. -/
theorem SlotsEdit.inFront {front : List Nat}
    (edit : SlotsEdit volume cluster slots creates removes volume')
    (inFront : front <+: listedIn volume cluster slots)
    (later : ∀ entry, creates entry → front.length ≤
      (before (listedAt volume cluster) entry slots).length)
    (outside : ∀ entry, removes entry → entry ∉ front) :
    ∃ slots', DirSlots volume' cluster slots' ∧
      front <+: listedIn volume' cluster slots' := by
  rw [listedIn_eq] at inFront
  cases edit with
  | @kept more dirSlots same =>
      refine ⟨slots ++ more, dirSlots, ?_⟩
      rw [listedIn_eq, List.filter_append, List.filter_congr same]
      exact inFront.trans (List.prefix_append _ _)
  | created isCreated dirSlots others =>
      exact ⟨slots, dirSlots,
        prefix_of_before inFront others (later _ isCreated)⟩
  | removed isRemoved dirSlots others gone =>
      exact ⟨slots, dirSlots,
        prefix_of_removed inFront others gone (outside _ isRemoved)⟩

/-! ## The steps of a call -/

theorem DirectoriesKept.dirSlots
    (kept : DirectoriesKept volume volume') (bpb : volume'.bpb = volume.bpb)
    (dirSlots : DirSlots volume cluster slots) :
    ∃ more, DirSlots volume' cluster (slots ++ more) := by
  cases dirSlots with
  | root =>
      refine ⟨[], ?_⟩
      rw [List.append_nil, ← bpb]
      exact .root
  | @sub dir clusters reach isDir chain =>
      obtain ⟨reach', same, more, chain'⟩ :=
        kept dir clusters reach isDir chain
      have dirSlots' :=
        DirSlots.sub reach' (same.isDir_iff.mpr isDir) chain'
      rw [same.first, bpb, List.flatMap_append] at dirSlots'
      exact ⟨_, dirSlots'⟩

/-- A free cluster holds no slot of a directory. -/
theorem fresh_slot_not_mem (wellFormed : WellFormed volume) {fresh : Nat}
    (isFree : fresh ∈ volume.free)
    (dirSlots : DirSlots volume cluster slots) :
    volume.bpb.clusterAddr fresh ∉ slots := by
  obtain ⟨low, high, unused⟩ := Volume.mem_free.mp isFree
  have inFresh : volume.bpb.clusterAddr fresh ∈
      clusterSlots volume.bpb fresh := by
    have positive := wellFormed.geometry.perCluster_pos
    exact mem_slotsFrom.mpr ⟨0, by omega, rfl⟩
  intro member
  cases dirSlots with
  | root => exact rootSlot_apart member inFresh
  | @sub dir clusters reach isDir chain =>
      obtain ⟨owner, owned, inOwner⟩ := List.mem_flatMap.mp member
      have bounds := clusterSlot_bounds inFresh
      have bounds' := clusterSlot_bounds inOwner
      have same : owner = fresh := by
        by_contra different
        have apart := clusterAddr_apart volume.bpb (chain.low owner owned) low
          different
        omega
      exact wellFormed.free_not_owned reach unused
        (chain.owns_iff.mpr (same ▸ owned))

/-- The lookup of a call only adds vacant slots. -/
theorem CreateResult.entries (wellFormed : WellFormed volume)
    (created : CreateResult volume cur raw slotsOf slot 0
      (slotAt entry existing) opened)
    (dirSlots : DirSlots volume cluster slots) :
    (∃ more, DirSlots opened cluster (slots ++ more)) ∧
      ∀ here ∈ slots, SameEntry opened.mem here volume.mem here := by
  have kept := created.directoriesKept wellFormed
  generalize slotAt entry existing = slot' at created
  cases created with
  | found _ => exact ⟨kept.dirSlots rfl dirSlots,
      fun _ _ _ _ => rfl⟩
  | vacant _ _ => exact ⟨kept.dirSlots rfl dirSlots,
      fun _ _ _ _ => rfl⟩
  | @grown opened dir fresh clusters rest absent full reach isDir chain
      nonempty first free grown =>
      have isFree : fresh ∈ volume.free := by
        rw [free]
        exact List.mem_cons_self
      obtain ⟨same, change⟩ :=
        grown.entryChange wellFormed reach isDir chain nonempty isFree
      refine ⟨kept.dirSlots grown.kept.bpb dirSlots,
        fun here member => ?_⟩
      by_cases itself : here = dir
      · rw [itself]
        exact same
      · exact change.entries here (dirSlots.treeSlot member) itself

/-- A change of one entry leaves the slots of the other directories. -/
theorem Edited.entries
    (edited : Edited opened volume' entry old new)
    (isOpened : Opened opened cur raw entry existing)
    (dirSlots : DirSlots opened cluster slots)
    (other : Reach opened entry → IsDir opened.mem entry →
      direntFirst opened.mem entry ≠ cluster) :
    DirSlots volume' cluster slots ∧
      ∀ here ∈ slots, here ≠ entry →
        SameEntry volume'.mem here opened.mem here := by
  have change := edited.entryChange isOpened.wellFormed isOpened.treeSlot
  refine ⟨?_, fun here member different =>
    change.entries here (dirSlots.treeSlot member) different⟩
  cases dirSlots with
  | root =>
      rw [← change.bpb]
      exact .root
  | @sub dir clusters reach isDir chain =>
      have different : dir ≠ entry := by
        rintro rfl
        exact other reach isDir rfl
      have same := change.entries dir reach.treeSlot different
      have dirSlots' := DirSlots.sub
        ((change.reach_iff isOpened.wellFormed dir).mpr
          (.inr ⟨different, reach⟩)) (same.isDir_iff.mpr isDir)
        (change.chain isOpened.wellFormed reach different chain)
      rw [same.first, change.bpb] at dirSlots'
      exact dirSlots'

/-- A call that stores under a name. -/
theorem CreateResult.edit (wellFormed : WellFormed volume)
    (created : CreateResult volume cur raw slotsOf slot 0
      (slotAt entry existing) opened)
    (isOpened : Opened opened cur raw entry existing)
    (edited : Edited opened volume' entry old new)
    (resolved : resolvePath volume path = some ⟨0, false, cur, raw⟩)
    (aimedAt : DirSlots volume cur slotsOf)
    (regular : Reach opened entry → ¬ IsDir opened.mem entry)
    (live : existing = true → Live volume'.mem entry)
    (dirSlots : DirSlots volume cluster slots) :
    SlotsEdit volume cluster slots (Creates volume path slots)
      (fun _ => False) volume' := by
  obtain ⟨⟨more, dirSlots'⟩, sameBefore⟩ :=
    created.entries wellFormed dirSlots
  obtain ⟨dirSlots'', sameAfter⟩ := edited.entries isOpened dirSlots'
    fun reach isDir => absurd isDir (regular reach)
  have others : ∀ here ∈ slots, here ≠ entry →
      listedAt volume' cluster here = listedAt volume cluster here :=
    fun here member different =>
      (sameAfter here (List.mem_append_left _ member) different).listedAt.trans
        (sameBefore here member).listedAt
  by_cases member : entry ∈ slots
  swap
  · exact .kept dirSlots'' fun here isHere =>
      others here isHere fun same => member (same ▸ isHere)
  have sameEntry := sameBefore entry member
  cases existing with
  | true =>
      have liveBefore := sameEntry.live_iff.mp isOpened.reach.live
      refine .kept dirSlots'' fun here isHere => ?_
      by_cases same : here = entry
      · rw [same, listedAt_of_live (live rfl), listedAt_of_live liveBefore]
      · exact others here isHere same
  | false =>
      obtain ⟨slotsNow, now, inNow, _, vacant⟩ := isOpened.found
      have sameSlots := now.same_of_member isOpened.wellFormed dirSlots'
        inNow (List.mem_append_left _ member)
      generalize slotEq : slotAt entry false = slot' at created
      have address := congrArg DirSlot.address slotEq
      have flag := congrArg DirSlot.existing slotEq
      rw [slotAt_address] at address
      rw [slotAt_existing] at flag
      cases created with
      | found _ => cases flag
      | vacant absent first =>
          rw [slotAt_address] at address
          rw [← address] at first
          have same := aimedAt.same_of_member wellFormed dirSlots
            first.member member
          have none : more = [] := by
            have unique := now.unique aimedAt
            rw [sameSlots, same] at unique
            simpa using unique
          rw [none, List.append_nil] at dirSlots''
          refine .created ⟨cur, raw, resolved, ?_, ?_, ?_⟩ dirSlots'' others
          · rw [← same]
            exact aimedAt
          · rw [← same]
            exact absent
          · rw [← same]
            exact first
      | @grown opened dir fresh clusters rest absent full reach isDir chain
          nonempty first free grown =>
          rw [slotAt_address] at address
          have isFree : fresh ∈ volume.free := by
            rw [free]
            exact List.mem_cons_self
          refine absurd ?_ (fresh_slot_not_mem wellFormed isFree dirSlots)
          rwa [← address]

/-! ## The calls -/

theorem SlotsEdit.unchanged (dirSlots : DirSlots volume cluster slots) :
    SlotsEdit volume cluster slots creates removes volume :=
  @SlotsEdit.kept _ _ _ _ _ _ [] (by rwa [List.append_nil]) fun _ _ => rfl

theorem SlotsEdit.mono {creates' : Nat → Prop}
    (edit : SlotsEdit volume cluster slots creates removes volume')
    (weaker : ∀ entry, creates entry → creates' entry) :
    SlotsEdit volume cluster slots creates' removes volume' := by
  cases edit with
  | kept dirSlots same => exact .kept dirSlots same
  | created isCreated dirSlots others =>
      exact .created (weaker _ isCreated) dirSlots others
  | removed isRemoved dirSlots others gone =>
      exact .removed isRemoved dirSlots others gone

/-- A call that removes the entry of a name. -/
theorem Unlinked.edit (unlinked : Unlinked volume path entry volume')
    (wellFormed : WellFormed volume) (sound : volume.disk.Sound)
    (isRemoved : removes entry)
    (other : IsDir volume.mem entry →
      direntFirst volume.mem entry ≠ cluster)
    (dirSlots : DirSlots volume cluster slots) :
    SlotsEdit volume cluster slots creates removes volume' := by
  obtain ⟨cur, name, slotsOf, resolved, aimedAt, found⟩ := unlinked.names
  obtain ⟨old, edited⟩ := unlinked.edited
  have isOpened : Opened volume cur (toFatName name) entry true :=
    ⟨wellFormed, sound, toFatName_head name, slotsOf, aimedAt, found.member,
      fun _ => found, by simp⟩
  obtain ⟨dirSlots', same⟩ :=
    edited.entries isOpened dirSlots fun _ isDir => other isDir
  have vacant : Vacant volume'.mem entry := .inr unlinked.marked
  exact .removed isRemoved dirSlots'
    (fun here member different => (same here member different).listedAt)
    (listedAt_of_not_listed vacant.not_listed)

theorem fatDeleteFile_edit (wellFormed : WellFormed volume)
    (sound : volume.disk.Sound)
    (result : fatDeleteFile volume path = some (code, volume'))
    (dirSlots : DirSlots volume cluster slots) :
    SlotsEdit volume cluster slots creates (Deletes volume path)
      volume' := by
  obtain ⟨_, _, result', outcome⟩ :=
    fatDeleteFile_outcome wellFormed sound path
  rw [result] at result'
  cases result'
  rcases outcome with ⟨_, rfl⟩ | ⟨_, entry, regular, unlinked⟩
  · exact .unchanged dirSlots
  · exact unlinked.edit wellFormed sound ⟨unlinked.names, regular⟩
      (fun isDir => absurd isDir regular) dirSlots

theorem fatRmdir_edit (wellFormed : WellFormed volume)
    (sound : volume.disk.Sound)
    (result : fatRmdir volume path = some (code, volume'))
    (other : ∀ entry, Removes volume path entry →
      direntFirst volume.mem entry ≠ cluster)
    (dirSlots : DirSlots volume cluster slots) :
    SlotsEdit volume cluster slots creates (Removes volume path)
      volume' := by
  obtain ⟨_, _, result', outcome⟩ := fatRmdir_outcome wellFormed sound path
  rw [result] at result'
  cases result'
  rcases outcome with ⟨_, rfl⟩ | ⟨_, entry, isDir, unlinked⟩
  · exact .unchanged dirSlots
  · have removes := unlinked.removes isDir
    exact unlinked.edit wellFormed sound removes
      (fun _ => other entry removes) dirSlots

/-- A lookup leaves free clusters only if there were some. -/
theorem CreateResult.free_ne_nil
    (created : CreateResult volume cur raw slotsOf slot 0
      (slotAt entry existing) opened) (some : opened.free ≠ []) :
    volume.free ≠ [] := by
  generalize slotAt entry existing = slot' at created
  cases created with
  | found _ => exact some
  | vacant _ _ => exact some
  | grown _ _ _ _ _ _ _ free _ =>
      rw [free]
      exact List.cons_ne_nil _ _

/-- A new entry with clusters takes free ones. -/
theorem Edited.free_ne_nil {fresh : Nat}
    (edited : Edited opened volume' entry [] [fresh]) :
    opened.free ≠ [] := by
  have live : Live volume'.mem entry := by
    by_contra dead
    have none := edited.newNone dead
    cases none
  have inside := (edited.newChain live).inside fresh
    (List.mem_singleton_self fresh)
  rw [edited.kept.bpb] at inside
  obtain ⟨low, inOld | unused⟩ :=
    edited.fresh fresh (List.mem_singleton_self fresh)
  · cases inOld
  · exact List.ne_nil_of_mem (Volume.mem_free.mpr ⟨low, inside, unused⟩)

theorem fatMkdir_edit (wellFormed : WellFormed volume)
    (sound : volume.disk.Sound) (nameable : Nameable path)
    (result : fatMkdir volume path = some (code, volume'))
    (dirSlots : DirSlots volume cluster slots) :
    SlotsEdit volume cluster slots
      (fun entry => Creates volume path slots entry ∧ volume.free ≠ [])
      removes volume' := by
  obtain ⟨_, _, result', outcome⟩ :=
    fatMkdir_outcome wellFormed sound nameable
  rw [result] at result'
  cases result'
  cases outcome with
  | refused _ => exact .unchanged dirSlots
  | looked _ _ created _ =>
      obtain ⟨⟨more, dirSlots'⟩, same⟩ :=
        created.entries wellFormed dirSlots
      exact .kept dirSlots' fun here member => (same here member).listedAt
  | made located created isOpened _ edited _ =>
      have some := created.free_ne_nil edited.free_ne_nil
      have edit := created.edit wellFormed isOpened edited
        located.resolved located.dirSlots
        (fun reach => absurd reach isOpened.not_reach) nofun dirSlots
      cases edit with
      | kept dirSlots same => exact .kept dirSlots same
      | created isCreated dirSlots others =>
          exact .created ⟨isCreated, some⟩ dirSlots others
      | removed impossible _ _ _ => exact impossible.elim

/-- The target of a call that stores, with what can be stored there. -/
theorem CanStore.target (can : CanStore volume path size)
    (wellFormed : WellFormed volume) (sound : volume.disk.Sound)
    (slot : DirSlot) :
    (∃ code, openTarget volume path 4 slot true = some (.error code)) ∨
    (∃ cur raw slot', openTarget volume path 4 slot true =
      some (.ok (raw, cur, 2, slot', volume))) ∨
    ∃ cur raw slots entry existing opened,
      Aimed volume path cur raw slots slot opened entry existing ∧
        Storable raw ∧
        openTarget volume path 4 slot true =
          some (.ok (raw, cur, 0, slotAt entry existing, opened)) := by
  rcases openTarget_aimed wellFormed sound can.notDirectory
      (can.fits.not_lookupFull wellFormed sound) slot with
    stopped | full |
      ⟨cur, raw, slots, entry, existing, opened, aimed, ⟨name, isName, bytes⟩,
        ok⟩
  · exact .inl stopped
  · exact .inr (.inl full)
  · refine .inr (.inr ⟨cur, raw, slots, entry, existing, opened, aimed, ?_,
      ok⟩)
    rw [isName]
    exact Nameable.storable fun byte member =>
      can.nameable byte (bytes byte member)

theorem fatWriteFile_edit {data : Bytes} (can : CanStore volume path size)
    (wellFormed : WellFormed volume) (sound : volume.disk.Sound)
    (result : fatWriteFile volume slot path data size =
      some (code, volume'))
    (dirSlots : DirSlots volume cluster slots) :
    SlotsEdit volume cluster slots (Creates volume path slots)
      (fun _ => False) volume' := by
  have stores := fatWriteFile_fits wellFormed sound can.notDirectory can.bound
    can.fits result
  rcases can.target wellFormed sound slot with
    ⟨code', stopped⟩ | ⟨cur, raw, slot', full⟩ |
      ⟨cur, raw, slotsOf, entry, existing, opened, aimed, storable, ok⟩
  · rw [fatWriteFile, stopped] at result
    cases result
    exact .unchanged dirSlots
  · rw [fatWriteFile_opened full, if_neg (by decide), if_pos rfl] at result
    cases result
    exact .unchanged dirSlots
  · rcases stores with ⟨rfl, _⟩ | rfl
    swap
    · exact .unchanged dirSlots
    rw [fatWriteFile_opened ok, if_neg (by decide), if_neg (by decide)]
      at result
    obtain ⟨released, old, isReleased, outcome⟩ :=
      replaceFile_eq aimed.isOpened aimed.width can.bound data
    rw [result] at outcome
    cases outcome with
    | stored _ replaced =>
        exact aimed.created.edit wellFormed aimed.isOpened
          (replaced.edited aimed.isOpened isReleased aimed.regular storable)
          aimed.resolved aimed.dirSlots aimed.regular
          (fun _ => replaced.live aimed.isOpened storable) dirSlots

theorem fatWriteAt_edit {data : Bytes} {offset len : Nat}
    (can : CanStore volume path (offset + len)) (positive : 1 ≤ len)
    (wellFormed : WellFormed volume) (sound : volume.disk.Sound)
    (result : fatWriteAt volume slot path offset data len =
      some (code, volume'))
    (dirSlots : DirSlots volume cluster slots) :
    SlotsEdit volume cluster slots (Creates volume path slots)
      (fun _ => False) volume' := by
  have stores := fatWriteAt_fits wellFormed sound can.notDirectory can.bound
    can.fits result
  rcases can.target wellFormed sound slot with
    ⟨code', stopped⟩ | ⟨cur, raw, slot', full⟩ |
      ⟨cur, raw, slotsOf, entry, existing, opened, aimed, storable, ok⟩
  · rw [fatWriteAt, if_neg (by omega), stopped] at result
    cases result
    exact .unchanged dirSlots
  · rw [fatWriteAt_opened full positive, if_neg (by decide), if_pos rfl]
      at result
    cases result
    exact .unchanged dirSlots
  · rcases stores with ⟨rfl, _⟩ | rfl
    swap
    · exact .unchanged dirSlots
    rw [fatWriteAt_opened ok positive, if_neg (by decide),
      if_neg (by decide)] at result
    obtain ⟨old, oldChain⟩ := aimed.isOpened.oldChain
    obtain ⟨ent, attr, first, size, loaded, outcome⟩ :=
      spliceFile_eq aimed.isOpened oldChain aimed.width positive can.bound
        data
    rw [result] at outcome
    cases outcome with
    | spliced spliced =>
        exact aimed.created.edit wellFormed aimed.isOpened
          (spliced.edited aimed.isOpened aimed.regular storable oldChain
            positive loaded)
          aimed.resolved aimed.dirSlots aimed.regular
          (fun _ => spliced.live aimed.isOpened aimed.regular storable loaded)
          dirSlots

end Edits

end LoafOs
