import LoafOs.Fs.FatListing

/-!
# The order in a directory

`dir_lookup` stops at the first end mark and at the first entry with the
name; `fat_readdir` does not stop.  In the directories that the driver
makes, no two entries have one name and none lies behind an end mark, and
then both see the same entries.
-/

namespace LoafOs

def dotName : List UInt8 := padName 11 [0x2e]

def dotDotName : List UInt8 := padName 11 [0x2e, 0x2e]

/-- No name twice, no entry behind an end mark, and the entries that listing
skips are named as `fat_mkdir` names them. -/
structure Orderly (mem : Bytes) (cur : Nat) (slots : List Nat) : Prop where
  unique : ∀ left ∈ slots, ∀ right ∈ slots, Listed mem left →
    Listed mem right → direntName mem left = direntName mem right →
      left = right
  ended : slots.Pairwise fun earlier later =>
    mem earlier = 0x00 → ¬ Listed mem later
  dots : ∀ slot ∈ slots, Listed mem slot → IsDot mem slot → cur ≠ 0 ∧
    (direntName mem slot = dotName ∨ direntName mem slot = dotDotName)

/-- Every directory is orderly. -/
def DirectoriesOrderly (volume : Volume) : Prop :=
  ∀ cur slots, DirSlots volume cur slots → Orderly volume.mem cur slots

section Slots

variable {mem mem' : Bytes} {cur entry : Nat} {slots more : List Nat}
  {target : List UInt8}

/-- Without a name twice or an entry behind an end mark, the scan for a name
finds every entry. -/
theorem finds_of_matches : ∀ {slots : List Nat},
    (∀ left ∈ slots, ∀ right ∈ slots, Listed mem left →
      Listed mem right → direntName mem left = direntName mem right →
        left = right) →
    (slots.Pairwise fun earlier later =>
      mem earlier = 0x00 → ¬ Listed mem later) →
    entry ∈ slots → Matches mem target entry →
      Finds mem target slots entry
  | slot :: rest, unique, ended, member, matched => by
      by_cases here : slot = entry
      · rw [here]
        exact .here matched
      have later : entry ∈ rest := by
        simpa [Ne.symm here] using member
      obtain ⟨front, tail⟩ := List.pairwise_cons.mp ended
      refine .later (fun zero => front entry later zero matched.1)
        (fun other => here ?_)
        (finds_of_matches
          (fun left inLeft right inRight =>
            unique left (List.mem_cons_of_mem _ inLeft) right
              (List.mem_cons_of_mem _ inRight))
          tail later matched)
      exact unique slot List.mem_cons_self entry member other.1 matched.1
        (other.2.trans matched.2.symm)

theorem Orderly.finds_iff (orderly : Orderly mem cur slots) :
    Finds mem target slots entry ↔
      entry ∈ slots ∧ Matches mem target entry :=
  ⟨fun found => ⟨found.member, found.matches⟩, fun ⟨member, matched⟩ =>
    finds_of_matches orderly.unique orderly.ended member matched⟩

/-- The dot entries have no other name. -/
theorem Orderly.not_isDot (orderly : Orderly mem cur slots)
    (member : entry ∈ slots) (listed : Listed mem entry)
    (notDot : direntName mem entry ≠ dotName)
    (notDotDot : direntName mem entry ≠ dotDotName) : ¬ IsDot mem entry :=
  fun isDot => (orderly.dots entry member listed isDot).2.elim notDot
    notDotDot

/-- The slots before the first vacant one hold no end mark. -/
theorem FirstVacant.before (first : FirstVacant mem slots entry)
    (nodup : slots.Nodup) :
    slots.Pairwise fun earlier later =>
      later = entry → mem earlier ≠ 0x00 := by
  induction first with
  | here vacant =>
      obtain ⟨outside, _⟩ := List.nodup_cons.mp nodup
      refine List.pairwise_cons.mpr ⟨fun later member same => ?_, ?_⟩
      · exact absurd (same ▸ member) outside
      · refine List.pairwise_of_forall_mem_list ?_
        intro earlier _ later member same
        exact absurd (same ▸ member) outside
  | later going _ inductionHypothesis =>
      obtain ⟨_, rest⟩ := List.nodup_cons.mp nodup
      exact List.pairwise_cons.mpr
        ⟨fun _ _ _ zero => going (.inl zero), inductionHypothesis rest⟩

/-! ## Changes of the slots -/

/-- One slot gets a new name, or is marked as deleted. -/
theorem Orderly.edit (orderly : Orderly mem cur slots)
    (others : ∀ here ∈ slots, here ≠ entry →
      SameEntry mem' here mem here)
    (marked : mem' entry ≠ 0x00) (dotless : target.head? ≠ some 0x2e)
    (isNamed : Listed mem' entry → direntName mem' entry = target)
    (fresh : ∀ here ∈ slots, here ≠ entry → Listed mem here →
      direntName mem here ≠ target)
    (before : slots.Pairwise fun earlier later =>
      later = entry → mem earlier ≠ 0x00) :
    Orderly mem' cur slots where
  unique := by
    have apart : ∀ here ∈ slots, here ≠ entry → Listed mem' here →
        Listed mem' entry →
          direntName mem' here ≠ direntName mem' entry := by
      intro here member different listed isListed same
      have sameEntry := others here member different
      refine fresh here member different
        (sameEntry.listed_iff.mp listed) ?_
      rw [← sameEntry.name, same, isNamed isListed]
    intro left inLeft right inRight listedLeft listedRight same
    by_cases isLeft : left = entry
    · by_cases isRight : right = entry
      · rw [isLeft, isRight]
      · subst isLeft
        exact absurd same.symm
          (apart right inRight isRight listedRight listedLeft)
    · by_cases isRight : right = entry
      · subst isRight
        exact absurd same
          (apart left inLeft isLeft listedLeft listedRight)
      · have sameLeft := others left inLeft isLeft
        have sameRight := others right inRight isRight
        exact orderly.unique left inLeft right inRight
          (sameLeft.listed_iff.mp listedLeft)
          (sameRight.listed_iff.mp listedRight)
          (by rw [← sameLeft.name, ← sameRight.name, same])
  ended := by
    refine (orderly.ended.and before).imp_of_mem ?_
    rintro earlier later inEarlier inLater ⟨ended, nonzero⟩ zero listed
    by_cases isEarlier : earlier = entry
    · exact marked (isEarlier ▸ zero)
    rw [(others earlier inEarlier isEarlier).head] at zero
    by_cases isLater : later = entry
    · exact nonzero isLater zero
    · exact ended zero
        ((others later inLater isLater).listed_iff.mp listed)
  dots := by
    intro slot member listed isDot
    by_cases here : slot = entry
    · subst here
      have head := direntName_head mem' slot
      rw [isNamed listed] at head
      rw [head] at dotless
      rcases isDot with ⟨dot, _⟩ | ⟨dot, _⟩ <;>
        exact absurd (congrArg some dot) dotless
    · have same := others slot member here
      rw [same.name]
      exact orderly.dots slot member (same.listed_iff.mp listed)
        (same.isDot_iff.mp isDot)

theorem Orderly.congr (orderly : Orderly mem cur slots)
    (same : ∀ here ∈ slots, SameEntry mem' here mem here) :
    Orderly mem' cur slots where
  unique := by
    intro left inLeft right inRight listedLeft listedRight equal
    refine orderly.unique left inLeft right inRight
      ((same left inLeft).listed_iff.mp listedLeft)
      ((same right inRight).listed_iff.mp listedRight) ?_
    rw [← (same left inLeft).name, ← (same right inRight).name, equal]
  ended := by
    refine orderly.ended.imp_of_mem ?_
    intro earlier later inEarlier inLater ended zero listed
    exact ended ((same earlier inEarlier).head ▸ zero)
      ((same later inLater).listed_iff.mp listed)
  dots := by
    intro slot member listed isDot
    rw [(same slot member).name]
    exact orderly.dots slot member ((same slot member).listed_iff.mp listed)
      ((same slot member).isDot_iff.mp isDot)

/-- A cleared cluster behind slots without an end mark. -/
theorem Orderly.append (orderly : Orderly mem cur slots)
    (cleared : ∀ slot ∈ more, mem slot = 0x00) :
    Orderly mem cur (slots ++ more) := by
  have absent : ∀ slot ∈ more, ¬ Listed mem slot :=
    fun slot member listed => listed.1 (cleared slot member)
  have inSlots : ∀ slot ∈ slots ++ more, Listed mem slot →
      slot ∈ slots := fun slot member listed =>
    (List.mem_append.mp member).resolve_right fun inMore =>
      absent slot inMore listed
  refine ⟨fun left inLeft right inRight listedLeft listedRight =>
    orderly.unique left (inSlots left inLeft listedLeft) right
      (inSlots right inRight listedRight) listedLeft listedRight,
    List.pairwise_append.mpr ⟨orderly.ended, ?_, ?_⟩,
    fun slot member listed =>
      orderly.dots slot (inSlots slot member listed) listed⟩
  · exact List.pairwise_of_forall_mem_list fun _ _ later member _ =>
      absent later member
  · exact fun _ _ later member _ => absent later member

end Slots

section Directories

variable {volume volume' opened : Volume} {path : CString}
  {cluster cur entry newc : Nat} {slots slotsOf old new : List Nat}
  {raw : List UInt8} {slot : DirSlot} {existing : Bool}

/-- A directory after one entry was replaced is one from before, or that of
the entry. -/
theorem EntryChange.dirSlots_back
    (change : EntryChange volume volume' entry old new)
    (wellFormed : WellFormed volume)
    (dirSlots : DirSlots volume' cluster slots) :
    DirSlots volume cluster slots ∨
      Live volume'.mem entry ∧ IsDir volume'.mem entry ∧
        cluster = direntFirst volume'.mem entry ∧
        slots = new.flatMap (clusterSlots volume.bpb) := by
  cases dirSlots with
  | root =>
      left
      rw [change.bpb]
      exact .root
  | @sub dir clusters reach isDir chain =>
      rcases (change.reach_iff wellFormed dir).mp reach with
        ⟨rfl, live⟩ | ⟨different, reachBefore⟩
      · right
        rw [chain.path.unique (change.newChain live).path, change.bpb]
        exact ⟨live, isDir, rfl, rfl⟩
      · left
        have same := change.entries dir reachBefore.treeSlot different
        obtain ⟨before, chainBefore⟩ := wellFormed.chain dir reachBefore
        have after := change.chain wellFormed reachBefore different
          chainBefore
        rw [chain.path.unique after.path, same.first, change.bpb]
        exact .sub reachBefore (same.isDir_iff.mp isDir) chainBefore

/-- A lookup keeps the directories orderly. -/
theorem CreateResult.orderly (wellFormed : WellFormed volume)
    (created : CreateResult volume cur raw slotsOf slot 0
      (slotAt entry existing) opened)
    (dirSlots : DirSlots volume cur slotsOf)
    (orderly : DirectoriesOrderly volume) : DirectoriesOrderly opened := by
  generalize slotAt entry existing = slot' at created
  cases created with
  | found _ => exact orderly
  | vacant _ _ => exact orderly
  | @grown opened dir fresh clusters rest absent full reach isDir chain
      nonempty first free grown =>
      have isFree : fresh ∈ volume.free := by
        rw [free]
        exact List.mem_cons_self
      obtain ⟨sameDir, change⟩ :=
        grown.entryChange wellFormed reach isDir chain nonempty isFree
      have kept : ∀ cluster slots, DirSlots volume cluster slots →
          Orderly opened.mem cluster slots := by
        intro cluster slots before
        refine (orderly cluster slots before).congr fun here member => ?_
        by_cases itself : here = dir
        · rw [itself]
          exact sameDir
        · exact change.entries here (before.treeSlot member) itself
      intro cluster slots after
      rcases change.dirSlots_back wellFormed after with
        before | ⟨_, _, isCluster, isSlots⟩
      · exact kept cluster slots before
      · have before := kept _ _ (.sub reach isDir chain)
        rw [isCluster, sameDir.first, isSlots, List.flatMap_append]
        refine before.append fun here member => ?_
        rw [List.flatMap_singleton] at member
        obtain ⟨number, _, rfl⟩ := mem_slotsFrom.mp member
        have bounds := clusterSlot_bounds member
        exact grown.cleared (32 * number) (by omega)

/-! ## New directories -/

theorem dotEntries_self {parent : Nat} :
    SameEntry (dotEntries newc parent) 0
      (putDirent scratch 0 dotName attrDirectory newc 0) 0 :=
  fun index small => putDirent_other (by omega)

theorem NewDirectory.contents {target : List UInt8}
    (isNew : NewDirectory volume entry target newc) {here : Nat}
    (member : here ∈ clusterSlots volume.bpb newc) :
    here = volume.bpb.clusterAddr newc ∧
        direntName volume.mem here = dotName ∨
      here = volume.bpb.clusterAddr newc + 32 ∧
        direntName volume.mem here = dotDotName ∨
      volume.bpb.clusterAddr newc + 64 ≤ here ∧
        volume.mem here = 0x00 := by
  obtain ⟨parent, holds⟩ := isNew.dots
  have bounds := clusterSlot_bounds member
  obtain ⟨number, _, rfl⟩ := mem_slotsFrom.mp member
  have same : SameEntry volume.mem
      (volume.bpb.clusterAddr newc + 32 * number)
      (dotEntries newc parent) (32 * number) := by
    intro index small
    rw [Nat.add_assoc]
    exact holds _ (by omega)
  match number with
  | 0 =>
      refine .inl ⟨rfl, ?_⟩
      rw [same.name, Nat.mul_zero, dotEntries_self.name]
      exact putDirent_direntName rfl
  | 1 =>
      refine .inr (.inl ⟨rfl, ?_⟩)
      rw [same.name]
      exact putDirent_direntName rfl
  | number + 2 =>
      refine .inr (.inr ⟨by omega, ?_⟩)
      rw [same.head, dotEntries, putDirent_other (by omega),
        putDirent_other (by omega)]
      rfl

theorem NewDirectory.orderly {target : List UInt8}
    (isNew : NewDirectory volume entry target newc) (low : 2 ≤ newc) :
    Orderly volume.mem newc (clusterSlots volume.bpb newc) where
  unique := by
    intro left inLeft right inRight listedLeft listedRight same
    rcases isNew.contents inLeft with
      ⟨isLeft, nameLeft⟩ | ⟨isLeft, nameLeft⟩ | ⟨_, zero⟩
    · rcases isNew.contents inRight with
        ⟨isRight, _⟩ | ⟨_, nameRight⟩ | ⟨_, zero⟩
      · rw [isLeft, isRight]
      · rw [nameLeft, nameRight] at same
        exact absurd same (by decide)
      · exact absurd zero listedRight.1
    · rcases isNew.contents inRight with
        ⟨_, nameRight⟩ | ⟨isRight, _⟩ | ⟨_, zero⟩
      · rw [nameLeft, nameRight] at same
        exact absurd same (by decide)
      · rw [isLeft, isRight]
      · exact absurd zero listedRight.1
    · exact absurd zero listedLeft.1
  ended := by
    have ascending : (clusterSlots volume.bpb newc).Pairwise (· < ·) :=
      List.pairwise_map.mpr
        (List.pairwise_lt_range.imp fun less => by omega)
    refine ascending.imp_of_mem ?_
    intro earlier later inEarlier inLater less zero listed
    have head := direntName_head volume.mem earlier
    rw [zero] at head
    rcases isNew.contents inEarlier with
      ⟨_, name⟩ | ⟨_, name⟩ | ⟨behind, _⟩
    · rw [name] at head
      exact absurd head (by decide)
    · rw [name] at head
      exact absurd head (by decide)
    · rcases isNew.contents inLater with ⟨here, _⟩ | ⟨here, _⟩ | ⟨_, last⟩
      · omega
      · omega
      · exact listed.1 last
  dots := by
    intro here member listed _
    refine ⟨by omega, ?_⟩
    rcases isNew.contents member with ⟨_, name⟩ | ⟨_, name⟩ | ⟨_, zero⟩
    · exact .inl name
    · exact .inr name
    · exact absurd zero listed.1

/-! ## One call -/

/-- What an edit does to the directory that holds the entry. -/
theorem Opened.orderly (isOpened : Opened volume cur raw entry existing)
    (orderly : DirectoriesOrderly volume)
    (dirSlots : DirSlots volume cluster slots) (member : entry ∈ slots) :
    (∀ here ∈ slots, here ≠ entry → Listed volume.mem here →
      direntName volume.mem here ≠ raw) ∧
    slots.Pairwise fun earlier later =>
      later = entry → volume.mem earlier ≠ 0x00 := by
  have isOrderly := orderly cluster slots dirSlots
  obtain ⟨slotsNow, now, inNow, found, vacant⟩ := isOpened.found
  have same := now.same_of_member isOpened.wellFormed dirSlots inNow member
  subst same
  cases existing with
  | true =>
      obtain ⟨isListed, isNamed⟩ := (found rfl).matches
      refine ⟨fun here inHere different listed name => different ?_, ?_⟩
      · exact isOrderly.unique here inHere entry member listed isListed
          (name.trans isNamed.symm)
      · refine isOrderly.ended.imp_of_mem ?_
        rintro earlier later _ _ ended rfl zero
        exact ended zero isListed
  | false =>
      obtain ⟨first, absent⟩ := vacant rfl
      refine ⟨fun here inHere _ listed name => ?_,
        first.before dirSlots.nodup⟩
      exact absent here (isOrderly.finds_iff.mpr ⟨inHere, listed, name⟩)

theorem Edited.orderly (edited : Edited volume volume' entry old new)
    (isOpened : Opened volume cur raw entry existing)
    (orderly : DirectoriesOrderly volume)
    (marked : volume'.mem entry ≠ 0x00)
    (isNamed : Listed volume'.mem entry →
      direntName volume'.mem entry = raw)
    (isNew : Live volume'.mem entry → IsDir volume'.mem entry →
      ∃ newc, new = [newc] ∧ NewDirectory volume' entry raw newc) :
    DirectoriesOrderly volume' := by
  have change :=
    edited.entryChange isOpened.wellFormed isOpened.treeSlot
  intro cluster slots after
  rcases change.dirSlots_back isOpened.wellFormed after with
    before | ⟨live, isDir, isCluster, isSlots⟩
  · have isOrderly := orderly cluster slots before
    have others : ∀ here ∈ slots, here ≠ entry →
        SameEntry volume'.mem here volume.mem here :=
      fun here member different =>
        change.entries here (before.treeSlot member) different
    by_cases member : entry ∈ slots
    · obtain ⟨fresh, earlier⟩ := isOpened.orderly orderly before member
      exact isOrderly.edit others marked isOpened.dotless isNamed fresh
        earlier
    · exact isOrderly.congr fun here inHere =>
        others here inHere fun same => member (same ▸ inHere)
  · obtain ⟨newc, rfl, newDirectory⟩ := isNew live isDir
    have low := (edited.fresh newc (List.mem_singleton_self newc)).1
    have isOrderly := newDirectory.orderly low
    rw [isCluster, newDirectory.entryIs.first, isSlots,
      List.flatMap_singleton, ← change.bpb]
    exact isOrderly

theorem CallDone.orderly (done : CallDone volume path volume')
    (wellFormed : WellFormed volume) (sound : volume.disk.Sound)
    (orderly : DirectoriesOrderly volume) : DirectoriesOrderly volume' := by
  cases done with
  | unchanged => exact orderly
  | @unlinked entry _ unlinked =>
      obtain ⟨cur, name, slotsOf, resolved, dirSlots, found⟩ :=
        unlinked.names
      obtain ⟨old, edited⟩ := unlinked.edited
      have isOpened : Opened volume cur (toFatName name) entry true :=
        ⟨wellFormed, sound, toFatName_head name, slotsOf, dirSlots,
          found.member, fun _ => found, by simp⟩
      have absent : ¬ Listed volume'.mem entry :=
        fun listed => listed.2.1 unlinked.marked
      refine edited.orderly isOpened orderly ?_
        (fun listed => absurd listed absent)
        (fun live => absurd live.1 absent)
      rw [unlinked.marked]
      decide
  | @stored entry opened _ stored =>
      obtain ⟨cur, slotsOf, name, slot, existing, old, new, located,
        created, isOpened, edited, storable, isNamed, isNew⟩ :=
        stored.edited
      have opens := created.orderly wellFormed located.dirSlots orderly
      have head := direntName_head volume'.mem entry
      rw [isNamed] at head
      exact edited.orderly isOpened opens
        (fun zero => storable.1 (head.trans (congrArg some zero)))
        (fun _ => isNamed) (fun _ => isNew)

theorem formatted_orderly (bpb : Bpb) :
    DirectoriesOrderly (formatted bpb) := by
  have absent : ∀ here, ¬ Listed (formatted bpb).mem here :=
    fun here listed => listed.1 (blankDisk_mem here)
  intro cluster slots _
  refine ⟨fun left _ _ _ listed => absurd listed (absent left), ?_,
    fun here _ listed => absurd listed (absent here)⟩
  exact List.pairwise_of_forall_mem_list fun _ _ later _ _ => absent later

/-- The directories stay orderly over runs. -/
theorem fatRun_orderly {calls : List (DirSlot × FatCall)}
    (wellFormed : WellFormed volume) (sound : volume.disk.Sound)
    (orderly : DirectoriesOrderly volume)
    (run : Runs.Run FatStep volume calls volume') :
    WellFormed volume' ∧ volume'.disk.Sound ∧
      DirectoriesOrderly volume' := by
  refine run.invariant
    (fun volume => WellFormed volume ∧ volume.disk.Sound ∧
      DirectoriesOrderly volume) ?_ ⟨wellFormed, sound, orderly⟩
  rintro _ _ _ ⟨wellFormed, sound, orderly⟩ step
  obtain ⟨wellFormed', sound'⟩ := step.wellFormed wellFormed sound
  exact ⟨wellFormed', sound',
    (step.done wellFormed sound).orderly wellFormed sound orderly⟩

/-! ## Lookup and listing -/

/-- A slot that `dir_lookup` hands out for a new entry is vacant. -/
theorem dirLookup_free (wellFormed : WellFormed volume)
    (sound : volume.disk.Sound) (dirSlots : DirSlots volume cur slots)
    {create : Bool} {slot' : DirSlot}
    (done : dirLookup volume cur raw slot create = some (0, slot', volume'))
    (isFree : slot'.existing = false) :
    Vacant volume'.mem slot'.address := by
  cases create with
  | true =>
      obtain ⟨_, _, _, lookup, created⟩ :=
        dirLookup_create wellFormed sound dirSlots raw slot
      cases done.symm.trans lookup
      cases created with
      | found _ => cases isFree
      | vacant _ first =>
          rw [slotAt_address]
          exact first.vacant
      | grown _ _ _ _ _ _ _ _ grown =>
          rw [slotAt_address]
          have positive := wellFormed.geometry.clusterSize_pos
          exact .inl (grown.cleared 0 positive)
  | false =>
      obtain ⟨full, lookup, whenFull⟩ :=
        dirLookup_eq wellFormed sound dirSlots raw slot false
      have fullEq : full = some (2, slot, volume) := by
        rcases whenFull with ⟨_, isFull⟩ | ⟨_, _, _, _, _, _, _, isFull⟩
        · exact isFull
        · exact isFull
      rw [done, fullEq] at lookup
      rcases scan_cases volume.mem raw slots none with
        ⟨entry, _, result⟩ | ⟨_, carried, result, origin⟩
      · rw [result] at lookup
        cases lookup
        cases isFree
      rcases origin with ⟨carriedEq, _⟩ | ⟨_, entry, first, carriedEq⟩
      · rcases result with more | ⟨found, foundEq, _⟩
        · rw [more, carriedEq] at lookup
          cases lookup
        · rw [carriedEq] at foundEq
          cases foundEq
      · have isSlot : slot' = slotAt entry false ∧ volume' = volume := by
          rcases result with more | ⟨found, foundEq, isDone⟩
          · rw [more, carriedEq] at lookup
            cases lookup
            exact ⟨rfl, rfl⟩
          · rw [carriedEq, Option.some.injEq] at foundEq
            rw [isDone, ← foundEq] at lookup
            cases lookup
            exact ⟨rfl, rfl⟩
        rw [isSlot.1, isSlot.2, slotAt_address]
        exact first.vacant

/-- What `fat_readdir` and `dir_lookup` say about the entries of a
directory. -/
structure ListingAgrees (volume : Volume) (cur : Nat) (slots : List Nat) :
    Prop where
  unique : ∀ left ∈ slots, ∀ right ∈ slots, Listed volume.mem left →
    Listed volume.mem right →
      direntName volume.mem left = direntName volume.mem right →
        left = right
  ended : slots.Pairwise fun earlier later =>
    volume.mem earlier = 0x00 → ¬ Listed volume.mem later
  listing : ∃ entries : List Nat, entries.Nodup ∧
    (∀ entry, entry ∈ entries ↔ entry ∈ slots ∧ Live volume.mem entry) ∧
    ∀ index, fatReaddir volume cur index =
      some (match entries[index]? with
        | some entry => .ok (direntInfo volume.mem entry)
        | none => .error 2)
  lookup : ∀ raw stale, raw ≠ dotName → raw ≠ dotDotName →
    ∃ code slot, dirLookup volume cur raw stale false =
        some (code, slot, volume) ∧
      ∀ entry, code = 0 ∧ slot.existing = true ∧ slot.address = entry ↔
        entry ∈ slots ∧ Live volume.mem entry ∧
          direntName volume.mem entry = raw
  free : ∀ raw stale create slot volume',
    dirLookup volume cur raw stale create = some (0, slot, volume') →
      slot.existing = false → ¬ Listed volume'.mem slot.address

theorem Orderly.agrees (isOrderly : Orderly volume.mem cur slots)
    (wellFormed : WellFormed volume) (sound : volume.disk.Sound)
    (dirSlots : DirSlots volume cur slots) :
    ListingAgrees volume cur slots where
  unique := isOrderly.unique
  ended := isOrderly.ended
  listing := by
    refine ⟨listedIn volume cur slots, dirSlots.nodup.filter _,
      fun entry => ?_, fatReaddir_eq wellFormed.readable sound dirSlots⟩
    rw [listedIn_eq, List.mem_filter]
    refine and_congr_right fun member => ?_
    rw [listedAt, Bool.not_eq_true']
    split
    case isTrue root =>
      rw [skippedInRoot_iff]
      refine ⟨fun listed => ⟨listed, fun isDot => ?_⟩, And.left⟩
      exact (isOrderly.dots entry member listed isDot).1 root
    case isFalse => rw [skippedInChain_iff]
  lookup := by
    intro raw stale notDot notDotDot
    have live : ∀ entry, entry ∈ slots ∧ Live volume.mem entry ∧
        direntName volume.mem entry = raw ↔
          Finds volume.mem raw slots entry := by
      intro entry
      rw [isOrderly.finds_iff]
      refine and_congr_right fun member =>
        ⟨fun live => ⟨live.1.1, live.2⟩, fun matched => ?_⟩
      refine ⟨⟨matched.1, isOrderly.not_isDot member matched.1 ?_ ?_⟩,
        matched.2⟩
      · rwa [matched.2]
      · rwa [matched.2]
    simp only [live]
    rcases dirLookup_find wellFormed.readable sound dirSlots raw stale with
      ⟨found, finds, result⟩ | ⟨absent, code, slot, result, outcome⟩
    · refine ⟨0, slotAt found true, result, fun entry => ?_⟩
      rw [slotAt_existing, slotAt_address]
      exact ⟨fun hit => hit.2.2 ▸ finds,
        fun other => ⟨rfl, rfl, finds.unique other⟩⟩
    · refine ⟨code, slot, result, fun entry =>
        ⟨fun hit => ?_, fun other => absurd other (absent entry)⟩⟩
      obtain ⟨zero, isFound, _⟩ := hit
      rcases outcome with ⟨_, missing⟩ | ⟨two, _⟩
      · rw [missing] at isFound
        cases isFound
      · rw [two] at zero
        cases zero
  free := by
    intro raw stale create slot volume' done isFree
    exact (dirLookup_free wellFormed sound dirSlots done isFree).not_listed

end Directories

/-- Lookup and listing agree in every directory that calls have made of a
formatted volume. -/
theorem fatRun_listingAgrees {bpb : Bpb} (geometry : Geometry bpb)
    {calls : List (DirSlot × FatCall)} {volume : Volume}
    (run : Runs.Run FatStep (formatted bpb) calls volume) {cur : Nat}
    {slots : List Nat} (dirSlots : DirSlots volume cur slots) :
    ListingAgrees volume cur slots := by
  obtain ⟨wellFormed, sound, orderly⟩ :=
    fatRun_orderly (formatted_wellFormed geometry) blankDisk_sound
      (formatted_orderly bpb) run
  exact (orderly cur slots dirSlots).agrees wellFormed sound dirSlots

/-! The directory `/D`, and the same directory after 32 bytes have been
written into it as into a file. -/

theorem dirSlots_of_one {volume : Volume} {dir cluster : Nat}
    (inRoot : dir ∈ rootSlots volume.bpb) (live : Live volume.mem dir)
    (isDir : IsDir volume.mem dir)
    (first : direntFirst volume.mem dir = cluster) (low : 2 ≤ cluster)
    (small : cluster < 0xff8) (last : 0xff8 ≤ volume.next cluster)
    (inside : cluster < volume.bpb.totalClusters) :
    DirSlots volume cluster (clusterSlots volume.bpb cluster) := by
  have chain : Chain volume dir [cluster] :=
    { path := by
        rw [first]
        exact .more (by rw [ChainStop]; omega)
          (.done (.inr last))
      inside := fun owned member => by
        rwa [List.mem_singleton.mp member]
      linked := fun owned member => by
        rw [List.mem_singleton.mp member]
        omega
      directory := fun _ => List.cons_ne_nil _ _
      regular := fun regular => absurd isDir regular }
  have dirSlots := DirSlots.sub (.root inRoot live) isDir chain
  rwa [first, List.flatMap_singleton] at dirSlots

theorem sampleDirectory_dirSlots :
    DirSlots sampleDirectory 2 (clusterSlots sampleDirectory.bpb 2) :=
  @dirSlots_of_one _ 1536 2 (by decide +kernel)
    ⟨by decide +kernel, by decide +kernel⟩ (by decide +kernel)
    (by decide +kernel) (by decide) (by decide) (by decide +kernel)
    (by decide +kernel)

theorem sampleDirectory_agrees :
    ListingAgrees sampleDirectory 2
      (clusterSlots sampleDirectory.bpb 2) :=
  fatRun_listingAgrees (smallBpb_geometry (by decide) (by decide))
    (.cons sampleDirectory_step .nil) sampleDirectory_dirSlots

def sampleEntry : Bytes :=
  putDirent scratch 0 (toFatName [0x41]) attrArchive 0 0

def sampleSpliced : Volume :=
  sampleDirectory.after
    (fatWriteAt sampleDirectory .unset samplePath 96 sampleEntry 32)

/-- The bytes are an entry behind an end mark. -/
theorem sampleSpliced_disagrees :
    Ascii samplePath ∧
      fatMkdir (formatted (smallBpb 8)) samplePath =
        some (0, sampleDirectory) ∧
      fatWriteAt sampleDirectory .unset samplePath 96 sampleEntry 32 =
        some (0, sampleSpliced) ∧
      DirSlots sampleSpliced 2 (clusterSlots sampleSpliced.bpb 2) ∧
      ¬ ListingAgrees sampleSpliced 2
        (clusterSlots sampleSpliced.bpb 2) := by
  refine ⟨by decide +kernel, sampleDirectory_step.result,
    Volume.after_eq (by decide +kernel), ?_, fun agrees => ?_⟩
  · exact @dirSlots_of_one _ 1536 2 (by decide +kernel)
      ⟨by decide +kernel, by decide +kernel⟩ (by decide +kernel)
      (by decide +kernel) (by decide) (by decide) (by decide +kernel)
      (by decide +kernel)
  · exact absurd agrees.ended (by decide +kernel)

end LoafOs
