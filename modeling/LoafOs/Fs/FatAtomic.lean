import LoafOs.Fs.FatAnyWrite
import LoafOs.Fs.FatInPlace

/-!
# Running out of clusters

When `fat_write_file` or `fat_write_at` returns 3, the old chain may already
be freed, the free clusters may hang at the end of the chain, and the old
bytes may be overwritten.  The calls are atomic exactly when there was
nothing to free, to hang or to overwrite.
-/

namespace LoafOs

/-- Nothing but a new cluster of the parent directory, whose first cluster
is `cur`, tells that a call was made. -/
structure Atomic (volume volume' : Volume) (cur : Nat) : Prop where
  files : ∀ path entry content size, Names volume path entry →
    ¬ IsDir volume.mem entry → Holds volume path content size →
      Holds volume' path content size
  entries : ∀ entry cluster, Reach volume' entry →
    Owns volume' entry cluster → volume'.next cluster ≠ 0
  free : ∃ added : List Nat, added.length ≤ 1 ∧
    (∀ cluster ∈ added, ∃ dir, Reach volume' dir ∧ DirAt volume' cur dir ∧
      Owns volume' dir cluster) ∧
    ∀ cluster, 2 ≤ cluster → cluster < volume.bpb.totalClusters →
      (volume'.next cluster = 0 ↔
        volume.next cluster = 0 ∧ cluster ∉ added)
  copies : CopiesEqual volume'

theorem Atomic.refl {volume : Volume} (wellFormed : WellFormed volume)
    (cur : Nat) : Atomic volume volume cur where
  files := fun _ _ _ _ _ _ holds => holds
  entries := fun _ _ reach owned => wellFormed.owned_used reach owned
  free := ⟨[], Nat.zero_le _, by simp,
    fun _ _ _ => by simp⟩
  copies := wellFormed.copies

section Full

variable {volume volume' opened : Volume} {path : CString}
  {cur entry : Nat} {raw : List UInt8} {slots old taken : List Nat}
  {slot : DirSlot} {existing : Bool} {data : Bytes}

/-- The entry of a path is found without a change. -/
theorem Aimed.found
    (aimed : Aimed volume path cur raw slots slot opened entry existing)
    (reach : Reach volume entry) : opened = volume ∧ existing = true ∧
      Names volume path entry := by
  have isOpened := aimed.isOpened
  have created := aimed.created
  have reach' := (created.reach aimed.wellFormed reach).1
  obtain ⟨name, isName⟩ := aimed.isName
  cases existing with
  | false => exact absurd reach' isOpened.not_reach
  | true =>
      generalize slotEq : slotAt entry true = slot' at created
      have address := congrArg DirSlot.address slotEq
      have flag := congrArg DirSlot.existing slotEq
      rw [slotAt_address] at address
      rw [slotAt_existing] at flag
      cases created with
      | @found other found =>
          rw [slotAt_address] at address
          subst address isName
          exact ⟨rfl, rfl, cur, name, slots, aimed.resolved,
            aimed.dirSlots, found⟩
      | vacant _ _ => cases flag
      | grown _ _ _ _ _ _ _ _ _ => cases flag

/-- The lookup takes at most one cluster, for the directory. -/
theorem CreateResult.free_change {slot' : DirSlot}
    (wellFormed : WellFormed volume)
    (created : CreateResult volume cur raw slots slot 0 slot' opened) :
    ∃ added : List Nat, added.length ≤ 1 ∧
      (∀ cluster ∈ added, ∃ dir, Reach opened dir ∧ DirAt opened cur dir ∧
        Owns opened dir cluster) ∧
      ∀ cluster, (opened.next cluster = 0 ↔
        volume.next cluster = 0 ∧ cluster ∉ added) := by
  cases created with
  | found _ => exact ⟨[], Nat.zero_le _, by simp,
      fun _ => by simp⟩
  | vacant _ _ => exact ⟨[], Nat.zero_le _, by simp,
      fun _ => by simp⟩
  | @grown opened dir fresh clusters rest absent full reach isDir chain
      nonempty first free grown =>
      have isFree : fresh ∈ volume.free := by
        rw [free]
        exact List.mem_cons_self
      obtain ⟨low, _, zero⟩ := Volume.mem_free.mp isFree
      obtain ⟨same, change⟩ :=
        grown.entryChange wellFormed reach isDir chain nonempty isFree
      have live := same.live_iff.mpr reach.live
      have chain' := change.newChain live
      refine ⟨[fresh], Nat.le_refl 1, ?_, ?_⟩
      · intro cluster member
        rw [List.mem_singleton.mp member]
        exact ⟨dir, (change.reach_iff wellFormed dir).mpr
            (Or.inl ⟨rfl, live⟩),
          ⟨same.isDir_iff.mpr isDir, same.first.trans first.symm⟩,
          chain'.owns_iff.mpr (by simp)⟩
      · intro cluster
        have linked := chain.linked _ (List.getLast_mem nonempty)
        rw [grown.next, List.mem_singleton]
        by_cases last : cluster = clusters.getLast nonempty
        · subst last
          rw [Function.update_self]
          omega
        · rw [Function.update_of_ne last]
          by_cases isFresh : cluster = fresh
          · subst isFresh
            rw [Function.update_self]
            simp [fatEocMark]
          · rw [Function.update_of_ne isFresh]
            simp [isFresh]

/-- A call that ends with the old table and the old entries. -/
structure Quiet (opened volume' : Volume) (raw : List UInt8) (entry : Nat)
    (touched : List Nat) : Prop where
  disturbed : Disturbed opened volume' raw entry touched
  same : SameEntry volume'.mem entry opened.mem entry
  fatBuf : volume'.fatBuf = opened.fatBuf
  outside : ∀ address, ¬ InClusters opened.bpb touched address →
    volume'.mem address = opened.mem address

theorem Quiet.sameEntry {touched : List Nat} {other : Nat}
    (quiet : Quiet opened volume' raw entry touched)
    (isOpened : Opened opened cur raw entry existing)
    (inTree : TreeSlot opened other) :
    SameEntry volume'.mem other opened.mem other := by
  by_cases here : other = entry
  · rw [here]
    exact quiet.same
  · exact quiet.disturbed.sameEntry isOpened.treeSlot inTree here

theorem Quiet.reach {touched : List Nat} {other : Nat}
    (quiet : Quiet opened volume' raw entry touched)
    (isOpened : Opened opened cur raw entry existing)
    (reach : Reach volume' other) : Reach opened other := by
  have inTree := (quiet.disturbed.reach_backward isOpened reach).1
  exact inTree.reach
    ((quiet.sameEntry isOpened inTree).live_iff.mp reach.live)

theorem Quiet.owns_iff {touched : List Nat} {other cluster : Nat}
    (quiet : Quiet opened volume' raw entry touched)
    (isOpened : Opened opened cur raw entry existing)
    (inTree : TreeSlot opened other) :
    Owns volume' other cluster ↔ Owns opened other cluster := by
  rw [Owns, Owns, Volume.next_congr quiet.fatBuf,
    (quiet.sameEntry isOpened inTree).first]

theorem Quiet.chain {touched clusters : List Nat}
    (quiet : Quiet opened volume' raw entry touched)
    (chain : Chain opened entry clusters) :
    Chain volume' entry clusters := by
  have next := Volume.next_congr quiet.fatBuf
  have bpb := quiet.disturbed.kept.bpb
  exact
    { path := by
        rw [next, quiet.same.first]
        exact chain.path
      inside := by
        rw [bpb]
        exact chain.inside
      linked := by
        rw [next]
        exact chain.linked
      directory := fun isDir =>
        chain.directory (quiet.same.isDir_iff.mp isDir)
      regular := by
        rw [bpb, quiet.same.first, quiet.same.size, quiet.same.isDir_iff]
        exact chain.regular }

theorem Quiet.holds {touched clusters : List Nat} {content : Bytes}
    {size : Nat} (quiet : Quiet opened volume' raw entry touched)
    (isOpened : Opened opened cur raw entry existing)
    (names : Names opened path entry) (names' : Names volume' path entry)
    (chain : Chain opened entry clusters)
    (holds : Holds opened path content size)
    (bytes : ∀ number (bound : number < clusters.length),
      ∀ index < opened.bpb.clusterSize,
        number * opened.bpb.clusterSize + index < size →
          opened.mem (opened.bpb.clusterAddr clusters[number] + index) =
              content (number * opened.bpb.clusterSize + index) →
            volume'.mem (opened.bpb.clusterAddr clusters[number] + index) =
              content (number * opened.bpb.clusterSize + index)) :
    Holds volume' path content size := by
  have bpb := quiet.disturbed.kept.bpb
  obtain ⟨isSize, enough, old⟩ :=
    holds.bytes isOpened.wellFormed isOpened.sound names chain
  refine names'.holds (quiet.disturbed.readable isOpened)
    quiet.disturbed.kept.sound (quiet.chain chain)
    (quiet.same.size.trans isSize) (by rwa [bpb]) ?_
  rw [bpb]
  intro number bound index small inside
  exact bytes number bound index small inside
    (old number bound index small inside)

/-- A quiet call that keeps the content of its target is atomic. -/
theorem Aimed.atomic
    (aimed : Aimed volume path cur raw slots slot opened entry existing)
    {touched : List Nat}
    (quiet : Quiet opened volume' raw entry touched)
    (target : ∀ other content size, opened = volume →
      Names volume other entry → Holds volume other content size →
        Names volume' other entry → Holds volume' other content size) :
    Atomic volume volume' cur := by
  have isOpened := aimed.isOpened
  have disturbed := quiet.disturbed
  have readable' := disturbed.readable isOpened
  have opens := aimed.created.framed aimed.wellFormed aimed.sound
  have framed := opens.trans (disturbed.framed isOpened)
    fun other reach => (aimed.created.reach aimed.wellFormed reach).1
  have next := Volume.next_congr quiet.fatBuf
  refine ⟨?_, ?_, ?_, ?_⟩
  · intro other found content size names notDir holds
    obtain ⟨names', _⟩ := framed.names other found names
      fun gone => gone (Or.inr quiet.same)
    by_cases here : found = entry
    · subst here
      exact target other content size (aimed.found names.reach).1 names
        holds names'
    · intro dest
      have read := framed.fatReadFile_eq aimed.wellFormed aimed.sound
        readable' disturbed.kept.sound
        (names.fatStat_eq aimed.wellFormed aimed.sound) (by
          intro again namesAgain
          have same : again = found := by
            obtain ⟨_, _, _, resolved, dirSlots, isFound⟩ := names
            obtain ⟨_, _, _, resolved', dirSlots', isFound'⟩ := namesAgain
            rw [resolved, Option.some.injEq, Resolved.mk.injEq]
              at resolved'
            obtain ⟨_, _, sameCur, sameName⟩ := resolved'
            subst sameCur
            rw [dirSlots'.unique dirSlots, ← sameName] at isFound'
            exact isFound'.unique isFound
          rw [same]
          refine ⟨fun gone => gone (Or.inl here), ?_⟩
          rintro (isParent | isHere | isParent)
          · exact notDir isParent.1
          · exact here isHere
          · exact notDir ((aimed.created.reach aimed.wellFormed
              names.reach).2.isDir_iff.mp isParent.1)) dest
      rw [read]
      exact holds dest
  · intro other cluster reach owned
    have before := quiet.reach isOpened reach
    rw [next]
    exact isOpened.wellFormed.owned_used before
      ((quiet.owns_iff isOpened before.treeSlot).mp owned)
  · obtain ⟨added, few, parents, change⟩ :=
      aimed.created.free_change aimed.wellFormed
    refine ⟨added, few, ?_, ?_⟩
    · intro cluster member
      obtain ⟨dir, reach, ⟨isDir, atCur⟩, owned⟩ := parents cluster member
      have same := quiet.sameEntry isOpened reach.treeSlot
      exact ⟨dir, disturbed.reach_forward isOpened reach
          (disturbed.not_entry reach isDir),
        ⟨same.isDir_iff.mpr isDir, same.first.trans atCur⟩,
        (quiet.owns_iff isOpened reach.treeSlot).mpr owned⟩
    · intro cluster _ _
      rw [next]
      exact change cluster
  · refine isOpened.wellFormed.copies.frame disturbed.kept.bpb
      quiet.fatBuf fun address front => quiet.outside address ?_
    intro inside
    have behind := inside.behind
    omega

end Full

/-! ## Which calls are atomic -/

section Outcome

variable {volume volume' opened : Volume} {path : CString}
  {cur entry : Nat} {raw : List UInt8} {slots old : List Nat}
  {slot : DirSlot} {existing : Bool} {data : Bytes}

/-- The free clusters and the old chain are all that a full call
touches. -/
theorem Released.same (isReleased : Released opened volume entry old)
    (empty : old = []) : volume.next = opened.next := by
  funext cluster
  rw [isReleased.next, empty, if_neg (by simp)]

/-- Nothing is released for an entry without clusters. -/
theorem releaseOld_empty
    (isOpened : Opened opened cur raw entry existing)
    (low : existing = true → direntFirst opened.mem entry < 2) :
    releaseOld opened (slotAt entry existing) = some (0, opened) := by
  cases existing with
  | false => rfl
  | true =>
      obtain ⟨read, same⟩ :=
        readSlot_eq isOpened.sound isOpened.onDisk true
      have first := low rfl
      rw [releaseOld, slotAt_existing, if_pos rfl, read]
      simp [same.first, freeFrom, Nat.not_le.mpr first]

/-- `fat_write_file` that returns 3 after a successful lookup. -/
theorem Aimed.writeFile_atomic
    (aimed : Aimed volume path cur raw slots slot opened entry existing)
    {size : Nat} (bound : size < 2 ^ 32)
    (result : replaceFile opened (slotAt entry existing) raw data size =
      some (3, volume'))
    (low : existing = true → direntFirst opened.mem entry < 2) :
    Atomic volume volume' cur := by
  have isOpened := aimed.isOpened
  obtain ⟨released, old, releaseEq, isReleased, outcome⟩ :=
    replaceFile_outcome isOpened aimed.width bound data
  rw [releaseOld_empty isOpened low] at releaseEq
  cases releaseEq
  rw [result] at outcome
  cases outcome with
  | full short bpb sound fatBuf outside =>
      have disturbed := isReleased.disturbed isOpened aimed.regular bpb
        sound fatBuf outside
      have quiet : Quiet opened volume' raw entry
          (old ++ opened.free) :=
        { disturbed := disturbed
          same := fun index within => by
            refine outside _ ?_
            rintro ⟨cluster, isFree, first, last⟩
            have apart := isReleased.entry_apart isOpened isFree
            omega
          fatBuf := fatBuf
          outside := fun address untouched => outside address
            fun inside => untouched (inside.mono fun cluster member =>
              List.mem_append_right _ member) }
      refine aimed.atomic quiet ?_
      rintro other content size rfl names holds names'
      obtain ⟨_, isTrue, _⟩ := aimed.found names.reach
      have chain := isReleased.chain names.reach
      have empty : old = [] :=
        (chain.first_low_iff isOpened.wellFormed.geometry).mp (low isTrue)
      subst empty
      exact quiet.holds isOpened names names' chain holds fun _ bound =>
        absurd bound (Nat.not_lt_zero _)

/-- A freed chain shows in the set of free clusters. -/
theorem writeFile_low (isOpened : Opened volume cur raw entry true)
    (width : raw.length = 11) {size : Nat} (bound : size < 2 ^ 32)
    (result : replaceFile volume (slotAt entry true) raw data size =
      some (3, volume'))
    (atomic : Atomic volume volume' cur) :
    direntFirst volume.mem entry < 2 := by
  have reach := isOpened.reach
  obtain ⟨released, old, _, isReleased, outcome⟩ :=
    replaceFile_outcome isOpened width bound data
  rw [result] at outcome
  cases outcome with
  | full short bpb sound fatBuf outside =>
      have chain := isReleased.chain reach
      rw [chain.first_low_iff isOpened.wellFormed.geometry]
      by_contra nonempty
      obtain ⟨cluster, inOld⟩ := List.exists_mem_of_ne_nil old nonempty
      obtain ⟨added, _, _, free⟩ := atomic.free
      have linked := chain.linked cluster inOld
      have now := (free cluster (chain.low cluster inOld)
        (chain.inside cluster inOld)).mp (by
          rw [Volume.next_congr fatBuf, isReleased.next, if_pos inOld])
      omega

/-- Without a free cluster only bytes of the old chain have changed. -/
theorem Exhausted.quiet
    (isOpened : Opened opened cur raw entry existing)
    (regular : Reach opened entry → ¬ IsDir opened.mem entry)
    (oldChain : OldChain opened entry old) {position offset count : Nat}
    (exhausted : Exhausted opened volume' old position)
    (spliced : Spliced opened.bpb opened.mem volume'.mem
      (old ++ opened.free) offset count data)
    (none : opened.free = []) :
    Quiet opened volume' raw entry (old ++ opened.free) where
  disturbed := exhausted.disturbed isOpened regular oldChain spliced
  same := by
    intro index bound
    refine spliced.outside _ ?_
    rintro ⟨cluster, member, first, last⟩
    have apart := oldChain.entry_apart isOpened (List.mem_append.mp member)
    omega
  fatBuf := exhausted.building.same none
  outside := spliced.outside

/-- `fat_write_at` that returns 3 after a successful lookup. -/
theorem Aimed.writeAt_atomic
    (aimed : Aimed volume path cur raw slots slot opened entry existing)
    (oldChain : OldChain opened entry old) {position offset : Nat}
    (exhausted : Exhausted opened volume' old position)
    (spliced : Spliced opened.bpb opened.mem volume'.mem
      (old ++ opened.free) offset
      ((old ++ opened.free).length * opened.bpb.clusterSize - offset) data)
    (none : opened.free = [])
    (same : ∀ content size, Holds volume path content size →
      ∀ place, offset ≤ place → place < size →
        data (place - offset) = content place) :
    Atomic volume volume' cur := by
  have isOpened := aimed.isOpened
  have quiet :=
    exhausted.quiet isOpened aimed.regular oldChain spliced none
  refine aimed.atomic quiet ?_
  rintro other content size rfl names holds names'
  obtain ⟨_, _, target⟩ := aimed.found names.reach
  have chain := oldChain.chain names.reach
  have holds' : Holds opened path content size := by
    intro dest
    rw [target.fatReadFile_eq aimed.wellFormed aimed.sound chain,
      ← names.fatReadFile_eq aimed.wellFormed aimed.sound chain]
    exact holds dest
  refine quiet.holds isOpened names names' chain holds ?_
  intro number bound index small inside before
  have bound' : number < (old ++ opened.free).length := by
    rw [List.length_append]
    omega
  have block := spliced.inside number bound' index small
  rw [List.getElem_append_left bound] at block
  rw [block]
  by_cases written : offset ≤ number * opened.bpb.clusterSize + index ∧
      number * opened.bpb.clusterSize + index < offset +
        ((old ++ opened.free).length * opened.bpb.clusterSize - offset)
  · rw [if_pos written]
    exact same content size holds' _ written.1 inside
  · rw [if_neg written]
    exact before

/-- Clusters hung at the end of the chain show in the set of free
clusters. -/
theorem Aimed.writeAt_none
    (aimed : Aimed volume path cur raw slots slot opened entry existing)
    (oldChain : OldChain opened entry old) {position offset count : Nat}
    (exhausted : Exhausted opened volume' old position)
    (spliced : Spliced opened.bpb opened.mem volume'.mem
      (old ++ opened.free) offset count data)
    (atomic : Atomic volume volume' cur) : opened.free = [] := by
  have isOpened := aimed.isOpened
  have disturbed :=
    exhausted.disturbed isOpened aimed.regular oldChain spliced
  by_contra nonempty
  obtain ⟨cluster, isFree⟩ :=
    List.exists_mem_of_ne_nil opened.free nonempty
  obtain ⟨low, high, zero⟩ := Volume.mem_free.mp isFree
  obtain ⟨added, _, parents, free⟩ := atomic.free
  have opens := aimed.created.framed aimed.wellFormed aimed.sound
  rw [opens.bpb] at high
  have linked := exhausted.building.linked cluster
    (List.mem_append_right _ isFree)
  obtain ⟨_, _, change⟩ := aimed.created.free_change aimed.wellFormed
  have wasFree := ((change.2 cluster).mp zero).1
  have inAdded : cluster ∈ added := by
    by_contra notAdded
    have now := (free cluster low high).mpr ⟨wasFree, notAdded⟩
    omega
  obtain ⟨dir, reach, ⟨isDir, _⟩, owned⟩ := parents cluster inAdded
  obtain ⟨_, before, isOther⟩ := disturbed.reach_backward isOpened reach
  have different := isOther isDir
  have ownedBefore := (disturbed.owns_iff isOpened (before different)
    different cluster).mp owned
  exact isOpened.wellFormed.free_not_owned (before different) zero
    ownedBefore

/-- An entry that is not there yet has no content. -/
theorem Aimed.not_holds
    (aimed : Aimed volume path cur raw slots slot opened entry existing)
    (absent : ¬ Reach volume entry) (content : Bytes) (size : Nat) :
    ¬ Holds volume path content size := by
  intro holds
  obtain ⟨read, readEq, code, _⟩ := holds scratch
  have missing (notFound : ∀ other, ¬ Finds volume.mem raw slots other) :
      False := by
    rw [fatReadFile_absent aimed.wellFormed aimed.sound aimed.resolved
      aimed.dirSlots notFound scratch, Option.some.injEq] at readEq
    subst readEq
    exact absurd code Nat.one_ne_zero
  have created := aimed.created
  generalize slotEq : slotAt entry existing = slot' at created
  have address := congrArg DirSlot.address slotEq
  rw [slotAt_address] at address
  obtain ⟨name, isName⟩ := aimed.isName
  cases created with
  | @found other found =>
      rw [slotAt_address] at address
      subst address isName
      exact absent (found.reach aimed.dirSlots)
  | vacant notFound _ => exact missing notFound
  | grown notFound _ _ _ _ _ _ _ _ => exact missing notFound

/-- Changed bytes show in the content. -/
theorem Aimed.writeAt_same
    (aimed : Aimed volume path cur raw slots slot opened entry existing)
    (oldChain : OldChain opened entry old) {position offset : Nat}
    (exhausted : Exhausted opened volume' old position)
    (spliced : Spliced opened.bpb opened.mem volume'.mem
      (old ++ opened.free) offset
      ((old ++ opened.free).length * opened.bpb.clusterSize - offset) data)
    (atomic : Atomic volume volume' cur) (content : Bytes) (size : Nat)
    (holds : Holds volume path content size) (place : Nat)
    (low : offset ≤ place) (high : place < size) :
    data (place - offset) = content place := by
  have isOpened := aimed.isOpened
  by_cases reach : Reach volume entry
  swap
  · exact absurd holds (aimed.not_holds reach content size)
  obtain ⟨rfl, _, names⟩ := aimed.found reach
  have none := aimed.writeAt_none oldChain exhausted spliced atomic
  have quiet :=
    exhausted.quiet isOpened aimed.regular oldChain spliced none
  have chain := oldChain.chain reach
  have chain' := quiet.chain chain
  have bpb := quiet.disturbed.kept.bpb
  obtain ⟨names', _⟩ := (quiet.disturbed.framed isOpened).names path entry
    names fun gone => gone (Or.inr quiet.same)
  obtain ⟨_, enough, bytes⟩ :=
    (atomic.files path entry content size names (aimed.regular reach)
      holds).bytes (quiet.disturbed.readable isOpened)
      quiet.disturbed.kept.sound names' chain'
  rw [bpb] at enough bytes
  have positive := isOpened.wellFormed.geometry.clusterSize_pos
  have number : place / opened.bpb.clusterSize < old.length :=
    Nat.div_lt_of_lt_mul (by rw [Nat.mul_comm]; omega)
  have small := Nat.mod_lt place positive
  have split : place / opened.bpb.clusterSize * opened.bpb.clusterSize +
      place % opened.bpb.clusterSize = place := by
    rw [Nat.mul_comm]
    exact Nat.div_add_mod place _
  have now := bytes (place / opened.bpb.clusterSize) number
    (place % opened.bpb.clusterSize) small (by rwa [split])
  have number' : place / opened.bpb.clusterSize <
      (old ++ opened.free).length := by
    rw [none, List.append_nil]
    exact number
  have block := spliced.inside (place / opened.bpb.clusterSize) number'
    (place % opened.bpb.clusterSize) small
  rw [List.getElem_append_left number, split, if_pos] at block
  · rw [split] at now
    exact block.symm.trans now
  · rw [none, List.append_nil]
    omega

/-- How `fat_write_at` runs out of clusters, for every offset and
length. -/
theorem spliceFile_full (isOpened : Opened opened cur raw entry existing)
    (regular : Reach opened entry → ¬ IsDir opened.mem entry)
    (oldChain : OldChain opened entry old) (width : raw.length = 11)
    (nonzero : raw.head? ≠ some 0x00) {offset len : Nat}
    (positive : 1 ≤ len) (offsetBound : offset < 2 ^ 32)
    (lenBound : len < 2 ^ 32)
    (result : spliceFile opened (slotAt entry existing) raw offset data
      len = some (3, volume')) :
    ∃ position, Exhausted opened volume' old position ∧
      Spliced opened.bpb opened.mem volume'.mem (old ++ opened.free) offset
        ((old ++ opened.free).length * opened.bpb.clusterSize - offset)
        data := by
  have geometry := isOpened.wellFormed.geometry
  obtain ⟨ent, attr, first, size, loadEq, loaded⟩ :=
    loadEntry_eq isOpened width
  by_cases wraps : 2 ^ 32 < offset + len
  · obtain ⟨code, final, resultEq, _, stopped⟩ :=
      spliceFile_any isOpened regular oldChain width nonzero offset len
        data
    rw [result, Option.some.injEq, Prod.mk.injEq] at resultEq
    obtain ⟨rfl, rfl⟩ := resultEq
    obtain ⟨position, before, exhausted, mem⟩ :=
      stopped wraps offsetBound lenBound rfl
    have unreached : (old ++ opened.free).length *
        opened.bpb.clusterSize ≤ offset :=
      Nat.le_trans
        (Nat.mul_le_mul_right _ (Nat.le_trans exhausted.short before))
        (Nat.div_mul_le_self _ _)
    refine ⟨position, exhausted, ?_⟩
    rw [Nat.sub_eq_zero_of_le unreached, mem]
    exact .zero _ _ _ _ _
  · rcases spliceFile_loops isOpened oldChain loadEq loaded positive
        (Nat.le_of_not_lt wraps) data with
      ⟨written, taken, building, _, _, finished⟩ |
        ⟨final, finished, exhausted, spliced⟩
    · obtain ⟨flushed, flushEq, flushedKept, _⟩ :=
        fatFlush_kept (building.geometry geometry) building.sound
      obtain ⟨final, updateEq, _⟩ := updateSlot_eq flushedKept.sound
        isOpened.onDisk existing
        (fun sectorBuf => sectorBuf.copy (slotAt entry existing).offset
          ((ent.putWord16 26 ((old ++ taken).headD 0)).putWord32 28
            (max (u32 (offset + len)) size)) 32)
        (fun _ away => Bytes.copy_outside away)
      rw [finished] at result
      simp only [flushEq, updateEq, ne_eq, not_true, if_false] at result
      cases result
    · rw [result, Option.some.injEq, Prod.mk.injEq] at finished
      rw [finished.2]
      exact ⟨_, exhausted, spliced⟩

end Outcome

/-! A slot that was never set. -/

section Unset

variable {volume volume' : Volume} {raw : List UInt8} {slot : DirSlot}
  {data : Bytes}

theorem writeLbaLoop_code (lba : Nat) (buffer : Bytes) :
    ∀ (count pass : Nat) (disk : Disk),
      (writeLbaLoop lba buffer count pass disk).1 ≤ 1
  | 0, _, _ => Nat.zero_le 1
  | count + 1, pass, disk => by
      rw [writeLbaLoop]
      obtain ⟨failed, written⟩ := ataWriteSectors disk
        (lbaToChs (u32 (lba + pass))) (buffer.shift (512 * pass))
      by_cases wrong : failed ≠ 0
      · simp [wrong]
      · simp only [wrong, if_false]
        exact writeLbaLoop_code lba buffer count (pass + 1) written

theorem updateSlot_code (volume : Volume) (slot : DirSlot)
    (change : Bytes → Bytes) : (updateSlot volume slot change).1 ≤ 1 := by
  rw [updateSlot]
  cases readLba volume.disk slot.sector 1 scratch with
  | none => exact Nat.le_refl 1
  | some sectorBuf =>
      exact writeLbaLoop_code slot.sector (change sectorBuf) 1 0
        volume.disk

/-- `fat_write_file` with an unset slot and no free cluster. -/
theorem replaceFile_unset (geometry : Geometry volume.bpb)
    (sound : volume.disk.Sound) (full : volume.free = []) (unset : slot.existing = false) {size : Nat}
    (result : replaceFile volume slot raw data size = some (3, volume')) :
    volume' = volume := by
  have released : releaseOld volume slot = some (0, volume) := by
    rw [releaseOld, unset]
    rfl
  have fuel : chainFuel = 65535 + 1 := rfl
  rw [replaceFile, released, fuel] at result
  simp only [Option.bind_eq_bind, Option.bind_some, ne_eq, not_true,
    if_false] at result
  rw [writeChain] at result
  by_cases empty : size = 0
  · rw [if_pos empty] at result
    simp only [Option.bind_some, not_true, if_false, if_true] at result
    obtain ⟨flushed, flushEq, _⟩ := fatFlush_kept geometry sound
    simp only [flushEq, not_true, if_false] at result
    have code := updateSlot_code flushed slot fun sectorBuf =>
      putDirent sectorBuf slot.offset raw attrArchive 0 size
    rw [Option.some.inj result] at code
    change 3 ≤ 1 at code
    exact absurd code (by decide)
  · rw [if_neg empty, fatAllocCluster_none geometry full] at result
    simp only [Option.bind_eq_bind, Option.bind_some, if_true] at result
    cases result
    rfl

/-- `fat_write_at` with an unset slot and no free cluster. -/
theorem spliceFile_unset (geometry : Geometry volume.bpb)
    (full : volume.free = []) (unset : slot.existing = false)
    (width : raw.length = 11) (offset len : Nat) :
    spliceFile volume slot raw offset data len = some (3, volume) := by
  have loaded : loadEntry volume slot raw =
      some (putDirent scratch 0 raw attrArchive 0 0) := by
    rw [loadEntry, unset]
    rfl
  have entryIs : EntryIs (putDirent scratch 0 raw attrArchive 0 0) 0 raw
      attrArchive 0 0 :=
    putDirent_entryIs width (by decide) (by decide)
  have first : (putDirent scratch 0 raw attrArchive 0 0).word16 26 = 0 :=
    entryIs.first
  rw [spliceFile, loaded]
  simp only [first, firstCluster, Nat.zero_lt_succ, if_true,
    fatAllocCluster_none geometry full, Option.bind_eq_bind,
    Option.bind_some]
  rfl

end Unset

/-- Exactly when a call that returns 3 is atomic.  The lookup has handed
out a slot, or the slot variable does not say that the entry exists. -/
theorem outOfSpace_atomic {volume opened : Volume} {path : CString}
    {cur r : Nat} {raw : List UInt8} {slots : List Nat}
    {slot slot' : DirSlot} (wellFormed : WellFormed volume)
    (sound : volume.disk.Sound) (cString : ∀ byte ∈ path, byte ≠ 0)
    (resolved : resolvePath volume path = some ⟨0, false, cur, raw⟩)
    (dirSlots : DirSlots volume cur slots)
    (lookup : dirLookup volume cur raw slot true = some (r, slot', opened))
    (unset : r = 3 → slot.existing = false) :
    (∀ data (size : UInt32) volume',
      fatWriteFile volume slot path data size.toNat = some (3, volume') →
        (Atomic volume volume' cur ↔ ∀ entry, Names volume path entry →
          direntFirst volume.mem entry < 2)) ∧
    ∀ data (offset len : UInt32) volume',
      ¬ NamesDirectory volume path →
      fatWriteAt volume slot path offset.toNat data len.toNat =
          some (3, volume') →
        (Atomic volume volume' cur ↔ opened.free = [] ∧
          ∀ content size, Holds volume path content size →
            ∀ place, offset.toNat ≤ place → place < size →
              data (place - offset.toNat) = content place) := by
  obtain ⟨⟨name, isName, located⟩, code, slot'', opened', created,
    lookup', ok⟩ :=
    openTarget_resolved wellFormed sound resolved dirSlots 4 slot
  rw [lookup, Option.some.injEq, Prod.mk.injEq, Prod.mk.injEq] at lookup'
  obtain ⟨rfl, rfl, rfl⟩ := lookup'
  have nonzero : raw.head? ≠ some 0x00 := by
    rw [isName]
    exact toFatName_nonzero fun byte member =>
      cString byte (located.bytes byte member)
  have width : raw.length = 11 := by
    rw [isName]
    exact length_toFatName name
  have dotless : raw.head? ≠ some 0x2e := by
    rw [isName]
    exact toFatName_head name
  have names {entry : Nat} (named : Names volume path entry) :
      Finds volume.mem raw slots entry := by
    obtain ⟨_, _, _, resolved', dirSlots', found⟩ := named
    rw [resolved, Option.some.injEq, Resolved.mk.injEq] at resolved'
    obtain ⟨_, _, sameCur, sameName⟩ := resolved'
    subst sameCur
    rwa [← sameName, dirSlots'.unique dirSlots] at found
  have whenAbsent (absent : ∀ other, ¬ Finds volume.mem raw slots other)
      (content : Bytes) (size : Nat) : ¬ Holds volume path content size := by
    intro holds
    obtain ⟨read, readEq, code, _⟩ := holds scratch
    rw [fatReadFile_absent wellFormed sound resolved dirSlots absent scratch,
      Option.some.injEq] at readEq
    subst readEq
    exact absurd code Nat.one_ne_zero
  by_cases zero : r = 0
  · subst zero
    constructor
    · intro data size volume' result
      rw [fatWriteFile_opened ok, if_neg (by decide), if_neg (by decide)]
        at result
      constructor
      · intro atomic entry named
        have found := names named
        cases created with
        | @found other isFound =>
            rw [isFound.unique found] at result
            exact writeFile_low ⟨wellFormed, sound, dotless, slots,
              dirSlots, found.member, fun _ => found, by simp⟩ width
              size.toNat_lt result atomic
        | vacant absent _ => exact absurd found (absent entry)
        | grown absent _ _ _ _ _ _ _ _ => exact absurd found (absent entry)
      · intro low
        have notDirectory : ¬ NamesDirectory volume path := by
          rintro ⟨entry, named, isDir⟩
          obtain ⟨clusters, chain⟩ := wellFormed.chain entry named.reach
          exact chain.directory isDir
            ((chain.first_low_iff wellFormed.geometry).mp
              (low entry named))
        obtain ⟨entry, existing, rfl, aimed⟩ := aimed_of_lookup wellFormed
          sound resolved dirSlots notDirectory created
        refine aimed.writeFile_atomic size.toNat_lt result ?_
        rintro rfl
        generalize slotEq : slotAt entry true = slot' at created
        have address := congrArg DirSlot.address slotEq
        have flag := congrArg DirSlot.existing slotEq
        rw [slotAt_address] at address
        rw [slotAt_existing] at flag
        cases created with
        | @found other found =>
            rw [slotAt_address] at address
            subst address isName
            exact low entry ⟨cur, name, slots, resolved, dirSlots, found⟩
        | vacant _ _ => cases flag
        | grown _ _ _ _ _ _ _ _ _ => cases flag
    · intro data offset len volume' notDirectory result
      have positive : 1 ≤ len.toNat := by
        by_contra none
        rw [fatWriteAt, if_pos (by omega)] at result
        cases result
      rw [fatWriteAt_opened ok positive, if_neg (by decide),
        if_neg (by decide)] at result
      obtain ⟨entry, existing, rfl, aimed⟩ := aimed_of_lookup wellFormed
        sound resolved dirSlots notDirectory created
      obtain ⟨old, oldChain⟩ := aimed.isOpened.oldChain
      obtain ⟨position, exhausted, spliced⟩ :=
        spliceFile_full aimed.isOpened aimed.regular oldChain width nonzero
          positive offset.toNat_lt len.toNat_lt result
      constructor
      · intro atomic
        exact ⟨aimed.writeAt_none oldChain exhausted spliced atomic,
          fun content size holds place low high => aimed.writeAt_same
            oldChain exhausted spliced atomic content size holds place low
              high⟩
      · rintro ⟨none, same⟩
        exact aimed.writeAt_atomic oldChain exhausted spliced none same
  · cases created with
    | found _ => exact absurd rfl zero
    | vacant _ _ => exact absurd rfl zero
    | grown _ _ _ _ _ _ _ _ _ => exact absurd rfl zero
    | rootFull _ _ _ =>
        constructor
        · intro data size volume' result
          rw [fatWriteFile_opened ok] at result
          simp at result
        · intro data offset len volume' _ result
          have positive : 1 ≤ len.toNat := by
            by_contra none
            rw [fatWriteAt, if_pos (by omega)] at result
            cases result
          rw [fatWriteAt_opened ok positive] at result
          simp at result
    | noCluster _ absent _ exhausted =>
        constructor
        · intro data size volume' result
          rw [fatWriteFile_opened ok, if_neg (by decide),
            if_neg (by decide)] at result
          rw [replaceFile_unset wellFormed.geometry sound exhausted
            (unset rfl) result]
          exact iff_of_true (Atomic.refl wellFormed cur)
            fun entry named => absurd (names named) (absent entry)
        · intro data offset len volume' _ result
          have positive : 1 ≤ len.toNat := by
            by_contra none
            rw [fatWriteAt, if_pos (by omega)] at result
            cases result
          rw [fatWriteAt_opened ok positive, if_neg (by decide),
            if_neg (by decide), spliceFile_unset wellFormed.geometry
              exhausted (unset rfl) width, Option.some.injEq,
            Prod.mk.injEq] at result
          rw [← result.2]
          exact iff_of_true (Atomic.refl wellFormed cur)
            ⟨exhausted, fun content size holds =>
              absurd holds (whenAbsent absent content size)⟩

/-! `/B` on the full volume. -/

def sampleBig : CString := [0x2f, 0x42]

theorem sampleBig_atomic :
    ∃ r slot' opened, dirLookup sampleFull 0 (toFatName [0x42]) .unset true =
        some (r, slot', opened) ∧
      (∀ data (size : UInt32) volume',
        fatWriteFile sampleFull .unset sampleBig data size.toNat =
            some (3, volume') →
          (Atomic sampleFull volume' 0 ↔
            ∀ entry, Names sampleFull sampleBig entry →
              direntFirst sampleFull.mem entry < 2)) ∧
      ∀ data (offset len : UInt32) volume',
        ¬ NamesDirectory sampleFull sampleBig →
        fatWriteAt sampleFull .unset sampleBig offset.toNat data
            len.toNat = some (3, volume') →
          (Atomic sampleFull volume' 0 ↔ opened.free = [] ∧
            ∀ content size, Holds sampleFull sampleBig content size →
              ∀ place, offset.toNat ≤ place → place < size →
                data (place - offset.toNat) = content place) := by
  obtain ⟨wellFormed, sound⟩ := sampleFull_wellFormed
  have dirSlots : DirSlots sampleFull 0 (rootSlots sampleFull.bpb) := .root
  have resolved : resolvePath sampleFull sampleBig =
      some ⟨0, false, 0, toFatName [0x42]⟩ := by
    decide +kernel
  have cString : ∀ byte ∈ sampleBig, byte ≠ 0 := by decide +kernel
  obtain ⟨r, slot', opened, lookup, _⟩ := dirLookup_create wellFormed sound
    dirSlots (toFatName [0x42]) .unset
  exact ⟨r, slot', opened, lookup, outOfSpace_atomic wellFormed sound
    cString resolved dirSlots lookup fun _ => rfl⟩

/-- Both calls return 3 for 600 bytes.  After the first the entry refers to
a free cluster; after the second the old bytes are gone. -/
theorem sampleBig_damaged :
    WellFormed sampleFull ∧ sampleFull.disk.Sound ∧
      fatStat sampleFull sampleBig =
        some (.ok ⟨[0x42], 512, 3, attrArchive⟩) ∧
      (fatReadFile sampleFull sampleBig scratch).map
          (fun read => (read.size, read.dest 0)) = some (512, 9) ∧
      (fatWriteFile sampleFull .unset sampleBig (fun _ => 5) 600).map
          Prod.fst = some 3 ∧
      fatStat (sampleFull.after (fatWriteFile sampleFull .unset sampleBig
          (fun _ => 5) 600)) sampleBig =
        some (.ok ⟨[0x42], 512, 3, attrArchive⟩) ∧
      (sampleFull.after (fatWriteFile sampleFull .unset sampleBig
          (fun _ => 5) 600)).next 3 = 0 ∧
      (fatWriteAt sampleFull .unset sampleBig 0 (fun _ => 5) 600).map
          Prod.fst = some 3 ∧
      (fatReadFile (sampleFull.after (fatWriteAt sampleFull .unset
          sampleBig 0 (fun _ => 5) 600)) sampleBig scratch).map
          (fun read => (read.size, read.dest 0)) = some (512, 5) := by
  refine ⟨sampleFull_wellFormed.1, sampleFull_wellFormed.2, ?_⟩
  decide +kernel

end LoafOs
