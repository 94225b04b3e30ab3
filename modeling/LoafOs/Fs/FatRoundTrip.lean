import LoafOs.Fs.FatFrame
import LoafOs.Fs.FatRun

/-!
# Writing a file and reading it back

`fat_write_file` with enough clusters stores the data under the path, and
every other path keeps its `fat_stat` and its `fat_read_file`.  Only the
parent directory, when it is itself read as a file, shows the new entry.
-/

namespace LoafOs

/-- The other path leads to the entry that the path leads to. -/
def SameTarget (volume : Volume) (path other : CString) : Prop :=
  ∃ entry, Names volume path entry ∧ Names volume other entry

/-- The other path leads to the directory that holds the last component of
the path. -/
def ParentPath (volume : Volume) (path other : CString) : Prop :=
  ∃ cur raw entry, resolvePath volume path = some ⟨0, false, cur, raw⟩ ∧
    Names volume other entry ∧ DirAt volume cur entry

/-- Every other path keeps its status, and its contents unless it leads to
the directory that holds the target. -/
structure OthersKept (volume volume' : Volume) (path : CString) : Prop where
  stat : ∀ other stat, fatStat volume other = some (.ok stat) →
    ¬ SameTarget volume path other →
      fatStat volume' other = some (.ok stat)
  read : ∀ other stat dest, fatStat volume other = some (.ok stat) →
    ¬ SameTarget volume path other → ¬ ParentPath volume path other →
      fatReadFile volume' other dest = fatReadFile volume other dest

/-- Every directory keeps its entry; its chain may gain clusters at the
end. -/
def DirectoriesKept (volume volume' : Volume) : Prop :=
  ∀ dir clusters, Reach volume dir → IsDir volume.mem dir →
    Chain volume dir clusters →
      Reach volume' dir ∧ SameEntry volume'.mem dir volume.mem dir ∧
        ∃ more, Chain volume' dir (clusters ++ more)

/-- Clusters for `size` bytes under a name in a directory: the clusters of
the old file count as free, and a full directory needs one more. -/
structure Room (volume : Volume) (cur : Nat) (raw : List UInt8)
    (slots : List Nat) (size : Nat) : Prop where
  replacing : ∀ entry clusters, Finds volume.mem raw slots entry →
    Chain volume entry clusters →
      clustersFor volume.bpb size ≤ volume.free.length + clusters.length
  adding : (∀ entry, ¬ Finds volume.mem raw slots entry) →
    (∃ slot ∈ slots, Vacant volume.mem slot) →
      clustersFor volume.bpb size ≤ volume.free.length
  extending : (∀ entry, ¬ Finds volume.mem raw slots entry) →
    (∀ slot ∈ slots, ¬ Vacant volume.mem slot) →
      cur ≠ 0 ∧ clustersFor volume.bpb size + 1 ≤ volume.free.length

section Counting

variable {volume released opened : Volume} {cur entry size : Nat}
  {raw : List UInt8} {slots old : List Nat} {slot : DirSlot}
  {existing : Bool}

/-- The clusters of the old chain become free. -/
theorem Released.free_length
    (isReleased : Released volume released entry old) :
    volume.free.length + old.length ≤ released.free.length := by
  have oldInside : ∀ cluster ∈ old, 2 ≤ cluster ∧
      cluster < volume.bpb.totalClusters ∧ volume.next cluster ≠ 0 := by
    intro cluster member
    by_cases reach : Reach volume entry
    · have chain := isReleased.chain reach
      have linked := chain.linked cluster member
      exact ⟨chain.low cluster member, chain.inside cluster member,
        by omega⟩
    · rw [isReleased.none reach] at member
      cases member
  have oldNodup : old.Nodup := by
    by_cases reach : Reach volume entry
    · exact (isReleased.chain reach).path.nodup
    · rw [isReleased.none reach]
      exact List.nodup_nil
  have freeNodup : volume.free.Nodup := freeClusters_nodup _ _
  have nodup : (volume.free ++ old).Nodup := by
    refine List.nodup_append'.mpr ⟨freeNodup, oldNodup, ?_⟩
    intro cluster isFree inOld
    exact (oldInside cluster inOld).2.2 (Volume.mem_free.mp isFree).2.2
  have inside : volume.free ++ old ⊆ released.free := by
    intro cluster member
    rw [Volume.mem_free, isReleased.bpb, isReleased.next]
    rcases List.mem_append.mp member with isFree | inOld
    · obtain ⟨low, high, zero⟩ := Volume.mem_free.mp isFree
      exact ⟨low, high, by rw [zero, ite_self]⟩
    · obtain ⟨low, high, _⟩ := oldInside cluster inOld
      exact ⟨low, high, if_pos inOld⟩
  have bound := (nodup.subperm inside).length_le
  rwa [List.length_append] at bound

/-- Extending a directory takes one cluster. -/
theorem Grown.free_eq {dir fresh : Nat} {clusters rest : List Nat}
    (chain : Chain volume dir clusters) (nonempty : clusters ≠ [])
    (free : volume.free = fresh :: rest)
    (grown : Grown volume opened (clusters.getLast nonempty) fresh) :
    opened.free = rest := by
  have isFree : fresh ∈ volume.free := by
    rw [free]
    exact List.mem_cons_self
  obtain ⟨low, _, zero⟩ := Volume.mem_free.mp isFree
  have linked := chain.linked _ (List.getLast_mem nonempty)
  have different : fresh ≠ clusters.getLast nonempty := by
    intro same
    rw [same] at zero
    omega
  rw [Volume.free, grown.kept.bpb]
  refine freeClusters_take free ?_ ?_
  · rw [grown.next, Function.update_of_ne different, Function.update_self]
    decide
  · intro cluster other
    rw [grown.next]
    by_cases last : cluster = clusters.getLast nonempty
    · rw [last, Function.update_self]
      omega
    · rw [Function.update_of_ne last, Function.update_of_ne other]

/-- With enough room the lookup hands out a slot. -/
theorem Room.lookup {code : Nat} {slot' : DirSlot}
    (room : Room volume cur raw slots size)
    (created : CreateResult volume cur raw slots slot code slot' opened) :
    code = 0 := by
  cases created with
  | found _ => rfl
  | vacant _ _ => rfl
  | rootFull root absent full =>
      exact absurd root (room.extending absent full).1
  | noCluster _ absent full exhausted =>
      have enough := (room.extending absent full).2
      rw [exhausted] at enough
      exact absurd enough (Nat.not_succ_le_zero _)
  | grown _ _ _ _ _ _ _ _ _ => rfl

/-- With enough room the file fits after its old chain is released. -/
theorem Room.fits (room : Room volume cur raw slots size)
    (created : CreateResult volume cur raw slots slot 0
      (slotAt entry existing) opened)
    (isOpened : Opened opened cur raw entry existing)
    (isReleased : Released opened released entry old) :
    clustersFor opened.bpb size ≤ released.free.length := by
  have freed := isReleased.free_length
  generalize slotEq : slotAt entry existing = slot' at created
  have address := congrArg DirSlot.address slotEq
  have flag := congrArg DirSlot.existing slotEq
  rw [slotAt_address] at address
  rw [slotAt_existing] at flag
  cases created with
  | @found other found =>
      rw [slotAt_address] at address
      rw [slotAt_existing] at flag
      subst address flag
      have enough := room.replacing entry old found
        (isReleased.chain isOpened.reach)
      omega
  | vacant absent first =>
      have enough := room.adding absent
        ⟨_, first.member, first.vacant⟩
      omega
  | @grown opened dir fresh clusters rest absent full reach isDir chain
      nonempty first free grown =>
      have enough := (room.extending absent full).2
      have left := grown.free_eq chain nonempty free
      rw [free, List.length_cons] at enough
      rw [grown.kept.bpb]
      rw [left] at freed
      omega

end Counting

/-! ## The entry is found again -/

section Found

variable {volume volume' opened : Volume} {path : CString}
  {cur entry : Nat} {raw : List UInt8} {slots old new : List Nat}
  {slot : DirSlot} {existing : Bool}

/-- Rewriting the entry that was found keeps it found. -/
theorem Finds.rewritten {mem mem' : Bytes} {target : List UInt8}
    {slots more : List Nat} {entry : Nat}
    (found : Finds mem target slots entry)
    (same : ∀ slot ∈ slots, slot ≠ entry →
      SameEntry mem' slot mem slot)
    (matched : Matches mem' target entry) :
    Finds mem' target (slots ++ more) entry := by
  induction found with
  | here _ => exact .here matched
  | @later slot entry rest going other found inductionHypothesis =>
      by_cases here : slot = entry
      · rw [here]
        exact .here matched
      have kept := same slot List.mem_cons_self here
      refine .later ?_ ?_ (inductionHypothesis
        (fun slot member => same slot (List.mem_cons_of_mem _ member))
        matched)
      · rwa [kept.head]
      · rwa [kept.matches_iff]

theorem Edited.names (edited : Edited opened volume' entry old new)
    (isOpened : Opened opened cur raw entry existing)
    (namesKept : NamesKept (fun other => other ≠ entry) opened volume')
    (named : direntName volume'.mem entry = raw)
    (live : Live volume'.mem entry) {name : CString}
    (isName : raw = toFatName name)
    (resolved : resolvePath volume' path = some ⟨0, false, cur, raw⟩) :
    Names volume' path entry := by
  obtain ⟨slots, dirSlots, member, whenFound, whenNew⟩ := isOpened.found
  obtain ⟨more, dirSlots', _⟩ := namesKept cur slots dirSlots
  have matched : Matches volume'.mem raw entry := ⟨live.1, named⟩
  have same : ∀ slot ∈ slots, slot ≠ entry →
      SameEntry volume'.mem slot opened.mem slot :=
    fun slot inSlots different =>
      edited.other_entry isOpened.wellFormed isOpened.treeSlot
        (dirSlots.treeSlot inSlots) different
  have found : Finds volume'.mem raw (slots ++ more) entry := by
    cases existing with
    | true => exact (whenFound rfl).rewritten same matched
    | false =>
        obtain ⟨first, absent⟩ := whenNew rfl
        exact first.finds absent same matched
  subst isName
  exact ⟨cur, name, slots ++ more, resolved, dirSlots', found⟩

/-- The entry of the call is the one that the path leads to, if it was
there before. -/
theorem CreateResult.sameTarget (wellFormed : WellFormed volume)
    (created : CreateResult volume cur raw slots slot 0
      (slotAt entry existing) opened)
    (isOpened : Opened opened cur raw entry existing)
    (resolved : resolvePath volume path = some ⟨0, false, cur, raw⟩)
    (dirSlots : DirSlots volume cur slots) {name : CString}
    (isName : raw = toFatName name) {other : CString}
    (names : Names volume other entry) : SameTarget volume path other := by
  have reach := (created.reach wellFormed names.reach).1
  cases existing with
  | false => exact absurd reach isOpened.not_reach
  | true =>
      generalize slotEq : slotAt entry true = slot' at created
      have address := congrArg DirSlot.address slotEq
      have flag := congrArg DirSlot.existing slotEq
      rw [slotAt_address] at address
      rw [slotAt_existing] at flag
      cases created with
      | @found other' found =>
          rw [slotAt_address] at address
          subst address isName
          exact ⟨entry, ⟨cur, name, slots, resolved, dirSlots, found⟩,
            names⟩
      | vacant _ _ => cases flag
      | grown _ _ _ _ _ _ _ _ _ => cases flag

/-- The lookup of a call whose path leads into the tree. -/
theorem openTarget_resolved (wellFormed : WellFormed volume)
    (sound : volume.disk.Sound)
    (resolved : resolvePath volume path = some ⟨0, false, cur, raw⟩)
    (dirSlots : DirSlots volume cur slots) (rootCode : Nat)
    (slot : DirSlot) :
    (∃ name, raw = toFatName name ∧
      Located volume path cur slots name) ∧
    ∃ code slot' opened,
      CreateResult volume cur raw slots slot code slot' opened ∧
      dirLookup volume cur raw slot true = some (code, slot', opened) ∧
      openTarget volume path rootCode slot true =
        some (.ok (raw, cur, code, slot', opened)) := by
  obtain ⟨_, resolvedEq, ends⟩ := resolvePath_ends wellFormed sound path
  rw [resolved] at resolvedEq
  cases resolvedEq
  obtain ⟨_, name, _, nameEq, bytes⟩ := ends rfl rfl
  obtain ⟨code, slot', opened, lookup, created⟩ :=
    dirLookup_create wellFormed sound dirSlots raw slot
  change raw = toFatName name at nameEq
  refine ⟨⟨name, nameEq, ⟨by rw [resolved, nameEq], dirSlots, bytes⟩⟩,
    code, slot', opened, created, lookup, ?_⟩
  rw [openTarget, resolved]
  simp [lookup]

end Found

/-! ## What a call that stores under a path leaves alone -/

/-- The lookup of the call has handed out a slot, and no directory is in
it. -/
structure Aimed (volume : Volume) (path : CString) (cur : Nat)
    (raw : List UInt8) (slots : List Nat) (slot : DirSlot)
    (opened : Volume) (entry : Nat) (existing : Bool) : Prop where
  wellFormed : WellFormed volume
  sound : volume.disk.Sound
  resolved : resolvePath volume path = some ⟨0, false, cur, raw⟩
  dirSlots : DirSlots volume cur slots
  isName : ∃ name, raw = toFatName name
  created : CreateResult volume cur raw slots slot 0
    (slotAt entry existing) opened
  isOpened : Opened opened cur raw entry existing
  regular : Reach opened entry → ¬ IsDir opened.mem entry

section Aimed

variable {volume volume' opened : Volume} {path : CString}
  {cur entry : Nat} {raw : List UInt8} {slots old new : List Nat}
  {slot : DirSlot} {existing : Bool}

theorem Aimed.width
    (aimed : Aimed volume path cur raw slots slot opened entry existing) :
    raw.length = 11 := by
  obtain ⟨name, isName⟩ := aimed.isName
  rw [isName]
  exact length_toFatName name

/-- A directory after the lookup of a call. -/
theorem CreateResult.directoriesKept (wellFormed : WellFormed volume)
    (created : CreateResult volume cur raw slots slot 0
      (slotAt entry existing) opened) :
    DirectoriesKept volume opened := by
  intro dir clusters reach isDir chain
  have kept := created.reach wellFormed reach
  refine ⟨kept.1, kept.2, ?_⟩
  generalize slotAt entry existing = slot' at created
  cases created with
  | found _ => exact ⟨[], by rwa [List.append_nil]⟩
  | vacant _ _ => exact ⟨[], by rwa [List.append_nil]⟩
  | @grown opened dir' fresh clusters' rest absent full reach' isDir'
      chain' nonempty first free grown =>
      have isFree : fresh ∈ volume.free := by
        rw [free]
        exact List.mem_cons_self
      obtain ⟨same, change⟩ :=
        grown.entryChange wellFormed reach' isDir' chain' nonempty isFree
      by_cases itself : dir = dir'
      · subst itself
        rw [chain.unique chain']
        exact ⟨[fresh],
          change.newChain (same.live_iff.mpr reach.live)⟩
      · refine ⟨[], ?_⟩
        rw [List.append_nil]
        exact change.chain wellFormed reach itself chain

/-- A directory after the change of the target. -/
theorem Edited.directoriesKept
    (edited : Edited opened volume' entry old new)
    (isOpened : Opened opened cur raw entry existing)
    (regular : Reach opened entry → ¬ IsDir opened.mem entry) :
    DirectoriesKept opened volume' := by
  intro dir clusters reach isDir chain
  have change := edited.entryChange isOpened.wellFormed isOpened.treeSlot
  have different : dir ≠ entry := by
    rintro rfl
    exact regular reach isDir
  refine ⟨(change.reach_iff isOpened.wellFormed dir).mpr
      (Or.inr ⟨different, reach⟩),
    change.entries dir reach.treeSlot different, [], ?_⟩
  rw [List.append_nil]
  exact change.chain isOpened.wellFormed reach different chain

theorem DirectoriesKept.trans (first : DirectoriesKept volume opened)
    (second : DirectoriesKept opened volume') :
    DirectoriesKept volume volume' := by
  intro dir clusters reach isDir chain
  obtain ⟨reach', same, more, chain'⟩ :=
    first dir clusters reach isDir chain
  obtain ⟨reach'', same', more', chain''⟩ :=
    second dir _ reach' (same.isDir_iff.mpr isDir) chain'
  refine ⟨reach'', fun index bound =>
    (same' index bound).trans (same index bound), more ++ more', ?_⟩
  rwa [List.append_assoc] at chain''

/-- Everything that a change of the target keeps. -/
theorem Aimed.kept
    (aimed : Aimed volume path cur raw slots slot opened entry existing)
    (edited : Edited opened volume' entry old new)
    (named : direntName volume'.mem entry = raw)
    (live : Live volume'.mem entry) :
    WellFormed volume' ∧ volume'.bpb = volume.bpb ∧
      Names volume' path entry ∧ OthersKept volume volume' path ∧
      DirectoriesKept volume volume' := by
  have isOpened := aimed.isOpened
  have namesKept :=
    edited.namesKept isOpened aimed.regular named live
  have wellFormed' :=
    edited.wellFormed isOpened.wellFormed isOpened.treeSlot
  have framed := aimed.created.framed_edited aimed.wellFormed aimed.sound
    (edited.framed isOpened aimed.regular namesKept)
  obtain ⟨name, isName⟩ := aimed.isName
  have same {other : CString} (names : Names volume other entry) :
      SameTarget volume path other :=
    aimed.created.sameTarget aimed.wellFormed isOpened aimed.resolved
      aimed.dirSlots isName names
  refine ⟨wellFormed', framed.bpb,
    edited.names isOpened namesKept named live isName
      (framed.resolved path _ aimed.resolved rfl), ⟨?_, ?_⟩,
    (aimed.created.directoriesKept aimed.wellFormed).trans
      (edited.directoriesKept isOpened aimed.regular)⟩
  · intro other stat statEq different
    refine framed.fatStat_eq aimed.wellFormed aimed.sound wellFormed'
      edited.kept.sound statEq ?_
    rintro _ names rfl
    exact different (same names)
  · intro other stat dest statEq different notParent
    refine framed.fatReadFile_eq aimed.wellFormed aimed.sound wellFormed'
      edited.kept.sound statEq ?_ dest
    intro found names
    constructor
    · rintro rfl
      exact different (same names)
    · intro isParent
      exact notParent
        ⟨cur, raw, found, aimed.resolved, names, isParent⟩

/-- The path leads to the entry of a directory. -/
def NamesDirectory (volume : Volume) (path : CString) : Prop :=
  ∃ entry, Names volume path entry ∧ IsDir volume.mem entry

theorem not_namesDirectory (wellFormed : WellFormed volume)
    (sound : volume.disk.Sound)
    (notDirectory : ¬ DirectoryPath volume path) :
    ¬ NamesDirectory volume path := by
  rintro ⟨found, names, isDir⟩
  exact notDirectory ⟨_, names.fatStat_eq wellFormed sound, isDir⟩

/-- Every lookup that hands out a slot aims the call. -/
theorem aimed_of_lookup (wellFormed : WellFormed volume)
    (sound : volume.disk.Sound)
    (resolved : resolvePath volume path = some ⟨0, false, cur, raw⟩)
    (dirSlots : DirSlots volume cur slots)
    (notDirectory : ¬ NamesDirectory volume path) {slot' : DirSlot}
    (created : CreateResult volume cur raw slots slot 0 slot' opened) :
    ∃ entry existing, slot' = slotAt entry existing ∧
      Aimed volume path cur raw slots slot opened entry existing := by
  obtain ⟨⟨name, isName, located⟩, _⟩ :=
    openTarget_resolved wellFormed sound resolved dirSlots 4 slot
  obtain ⟨entry, existing, rfl, isOpened, _⟩ :=
    created.opened wellFormed sound dirSlots
      (isName ▸ toFatName_head name)
  refine ⟨entry, existing, rfl, wellFormed, sound, resolved, dirSlots,
    ⟨name, isName⟩, created, isOpened, ?_⟩
  intro reach isDir
  cases existing with
  | false => exact isOpened.not_reach reach
  | true =>
      generalize slotEq : slotAt entry true = slot' at created
      have address := congrArg DirSlot.address slotEq
      have flag := congrArg DirSlot.existing slotEq
      rw [slotAt_address] at address
      rw [slotAt_existing] at flag
      cases created with
      | @found other found =>
          rw [slotAt_address] at address
          subst address isName
          exact notDirectory ⟨entry,
            ⟨cur, name, slots, resolved, dirSlots, found⟩, isDir⟩
      | vacant _ _ => cases flag
      | grown _ _ _ _ _ _ _ _ _ => cases flag

end Aimed

/-! ## The round trip -/

section RoundTrip

variable {volume : Volume} {path : CString} {cur size : Nat}
  {raw : List UInt8} {slots : List Nat}

/-- Reading back what a call has stored. -/
theorem Stored.fatReadFile {volume' : Volume} {entry : Nat}
    {clusters : List Nat} {data : Bytes}
    (wellFormed : WellFormed volume') (sound : volume'.disk.Sound)
    (names : Names volume' path entry)
    (chain : Chain volume' entry clusters)
    (isSize : direntSize volume'.mem entry = size)
    (stored : Stored volume'.mem volume'.bpb clusters data size)
    (dest : Bytes) :
    ∃ read, fatReadFile volume' path dest = some read ∧ read.code = 0 ∧
      read.size = size ∧
      read.stored = clusters.length * volume'.bpb.clusterSize ∧
      ∀ index < read.stored,
        read.dest index = if index < size then data index else 0 := by
  refine ⟨_, names.fatReadFile_eq wellFormed sound chain dest, rfl,
    isSize, rfl, ?_⟩
  intro index bound
  have positive := wellFormed.geometry.clusterSize_pos
  have number : index / volume'.bpb.clusterSize < clusters.length :=
    Nat.div_lt_of_lt_mul (by rwa [Nat.mul_comm] at bound)
  have small := Nat.mod_lt index positive
  have split : index / volume'.bpb.clusterSize * volume'.bpb.clusterSize +
      index % volume'.bpb.clusterSize = index := by
    rw [Nat.mul_comm]
    exact Nat.div_add_mod index _
  have here : gather volume'.mem volume'.bpb clusters 0 dest
        (0 + index / volume'.bpb.clusterSize * volume'.bpb.clusterSize +
          index % volume'.bpb.clusterSize) =
      volume'.mem (volume'.bpb.clusterAddr
        clusters[index / volume'.bpb.clusterSize] +
          index % volume'.bpb.clusterSize) :=
    gather_inside clusters 0 dest (index / volume'.bpb.clusterSize) number
      (index % volume'.bpb.clusterSize) small
  have there := stored (index / volume'.bpb.clusterSize) number
    (index % volume'.bpb.clusterSize) small
  rw [Nat.zero_add, split] at here
  rw [split] at there
  exact here.trans there

theorem fatWriteFile_roundTrip (wellFormed : WellFormed volume)
    (sound : volume.disk.Sound) (ascii : Ascii path)
    (resolved : resolvePath volume path = some ⟨0, false, cur, raw⟩)
    (dirSlots : DirSlots volume cur slots)
    (notDirectory : ¬ DirectoryPath volume path) (slot : DirSlot)
    (data : Bytes) (sizeBound : size < 2 ^ 32)
    (room : Room volume cur raw slots size) :
    ∃ volume', fatWriteFile volume slot path data size =
        some (0, volume') ∧
      (∀ dest, ∃ read, fatReadFile volume' path dest = some read ∧
        read.code = 0 ∧ read.size = size ∧
        read.stored =
          clustersFor volume.bpb size * volume.bpb.clusterSize ∧
        ∀ index < read.stored,
          read.dest index = if index < size then data index else 0) ∧
      OthersKept volume volume' path := by
  obtain ⟨⟨name, isName, located⟩, code, slot', opened, created, _, ok⟩ :=
    openTarget_resolved wellFormed sound resolved dirSlots 4 slot
  obtain rfl := room.lookup created
  obtain ⟨entry, existing, rfl, aimed⟩ := aimed_of_lookup wellFormed sound
    resolved dirSlots (not_namesDirectory wellFormed sound notDirectory)
    created
  have isOpened := aimed.isOpened
  have storable : Storable raw := by
    rw [isName]
    exact located.storable ascii.nameable
  obtain ⟨released, old, isReleased, outcome⟩ :=
    replaceFile_eq isOpened aimed.width sizeBound data
  have enough := room.fits created isOpened isReleased
  have result := fatWriteFile_opened ok data size
  rw [if_neg (by decide), if_neg (by decide)] at result
  rw [← result] at outcome
  generalize fatWriteFile volume slot path data size = call at outcome
  cases outcome with
  | full short _ _ _ _ => exact absurd enough (Nat.not_le.mpr short)
  | @stored volume' _ replaced =>
      obtain ⟨wellFormed', bpb, names, others, _⟩ := aimed.kept
        (replaced.edited isOpened isReleased aimed.regular storable)
        replaced.entryIs.name (replaced.live isOpened storable)
      refine ⟨volume', rfl, ?_, others⟩
      intro dest
      have chain := replaced.chain isReleased isOpened.wellFormed.geometry
      have stored : Stored volume'.mem volume'.bpb
          (released.free.take (clustersFor opened.bpb size)) data
          size := by
        rw [replaced.kept.bpb]
        exact replaced.stored
      obtain ⟨read, readEq, code, isSize, count, bytes⟩ :=
        stored.fatReadFile wellFormed' replaced.kept.sound names chain
          replaced.entryIs.size dest
      refine ⟨read, readEq, code, isSize, ?_, bytes⟩
      rw [count, replaced.length, ← replaced.kept.bpb, bpb]

end RoundTrip

/-! The sample file: it fits, and the directory that gets it, read as a
file, changes. -/

theorem sampleFile_resolved : resolvePath sampleDirectory sampleFile =
    some ⟨0, false, 2, toFatName [0x41]⟩ := by
  decide +kernel

theorem sampleDirectory_wellFormed :
    WellFormed sampleDirectory ∧ sampleDirectory.disk.Sound :=
  sampleDirectory_step.wellFormed sampleVolume_wellFormed blankDisk_sound

theorem sampleFile_room (slots : List Nat) :
    Room sampleDirectory 2 (toFatName [0x41]) slots 600 := by
  have free : sampleDirectory.free.length = 3 := by decide +kernel
  have needed : clustersFor sampleDirectory.bpb 600 = 2 := by
    decide +kernel
  refine ⟨?_, ?_, ?_⟩
  · intro _ _ _ _
    omega
  · intro _ _
    omega
  · intro _ _
    omega

theorem sampleFile_slots : ∃ slots, DirSlots sampleDirectory 2 slots := by
  obtain ⟨_, resolvedEq, ends⟩ := resolvePath_ends
    sampleDirectory_wellFormed.1 sampleDirectory_wellFormed.2 sampleFile
  rw [sampleFile_resolved] at resolvedEq
  cases resolvedEq
  obtain ⟨slots, _, dirSlots, _⟩ := ends rfl rfl
  exact ⟨slots, dirSlots⟩

theorem sampleFile_roundTrip :
    ∃ volume', fatWriteFile sampleDirectory .unset sampleFile
        (fun _ => 7) 600 = some (0, volume') ∧
      (∀ dest, ∃ read, fatReadFile volume' sampleFile dest = some read ∧
        read.code = 0 ∧ read.size = 600 ∧
        read.stored = clustersFor sampleDirectory.bpb 600 *
          sampleDirectory.bpb.clusterSize ∧
        ∀ index < read.stored,
          read.dest index = if index < 600 then 7 else 0) ∧
      OthersKept sampleDirectory volume' sampleFile := by
  obtain ⟨slots, dirSlots⟩ := sampleFile_slots
  exact fatWriteFile_roundTrip sampleDirectory_wellFormed.1
    sampleDirectory_wellFormed.2 sampleStored_step.ascii
    sampleFile_resolved dirSlots
    (sampleStored_step.notDirectory trivial) .unset (fun _ => 7)
    (by decide) (sampleFile_room slots)

/-- All hypotheses of the round trip hold for `/D/A`, the path `/D` leads
elsewhere, and reading `/D` gives another result afterwards. -/
theorem sampleParent_changed :
    WellFormed sampleDirectory ∧ sampleDirectory.disk.Sound ∧
      Ascii sampleFile ∧
      (∃ slots, DirSlots sampleDirectory 2 slots ∧
        Room sampleDirectory 2 (toFatName [0x41]) slots 600) ∧
      fatStat sampleDirectory sampleFile = some (.error 1) ∧
      (fatStat sampleDirectory samplePath).isSome ∧
      fatWriteFile sampleDirectory .unset sampleFile (fun _ => 7) 600 =
        some (0, sampleStored) ∧
      (fatReadFile sampleDirectory samplePath scratch).map
          (fun read => (read.code, read.dest 64)) = some (0, 0) ∧
      (fatReadFile sampleStored samplePath scratch).map
          (fun read => (read.code, read.dest 64)) = some (0, 0x41) := by
  obtain ⟨slots, dirSlots⟩ := sampleFile_slots
  refine ⟨sampleDirectory_wellFormed.1, sampleDirectory_wellFormed.2,
    sampleStored_step.ascii, ⟨slots, dirSlots, sampleFile_room slots⟩,
    ?_, ?_, sampleStored_step.result, ?_, ?_⟩
  · decide +kernel
  · decide +kernel
  · decide +kernel
  · decide +kernel

end LoafOs
