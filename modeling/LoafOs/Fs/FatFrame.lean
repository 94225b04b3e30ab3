import LoafOs.Fs.FatRead
import LoafOs.Fs.FatWriteAt

/-!
# What a call leaves alone

A call changes one entry, the chain of that entry, and the directory that
holds it.  Every other path keeps its entry, its chain and the bytes on
the chain, so `fat_stat` and `fat_read_file` give the results they gave
before.
-/

namespace LoafOs

/-- An entry, its chain and the bytes on the chain are the same. -/
structure SameFile (volume volume' : Volume) (entry : Nat) : Prop where
  same : SameEntry volume'.mem entry volume.mem entry
  chain : ∀ clusters, Chain volume entry clusters →
    Chain volume' entry clusters
  bytes : ∀ clusters, Chain volume entry clusters →
    ∀ cluster ∈ clusters, ∀ index < volume.bpb.clusterSize,
      volume'.mem (volume.bpb.clusterAddr cluster + index) =
        volume.mem (volume.bpb.clusterAddr cluster + index)

/-- Paths keep their meaning, except those that lead to a `lost` entry,
and files keep their contents, except the `moved` ones. -/
structure Framed (lost moved : Nat → Prop) (volume volume' : Volume) :
    Prop where
  bpb : volume'.bpb = volume.bpb
  resolved : ∀ path resolved, resolvePath volume path = some resolved →
    resolved.code = 0 → resolvePath volume' path = some resolved
  names : ∀ path entry, Names volume path entry → ¬ lost entry →
    Names volume' path entry ∧
      SameEntry volume'.mem entry volume.mem entry
  files : ∀ entry, Reach volume entry → ¬ lost entry → ¬ moved entry →
    SameFile volume volume' entry

section Frames

variable {volume volume' volume'' : Volume} {lost moved : Nat → Prop}

theorem SameFile.refl (volume : Volume) (entry : Nat) :
    SameFile volume volume entry where
  same := fun _ _ => rfl
  chain := fun _ chain => chain
  bytes := fun _ _ _ _ _ _ => rfl

theorem SameFile.trans {entry : Nat} (bpb : volume'.bpb = volume.bpb)
    (first : SameFile volume volume' entry)
    (second : SameFile volume' volume'' entry) :
    SameFile volume volume'' entry where
  same := fun index bound =>
    (second.same index bound).trans (first.same index bound)
  chain := fun clusters chain =>
    second.chain clusters (first.chain clusters chain)
  bytes := by
    intro clusters chain cluster member index bound
    have step := second.bytes clusters (first.chain clusters chain) cluster
      member index (by rwa [bpb])
    rw [bpb] at step
    exact step.trans (first.bytes clusters chain cluster member index bound)

theorem Framed.refl (volume : Volume) : Framed lost moved volume volume where
  bpb := rfl
  resolved := fun _ _ result _ => result
  names := fun _ _ names _ => ⟨names, fun _ _ => rfl⟩
  files := fun entry _ _ _ => .refl volume entry

/-- A first change that loses nothing, followed by another one. -/
theorem Framed.trans {moved' : Nat → Prop}
    (first : Framed (fun _ => False) moved volume volume')
    (second : Framed lost moved' volume' volume'')
    (reach : ∀ entry, Reach volume entry → Reach volume' entry) :
    Framed lost (fun entry => moved entry ∨ moved' entry)
      volume volume'' where
  bpb := second.bpb.trans first.bpb
  resolved := fun path resolved result zero =>
    second.resolved path resolved (first.resolved path resolved result zero)
      zero
  names := by
    intro path entry names kept
    obtain ⟨names', same⟩ := first.names path entry names not_false
    obtain ⟨names'', same'⟩ := second.names path entry names' kept
    exact ⟨names'', fun index bound =>
      (same' index bound).trans (same index bound)⟩
  files := by
    intro entry isReach kept still
    rw [not_or] at still
    exact (first.files entry isReach not_false still.1).trans first.bpb
      (second.files entry (reach entry isReach) kept still.2)

theorem Framed.mono {lost' moved' : Nat → Prop}
    (framed : Framed lost moved volume volume')
    (moreLost : ∀ entry, lost entry → lost' entry)
    (moreMoved : ∀ entry, Reach volume entry → moved entry →
      moved' entry) :
    Framed lost' moved' volume volume' where
  bpb := framed.bpb
  resolved := framed.resolved
  names := fun path entry names kept =>
    framed.names path entry names fun gone => kept (moreLost entry gone)
  files := fun entry reach kept still =>
    framed.files entry reach (fun gone => kept (moreLost entry gone))
      fun gone => still (moreMoved entry reach gone)

/-- `fat_stat` of a path that keeps its meaning. -/
theorem Framed.fatStat_eq (framed : Framed lost moved volume volume')
    (wellFormed : WellFormed volume) (sound : volume.disk.Sound)
    (readable' : Readable volume') (sound' : volume'.disk.Sound)
    {path : CString} {stat : FatStat}
    (result : fatStat volume path = some (.ok stat))
    (kept : ∀ entry, Names volume path entry → ¬ lost entry) :
    fatStat volume' path = some (.ok stat) := by
  rcases fatStat_ok wellFormed sound result with root | ⟨entry, names⟩
  · obtain ⟨resolved, resolvedEq, zero, isRoot⟩ := root
    have root' : RootPath volume' path := ⟨resolved,
      framed.resolved path resolved resolvedEq zero, zero, isRoot⟩
    rw [root'.fatStat_eq, ← result,
      RootPath.fatStat_eq ⟨resolved, resolvedEq, zero, isRoot⟩]
  · obtain ⟨names', same⟩ := framed.names path entry names (kept entry names)
    rw [names'.fatStat_eq readable' sound', same.statOf_eq,
      ← names.fatStat_eq wellFormed sound, result]

/-- `fat_read_file` of a path that keeps its meaning and its contents. -/
theorem Framed.fatReadFile_eq (framed : Framed lost moved volume volume')
    (wellFormed : WellFormed volume) (sound : volume.disk.Sound)
    (readable' : Readable volume') (sound' : volume'.disk.Sound)
    {path : CString} {stat : FatStat}
    (result : fatStat volume path = some (.ok stat))
    (kept : ∀ entry, Names volume path entry →
      ¬ lost entry ∧ ¬ moved entry) (dest : Bytes) :
    fatReadFile volume' path dest = fatReadFile volume path dest := by
  rcases fatStat_ok wellFormed sound result with root | ⟨entry, names⟩
  · obtain ⟨resolved, resolvedEq, zero, isRoot⟩ := root
    have root' : RootPath volume' path := ⟨resolved,
      framed.resolved path resolved resolvedEq zero, zero, isRoot⟩
    rw [root'.fatReadFile_eq,
      RootPath.fatReadFile_eq ⟨resolved, resolvedEq, zero, isRoot⟩]
  · obtain ⟨notLost, notMoved⟩ := kept entry names
    obtain ⟨names', same⟩ := framed.names path entry names notLost
    obtain ⟨clusters, chain⟩ := wellFormed.chain entry names.reach
    have file := framed.files entry names.reach notLost notMoved
    rw [names'.fatReadFile_eq readable' sound'
        (file.chain clusters chain),
      names.fatReadFile_eq wellFormed sound chain, framed.bpb, same.size]
    congr 2
    exact gather_congr clusters 0 dest fun cluster member index bound =>
      file.bytes clusters chain cluster member index bound

end Frames

/-! ## The directory that holds an entry -/

/-- The directory whose first cluster is `cur`. -/
def DirAt (volume : Volume) (cur entry : Nat) : Prop :=
  IsDir volume.mem entry ∧ direntFirst volume.mem entry = cur

section Parent

variable {volume volume' : Volume} {cur entry other : Nat}
  {slots : List Nat}

/-- Only the directory in question has the slot in its clusters. -/
theorem DirSlots.holder (wellFormed : WellFormed volume)
    (dirSlots : DirSlots volume cur slots) (member : entry ∈ slots)
    {cluster : Nat} (reach : Reach volume other)
    (owned : Owns volume other cluster)
    (holds : entry ∈ clusterSlots volume.bpb cluster) :
    DirAt volume cur other := by
  cases dirSlots with
  | root =>
      have rootBounds := rootSlot_bounds member
      have clusterBounds := clusterSlot_bounds holds
      have behind := dataStart_le_clusterAddr volume.bpb cluster
      omega
  | @sub dir clusters dirReach isDir chain =>
      obtain ⟨cluster', inChain, holds'⟩ := List.mem_flatMap.mp member
      have owned' := chain.owns_iff.mpr inChain
      have same : cluster = cluster' := by
        by_contra different
        have bounds := clusterSlot_bounds holds
        have bounds' := clusterSlot_bounds holds'
        have apart :=
          clusterAddr_apart volume.bpb owned.low owned'.low different
        omega
      rw [same] at owned
      have itself := wellFormed.disjoint other dir cluster' reach dirReach
        owned owned'
      rw [itself]
      exact ⟨isDir, rfl⟩

/-- A slot of the tree lies outside a cluster that does not list it. -/
theorem TreeSlot.outside_of_not_mem (inTree : TreeSlot volume entry)
    {cluster : Nat} (low : 2 ≤ cluster)
    (absent : entry ∉ clusterSlots volume.bpb cluster) :
    entry + 32 ≤ volume.bpb.clusterAddr cluster ∨
      volume.bpb.clusterAddr cluster + volume.bpb.clusterSize ≤ entry := by
  rcases inTree with inRoot | ⟨dir, cluster', _, _, owned, holds⟩
  · have bounds := rootSlot_bounds inRoot
    have behind := dataStart_le_clusterAddr volume.bpb cluster
    omega
  · have different : cluster ≠ cluster' := by
      rintro rfl
      exact absent holds
    have bounds := clusterSlot_bounds holds
    have apart := clusterAddr_apart volume.bpb low owned.low different
    omega

/-- A change of one entry keeps every file that neither is the entry nor
holds it. -/
theorem EntryChange.sameFile {old new : List Nat}
    (change : EntryChange volume volume' entry old new)
    (wellFormed : WellFormed volume) (reach : Reach volume other)
    (different : other ≠ entry)
    (bytes : ∀ cluster, Owns volume other cluster → cluster ∉ new →
      ∀ index < volume.bpb.clusterSize,
        volume'.mem (volume.bpb.clusterAddr cluster + index) =
          volume.mem (volume.bpb.clusterAddr cluster + index)) :
    SameFile volume volume' other where
  same := change.entries other reach.treeSlot different
  chain := fun clusters chain =>
    change.chain wellFormed reach different chain
  bytes := by
    intro clusters chain cluster member index bound
    have owned := chain.owns_iff.mpr member
    exact bytes cluster owned
      (change.not_touched wellFormed reach different owned).2 index bound

end Parent

/-! ## Frames of the two parts of a call -/

section Calls

variable {volume volume' opened : Volume} {cur entry : Nat}
  {target : List UInt8} {slots : List Nat} {slot slot' : DirSlot}
  {existing : Bool} {old new : List Nat}

/-- The address of a byte of an owned cluster is outside other clusters. -/
theorem not_inClusters {bpb : Bpb} {clusters : List Nat} {cluster : Nat}
    (low : 2 ≤ cluster) (lows : ∀ other ∈ clusters, 2 ≤ other)
    (absent : cluster ∉ clusters) {index : Nat}
    (bound : index < bpb.clusterSize) :
    ¬ InClusters bpb clusters (bpb.clusterAddr cluster + index) := by
  rintro ⟨other, member, first, last⟩
  have different : cluster ≠ other := by
    rintro rfl
    exact absent member
  have apart := clusterAddr_apart bpb low (lows other member) different
  omega

/-- The lookup loses no name; a directory that it extends is the one it
searches. -/
theorem CreateResult.framed (wellFormed : WellFormed volume)
    (sound : volume.disk.Sound)
    (created : CreateResult volume cur target slots slot 0 slot' opened) :
    Framed (fun _ => False) (DirAt volume cur) volume opened := by
  cases created with
  | found _ => exact .refl volume
  | vacant _ _ => exact .refl volume
  | @grown opened dir fresh clusters rest absent full reach isDir chain
      nonempty first free grown =>
      have isFree : fresh ∈ volume.free := by
        rw [free]
        exact List.mem_cons_self
      have low := (Volume.mem_free.mp isFree).1
      obtain ⟨_, change⟩ :=
        grown.entryChange wellFormed reach isDir chain nonempty isFree
      have wellFormed' :=
        grown.wellFormed wellFormed reach isDir chain nonempty isFree
      have namesKept :=
        grown.namesKept wellFormed reach isDir chain nonempty isFree
      refine ⟨change.bpb, ?_, ?_, ?_⟩
      · intro path resolved result zero
        exact resolvePath_frame wellFormed sound wellFormed'
          grown.kept.sound namesKept (fun _ _ _ => trivial) result zero
      · intro path other names _
        exact names.frame wellFormed sound wellFormed' grown.kept.sound
          namesKept (fun _ _ _ => trivial) trivial
      · intro other reachOther _ notParent
        have different : other ≠ dir := by
          rintro rfl
          exact notParent ⟨isDir, first.symm⟩
        refine change.sameFile wellFormed reachOther different ?_
        intro cluster owned absentNew index bound
        refine grown.kept.mem _ ?_ ?_
        · have behind := dataStart_le_clusterAddr volume.bpb cluster
          have order := rootStart_le_dataStart volume.bpb
          omega
        · refine not_inClusters owned.low (by simpa using low) ?_ bound
          intro member
          exact absentNew (List.mem_append_right _ member)

theorem CreateResult.reach (wellFormed : WellFormed volume)
    (created : CreateResult volume cur target slots slot 0 slot' opened)
    {other : Nat} (reach : Reach volume other) :
    Reach opened other ∧ SameEntry opened.mem other volume.mem other := by
  cases created with
  | found _ => exact ⟨reach, fun _ _ => rfl⟩
  | vacant _ _ => exact ⟨reach, fun _ _ => rfl⟩
  | @grown opened dir fresh clusters rest absent full reachDir isDir chain
      nonempty first free grown =>
      have isFree : fresh ∈ volume.free := by
        rw [free]
        exact List.mem_cons_self
      obtain ⟨same, change⟩ :=
        grown.entryChange wellFormed reachDir isDir chain nonempty isFree
      by_cases itself : other = dir
      · have live := same.live_iff.mpr reachDir.live
        rw [itself]
        exact ⟨(change.reach_iff wellFormed dir).mpr
          (Or.inl ⟨rfl, live⟩), same⟩
      · exact ⟨(change.reach_iff wellFormed other).mpr
          (Or.inr ⟨itself, reach⟩),
          change.entries other reach.treeSlot itself⟩

/-- The change of the target's entry. -/
theorem Edited.framed (edited : Edited volume volume' entry old new)
    (opened : Opened volume cur target entry existing)
    (regular : Reach volume entry → ¬ IsDir volume.mem entry)
    (namesKept : NamesKept (fun other => other ≠ entry) volume volume') :
    Framed (fun other => other = entry) (DirAt volume cur) volume
      volume' := by
  have change := edited.entryChange opened.wellFormed opened.treeSlot
  have wellFormed' := edited.wellFormed opened.wellFormed opened.treeSlot
  have keptDirs : ∀ dir, Reach volume dir → IsDir volume.mem dir →
      dir ≠ entry := by
    rintro dir reach isDir rfl
    exact regular reach isDir
  refine ⟨edited.kept.bpb, ?_, ?_, ?_⟩
  · intro path resolved result zero
    exact resolvePath_frame opened.wellFormed opened.sound wellFormed'
      edited.kept.sound namesKept keptDirs result zero
  · intro path other names different
    exact names.frame opened.wellFormed opened.sound wellFormed'
      edited.kept.sound namesKept keptDirs different
  · intro other reach different notParent
    refine change.sameFile opened.wellFormed reach different ?_
    intro cluster owned absentNew index bound
    refine edited.kept.mem _ ?_ ?_
    · have behind := dataStart_le_clusterAddr volume.bpb cluster
      have order := rootStart_le_dataStart volume.bpb
      omega
    · have absent : entry ∉ clusterSlots volume.bpb cluster := by
        intro holds
        obtain ⟨slots, dirSlots, member, _⟩ := opened.found
        exact notParent
          (dirSlots.holder opened.wellFormed member reach owned holds)
      have away := opened.treeSlot.outside_of_not_mem owned.low absent
      rintro (⟨first, last⟩ | inNew)
      · omega
      · exact not_inClusters owned.low
          (fun cluster member => (edited.fresh cluster member).1)
          absentNew bound inNew

/-- The two parts together. -/
theorem CreateResult.framed_edited (wellFormed : WellFormed volume)
    (sound : volume.disk.Sound)
    (created : CreateResult volume cur target slots slot 0 slot' opened)
    (framed : Framed (fun other => other = entry) (DirAt opened cur) opened
      volume') :
    Framed (fun other => other = entry) (DirAt volume cur) volume
      volume' := by
  have first := created.framed wellFormed sound
  refine (first.trans framed fun other reach =>
    (created.reach wellFormed reach).1).mono (fun _ gone => gone) ?_
  intro other reach moved
  rcases moved with moved | ⟨isDir, atCur⟩
  · exact moved
  · have same := (created.reach wellFormed reach).2
    exact ⟨same.isDir_iff.mp isDir, same.first.symm.trans atCur⟩

end Calls

end LoafOs
