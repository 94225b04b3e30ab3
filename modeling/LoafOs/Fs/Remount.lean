import LoafOs.Boot.LoadAgree
import LoafOs.Fs.FatFront
import LoafOs.Fs.TreeRun

/-!
# Mounting again

`fat_init` on the disk that a run of calls has left gives a volume that
reports the same tree: everything that a successful call has done is on
the disk.
-/

namespace LoafOs

open FileTrees

/-! ## Volumes that differ behind the table only -/

/-- The same disk, and the same table. -/
structure SameTable (volume volume' : Volume) : Prop where
  bpb : volume'.bpb = volume.bpb
  disk : volume'.disk = volume.disk
  table : ∀ index < 512 * volume.bpb.perFat,
    volume'.fatBuf index = volume.fatBuf index

section SameTable

variable {volume volume' : Volume} {entry cur : Nat}
  {clusters slots : List Nat} {names : List (List UInt8)}

theorem SameTable.symm (same : SameTable volume volume') :
    SameTable volume' volume where
  bpb := same.bpb.symm
  disk := same.disk.symm
  table := fun index inside =>
    (same.table index (by rwa [← same.bpb])).symm

theorem SameTable.mem (same : SameTable volume volume') :
    volume'.mem = volume.mem := by
  rw [Volume.mem, same.disk, Volume.mem]

theorem SameTable.next (same : SameTable volume volume')
    (geometry : Geometry volume.bpb) {cluster : Nat}
    (inside : cluster < volume.bpb.totalClusters) :
    volume'.next cluster = volume.next cluster := by
  have fits := geometry.entries_fit cluster inside
  rw [Volume.next, Volume.next, fatNext_eq, fatNext_eq,
    same.table _ (by omega), same.table _ (by omega)]

theorem SameTable.chain (same : SameTable volume volume')
    (geometry : Geometry volume.bpb) (chain : Chain volume entry clusters) :
    Chain volume' entry clusters := by
  have next (cluster : Nat) (member : cluster ∈ clusters) :
      volume'.next cluster = volume.next cluster :=
    same.next geometry (chain.inside cluster member)
  refine ⟨?_, ?_, fun cluster member => ?_, ?_, ?_⟩
  · rw [same.mem]
    exact chain.path.congr next
  · rw [same.bpb]
    exact chain.inside
  · rw [next cluster member]
    exact chain.linked cluster member
  · rw [same.mem]
    exact chain.directory
  · rw [same.mem, same.bpb]
    exact chain.regular

theorem SameTable.reach (same : SameTable volume volume')
    (wellFormed : WellFormed volume) :
    Reach volume' entry ↔ Reach volume entry := by
  constructor
  · intro reach
    induction reach with
    | root member live =>
        rw [same.bpb] at member
        rw [same.mem] at live
        exact .root member live
    | sub _ isDir owned member live inductionHypothesis =>
        rw [same.bpb] at member
        rw [same.mem] at live isDir
        obtain ⟨clusters, chain⟩ := wellFormed.chain _ inductionHypothesis
        have chain' := same.chain wellFormed.geometry chain
        exact .sub inductionHypothesis isDir
          (chain.owns_iff.mpr (chain'.owns_iff.mp owned)) member live
  · intro reach
    induction reach with
    | root member live =>
        rw [← same.bpb] at member
        rw [← same.mem] at live
        exact .root member live
    | sub parent isDir owned member live inductionHypothesis =>
        rw [← same.bpb] at member
        rw [← same.mem] at live isDir
        obtain ⟨clusters, chain⟩ := wellFormed.chain _ parent
        have chain' := same.chain wellFormed.geometry chain
        exact .sub inductionHypothesis isDir
          (chain'.owns_iff.mpr (chain.owns_iff.mp owned)) member live

theorem SameTable.owns (same : SameTable volume volume')
    (wellFormed : WellFormed volume) (reach : Reach volume entry)
    {cluster : Nat} :
    Owns volume' entry cluster ↔ Owns volume entry cluster := by
  obtain ⟨clusters, chain⟩ := wellFormed.chain entry reach
  rw [chain.owns_iff, (same.chain wellFormed.geometry chain).owns_iff]

theorem SameTable.wellFormed (same : SameTable volume volume')
    (wellFormed : WellFormed volume) : WellFormed volume' where
  geometry := by
    rw [same.bpb]
    exact wellFormed.geometry
  chain := by
    intro entry reach
    obtain ⟨clusters, chain⟩ :=
      wellFormed.chain entry ((same.reach wellFormed).mp reach)
    exact ⟨clusters, same.chain wellFormed.geometry chain⟩
  disjoint := by
    intro left right cluster leftReach rightReach leftOwns rightOwns
    have leftReach := (same.reach wellFormed).mp leftReach
    have rightReach := (same.reach wellFormed).mp rightReach
    exact wellFormed.disjoint left right cluster leftReach rightReach
      ((same.owns wellFormed leftReach).mp leftOwns)
      ((same.owns wellFormed rightReach).mp rightOwns)
  used := by
    intro cluster low high
    rw [same.bpb] at high
    rw [same.next wellFormed.geometry high,
      wellFormed.used cluster low high]
    refine exists_congr fun entry => ?_
    rw [same.reach wellFormed]
    exact and_congr_right fun reach => (same.owns wellFormed reach).symm
  copies := by
    intro copy few index inside
    rw [same.bpb] at few inside ⊢
    rw [same.mem, same.table index inside]
    exact wellFormed.copies copy few index inside

theorem SameTable.dirSlots (same : SameTable volume volume')
    (wellFormed : WellFormed volume) (dirSlots : DirSlots volume cur slots) :
    DirSlots volume' cur slots := by
  cases dirSlots with
  | root =>
      rw [← same.bpb]
      exact .root
  | sub reach isDir chain =>
      rw [← same.mem] at isDir
      rw [← same.bpb, ← same.mem]
      exact .sub ((same.reach wellFormed).mpr reach) isDir
        (same.chain wellFormed.geometry chain)

theorem SameTable.leads (same : SameTable volume volume')
    (wellFormed : WellFormed volume)
    (leads : Leads volume names cur slots) :
    Leads volume' names cur slots := by
  induction leads with
  | root =>
      rw [← same.bpb]
      exact .root
  | sub _ plain found isDir chain inductionHypothesis =>
      rw [← same.mem] at found isDir
      rw [← same.bpb, ← same.mem]
      exact .sub inductionHypothesis plain found isDir
        (same.chain wellFormed.geometry chain)

theorem SameTable.entryAt (same : SameTable volume volume')
    (wellFormed : WellFormed volume) (place : EntryAt volume names entry) :
    EntryAt volume' names entry := by
  obtain ⟨parent, raw, cur, slots, isNames, leads, plain, found⟩ :=
    place.path
  rw [← same.mem] at found
  exact ⟨parent, raw, cur, slots, isNames, same.leads wellFormed leads,
    plain, found⟩

theorem SameTable.sameFile (same : SameTable volume volume')
    (geometry : Geometry volume.bpb) : SameFile volume volume' entry where
  same := fun index _ => by rw [same.mem]
  chain := fun _ chain => same.chain geometry chain
  bytes := fun _ _ _ _ _ _ => by rw [same.mem]

theorem SameTable.treeOf_eq (same : SameTable volume volume')
    (wellFormed : WellFormed volume) : treeOf volume' = treeOf volume := by
  funext names
  refine treeOf_congr (fun entry => ⟨?_, same.entryAt wellFormed⟩)
    fun entry node place => ?_
  · exact same.symm.entryAt (same.wellFormed wellFormed)
  · have file : SameFile volume volume' entry :=
      same.sameFile wellFormed.geometry
    exact nodeOf_iff wellFormed same.bpb file.same (fun _ => file)
      place.reach node

theorem SameTable.settled (same : SameTable volume volume')
    (settled : SettledVolume volume) : SettledVolume volume' where
  wellFormed := same.wellFormed settled.wellFormed
  sound := by
    rw [same.disk]
    exact settled.sound
  orderly := by
    intro cur slots dirSlots
    rw [same.mem]
    exact settled.orderly cur slots (same.symm.dirSlots
      (same.wellFormed settled.wellFormed) dirSlots)

end SameTable

/-! ## Mounting -/

/-- A volume that can be mounted again: the disk carries its boot sector,
in front of the table, and a copy of the table. -/
structure Labelled (volume : Volume) : Prop where
  settled : SettledVolume volume
  label : volume.bpb = Bpb.ofSector volume.mem
  sectorSize : volume.bpb.bytesPerSector.toNat = 512
  reserved : 1 ≤ volume.bpb.fatStart
  copies : 1 ≤ volume.bpb.fatCount.toNat

section Mount

variable {volume volume' : Volume}

/-- `fat_init` finds the volume that the calls have left. -/
theorem Labelled.mount (labelled : Labelled volume) :
    ∃ volume', fatInit volume.disk true = .ok volume' ∧
      SameTable volume volume' := by
  obtain ⟨⟨wellFormed, sound, _⟩, label, sectorSize, _, copies⟩ := labelled
  have few := wellFormed.geometry.perFat_le
  have reserved := volume.bpb.reservedSectors.toNat_lt
  have limit : lbaLimit = 63 * 16 * 65536 := by rw [lbaLimit]
  have read := readLba_eq sound (by omega : 0 + 1 ≤ lbaLimit) scratch
  obtain ⟨sector, isSector⟩ : ∃ sector, sector =
      scratch.copy 0 (volume.disk.mem.shift (512 * 0)) (512 * 1) :=
    ⟨_, rfl⟩
  have isBpb : Bpb.ofSector sector = volume.bpb := by
    rw [label]
    refine ofSector_congr fun index inside => ?_
    rw [isSector, Bytes.copy_inside (by omega) (by omega), Bytes.shift,
      Volume.mem]
    exact congrArg volume.disk.mem (by omega)
  have table := readLba_eq sound
    (by rw [Bpb.fatStart]; omega :
      volume.bpb.fatStart + volume.bpb.perFat ≤ lbaLimit) scratch
  refine ⟨⟨volume.bpb, scratch.copy 0
    (volume.disk.mem.shift (512 * volume.bpb.fatStart))
    (512 * volume.bpb.perFat), volume.disk⟩, ?_, ?_⟩
  · rw [fatInit, read, ← isSector]
    simp only [isBpb]
    rw [if_neg (not_not.mpr sectorSize), if_neg (by omega),
      if_neg (by decide), Nat.mod_eq_of_lt (by omega), table]
  · refine ⟨rfl, rfl, fun index inside => ?_⟩
    have copy := wellFormed.copies 0 (by omega) index inside
    rw [Nat.zero_mul, Nat.add_zero] at copy
    dsimp only
    rw [Bytes.copy_inside (by omega) (by omega), Bytes.shift,
      Nat.sub_zero]
    exact copy

theorem SameTable.labelled (same : SameTable volume volume')
    (labelled : Labelled volume) : Labelled volume' where
  settled := same.settled labelled.settled
  label := by
    rw [same.bpb, same.mem]
    exact labelled.label
  sectorSize := by
    rw [same.bpb]
    exact labelled.sectorSize
  reserved := by
    rw [same.bpb]
    exact labelled.reserved
  copies := by
    rw [same.bpb]
    exact labelled.copies

theorem FatMove.front {label : (DirSlot × FatCall) × Nat}
    (move : FatMove volume label volume') (settled : SettledVolume volume) :
    FrontKept volume volume' := by
  obtain ⟨wellFormed, sound, _⟩ := settled
  cases move with
  | done step =>
      exact FatCall.front wellFormed sound step.inRange
        (fun _ => step.lookup) step.result
  | @refused label code _ result failed ascii reads =>
      refine FatCall.front wellFormed sound ?_
        (fun writes => absurd writes reads) result
      revert reads
      cases label.2 with
      | writeAt _ _ _ _ => exact fun reads => absurd trivial reads
      | _ => exact fun _ => trivial

theorem FatMove.labelled {label : (DirSlot × FatCall) × Nat}
    (move : FatMove volume label volume') (labelled : Labelled volume) :
    Labelled volume' := by
  have front := move.front labelled.settled
  have reserved := labelled.reserved
  refine ⟨move.settled labelled.settled, ?_, ?_, ?_, ?_⟩
  · rw [front.bpb, labelled.label]
    exact ofSector_congr fun index inside =>
      (front.front index (by omega)).symm
  · rw [front.bpb]
    exact labelled.sectorSize
  · rwa [front.bpb]
  · rw [front.bpb]
    exact labelled.copies

end Mount

/-! ## Runs over several mounts -/

/-- A call of the driver, or `fat_init` on the disk as the calls have left
it. -/
inductive Session (volume : Volume) :
    Option ((DirSlot × FatCall) × Nat) → Volume → Prop
  | call {label : (DirSlot × FatCall) × Nat} {volume' : Volume}
      (move : FatMove volume label volume') :
      Session volume (some label) volume'
  | mount {volume' : Volume}
      (mounted : fatInit volume.disk true = .ok volume') :
      Session volume none volume'

section Sessions

variable {volume volume' : Volume}
  {labels : List (Option ((DirSlot × FatCall) × Nat))}

theorem Session.labelled {label : Option ((DirSlot × FatCall) × Nat)}
    (step : Session volume label volume') (labelled : Labelled volume) :
    Labelled volume' := by
  cases step with
  | call move => exact move.labelled labelled
  | mount mounted =>
      obtain ⟨again, isAgain, same⟩ := labelled.mount
      cases mounted.symm.trans isAgain
      exact same.labelled labelled

theorem sessionRun_tree (run : Runs.Run Session volume labels volume')
    (labelled : Labelled volume) :
    Labelled volume' ∧
      Runs.Run Step (treeOf volume) (editsOf (labels.filterMap id))
        (treeOf volume') := by
  induction run with
  | nil => exact ⟨labelled, .nil⟩
  | cons first rest inductionHypothesis =>
      obtain ⟨labelled', later⟩ :=
        inductionHypothesis (first.labelled labelled)
      refine ⟨labelled', ?_⟩
      cases first with
      | call move =>
          have now := (fatRun_tree (.cons move .nil) labelled.settled).2
          have both := now.append later
          rw [editsOf, editsOf, ← List.filterMap_append] at both
          exact both
      | mount mounted =>
          obtain ⟨again, isAgain, same⟩ := labelled.mount
          cases mounted.symm.trans isAgain
          rw [same.treeOf_eq labelled.settled.wellFormed] at later
          exact later

end Sessions

/-- Over every run of calls and of mounts, the driver reports the tree that
the successful calls make of the one it reported at first, and the disk can
be mounted at the end. -/
theorem sessionRun_reports {volume volume' : Volume}
    {labels : List (Option ((DirSlot × FatCall) × Nat))}
    (labelled : Labelled volume)
    (run : Runs.Run Session volume labels volume') :
    ∃ tree tree' mounted, ReportsTree volume tree ∧
      Runs.Run Step tree (editsOf (labels.filterMap id)) tree' ∧
      ReportsTree volume' tree' ∧
      fatInit volume'.disk true = .ok mounted ∧ ReportsTree mounted tree' := by
  obtain ⟨labelled', operations⟩ := sessionRun_tree run labelled
  obtain ⟨mounted, isMounted, same⟩ := labelled'.mount
  have settled := labelled.settled
  have settled' := labelled'.settled
  have reports := reports_treeOf (same.wellFormed settled'.wellFormed)
    (same.labelled labelled').settled.sound
  rw [same.treeOf_eq settled'.wellFormed] at reports
  exact ⟨treeOf volume, treeOf volume', mounted,
    reports_treeOf settled.wellFormed settled.sound, operations,
    reports_treeOf settled'.wellFormed settled'.sound, isMounted, reports⟩

/-! ## A new disk -/

/-- Nothing but a boot sector on the disk. -/
structure NewlyMade (volume : Volume) : Prop where
  geometry : Geometry volume.bpb
  sound : volume.disk.Sound
  zero : ∀ address, 512 * volume.bpb.fatStart ≤ address →
    volume.mem address = 0
  table : ∀ index < 512 * volume.bpb.perFat, volume.fatBuf index = 0

section NewlyMade

variable {volume : Volume}

theorem NewlyMade.not_listed (new : NewlyMade volume) {cur slot : Nat}
    {slots : List Nat} (dirSlots : DirSlots volume cur slots)
    (member : slot ∈ slots) : ¬ Listed volume.mem slot := by
  intro listed
  have behind := (dirSlots.treeSlot member).behind
  have order : volume.bpb.fatStart ≤ volume.bpb.rootStart :=
    Nat.le_add_right _ _
  exact listed.1 (new.zero slot (by omega))

theorem NewlyMade.not_reach (new : NewlyMade volume) (entry : Nat) :
    ¬ Reach volume entry := by
  intro reach
  induction reach with
  | root member live => exact new.not_listed .root member live.1
  | sub _ _ _ _ _ inductionHypothesis => exact inductionHypothesis

theorem NewlyMade.wellFormed (new : NewlyMade volume) :
    WellFormed volume where
  geometry := new.geometry
  chain := fun entry reach => absurd reach (new.not_reach entry)
  disjoint := fun left _ _ reach => absurd reach (new.not_reach left)
  used := by
    intro cluster _ high
    have fits := new.geometry.entries_fit cluster high
    refine iff_of_false ?_ ?_
    · rw [Volume.next, fatNext_eq, new.table _ (by omega),
        new.table _ (by omega)]
      split <;> decide
    · rintro ⟨entry, reach, _⟩
      exact new.not_reach entry reach
  copies := by
    intro copy _ index inside
    rw [new.table index inside]
    refine new.zero _ ?_
    rw [Nat.mul_add, Nat.add_assoc]
    exact Nat.le_add_right _ _

theorem NewlyMade.settled (new : NewlyMade volume) : SettledVolume volume where
  wellFormed := new.wellFormed
  sound := new.sound
  orderly := by
    intro cur slots dirSlots
    have absent (slot : Nat) (member : slot ∈ slots) :=
      new.not_listed dirSlots member
    refine ⟨fun left member _ _ listed => absurd listed (absent left member),
      ?_, fun slot member listed => absurd listed (absent slot member)⟩
    exact List.pairwise_of_forall_mem_list fun _ _ later member _ =>
      absent later member

theorem NewlyMade.treeOf_eq (new : NewlyMade volume) :
    treeOf volume = emptyTree := by
  funext names
  by_cases inner : names = []
  · rw [inner, treeOf_rooted.root]
    rfl
  · rw [emptyTree, if_neg inner]
    exact (treeOf_eq_none new.wellFormed).mpr
      ⟨inner, fun entry place => new.not_reach entry place.reach⟩

end NewlyMade

/-! A disk of eight sectors is mounted, gets a kernel, is mounted again and
gets a directory. -/

def sampleLabel : Disk where
  sectors := fun chs index =>
    if chs = lbaToChs 0 then
      [0, 0, 0, 0, 0, 0, 0, 0, 0, 0, 0, 0x00, 0x02, 0x01, 0x01, 0x00, 0x02,
        0x10, 0x00, 0x08, 0x00, 0xf8, 0x01, 0x00].getD index 0
    else 0
  bad := fun _ => false
  writesLeft := none

def sampleUnused : Volume := ⟨smallBpb 8, scratch, sampleLabel⟩

theorem sampleUnused_labelled : Labelled sampleUnused := by
  have new : NewlyMade sampleUnused :=
    { geometry := smallBpb_geometry (by decide) (by decide)
      sound := ⟨fun _ => rfl, rfl⟩
      zero := fun address behind => by
        have start : sampleUnused.bpb.fatStart = 1 := rfl
        rw [start] at behind
        change sampleLabel.mem address = 0
        rw [Disk.mem]
        split
        case isTrue inside =>
          have other : lbaToChs (address / 512) ≠ lbaToChs 0 := by
            intro same
            have limit : lbaLimit = 63 * 16 * 65536 := by rw [lbaLimit]
            have := lbaToChs_injective (by omega) (by omega) same
            omega
          simp only [sampleLabel, if_neg other]
        case isFalse => rfl
      table := fun _ _ => rfl }
  exact ⟨new.settled, by decide +kernel, rfl, by decide, by decide⟩

/-- The volume after `fat_init`. -/
def mountedAgain (volume : Volume) : Volume :=
  match fatInit volume.disk true with
  | .ok mounted => mounted
  | .error _ => volume

theorem Labelled.mountedAgain {volume : Volume}
    (labelled : Labelled volume) :
    Session volume none (mountedAgain volume) := by
  obtain ⟨again, isAgain, _⟩ := labelled.mount
  refine .mount ?_
  rw [LoafOs.mountedAgain, isAgain]

/-- `/KERNEL.BIN`. -/
def kernelPath : CString :=
  [0x2f, 0x4b, 0x45, 0x52, 0x4e, 0x45, 0x4c, 0x2e, 0x42, 0x49, 0x4e]

def sampleMounted : Volume := mountedAgain sampleUnused

def sampleInstalled : Volume :=
  sampleMounted.after
    (fatWriteFile sampleMounted .unset kernelPath (fun _ => 7) 600)

def sampleMountedAgain : Volume := mountedAgain sampleInstalled

def sampleLeft : Volume :=
  sampleMountedAgain.after (fatMkdir sampleMountedAgain samplePath)

def sampleSession : List (Option ((DirSlot × FatCall) × Nat)) :=
  [none, some ((.unset, .writeFile kernelPath (fun _ => 7) 600), 0), none,
    some ((.unset, .mkdir samplePath), 0)]

theorem sampleInstalled_step :
    Session sampleMounted
      (some ((.unset, .writeFile kernelPath (fun _ => 7) 600), 0))
      sampleInstalled := by
  have labelled : Labelled sampleMounted :=
    sampleUnused_labelled.mountedAgain.labelled sampleUnused_labelled
  exact .call (.done (FatCall.safe_step labelled.settled.wellFormed
    labelled.settled.sound (by decide +kernel) (by decide +kernel)))

theorem sampleSession_run :
    Runs.Run Session sampleUnused sampleSession sampleLeft := by
  have mounted : Session sampleUnused none sampleMounted :=
    sampleUnused_labelled.mountedAgain
  have labelled := sampleInstalled_step.labelled
    (mounted.labelled sampleUnused_labelled)
  have again : Session sampleInstalled none sampleMountedAgain :=
    labelled.mountedAgain
  have settled := (again.labelled labelled).settled
  exact .cons mounted (.cons sampleInstalled_step (.cons again
    (.cons (.call (.done (FatCall.safe_step settled.wellFormed settled.sound
      (by decide +kernel) (by decide +kernel)))) .nil)))

theorem sampleSession_reports :
    ∃ tree tree' mounted, ReportsTree sampleUnused tree ∧
      Runs.Run Step tree (editsOf (sampleSession.filterMap id)) tree' ∧
      ReportsTree sampleLeft tree' ∧
      fatInit sampleLeft.disk true = .ok mounted ∧
      ReportsTree mounted tree' :=
  sessionRun_reports sampleUnused_labelled sampleSession_run

end LoafOs
