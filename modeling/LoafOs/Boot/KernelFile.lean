import LoafOs.Fs.Remount

/-!
# The kernel that the loader starts

`load_kernel` looks for `KERNEL.BIN` in the root directory, loads its
clusters from `KERNEL_SEG` on, and `protected_entry` moves the file to
1 MB and jumps there.  What it starts is the file that the driver reads.
-/

namespace LoafOs

open Links FileTrees

/-- `ROOT_BUF`. -/
def rootBufAddr : Nat := 0x9000

/-- `kernel_name`. -/
def kernelName : List UInt8 :=
  [0x4b, 0x45, 0x52, 0x4e, 0x45, 0x4c, 0x20, 0x20, 0x42, 0x49, 0x4e]

/-- The `.scan` loop: the address of the directory entry, or `none` where it
goes to `.fail`.  `dec cx` and `add di, 32` wrap, so 65536 passes visit
every value of `cx`. -/
def scanRoot (mem : Bytes) : (fuel cx di : Nat) → Option Nat
  | 0, _, _ => none
  | fuel + 1, cx, di =>
      if mem di = 0x00 then
        none
      else if (List.range 11).map (fun index => mem (u16 (di + index))) =
          kernelName then
        some di
      else
        let cx := u16 (cx + 65535)
        if cx = 0 then none else scanRoot mem fuel cx (u16 (di + 32))

/-- The memory that the `.chain` loop leaves; `none` where a read fails, or
where a cluster would be loaded below `KERNEL_SEG`. -/
def chainMemory (disk : Disk) (boot : BootBpb) :
    (fuel curCluster dx : Nat) → Bytes → Option Bytes
  | 0, _, _, _ => none
  | fuel + 1, curCluster, dx, mem =>
      if 0x0ff8 ≤ curCluster then
        some mem
      else
        let ax := u16 (u16 (curCluster + 65536 - 2) * boot.sectorsPerCluster)
        let eax := u16 (ax + boot.dataStart)
        let cx := boot.sectorsPerCluster
        if dx < kernelSeg then
          none
        else
          match extendedRead disk eax cx (16 * dx) mem with
          | none => none
          | some mem =>
              chainMemory disk boot fuel (nextCluster mem curCluster)
                (u16 (dx + u16 (cx <<< 5))) mem

/-- `load_kernel`: the memory at `.done` and `kernel_size`; `none` where it
ends in `fat_error`. -/
def loadKernel (disk : Disk) (mem : Bytes) : Option (Bytes × Nat) := do
  let boot := readBpb mem
  let mem ← extendedRead disk boot.rootStart boot.rootSectors rootBufAddr mem
  let di ← scanRoot mem 65536 boot.rootEntries rootBufAddr
  let curCluster := mem.word16 (u16 (di + 0x1a))
  let kernelSize := mem.word32 (u16 (di + 0x1c))
  let mem ← extendedRead disk boot.reservedSectors boot.sectorsPerFat
    fatBufAddr mem
  let mem ← chainMemory disk boot chainFuel curCluster kernelSeg mem
  return (mem, kernelSize)

/-- `rep movsd`. -/
def moveDwords : (ecx : Nat) → Bytes → (esi edi : Nat) → Bytes
  | 0, mem, _, _ => mem
  | ecx + 1, mem, esi, edi =>
      moveDwords ecx (mem.copy edi (mem.shift esi) 4) (esi + 4) (edi + 4)

/-- The memory with which `protected_entry` jumps to 1 MB. -/
def bootKernel (disk : Disk) (mem : Bytes) : Option Bytes := do
  let (mem, kernelSize) ← loadKernel disk mem
  return moveDwords (u32 (kernelSize + 3) / 4) mem 0x10000 0x100000

/-! ## The directory scan -/

section Scan

variable {mem mem' : Bytes} {target : List UInt8} {slots : List Nat}
  {entry : Nat}

/-- What stands in front of the entry that a scan finds. -/
theorem Finds.front (found : Finds mem target slots entry) :
    ∃ front rest, slots = front ++ entry :: rest ∧
      ∀ slot ∈ front, mem slot ≠ 0x00 ∧ ¬ Matches mem target slot := by
  induction found with
  | @here entry rest matched => exact ⟨[], rest, rfl, by simp⟩
  | @later slot entry rest going other found inductionHypothesis =>
      obtain ⟨front, behind, same, before⟩ := inductionHypothesis
      refine ⟨slot :: front, behind, by rw [same, List.cons_append], ?_⟩
      exact List.forall_mem_cons.mpr ⟨⟨going, other⟩, before⟩

/-- The number of the entry in a block of slots. -/
theorem Finds.number {base count : Nat}
    (found : Finds mem target (slotsFrom base count) entry) :
    ∃ number < count, entry = base + 32 * number ∧
      ∀ earlier < number, mem (base + 32 * earlier) ≠ 0x00 ∧
        ¬ Matches mem target (base + 32 * earlier) := by
  obtain ⟨front, rest, same, before⟩ := found.front
  have slot {index : Nat} (inside : index < count) :
      (slotsFrom base count)[index]? = some (base + 32 * index) := by
    simp [slotsFrom, inside]
  have length : (slotsFrom base count).length = count := by
    simp [slotsFrom]
  rw [same, List.length_append, List.length_cons] at length
  have inside : front.length < count := by omega
  refine ⟨front.length, inside, ?_, fun earlier lower => ?_⟩
  · have here := slot inside
    rw [same, List.getElem?_append_right (Nat.le_refl _), Nat.sub_self,
      List.getElem?_cons_zero, Option.some.injEq] at here
    exact here
  · have here := slot (Nat.lt_trans lower inside)
    rw [same, List.getElem?_append_left lower,
      List.getElem?_eq_getElem lower, Option.some.injEq] at here
    rw [← here]
    exact before _ (List.getElem_mem lower)

/-- The name at an address that does not wrap. -/
theorem scanName_eq {di : Nat} (inside : di + 11 ≤ 65536) :
    (List.range 11).map (fun index => mem (u16 (di + index))) =
      mem.slice di 11 := by
  refine List.map_congr_left fun index small => ?_
  rw [List.mem_range] at small
  rw [u16, Nat.mod_eq_of_lt (by omega)]

/-- The loop passes what does not match and stops at what does. -/
theorem scanRoot_eq :
    ∀ {number fuel cx start : Nat}, number < fuel → number < cx →
      cx < 65536 → start + 32 * number + 32 ≤ 65536 →
      (∀ earlier < number, mem (start + 32 * earlier) ≠ 0x00 ∧
        mem.slice (start + 32 * earlier) 11 ≠ kernelName) →
      mem (start + 32 * number) ≠ 0x00 →
      mem.slice (start + 32 * number) 11 = kernelName →
        scanRoot mem fuel cx start = some (start + 32 * number)
  | _, 0, _, _, enough, _, _, _, _, _, _ => absurd enough (Nat.not_lt_zero _)
  | 0, fuel + 1, cx, start, _, _, _, inside, _, going, matched => by
      rw [Nat.mul_zero] at going matched ⊢
      rw [Nat.add_zero] at going matched
      rw [scanRoot, if_neg going, scanName_eq (by omega), if_pos matched,
        Nat.add_zero]
  | number + 1, fuel + 1, cx, start, enough, counted, word, inside, before,
      going, matched => by
      obtain ⟨nonzero, other⟩ := before 0 (Nat.succ_pos number)
      rw [Nat.mul_zero, Nat.add_zero] at nonzero other
      have shift (index : Nat) :
          start + 32 * (index + 1) = start + 32 + 32 * index := by
        omega
      have count : u16 (cx + 65535) = cx - 1 := by
        rw [u16]
        omega
      have address : u16 (start + 32) = start + 32 := by
        rw [u16]
        omega
      rw [shift] at going matched ⊢
      rw [scanRoot, if_neg nonzero, scanName_eq (by omega), if_neg other]
      simp only [count, address]
      rw [if_neg (by omega)]
      refine scanRoot_eq (by omega) (by omega) (by omega) (by omega) ?_ going
        matched
      intro earlier lower
      rw [← shift]
      exact before (earlier + 1) (by omega)

end Scan

/-! ## The clusters -/

section Clusters

variable {volume : Volume} {boot : BootBpb}

/-- The links of a chain lead to clusters or end marks, never to 0 or 1. -/
theorem bootPath {next : Nat → Nat} {start : Nat} {clusters : List Nat}
    (path : Path next ChainStop start clusters) (low : 2 ≤ start)
    (linked : ∀ cluster ∈ clusters, 2 ≤ next cluster) :
    Path next (fun cluster => 0x0ff8 ≤ cluster) start clusters := by
  induction path with
  | done stopped =>
      rw [ChainStop] at stopped
      exact .done (by omega)
  | more going tail ih =>
      rw [ChainStop] at going
      rw [List.forall_mem_cons] at linked
      exact .more (by omega) (ih linked.1 linked.2)

/-- The clusters go one behind another from the segment on. -/
theorem chainMemory_eq (as : BootAs boot volume.bpb) :
    ∀ {clusters : List Nat} {fuel start : Nat} (seg : Nat) {mem : Bytes},
      Path volume.next (fun cluster => 0x0ff8 ≤ cluster) start clusters →
      (∀ cluster ∈ clusters, ChainCluster volume.bpb cluster) →
      (∀ cluster ∈ clusters, volume.bpb.clusterLba cluster =
        volume.bpb.dataStart + (cluster - 2) * volume.bpb.perCluster) →
      volume.disk.Sound → TableAt volume mem → clusters.length < fuel →
      0 < volume.bpb.perCluster → kernelSeg ≤ seg →
      seg + 32 * volume.bpb.perCluster * clusters.length ≤ 65536 →
        chainMemory volume.disk boot fuel start (u16 seg) mem =
          some (gather volume.mem volume.bpb clusters (16 * seg) mem)
  | _, 0, _, _, _, _, _, _, _, _, short, _, _, _ => by omega
  | _, fuel + 1, start, seg, mem, .done ends, _, _, _, _, _, _, _, _ => by
      rw [chainMemory, if_pos ends]
      rfl
  | _, fuel + 1, start, seg, mem, @Path.more _ _ _ _ rest going tail, known,
      placed, sound, table, short, positive, above, room => by
      rw [List.forall_mem_cons] at known placed
      obtain ⟨cluster, known⟩ := known
      obtain ⟨atLba, placed⟩ := placed
      rw [List.length_cons, Nat.mul_succ] at room
      have word : u16 seg = seg := by
        rw [u16]
        omega
      have small : volume.bpb.perCluster < 256 :=
        volume.bpb.sectorsPerCluster.toNat_lt
      have advance : u16 (volume.bpb.perCluster <<< 5) =
          32 * volume.bpb.perCluster := by
        rw [u16, Nat.shiftLeft_eq]
        omega
      have lba := (clusterLba_eq16 cluster.low
        (Nat.lt_trans (Nat.lt_of_not_le going) (by decide)) cluster.first).1
      have readable : volume.disk.Readable
          (volume.bpb.clusterLba start) volume.bpb.perCluster :=
        fun pass _ => sound.bad _
      have address : 512 * volume.bpb.clusterLba start =
          volume.bpb.clusterAddr start := by
        rw [atLba, Bpb.clusterAddr]
      have loaded : TableAt volume (mem.copy (16 * seg)
          (volume.mem.shift (volume.bpb.clusterAddr start))
          volume.bpb.clusterSize) :=
        table.load as.perFat above
      have following := nextCluster_eq cluster.inside
        (Nat.mul_le_mul_left 512 as.perFat) loaded
      have later := chainMemory_eq as (seg + 32 * volume.bpb.perCluster) tail
        known placed sound loaded
        (Nat.lt_of_succ_lt_succ short) positive (by omega) (by omega)
      rw [chainMemory, if_neg going, as.perCluster, as.dataStart]
      simp only [lba, word, if_neg (Nat.not_lt.mpr above), extendedRead,
        if_pos readable, address, advance]
      rw [show 16 * (seg + 32 * volume.bpb.perCluster) =
        16 * seg + volume.bpb.clusterSize by rw [Bpb.clusterSize]; omega]
        at later
      rw [gather, ← later]
      exact congrArg (fun node => chainMemory _ _ _ node _ _) following

/-- A move to an address behind its source is a copy. -/
theorem moveDwords_eq :
    ∀ {ecx esi edi : Nat} (mem : Bytes), esi + 4 * ecx ≤ edi →
      moveDwords ecx mem esi edi =
        mem.copy edi (mem.shift esi) (4 * ecx)
  | 0, esi, edi, mem, _ => by
      rw [moveDwords, Nat.mul_zero, Bytes.copy_zero]
  | ecx + 1, esi, edi, mem, apart => by
      rw [moveDwords, moveDwords_eq _ (by omega)]
      funext address
      simp only [Bytes.copy, Bytes.shift]
      by_cases early : edi ≤ address ∧ address < edi + 4
      · rw [if_neg (by omega), if_pos early, if_pos (by omega)]
      by_cases late : edi + 4 ≤ address ∧ address < edi + 4 + 4 * ecx
      · rw [if_pos late, if_neg (by omega), if_pos (by omega)]
        exact congrArg mem (by omega)
      · rw [if_neg late, if_neg early, if_neg (by omega)]

end Clusters

/-! ## The file -/

section File

variable {disk : Disk} {volume : Volume} {kmallocOk : Bool} {mem : Bytes}
  {path : CString} {content : List UInt8}

/-- The layout that the loader takes for granted: the root directory fills
its sectors and fits behind `ROOT_BUF`, sector numbers have 16 bits, what
carries the name of the kernel is an entry, and the clusters of the file fit
between `KERNEL_SEG` and 640 KB. -/
structure Bootable (volume : Volume) (size : Nat) : Prop where
  rootFull : volume.bpb.rootEntryCount.toNat = 16 * volume.bpb.rootSectors
  rootFits : rootBufAddr + 512 * volume.bpb.rootSectors ≤ 65536
  sectors : volume.bpb.totalSectors ≤ 65536
  listed : ∀ slot ∈ rootSlots volume.bpb,
    direntName volume.mem slot = kernelName → Listed volume.mem slot
  nonempty : size ≠ 0
  room : clustersFor volume.bpb size * volume.bpb.clusterSize ≤ 0x90000

/-- The sectors of a cluster lie in front of the end of the volume. -/
theorem Geometry.cluster_le {bpb : Bpb} (geometry : Geometry bpb)
    (sectors : bpb.totalSectors ≤ 65536) {cluster : Nat} (low : 2 ≤ cluster)
    (high : cluster < bpb.totalClusters) :
    bpb.dataStart + (cluster - 2) * bpb.perCluster + bpb.perCluster ≤
      bpb.totalSectors := by
  have inside := geometry.dataStart_le
  have total := geometry.totalClusters_eq
  have few : (bpb.totalSectors - bpb.dataStart) / bpb.perCluster ≤
      bpb.totalSectors - bpb.dataStart := Nat.div_le_self _ _
  rw [u32, Nat.mod_eq_of_lt (by omega)] at total
  have below : cluster - 2 + 1 ≤
      (bpb.totalSectors - bpb.dataStart) / bpb.perCluster := by
    omega
  have product := (Nat.le_div_iff_mul_le geometry.perCluster_pos).mp below
  rw [Nat.succ_mul] at product
  omega

/-- The entry of the kernel, as the driver finds it. -/
theorem kernelEntry (wellFormed : WellFormed volume)
    (sound : volume.disk.Sound) (isKernel : rawNames path = [kernelName])
    (reads : ReadsAs volume path content) :
    ∃ number clusters, number < 16 * volume.bpb.rootSectors ∧
      let entry := 512 * volume.bpb.rootStart + 32 * number
      (∀ earlier < number,
        volume.mem (512 * volume.bpb.rootStart + 32 * earlier) ≠ 0x00 ∧
          ¬ Matches volume.mem kernelName
            (512 * volume.bpb.rootStart + 32 * earlier)) ∧
        Matches volume.mem kernelName entry ∧
        ¬ IsDir volume.mem entry ∧ Chain volume entry clusters ∧
        content =
          chainContent volume clusters (direntSize volume.mem entry) := by
  have shown := ((reports_treeOf wellFormed sound).file path content).mp
    reads
  rw [isKernel] at shown
  obtain ⟨entry, place, isNode⟩ := (treeOf_iff (by simp)).mp shown
  obtain ⟨parent, raw, cur, slots, same, leads, _, found⟩ := place.path
  have none : parent = [] := by
    cases parent with
    | nil => rfl
    | cons first rest => simp at same
  subst none
  cases same
  obtain ⟨_, rfl⟩ := leads.directory_unique .root
  obtain ⟨number, inside, rfl, before⟩ := found.number
  cases isNode with
  | file regular chain =>
      exact ⟨number, _, inside, before, found.matches, regular, chain, rfl⟩

theorem readBpb_rootEntries (sector : BootSectorAt disk mem)
    (isBpb : volume.bpb = Bpb.ofSector disk.mem) :
    (readBpb mem).rootEntries = volume.bpb.rootEntryCount.toNat := by
  have word : mem.word16 (bpbBase + 0x11) = disk.mem.word16 17 :=
    Bytes.word16_congr fun more small => by
      rw [Nat.add_assoc]
      exact sector _ (by omega)
  rw [isBpb]
  change mem.word16 (bpbBase + 0x11) =
    (UInt16.ofNat (disk.mem.word16 17)).toNat
  rw [word, UInt16.toNat_ofNat', Nat.mod_eq_of_lt (Bytes.word16_lt _ _)]

/-- The kernel's clusters as the loader sees them. -/
theorem bootClusters (wellFormed : WellFormed volume) {entry : Nat}
    {clusters : List Nat} (regular : ¬ IsDir volume.mem entry)
    (chain : Chain volume entry clusters)
    (bootable : Bootable volume (direntSize volume.mem entry)) :
    BootChain volume (direntFirst volume.mem entry) clusters ∧
      Fits16 volume.bpb clusters ∧
      ∀ cluster ∈ clusters, volume.bpb.clusterLba cluster =
        volume.bpb.dataStart + (cluster - 2) * volume.bpb.perCluster := by
  have geometry := wellFormed.geometry
  have sectors := bootable.sectors
  have some : clusters ≠ [] := by
    rintro rfl
    have length := (chain.regular regular).1
    have enough := (clustersFor_le_iff geometry.clusterSize_pos _ _).mp
      (Nat.le_of_eq length.symm)
    simp only [List.length_nil, Nat.zero_mul, Nat.le_zero] at enough
    exact bootable.nonempty enough
  have low : 2 ≤ direntFirst volume.mem entry :=
    chain.low _ (chain.path.head_mem fun stopped =>
      some (chain.path.eq_nil_of_stop stopped))
  have inside : ∀ cluster ∈ clusters, volume.bpb.dataStart +
      (cluster - 2) * volume.bpb.perCluster + volume.bpb.perCluster ≤
        volume.bpb.totalSectors :=
    fun cluster member => geometry.cluster_le sectors
      (chain.low cluster member) (chain.inside cluster member)
  have first := inside _ (List.head_mem some)
  have positive := geometry.perCluster_pos
  refine ⟨⟨bootPath chain.path low chain.linked, chain.low, ?_⟩,
    ⟨?_, ?_, by omega, ?_⟩, fun cluster member =>
      geometry.clusterLba_eq (chain.low cluster member)
        (chain.inside cluster member)⟩
  · intro cluster member
    have fits := geometry.entries_fit cluster
      (chain.inside cluster member)
    rw [InTable]
    omega
  · rw [Bpb.dataStart] at first
    omega
  · rw [Bpb.dataStart] at first
    omega
  · intro cluster member sector small
    have := inside cluster member
    omega

/-- The scan finds the entry that the driver finds, and the fields that it
takes from it. -/
theorem scanRoot_entry {number size : Nat} {loaded : Bytes}
    (isLoaded : loaded = mem.copy rootBufAddr
      (volume.mem.shift (512 * volume.bpb.rootStart))
      (512 * volume.bpb.rootSectors))
    (bootable : Bootable volume size)
    (inside : number < 16 * volume.bpb.rootSectors)
    (before : ∀ earlier < number,
      volume.mem (512 * volume.bpb.rootStart + 32 * earlier) ≠ 0x00 ∧
        ¬ Matches volume.mem kernelName
          (512 * volume.bpb.rootStart + 32 * earlier))
    (matched : Matches volume.mem kernelName
      (512 * volume.bpb.rootStart + 32 * number)) :
    scanRoot loaded 65536 volume.bpb.rootEntryCount.toNat rootBufAddr =
        some (rootBufAddr + 32 * number) ∧
      loaded.word16 (u16 (rootBufAddr + 32 * number + 0x1a)) =
        direntFirst volume.mem
          (512 * volume.bpb.rootStart + 32 * number) ∧
      loaded.word32 (u16 (rootBufAddr + 32 * number + 0x1c)) =
        direntSize volume.mem
          (512 * volume.bpb.rootStart + 32 * number) := by
  have count := volume.bpb.rootEntryCount.toNat_lt
  have rootFull := bootable.rootFull
  have rootFits := bootable.rootFits
  have byte {slot index : Nat} (early : slot ≤ number) (small : index < 32) :
      loaded (rootBufAddr + 32 * slot + index) =
        volume.mem (512 * volume.bpb.rootStart + 32 * slot + index) := by
    rw [isLoaded, Bytes.copy_inside (by omega) (by omega), Bytes.shift]
    exact congrArg volume.mem (by omega)
  have head {slot : Nat} (early : slot ≤ number) :
      loaded (rootBufAddr + 32 * slot) =
        volume.mem (512 * volume.bpb.rootStart + 32 * slot) :=
    byte early (by decide : 0 < 32)
  have name {slot : Nat} (early : slot ≤ number) :
      loaded.slice (rootBufAddr + 32 * slot) 11 =
        direntName volume.mem (512 * volume.bpb.rootStart + 32 * slot) :=
    Bytes.slice_congr fun index small => byte early (by omega)
  refine ⟨scanRoot_eq (by omega) (by omega) (by omega) (by omega) ?_ ?_ ?_,
    ?_, ?_⟩
  · intro earlier lower
    obtain ⟨going, other⟩ := before earlier lower
    rw [head (by omega), name (by omega)]
    refine ⟨going, fun same => other ⟨?_, same⟩⟩
    refine bootable.listed _ (mem_slotsFrom.mpr ⟨earlier, ?_, rfl⟩) same
    omega
  · rw [head (Nat.le_refl number)]
    exact matched.1.1
  · rw [name (Nat.le_refl number)]
    exact matched.2
  · rw [u16, Nat.mod_eq_of_lt (by omega)]
    refine Bytes.word16_congr fun index small => ?_
    rw [Nat.add_assoc, Nat.add_assoc (512 * volume.bpb.rootStart + _)]
    exact byte (Nat.le_refl number) (by omega)
  · rw [u16, Nat.mod_eq_of_lt (by omega)]
    refine Bytes.word32_congr fun index small => ?_
    rw [Nat.add_assoc, Nat.add_assoc (512 * volume.bpb.rootStart + _)]
    exact byte (Nat.le_refl number) (by omega)

/-- The loader starts the file that the driver reads as `/KERNEL.BIN`. -/
theorem bootKernel_content
    (mounted : fatInit disk kmallocOk = .ok volume)
    (wellFormed : WellFormed volume) (sound : disk.Sound)
    (sector : BootSectorAt disk mem)
    (bootable : Bootable volume content.length)
    (isKernel : rawNames path = [kernelName])
    (reads : ReadsAs volume path content) :
    ∃ mem', bootKernel disk mem = some mem' ∧
      mem'.slice 0x100000 content.length = content := by
  obtain ⟨rfl, isBpb, few, readable, table⟩ := fatInit_ok mounted
  obtain ⟨number, clusters, inside, before, matched, regular, chain, rfl⟩ :=
    kernelEntry wellFormed sound isKernel reads
  rw [length_chainContent] at bootable ⊢
  obtain ⟨bootChain, fits, atLba⟩ :=
    bootClusters wellFormed regular chain bootable
  obtain ⟨fatStart, perFat, perCluster, rootStart, rootSectors, dataStart⟩ :=
    readBpb_eq sector isBpb fits.dataStart
  have rootEntries := readBpb_rootEntries sector isBpb
  have as : BootAs (readBpb mem) volume.bpb := ⟨few, perCluster, dataStart⟩
  obtain ⟨loaded, isLoaded⟩ : ∃ loaded, loaded = mem.copy rootBufAddr
      (volume.mem.shift (512 * volume.bpb.rootStart))
      (512 * volume.bpb.rootSectors) := ⟨_, rfl⟩
  obtain ⟨scanned, first, kernelSize⟩ :=
    scanRoot_entry isLoaded bootable inside before matched
  have sizeBound := (volume.mem.word32_lt
    (512 * volume.bpb.rootStart + 32 * number + 28))
  rw [← direntSize] at sizeBound
  have geometry := wellFormed.geometry
  have length := (chain.regular regular).1
  have room := bootable.room
  generalize 512 * volume.bpb.rootStart + 32 * number = entry at *
  generalize isSize : direntSize volume.mem entry = size at *
  have enough := (clustersFor_le_iff geometry.clusterSize_pos _ _).mp
    (Nat.le_of_eq length.symm)
  rw [← length] at room
  have segments : kernelSeg + 32 * volume.bpb.perCluster *
      clusters.length ≤ 65536 := by
    rw [Bpb.clusterSize, ← Nat.mul_assoc,
      Nat.mul_comm clusters.length, Nat.mul_assoc,
      Nat.mul_comm clusters.length] at room
    rw [kernelSeg, Nat.mul_assoc]
    omega
  -- The table goes to `FAT_BUF` as it went to `fat_buf`.
  obtain ⟨tabled, isTabled⟩ : ∃ tabled, tabled = loaded.copy fatBufAddr
      (volume.mem.shift (512 * volume.bpb.fatStart))
      (512 * volume.bpb.perFat) := ⟨_, rfl⟩
  have tableAt : TableAt volume tabled := by
    intro index small
    rw [isTabled, Bytes.copy_inside (by omega) (by omega),
      Nat.add_sub_cancel_left, table index small]
    rfl
  have chained := chainMemory_eq as kernelSeg bootChain.path
    (bootChain.cluster_of_mem fits) atLba sound tableAt
    bootChain.length_lt geometry.perCluster_pos (Nat.le_refl _) segments
  have rootReadable : volume.disk.Readable volume.bpb.rootStart
      volume.bpb.rootSectors := fun _ _ => sound.bad _
  have ended : loadKernel volume.disk mem = some
      (gather volume.mem volume.bpb clusters (16 * kernelSeg) tabled,
        size) := by
    rw [loadKernel]
    simp only [extendedRead, rootStart, rootSectors, fatStart, perFat,
      if_pos readable, if_pos rootReadable, Option.bind_eq_bind,
      Option.bind_some]
    rw [← Volume.mem, ← isLoaded, rootEntries, scanned]
    simp only [Option.bind_some]
    rw [← isTabled, first, kernelSize]
    exact congrArg (fun found => found.bind fun mem => some (mem, size))
      chained
  refine ⟨_, by rw [bootKernel, ended]; rfl, ?_⟩
  have total : u32 (size + 3) / 4 = (size + 3) / 4 := by
    rw [u32]
    omega
  rw [total, moveDwords_eq _ (by omega)]
  refine List.map_congr_left fun index small => ?_
  rw [List.mem_range] at small
  rw [Bytes.copy_inside (by omega) (by omega), Nat.add_sub_cancel_left,
    Bytes.shift]
  -- Byte `index` lies in this cluster of the chain, at this place.
  have positive := geometry.clusterSize_pos
  have inCluster := Nat.mod_lt index positive
  have isNumber : index / volume.bpb.clusterSize < clusters.length := by
    rw [Nat.div_lt_iff_lt_mul positive]
    omega
  have split : index / volume.bpb.clusterSize * volume.bpb.clusterSize +
      index % volume.bpb.clusterSize = index := by
    rw [Nat.mul_comm]
    exact Nat.div_add_mod index _
  have there := (gather_inside clusters (16 * kernelSeg) tabled _ isNumber _
    inCluster).trans (chainByte_cluster isNumber inCluster).symm
  rwa [Nat.add_assoc, split] at there

end File

/-- The kernel that the calls of some sessions have left under its name is
the one that the loader starts. -/
theorem sessionRun_boots {volume volume' : Volume}
    {labels : List (Option ((DirSlot × FatCall) × Nat))} {path : CString}
    {content : List UInt8} {mem : Bytes} (labelled : Labelled volume)
    (run : Runs.Run Session volume labels volume')
    (isKernel : rawNames path = [kernelName])
    (reads : ReadsAs volume' path content)
    (bootable : Bootable volume' content.length)
    (sector : BootSectorAt volume'.disk mem) :
    ∃ tree tree' mem', ReportsTree volume tree ∧
      Runs.Run Step tree (editsOf (labels.filterMap id)) tree' ∧
      tree' [kernelName] = some (.file content) ∧
      bootKernel volume'.disk mem = some mem' ∧
      mem'.slice 0x100000 content.length = content := by
  obtain ⟨labelled', operations⟩ := sessionRun_tree run labelled
  obtain ⟨mounted, isMounted, same⟩ := labelled'.mount
  obtain ⟨wellFormed, sound, _⟩ := labelled'.settled
  have shown := ((reports_treeOf wellFormed sound).file path content).mp
    reads
  have again := same.wellFormed wellFormed
  have reads' : ReadsAs mounted path content := by
    refine ((reports_treeOf again
      (same.labelled labelled').settled.sound).file path content).mpr ?_
    rw [same.treeOf_eq wellFormed]
    exact shown
  have bootable' : Bootable mounted content.length := by
    obtain ⟨full, fits, sectors, listed, nonempty, room⟩ := bootable
    rw [← same.bpb] at full fits sectors listed room
    rw [← same.mem] at listed
    exact ⟨full, fits, sectors, listed, nonempty, room⟩
  obtain ⟨mem', booted, loaded⟩ := bootKernel_content isMounted again sound
    sector bootable' isKernel reads'
  rw [isKernel] at shown
  exact ⟨_, _, mem', reports_treeOf labelled.settled.wellFormed
    labelled.settled.sound, operations, shown, booted, loaded⟩

/-! The kernel of the sample disk. -/

theorem sampleLeft_reads :
    ReadsAs sampleLeft kernelPath (List.replicate 600 7) := by
  obtain ⟨labelled, operations⟩ :=
    sessionRun_tree sampleSession_run sampleUnused_labelled
  have edits : editsOf (sampleSession.filterMap id) =
      [.replace (rawNames kernelPath) (List.replicate 600 7),
        .makeDirectory (rawNames samplePath)] := by
    have content : Bytes.slice (fun _ => 7) 0 (UInt32.toNat 600) =
        List.replicate 600 7 := by
      decide +kernel
    rw [← content]
    rfl
  have isKernel : rawNames kernelPath = [] ++ [kernelName] := by
    decide +kernel
  rw [edits] at operations
  cases operations with
  | cons first rest =>
      cases rest with
      | cons second done =>
          cases done
          have stored := @Step.others _ _ _ _ _ second
            (rawNames kernelPath) (by decide +kernel)
          rw [first.replaced] at stored
          exact ((reports_treeOf labelled.settled.wellFormed
            labelled.settled.sound).file _ _).mpr stored

theorem sampleLeft_bootable : Bootable sampleLeft 600 :=
  ⟨by decide +kernel, by decide +kernel, by decide +kernel,
    by decide +kernel, by decide, by decide +kernel⟩

theorem sampleSession_boots : ∃ tree tree' mem',
    ReportsTree sampleUnused tree ∧
      Runs.Run Step tree (editsOf (sampleSession.filterMap id)) tree' ∧
      tree' [kernelName] = some (.file (List.replicate 600 7)) ∧
      bootKernel sampleLeft.disk (bootMemory sampleLeft.disk) = some mem' ∧
      mem'.slice 0x100000 (List.replicate 600 (7 : UInt8)).length =
        List.replicate 600 7 :=
  sessionRun_boots sampleUnused_labelled sampleSession_run
    (by decide +kernel) sampleLeft_reads
    (by rw [List.length_replicate]; exact sampleLeft_bootable)
    (bootMemory_sector _)

end LoafOs
