import LoafOs.Fs.FatInPlace
import Mathlib.Data.List.GetD

/-!
# Writing behind the end of a file

`fat_write_at` goes on to the clusters that the offset asks for and stores
the data there.  What lies between the old end of the file and the offset is
not cleared.
-/

namespace LoafOs

/-- Byte `pos` of the clusters. -/
def chainByte (volume : Volume) (clusters : List Nat) (pos : Nat) : UInt8 :=
  volume.mem (volume.bpb.clusterAddr
    (clusters.getD (pos / volume.bpb.clusterSize) 0) +
      pos % volume.bpb.clusterSize)

/-- What the disk holds from the end of the file up to the offset is zero,
in the clusters of the file and then in the free ones. -/
def GapBlank (volume : Volume) (stat : FatStat) (offset : Nat) : Prop :=
  ∃ clusters,
    Links.Path volume.next ChainStop stat.firstCluster clusters ∧
      ∀ pos, stat.size ≤ pos → pos < offset →
        chainByte volume (clusters ++ volume.free) pos = 0

section Gap

variable {volume volume' opened : Volume} {path : CString}
  {cur entry offset len size : Nat} {raw : List UInt8}
  {slots old taken clusters more : List Nat} {slot : DirSlot}
  {existing : Bool} {data ent : Bytes} {attr : UInt8} {first : Nat}
  {stat : FatStat}

theorem chainByte_cluster {number index : Nat}
    (bound : number < clusters.length)
    (small : index < volume.bpb.clusterSize) :
    chainByte volume clusters (number * volume.bpb.clusterSize + index) =
      volume.mem (volume.bpb.clusterAddr clusters[number] + index) := by
  have isNumber : (number * volume.bpb.clusterSize + index) /
      volume.bpb.clusterSize = number := by
    rw [Nat.mul_comm, Nat.mul_add_div (by omega),
      Nat.div_eq_of_lt small, Nat.add_zero]
  have isIndex : (number * volume.bpb.clusterSize + index) %
      volume.bpb.clusterSize = index := by
    rw [Nat.mul_comm, Nat.mul_add_mod, Nat.mod_eq_of_lt small]
  rw [chainByte, isNumber, isIndex, List.getD_eq_getElem _ _ bound]

theorem chainByte_append {pos : Nat}
    (inside : pos < clusters.length * volume.bpb.clusterSize) :
    chainByte volume (clusters ++ more) pos =
      chainByte volume clusters pos := by
  have number : pos / volume.bpb.clusterSize < clusters.length :=
    Nat.div_lt_of_lt_mul (by rwa [Nat.mul_comm])
  rw [chainByte, chainByte, List.getD_append _ _ _ _ number]

/-- The whole file after the call, whatever the offset. -/
theorem Aimed.splicedHolds
    (aimed : Aimed volume path cur raw slots slot opened entry existing)
    (storable : Storable raw) (positive : 1 ≤ len)
    (oldChain : OldChain opened entry old)
    (loaded : Loaded opened entry raw existing ent attr first size)
    (spliced : SplicedFile opened volume' entry raw attr size old taken
      offset len data) :
    Holds volume' path
        (overwrite (chainByte opened (old ++ taken)) data offset len)
        (max (offset + len) size) ∧
      max (offset + len) size ≤
        (old ++ taken).length * opened.bpb.clusterSize := by
  have isOpened := aimed.isOpened
  have edited := spliced.edited isOpened aimed.regular storable oldChain
    positive loaded
  have live := spliced.live isOpened aimed.regular storable loaded
  have chain := spliced.chain isOpened aimed.regular oldChain positive
    loaded
  obtain ⟨wellFormed', _, names, _, _⟩ :=
    aimed.kept edited spliced.entryIs.name live
  have length := (chain.regular
    (spliced.not_dir isOpened aimed.regular loaded)).1
  have enough := (clustersFor_le_iff
    wellFormed'.geometry.clusterSize_pos _ _).mp (Nat.le_of_eq length.symm)
  rw [spliced.entryIs.size] at enough
  refine ⟨names.holds wellFormed' spliced.kept.sound chain
    spliced.entryIs.size enough ?_, ?_⟩
  · rw [spliced.kept.bpb]
    intro number bound index small _
    rw [spliced.bytes number bound index small, overwrite,
      chainByte_cluster bound small]
  · rwa [← spliced.kept.bpb]

/-- A lookup for a name that is there finds it. -/
theorem CreateResult.of_finds {code : Nat} {slot' : DirSlot}
    (created : CreateResult volume cur raw slots slot code slot' opened)
    (found : Finds volume.mem raw slots entry) :
    code = 0 ∧ slot' = slotAt entry true ∧ opened = volume := by
  cases created with
  | found other => exact ⟨rfl, other.unique found ▸ rfl, rfl⟩
  | vacant absent _ => exact absurd found (absent entry)
  | rootFull _ absent _ => exact absurd found (absent entry)
  | noCluster _ absent _ _ => exact absurd found (absent entry)
  | grown absent _ _ _ _ _ _ _ _ => exact absurd found (absent entry)

end Gap

/-- A successful `fat_write_at` behind the end of a file leaves zeros in
between exactly if the disk held zeros there. -/
theorem fatWriteAt_gap_iff {volume volume' : Volume} {path : CString}
    {stat : FatStat} {slot : DirSlot} {data : Bytes} {offset len : Nat}
    (wellFormed : WellFormed volume) (sound : volume.disk.Sound)
    (file : fatStat volume path = some (.ok stat))
    (regular : stat.attr &&& attrDirectory = 0)
    (beyond : stat.size < offset) (positive : 1 ≤ len)
    (bound : offset + len < 2 ^ 32)
    (result : fatWriteAt volume slot path offset data len =
      some (0, volume')) :
    ∃ content, Holds volume' path content (offset + len) ∧
      ((∀ pos, stat.size ≤ pos → pos < offset → content pos = 0) ↔
        GapBlank volume stat offset) := by
  have notDirectory : ¬ DirectoryPath volume path := by
    rintro ⟨other, isOther, directory⟩
    rw [file] at isOther
    cases isOther
    exact directory regular
  obtain ⟨entry, names⟩ : ∃ entry, Names volume path entry := by
    refine (fatStat_ok wellFormed sound file).resolve_left fun root => ?_
    rw [root.fatStat_eq] at file
    cases file
    exact absurd regular (by decide)
  rw [names.fatStat_eq wellFormed sound] at file
  cases file
  obtain ⟨clusters, chain⟩ := wellFormed.chain entry names.reach
  have reach := names.reach
  obtain ⟨cur, name, slots, resolved, dirSlots, found⟩ := names
  obtain ⟨_, code, slot', opened, created, _, ok⟩ :=
    openTarget_resolved wellFormed sound resolved dirSlots 4 slot
  obtain ⟨rfl, rfl, unchanged⟩ := created.of_finds found
  subst opened
  rw [fatWriteAt_opened ok positive, if_neg (by decide),
    if_neg (by decide)] at result
  obtain ⟨entry', existing, same, aimed⟩ := aimed_of_lookup wellFormed sound
    resolved dirSlots (not_namesDirectory wellFormed sound notDirectory)
    created
  have address := congrArg DirSlot.address same
  have flag := congrArg DirSlot.existing same
  rw [slotAt_address, slotAt_address] at address
  rw [slotAt_existing, slotAt_existing] at flag
  subst address flag
  have oldChain : OldChain volume entry clusters :=
    ⟨fun _ => chain, fun unreached => absurd reach unreached⟩
  obtain ⟨ent, attr, first, size', loaded, outcome⟩ :=
    spliceFile_eq aimed.isOpened oldChain aimed.width positive bound data
  have sameSize : size' = direntSize volume.mem entry :=
    loaded.entryIs.size.symm.trans (loaded.whenOld rfl).size
  rw [result] at outcome
  cases outcome with
  | @spliced _ taken spliced =>
      obtain ⟨holds, enough⟩ := aimed.splicedHolds found.matches.storable
        positive oldChain loaded spliced
      have longer : max (offset + len) size' = offset + len := by
        change direntSize volume.mem entry < offset at beyond
        omega
      rw [longer] at holds enough
      refine ⟨_, holds, ?_⟩
      have gap : ∀ pos < offset,
          overwrite (chainByte volume (clusters ++ taken)) data offset len
              pos =
            chainByte volume (clusters ++ volume.free) pos := by
        intro pos below
        have inside : pos < (clusters ++ taken).length *
            volume.bpb.clusterSize := by
          omega
        rw [overwrite, if_neg (by omega), spliced.building.free,
          ← List.append_assoc, chainByte_append inside]
      constructor
      · intro zero
        refine ⟨clusters, chain.path, fun pos above below => ?_⟩
        rw [← gap pos below]
        exact zero pos above below
      · rintro ⟨others, path', zero⟩ pos above below
        rw [gap pos below, chain.path.unique path']
        exact zero pos above below

/-! A file of 600 bytes is removed, and one of a single byte takes the first
of its two clusters. -/

def sampleReusedCalls : List FatCall :=
  [.mkdir samplePath, .writeFile sampleFile (fun _ => 7) 600,
    .deleteFile sampleFile, .writeFile sampleFile (fun _ => 1) 1]

def sampleReused : Volume := afterCalls sampleVolume sampleReusedCalls

theorem sampleReused_wellFormed :
    WellFormed sampleReused ∧ sampleReused.disk.Sound :=
  callsOk_wellFormed sampleReusedCalls sampleVolume_wellFormed
    blankDisk_sound (by decide +kernel)

theorem sampleReused_stat :
    fatStat sampleReused sampleFile =
      some (.ok ⟨[0x41], 1, 3, attrArchive⟩) := by
  decide +kernel

theorem sampleReused_gap :
    ∃ content,
      Holds (sampleReused.after (fatWriteAt sampleReused .unset sampleFile
        600 (fun _ => 2) 1)) sampleFile content (600 + 1) ∧
      ((∀ pos, 1 ≤ pos → pos < 600 → content pos = 0) ↔
        GapBlank sampleReused ⟨[0x41], 1, 3, attrArchive⟩ 600) :=
  fatWriteAt_gap_iff sampleReused_wellFormed.1 sampleReused_wellFormed.2
    sampleReused_stat (by decide) (by decide) (by decide) (by decide)
    (Volume.after_eq (by decide +kernel))

/-- One byte at offset 600: byte 512 is one of the file that was there
before. -/
theorem sampleReused_exposed :
    WellFormed sampleReused ∧ sampleReused.disk.Sound ∧
      fatStat sampleReused sampleFile =
        some (.ok ⟨[0x41], 1, 3, attrArchive⟩) ∧
      (fatWriteAt sampleReused .unset sampleFile 600 (fun _ => 2) 1).map
        Prod.fst = some 0 ∧
      (fatReadFile (sampleReused.after (fatWriteAt sampleReused .unset
          sampleFile 600 (fun _ => 2) 1)) sampleFile scratch).map
          (fun read => (read.code, read.size, read.dest 512)) =
        some (0, 601, 7) :=
  ⟨sampleReused_wellFormed.1, sampleReused_wellFormed.2, sampleReused_stat,
    by decide +kernel, by decide +kernel⟩

end LoafOs
