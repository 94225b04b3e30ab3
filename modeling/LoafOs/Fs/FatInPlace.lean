import LoafOs.Fs.FatRoundTrip

/-!
# Writing in place

`fat_write_at` overwrites a part of a file and extends it: read back, the
file is its old content with the data spliced in.
-/

namespace LoafOs

/-- Reading the path gives a file of `size` bytes with this content. -/
def Holds (volume : Volume) (path : CString) (content : Bytes)
    (size : Nat) : Prop :=
  ∀ dest, ∃ read, fatReadFile volume path dest = some read ∧
    read.code = 0 ∧ read.size = size ∧ size ≤ read.stored ∧
    ∀ index < size, read.dest index = content index

/-- The content with positions from `offset` on replaced by `len` bytes of
data. -/
def overwrite (content data : Bytes) (offset len : Nat) : Bytes :=
  fun index =>
    if offset ≤ index ∧ index < offset + len then data (index - offset)
    else content index

section Content

variable {volume : Volume} {path : CString} {entry size cur : Nat}
  {clusters slots : List Nat} {content : Bytes} {raw : List UInt8}

theorem Names.holds (readable : Readable volume)
    (sound : volume.disk.Sound) (names : Names volume path entry)
    (chain : Chain volume entry clusters)
    (isSize : direntSize volume.mem entry = size)
    (enough : size ≤ clusters.length * volume.bpb.clusterSize)
    (bytes : ∀ number (bound : number < clusters.length),
      ∀ index < volume.bpb.clusterSize,
        number * volume.bpb.clusterSize + index < size →
          volume.mem (volume.bpb.clusterAddr clusters[number] + index) =
            content (number * volume.bpb.clusterSize + index)) :
    Holds volume path content size := by
  intro dest
  refine ⟨_, names.fatReadFile_eq readable sound chain dest, rfl,
    isSize, enough, ?_⟩
  intro index bound
  have positive := readable.geometry.clusterSize_pos
  have number : index / volume.bpb.clusterSize < clusters.length :=
    Nat.div_lt_of_lt_mul (by rw [Nat.mul_comm]; omega)
  have small := Nat.mod_lt index positive
  have split : index / volume.bpb.clusterSize * volume.bpb.clusterSize +
      index % volume.bpb.clusterSize = index := by
    rw [Nat.mul_comm]
    exact Nat.div_add_mod index _
  have here : gather volume.mem volume.bpb clusters 0 dest
        (0 + index / volume.bpb.clusterSize * volume.bpb.clusterSize +
          index % volume.bpb.clusterSize) =
      volume.mem (volume.bpb.clusterAddr
        clusters[index / volume.bpb.clusterSize] +
          index % volume.bpb.clusterSize) :=
    gather_inside clusters 0 dest (index / volume.bpb.clusterSize) number
      (index % volume.bpb.clusterSize) small
  have there := bytes (index / volume.bpb.clusterSize) number
    (index % volume.bpb.clusterSize) small (by rwa [split])
  rw [Nat.zero_add, split] at here
  rw [split] at there
  exact here.trans there

/-- What is read from a path is what lies in the clusters of its entry. -/
theorem Holds.bytes (readable : Readable volume)
    (sound : volume.disk.Sound) (names : Names volume path entry)
    (chain : Chain volume entry clusters)
    (holds : Holds volume path content size) :
    direntSize volume.mem entry = size ∧
      size ≤ clusters.length * volume.bpb.clusterSize ∧
      ∀ number (bound : number < clusters.length),
        ∀ index < volume.bpb.clusterSize,
          number * volume.bpb.clusterSize + index < size →
            volume.mem (volume.bpb.clusterAddr clusters[number] + index) =
              content (number * volume.bpb.clusterSize + index) := by
  obtain ⟨read, readEq, _, isSize, enough, bytes⟩ := holds scratch
  rw [names.fatReadFile_eq readable sound chain scratch,
    Option.some.injEq] at readEq
  subst readEq
  refine ⟨isSize, enough, ?_⟩
  intro number bound index small inside
  have here := bytes _ inside
  have there : gather volume.mem volume.bpb clusters 0 scratch
        (0 + number * volume.bpb.clusterSize + index) =
      volume.mem (volume.bpb.clusterAddr clusters[number] + index) :=
    gather_inside clusters 0 scratch number bound index small
  rw [Nat.zero_add] at there
  exact there.symm.trans here

/-- A path without an entry cannot be read. -/
theorem fatReadFile_absent (readable : Readable volume)
    (sound : volume.disk.Sound)
    (resolved : resolvePath volume path = some ⟨0, false, cur, raw⟩)
    (dirSlots : DirSlots volume cur slots)
    (absent : ∀ other, ¬ Finds volume.mem raw slots other)
    (dest : Bytes) :
    fatReadFile volume path dest = some ⟨1, 0, 0, dest⟩ := by
  rcases dirLookup_find readable sound dirSlots raw .unset with
    ⟨other, found, _⟩ | ⟨_, code, slot', lookup, outcome⟩
  · exact absurd found (absent other)
  · rw [fatReadFile, resolved]
    rcases outcome with ⟨rfl, missing⟩ | ⟨rfl, _⟩
    · simp [lookup, missing]
    · simp [lookup]

end Content

section Splice

variable {volume volume' opened : Volume} {path : CString}
  {cur entry offset len : Nat} {raw : List UInt8}
  {slots old taken : List Nat} {slot : DirSlot} {existing : Bool}
  {data content ent : Bytes} {attr : UInt8} {first size : Nat}

/-- The old content, as the call finds it in the opened volume. -/
theorem Aimed.oldContent
    (aimed : Aimed volume path cur raw slots slot opened entry existing)
    (before : Holds volume path content size ∨
      fatStat volume path = some (.error 1) ∧ size = 0)
    (oldChain : OldChain opened entry old) {size' : Nat}
    (loaded : Loaded opened entry raw existing ent attr first size') :
    size' = size ∧
      ∀ number (bound : number < old.length),
        ∀ index < opened.bpb.clusterSize,
          number * opened.bpb.clusterSize + index < size →
            opened.mem (opened.bpb.clusterAddr old[number] + index) =
              content (number * opened.bpb.clusterSize + index) := by
  obtain ⟨name, isName⟩ := aimed.isName
  have whenNew (absent : ∀ other, ¬ Finds volume.mem raw slots other) :
      size = 0 := by
    rcases before with holds | ⟨_, zero⟩
    · obtain ⟨read, readEq, code, _⟩ := holds scratch
      rw [fatReadFile_absent aimed.wellFormed aimed.sound aimed.resolved
        aimed.dirSlots absent scratch, Option.some.injEq] at readEq
      subst readEq
      exact absurd code Nat.one_ne_zero
    · exact zero
  have whenFresh (isNew : existing = false)
      (absent : ∀ other, ¬ Finds volume.mem raw slots other) :
      size' = size ∧
        ∀ number (bound : number < old.length),
          ∀ index < opened.bpb.clusterSize,
            number * opened.bpb.clusterSize + index < size →
              opened.mem (opened.bpb.clusterAddr old[number] + index) =
                content (number * opened.bpb.clusterSize + index) := by
    rw [whenNew absent]
    exact ⟨(loaded.whenNew isNew).2.2, fun _ _ _ _ inside =>
      absurd inside (Nat.not_lt_zero _)⟩
  have isOpened := aimed.isOpened
  have created := aimed.created
  generalize slotEq : slotAt entry existing = slot' at created
  have address := congrArg DirSlot.address slotEq
  have flag := congrArg DirSlot.existing slotEq
  rw [slotAt_address] at address
  rw [slotAt_existing] at flag
  cases created with
  | @found other found =>
      rw [slotAt_address] at address
      rw [slotAt_existing] at flag
      subst address flag
      subst isName
      have names : Names volume path entry :=
        ⟨cur, name, slots, aimed.resolved, aimed.dirSlots, found⟩
      have chain := oldChain.chain isOpened.reach
      have loadedSize : size' = direntSize volume.mem entry := by
        rw [← (loaded.whenOld rfl).size]
        exact loaded.entryIs.size.symm
      rcases before with holds | ⟨missing, _⟩
      · obtain ⟨isSize, _, bytes⟩ :=
          holds.bytes aimed.wellFormed aimed.sound names chain
        exact ⟨loadedSize.trans isSize, bytes⟩
      · rw [names.fatStat_eq aimed.wellFormed aimed.sound] at missing
        cases missing
  | vacant absent _ => exact whenFresh flag absent
  | grown absent _ _ _ _ _ _ _ _ => exact whenFresh flag absent

/-- The file after the splice. -/
theorem Aimed.splicedContent
    (aimed : Aimed volume path cur raw slots slot opened entry existing)
    (storable : Storable raw)
    (before : Holds volume path content size ∨
      fatStat volume path = some (.error 1) ∧ size = 0)
    (inside : offset ≤ size) (positive : 1 ≤ len)
    (oldChain : OldChain opened entry old) {size' : Nat}
    (loaded : Loaded opened entry raw existing ent attr first size')
    (spliced : SplicedFile opened volume' entry raw attr size' old taken
      offset len data) :
    Holds volume' path (overwrite content data offset len)
        (max size (offset + len)) ∧
      OthersKept volume volume' path ∧ DirectoriesKept volume volume' := by
  have isOpened := aimed.isOpened
  obtain ⟨sameSize, bytes⟩ := aimed.oldContent before oldChain loaded
  subst sameSize
  have edited := spliced.edited isOpened aimed.regular storable oldChain
    positive loaded
  have live := spliced.live isOpened aimed.regular storable loaded
  have chain := spliced.chain isOpened aimed.regular oldChain positive
    loaded
  obtain ⟨wellFormed', _, names, others, directories⟩ :=
    aimed.kept edited spliced.entryIs.name live
  refine ⟨?_, others, directories⟩
  have isSize : direntSize volume'.mem entry = max size' (offset + len) := by
    rw [spliced.entryIs.size, Nat.max_comm]
  have length := (chain.regular
    (spliced.not_dir isOpened aimed.regular loaded)).1
  have oldLength := loaded.old_length isOpened aimed.regular oldChain
  have enough := (clustersFor_le_iff
    wellFormed'.geometry.clusterSize_pos _ _).mp (Nat.le_of_eq length.symm)
  rw [isSize] at enough
  refine names.holds wellFormed' spliced.kept.sound chain isSize enough ?_
  rw [spliced.kept.bpb]
  intro number bound index small below
  rw [spliced.bytes number bound index small, overwrite]
  by_cases written : offset ≤ number * opened.bpb.clusterSize + index ∧
      number * opened.bpb.clusterSize + index < offset + len
  · rw [if_pos written, if_pos written]
  · rw [if_neg written, if_neg written]
    have old' : number * opened.bpb.clusterSize + index < size' := by
      omega
    have fits := (clustersFor_le_iff
      isOpened.wellFormed.geometry.clusterSize_pos _ _).mp
      (Nat.le_of_eq oldLength.symm)
    have inOld : number < old.length := by
      have before' : number * opened.bpb.clusterSize <
          old.length * opened.bpb.clusterSize := by
        omega
      exact Nat.lt_of_mul_lt_mul_right before'
    rw [List.getElem_append_left inOld]
    exact bytes number inOld index small old'

/-- `fat_write_at` on a regular or absent file, unless its directory is full
and no cluster is left to extend it. -/
theorem fatWriteAt_splices (wellFormed : WellFormed volume)
    (sound : volume.disk.Sound)
    (resolved : resolvePath volume path = some ⟨0, false, cur, raw⟩)
    (dirSlots : DirSlots volume cur slots)
    (notDirectory : ¬ DirectoryPath volume path)
    (storable : Storable raw) (lookup : ¬ LookupFull volume path)
    (before : Holds volume path content size ∨
      fatStat volume path = some (.error 1) ∧ size = 0)
    (inside : offset ≤ size) (positive : 1 ≤ len)
    (bound : offset + len < 2 ^ 32)
    (result : fatWriteAt volume slot path offset data len =
      some (0, volume')) :
    Holds volume' path (overwrite content data offset len)
        (max size (offset + len)) ∧
      OthersKept volume volume' path ∧ DirectoriesKept volume volume' := by
  obtain ⟨_, code, slot', opened, created, lookupEq, ok⟩ :=
    openTarget_resolved wellFormed sound resolved dirSlots 4 slot
  rw [fatWriteAt_opened ok positive] at result
  have zero : code = 0 := by
    cases created with
    | found _ => rfl
    | vacant _ _ => rfl
    | rootFull _ _ _ => simp at result
    | noCluster _ _ _ _ =>
        exact absurd ⟨_, slot, slot, volume, resolved, rfl, rfl, lookupEq⟩
          lookup
    | grown _ _ _ _ _ _ _ _ _ => rfl
  subst zero
  rw [if_neg (by decide), if_neg (by decide)] at result
  obtain ⟨entry, existing, rfl, aimed⟩ := aimed_of_lookup wellFormed sound
    resolved dirSlots (not_namesDirectory wellFormed sound notDirectory)
    created
  obtain ⟨old, oldChain⟩ := aimed.isOpened.oldChain
  obtain ⟨ent, attr, first, size', loaded, outcome⟩ :=
    spliceFile_eq aimed.isOpened oldChain aimed.width positive bound data
  rw [result] at outcome
  cases outcome with
  | spliced spliced =>
      exact aimed.splicedContent storable before inside positive oldChain
        loaded spliced

end Splice

/-! A new file of three bytes, and a full directory on a full disk. -/

theorem sampleInPlace :
    Holds (sampleDirectory.after (fatWriteAt sampleDirectory .unset
        sampleFile 0 (fun _ => 5) 3)) sampleFile
        (overwrite scratch (fun _ => 5) 0 3) (max 0 (0 + 3)) ∧
      OthersKept sampleDirectory (sampleDirectory.after
        (fatWriteAt sampleDirectory .unset sampleFile 0 (fun _ => 5) 3))
        sampleFile ∧
      DirectoriesKept sampleDirectory (sampleDirectory.after
        (fatWriteAt sampleDirectory .unset sampleFile 0 (fun _ => 5)
          3)) := by
  obtain ⟨wellFormed, sound⟩ := sampleDirectory_wellFormed
  obtain ⟨slots, dirSlots⟩ := sampleFile_slots
  have lookup : ¬ LookupFull sampleDirectory sampleFile :=
    sampleStored_step.lookup
  have missing : fatStat sampleDirectory sampleFile = some (.error 1) := by
    decide +kernel
  exact fatWriteAt_splices wellFormed sound sampleFile_resolved dirSlots
    (sampleStored_step.notDirectory trivial) (by decide) lookup
    (Or.inr ⟨missing, rfl⟩) (by decide) (by decide) (by decide)
    (Volume.after_eq (by decide +kernel))

def sampleAbsent : CString := [0x2f, 0x44, 0x2f, 0x5a]

/-- What the slot variable holds after a call for `/B`. -/
def sampleStale : DirSlot := ⟨3, 32, true⟩

/-- One byte for `/D/Z` on the full volume: the call returns 0, stores
nothing under the path and writes into `/B`. -/
theorem sampleStale_overwrites :
    WellFormed sampleFull ∧ sampleFull.disk.Sound ∧ Ascii sampleAbsent ∧
      fatStat sampleFull sampleAbsent = some (.error 1) ∧
      (fatWriteAt sampleFull sampleStale sampleAbsent 0 (fun _ => 5)
        1).map Prod.fst = some 0 ∧
      fatStat (sampleFull.after (fatWriteAt sampleFull sampleStale
        sampleAbsent 0 (fun _ => 5) 1)) sampleAbsent = some (.error 1) ∧
      (fatReadFile sampleFull [0x2f, 0x42] scratch).map
          (fun read => (read.code, read.size, read.dest 0)) =
        some (0, 512, 9) ∧
      (fatReadFile (sampleFull.after (fatWriteAt sampleFull sampleStale
          sampleAbsent 0 (fun _ => 5) 1)) [0x2f, 0x42] scratch).map
          (fun read => (read.code, read.size, read.dest 0)) =
        some (0, 512, 5) := by
  refine ⟨sampleFull_wellFormed.1, sampleFull_wellFormed.2, ?_⟩
  decide +kernel

end LoafOs
