import LoafOs.Fs.FatEditing
import LoafOs.Fs.FatGap
import LoafOs.Fs.FileTable

/-!
# Files as streams

A file is opened for writing and written piece by piece, then opened for
reading and read piece by piece.  Nothing else happens in between, so the
pieces that are read are those of the bytes that were written.
-/

namespace LoafOs

/-- The bytes as a memory. -/
def listBytes (bytes : List UInt8) : Bytes :=
  fun index => bytes.getD index 0

/-- The path leads to a file with these bytes, and with the free clusters
its chain has room for `total` bytes. -/
structure Written (volume : Volume) (path : CString) (total : Nat)
    (bytes : List UInt8) : Prop where
  wellFormed : WellFormed volume
  sound : volume.disk.Sound
  holds : Holds volume path (listBytes bytes) bytes.length
  room : ∃ entry clusters, Names volume path entry ∧
    ¬ IsDir volume.mem entry ∧ Chain volume entry clusters ∧
      clustersFor volume.bpb total ≤
        clusters.length + volume.free.length

section Volumes

variable {volume : Volume} {path : CString} {total cur : Nat}
  {bytes piece : List UInt8} {raw : List UInt8} {slots : List Nat}

theorem Holds.congr {content content' : Bytes} {size : Nat}
    (holds : Holds volume path content size)
    (same : ∀ index < size, content' index = content index) :
    Holds volume path content' size := by
  intro dest
  obtain ⟨read, result, code, isSize, stored, here⟩ := holds dest
  exact ⟨read, result, code, isSize, stored, fun index inside =>
    (here index inside).trans (same index inside).symm⟩

theorem listBytes_append {index : Nat}
    (inside : index < (bytes ++ piece).length) :
    listBytes (bytes ++ piece) index =
      overwrite (listBytes bytes) (listBytes piece) bytes.length
        piece.length index := by
  rw [List.length_append] at inside
  rw [overwrite, listBytes]
  split
  case isTrue within =>
    rw [List.getD_append_right _ _ _ _ within.1, listBytes]
  case isFalse outside =>
    rw [List.getD_append _ _ _ _ (by omega), listBytes]

theorem Volume.free_length_le (volume : Volume) :
    volume.free.length ≤ volume.bpb.totalClusters := by
  have filtered := List.length_filter_le
    (fun cluster => decide (volume.next cluster = 0))
    (List.range' 2 (volume.bpb.totalClusters - 2))
  rw [List.length_range'] at filtered
  rw [Volume.free, freeClusters]
  omega

/-- What there is room for is less than a signed result can say. -/
theorem Written.small (written : Written volume path total bytes) :
    total < 2 ^ 31 := by
  obtain ⟨entry, clusters, _, _, chain, room⟩ := written.room
  have geometry := written.wellFormed.geometry
  have clusterPos := geometry.clusterSize_pos
  have few := chain_length_small chain.path
  have total_le := geometry.totalClusters_le
  have free_le := volume.free_length_le
  have perCluster : volume.bpb.perCluster < 2 ^ 8 :=
    volume.bpb.sectorsPerCluster.toNat_lt
  have bounded : clustersFor volume.bpb total ≤ 0x2000 := by omega
  rw [clustersFor_le_iff clusterPos] at bounded
  have size : volume.bpb.clusterSize < 2 ^ 17 := by
    rw [Bpb.clusterSize]
    omega
  omega

/-- One more piece is written behind the others. -/
theorem Written.write (written : Written volume path total bytes)
    (stack : DirSlot) (nonempty : piece ≠ [])
    (fits : (bytes ++ piece).length ≤ total) (bound : total < 2 ^ 32) :
    ∃ volume', fatWriteAt volume stack path bytes.length
        (listBytes piece) piece.length = some (0, volume') ∧
      Written volume' path total (bytes ++ piece) := by
  obtain ⟨wellFormed, sound, holds, entry, clusters, names, regular, chain,
    room⟩ := written
  obtain ⟨cur, name, slots, resolved, dirSlots, found⟩ := names
  obtain ⟨_, code, slot', opened, created, _, ok⟩ :=
    openTarget_resolved wellFormed sound resolved dirSlots 4 stack
  obtain ⟨rfl, rfl, isVolume⟩ := created.of_finds found
  obtain rfl : volume = opened := isVolume.symm
  have isOpened : Opened volume cur (toFatName name) entry true :=
    ⟨wellFormed, sound, toFatName_head name, slots, dirSlots, found.member,
      fun _ => found, by simp⟩
  have aimed : Aimed volume path cur (toFatName name) slots stack volume
      entry true :=
    ⟨wellFormed, sound, resolved, dirSlots, ⟨name, rfl⟩, created, isOpened,
      fun _ => regular⟩
  have storable : Storable (toFatName name) := found.matches.storable
  have oldChain : OldChain volume entry clusters :=
    ⟨fun _ => chain, fun unreached => absurd isOpened.reach unreached⟩
  have positive : 1 ≤ piece.length :=
    List.length_pos_iff.mpr nonempty
  rw [List.length_append] at fits
  have clusterPos := wellFormed.geometry.clusterSize_pos
  obtain ⟨ent, attr, first, size, loaded, outcome⟩ :=
    spliceFile_eq isOpened oldChain aimed.width positive
      (show bytes.length + piece.length < 2 ^ 32 by omega)
      (listBytes piece)
  have result := fatWriteAt_opened ok positive bytes.length
    (listBytes piece)
  rw [if_neg (by decide), if_neg (by decide)] at result
  rw [← result] at outcome
  generalize fatWriteAt volume stack path bytes.length (listBytes piece)
    piece.length = call at outcome
  cases outcome with
  | full exhausted _ =>
      have short := exhausted.short
      have more : clustersFor volume.bpb (bytes.length + piece.length) ≤
          clustersFor volume.bpb total := clustersFor_mono clusterPos fits
      have count := clustersFor_eq clusterPos
        (show 0 < bytes.length + piece.length by omega)
      rw [List.length_append] at short
      omega
  | @spliced volume' taken spliced =>
      have edited := spliced.edited isOpened (fun _ => regular) storable
        oldChain positive loaded
      have live := spliced.live isOpened (fun _ => regular) storable loaded
      obtain ⟨wellFormed', bpb, names', _⟩ :=
        aimed.kept edited spliced.entryIs.name live
      obtain ⟨holds', _⟩ := aimed.splicedContent storable (.inl holds)
        (Nat.le_refl _) positive oldChain loaded spliced
      have isFile : ¬ IsDir volume'.mem entry := by
        rw [IsDir, spliced.entryIs.attr,
          (loaded.attr_plain isOpened fun _ => regular).2.2, not_not]
      refine ⟨volume', rfl, wellFormed', spliced.kept.sound, ?_, entry,
        clusters ++ taken, names', isFile, edited.newChain live, ?_⟩
      · have isLength : max bytes.length (bytes.length + piece.length) =
            (bytes ++ piece).length := by
          rw [List.length_append]
          omega
        rw [isLength] at holds'
        exact holds'.congr fun index inside => listBytes_append inside
      · have free := congrArg List.length spliced.building.free
        rw [List.length_append] at free
        rw [bpb, List.length_append]
        omega

end Volumes

/-! ## Handles -/

/-- Consecutive pieces of the content with at most these sizes. -/
def deliveries : List UInt8 → List (Bytes × UInt32) →
    List (Int × List UInt8)
  | _, [] => []
  | content, (_, len) :: rest =>
      (((content.take len.toNat).length : Int), content.take len.toNat) ::
        deliveries (content.drop len.toNat) rest

section Streams

variable {fs : FileSystem} {path : CString} {total : Nat} {idx : Int}
  {bytes piece left : List UInt8}

end Streams

def sampleLate : CString := [0x2f, 0x5a]

end LoafOs
