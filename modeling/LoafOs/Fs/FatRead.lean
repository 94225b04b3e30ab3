import LoafOs.Fs.FatResolve

/-!
# What reading delivers

`fat_stat` and `fat_read_file` as functions of the entry that a path leads
to: the fields of the entry, and the bytes of the clusters of its chain in
order.
-/

namespace LoafOs

/-- The clusters of a chain copied one after another to `dest`. -/
def gather (mem : Bytes) (bpb : Bpb) : List Nat → Nat → Bytes → Bytes
  | [], _, dest => dest
  | cluster :: rest, stored, dest =>
      gather mem bpb rest (stored + bpb.clusterSize)
        (dest.copy stored (mem.shift (bpb.clusterAddr cluster))
          bpb.clusterSize)

section Gather

variable {mem mem' : Bytes} {bpb : Bpb}

theorem gather_outside :
    ∀ (clusters : List Nat) (stored : Nat) (dest : Bytes) (index : Nat),
      index < stored ∨
          stored + clusters.length * bpb.clusterSize ≤ index →
        gather mem bpb clusters stored dest index = dest index
  | [], _, _, _, _ => rfl
  | cluster :: rest, stored, dest, index, outside => by
      rw [List.length_cons, Nat.succ_mul] at outside
      rw [gather, gather_outside rest _ _ index (by omega)]
      exact Bytes.copy_outside (by omega)

/-- Byte `index` of cluster number `number` of the chain. -/
theorem gather_inside :
    ∀ (clusters : List Nat) (stored : Nat) (dest : Bytes)
      (number : Nat) (bound : number < clusters.length) (index : Nat),
      index < bpb.clusterSize →
        gather mem bpb clusters stored dest
            (stored + number * bpb.clusterSize + index) =
          mem (bpb.clusterAddr clusters[number] + index)
  | [], _, _, _, bound, _, _ => absurd bound (Nat.not_lt_zero _)
  | cluster :: rest, stored, dest, 0, _, index, small => by
      rw [gather, gather_outside rest _ _ _ (by omega), Nat.zero_mul,
        Bytes.copy_inside (by omega) (by omega), Bytes.shift]
      exact congrArg mem (by simp)
  | cluster :: rest, stored, dest, number + 1, bound, index, small => by
      have tail := gather_inside rest (stored + bpb.clusterSize)
        (dest.copy stored (mem.shift (bpb.clusterAddr cluster))
          bpb.clusterSize) number (Nat.lt_of_succ_lt_succ bound) index small
      rw [gather, List.getElem_cons_succ, ← tail, Nat.succ_mul]
      exact congrArg _ (by omega)

/-- Only the bytes of the clusters decide what is delivered. -/
theorem gather_congr :
    ∀ (clusters : List Nat) (stored : Nat) (dest : Bytes),
      (∀ cluster ∈ clusters, ∀ index < bpb.clusterSize,
        mem (bpb.clusterAddr cluster + index) =
          mem' (bpb.clusterAddr cluster + index)) →
        gather mem bpb clusters stored dest =
          gather mem' bpb clusters stored dest
  | [], _, _, _ => rfl
  | cluster :: rest, stored, dest, agree => by
      have here : dest.copy stored (mem.shift (bpb.clusterAddr cluster))
            bpb.clusterSize =
          dest.copy stored (mem'.shift (bpb.clusterAddr cluster))
            bpb.clusterSize :=
        Bytes.copy_congr (agree cluster List.mem_cons_self)
      rw [gather, gather, here]
      exact gather_congr rest _ _ fun other member =>
        agree other (List.mem_cons_of_mem cluster member)

end Gather

section Read

variable {volume : Volume}

theorem readChain_eq (geometry : Geometry volume.bpb)
    (sound : volume.disk.Sound) :
    ∀ {clusters : List Nat} {fuel start : Nat} (stored : Nat)
      (dest : Bytes),
      Links.Path volume.next ChainStop start clusters →
      (∀ cluster ∈ clusters, cluster < volume.bpb.totalClusters) →
      clusters.length < fuel →
        readChain volume fuel start stored dest =
          some (0, stored + clusters.length * volume.bpb.clusterSize,
            gather volume.mem volume.bpb clusters stored dest)
  | _, 0, _, _, _, _, _, short => absurd short (Nat.not_lt_zero _)
  | [], fuel + 1, start, stored, dest, path, _, _ => by
      cases path with
      | done stopped =>
      rw [readChain, if_pos stopped]
      simp [gather]
  | cluster :: rest, fuel + 1, start, stored, dest, path, inside,
      short => by
      cases path with
      | more going tail =>
      have low : 2 ≤ cluster := by
        simp only [ChainStop, not_or] at going
        omega
      have high := inside cluster List.mem_cons_self
      rw [readChain, if_neg going,
        Volume.readCluster_eq geometry sound low high]
      have delivered : dest.copy stored ((dest.shift stored).copy 0
            (volume.mem.shift (volume.bpb.clusterAddr cluster))
            volume.bpb.clusterSize) volume.bpb.clusterSize =
          dest.copy stored
            (volume.mem.shift (volume.bpb.clusterAddr cluster))
            volume.bpb.clusterSize := by
        refine Bytes.copy_congr fun index small => ?_
        exact Bytes.copy_inside (by omega) (by omega)
      simp only [delivered]
      rw [readChain_eq geometry sound _ _ tail
        (fun other member =>
          inside other (List.mem_cons_of_mem cluster member))
        (Nat.lt_of_succ_lt_succ short), gather, List.length_cons,
        Nat.succ_mul]
      exact congrArg (fun total => some (0, total, _)) (by omega)

/-- The record that `fat_stat` fills from an entry. -/
def statOf (mem : Bytes) (entry : Nat) : FatStat where
  name := fromFatName (direntName mem entry)
  size := direntSize mem entry
  firstCluster := direntFirst mem entry
  attr := direntAttr mem entry

theorem SameEntry.statOf_eq {mem mem' : Bytes} {entry entry' : Nat}
    (same : SameEntry mem entry mem' entry') :
    statOf mem entry = statOf mem' entry' := by
  rw [statOf, statOf, same.name, same.size, same.first, same.attr]

theorem Names.fatStat_eq (readable : Readable volume)
    (sound : volume.disk.Sound) {path : CString} {entry : Nat}
    (names : Names volume path entry) :
    fatStat volume path = some (.ok (statOf volume.mem entry)) := by
  have reach := names.reach
  obtain ⟨cur, name, slots, resolved, dirSlots, found⟩ := names
  obtain ⟨read, same⟩ := readSlot_eq sound
    (reach.treeSlot.onDisk readable) true
  have lookup := found.lookup readable sound dirSlots .unset
  have existing : (slotAt entry true).existing = true := rfl
  rw [fatStat, resolved]
  simp only [Option.bind_eq_bind, Option.bind_some, lookup, existing,
    read, ← same.statOf_eq]
  rfl

theorem Names.fatReadFile_eq (readable : Readable volume)
    (sound : volume.disk.Sound) {path : CString} {entry : Nat}
    {clusters : List Nat} (names : Names volume path entry)
    (chain : Chain volume entry clusters) (dest : Bytes) :
    fatReadFile volume path dest =
      some ⟨0, direntSize volume.mem entry,
        clusters.length * volume.bpb.clusterSize,
        gather volume.mem volume.bpb clusters 0 dest⟩ := by
  have reach := names.reach
  obtain ⟨cur, name, slots, resolved, dirSlots, found⟩ := names
  obtain ⟨read, same⟩ := readSlot_eq sound
    (reach.treeSlot.onDisk readable) true
  have lookup := found.lookup readable sound dirSlots .unset
  have existing : (slotAt entry true).existing = true := rfl
  have copied := readChain_eq readable.geometry sound 0 dest chain.path
    chain.inside (chain_length_le chain.path)
  rw [fatReadFile, resolved]
  simp only [Option.bind_eq_bind, Option.bind_some, lookup, existing,
    read, same.first, same.size, copied, Nat.zero_add]
  rfl

/-- The path is that of the root directory. -/
def RootPath (volume : Volume) (path : CString) : Prop :=
  ∃ resolved, resolvePath volume path = some resolved ∧
    resolved.code = 0 ∧ resolved.isRoot = true

theorem RootPath.fatStat_eq {path : CString}
    (root : RootPath volume path) :
    fatStat volume path = some (.ok ⟨[0x2f], 0, 0, attrDirectory⟩) := by
  obtain ⟨resolved, result, zero, isRoot⟩ := root
  rw [fatStat, result]
  simp only [Option.bind_eq_bind, Option.bind_some, zero, isRoot]
  rfl

theorem RootPath.fatReadFile_eq {path : CString}
    (root : RootPath volume path) (dest : Bytes) :
    fatReadFile volume path dest = some ⟨3, 0, 0, dest⟩ := by
  obtain ⟨resolved, result, zero, isRoot⟩ := root
  rw [fatReadFile, result]
  simp only [Option.bind_eq_bind, Option.bind_some, zero, isRoot]
  rfl

/-- A path for which `fat_stat` succeeds is the root or leads to an
entry. -/
theorem fatStat_ok (readable : Readable volume)
    (sound : volume.disk.Sound) {path : CString} {stat : FatStat}
    (result : fatStat volume path = some (.ok stat)) :
    RootPath volume path ∨ ∃ entry, Names volume path entry := by
  obtain ⟨resolved, resolveEq, inTree⟩ :=
    resolvePath_ends readable sound path
  rw [fatStat, resolveEq] at result
  simp only [Option.bind_eq_bind, Option.bind_some] at result
  by_cases zero : resolved.code = 0
  · by_cases root : resolved.isRoot = true
    · exact Or.inl ⟨resolved, resolveEq, zero, root⟩
    · have notRoot : resolved.isRoot = false := by simpa using root
      obtain ⟨slots, name, dirSlots, nameEq, _⟩ := inTree zero notRoot
      rcases dirLookup_find readable sound dirSlots resolved.finalName
          .unset with
        ⟨entry, found, _⟩ | ⟨_, code, slot', lookup, outcome⟩
      · right
        refine ⟨entry, resolved.dirCluster, name, slots, ?_, dirSlots, ?_⟩
        · rw [resolveEq, ← nameEq, ← notRoot, ← zero]
        · rwa [← nameEq]
      · exfalso
        simp only [zero, root, lookup, ne_eq, not_true, if_false,
          Option.bind_some] at result
        rcases outcome with ⟨rfl, missing⟩ | ⟨rfl, rfl⟩
        · simp [missing] at result
        · simp at result
  · simp [zero] at result

/-- `fat_stat` always comes back. -/
theorem fatStat_ends (readable : Readable volume)
    (sound : volume.disk.Sound) (path : CString) :
    ∃ result, fatStat volume path = some result := by
  obtain ⟨resolved, resolveEq, inTree⟩ :=
    resolvePath_ends readable sound path
  by_cases zero : resolved.code = 0
  · by_cases root : resolved.isRoot = true
    · exact ⟨_, RootPath.fatStat_eq ⟨resolved, resolveEq, zero, root⟩⟩
    · have notRoot : resolved.isRoot = false := by simpa using root
      obtain ⟨slots, name, dirSlots, nameEq, _⟩ := inTree zero notRoot
      rcases dirLookup_find readable sound dirSlots resolved.finalName
          .unset with
        ⟨entry, found, _⟩ | ⟨_, code, slot', lookup, outcome⟩
      · have names : Names volume path entry := by
          refine ⟨resolved.dirCluster, name, slots, ?_, dirSlots, ?_⟩
          · rw [resolveEq, ← nameEq, ← notRoot, ← zero]
          · rwa [← nameEq]
        exact ⟨_, names.fatStat_eq readable sound⟩
      · refine ⟨.error 1, ?_⟩
        rw [fatStat, resolveEq]
        rcases outcome with ⟨rfl, missing⟩ | ⟨rfl, rfl⟩
        · simp [zero, notRoot, lookup, missing]
        · simp [zero, notRoot, lookup]
  · refine ⟨.error 1, ?_⟩
    rw [fatStat, resolveEq]
    simp [zero]

end Read

end LoafOs
