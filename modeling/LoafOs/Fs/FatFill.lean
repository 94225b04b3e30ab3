import LoafOs.Fs.FatBuild
import LoafOs.Fs.FatEntry

/-!
# Writing a new chain

The loop of `fat_write_file` takes clusters and fills them with the data.
`Filling` is its invariant.  With enough free clusters the loop ends with
the data stored; otherwise it gives all clusters back, and the table is
the one it started from.
-/

namespace LoafOs

/-- The clusters hold the data, with zeros behind its last byte. -/
def Stored (mem : Bytes) (bpb : Bpb) (clusters : List Nat) (data : Bytes)
    (size : Nat) : Prop :=
  ∀ number (bound : number < clusters.length), ∀ index < bpb.clusterSize,
    mem (bpb.clusterAddr clusters[number] + index) =
      if number * bpb.clusterSize + index < size then
        data (number * bpb.clusterSize + index)
      else 0

theorem clustersFor_le_iff {bpb : Bpb} (positive : 0 < bpb.clusterSize)
    (size count : Nat) :
    clustersFor bpb size ≤ count ↔ size ≤ count * bpb.clusterSize := by
  have spread : (size + bpb.clusterSize - 1) / bpb.clusterSize <
        count + 1 ↔
      size + bpb.clusterSize - 1 < (count + 1) * bpb.clusterSize :=
    Nat.div_lt_iff_lt_mul positive
  rw [Nat.succ_mul] at spread
  rw [clustersFor]
  omega

/-- The last byte lies in the last cluster. -/
theorem clustersFor_eq {bpb : Bpb} {size : Nat}
    (clusterPos : 0 < bpb.clusterSize) (positive : 0 < size) :
    clustersFor bpb size = (size - 1) / bpb.clusterSize + 1 := by
  rw [clustersFor, ← Nat.add_div_right _ clusterPos]
  congr 1
  omega

theorem clustersFor_mono {bpb : Bpb} {less more : Nat}
    (positive : 0 < bpb.clusterSize) (ordered : less ≤ more) :
    clustersFor bpb less ≤ clustersFor bpb more :=
  Nat.div_le_div_right (by omega)

theorem InClusters.append_left {bpb : Bpb} {left right : List Nat}
    {address : Nat} (inside : InClusters bpb left address) :
    InClusters bpb (left ++ right) address := by
  obtain ⟨cluster, member, bounds⟩ := inside
  exact ⟨cluster, List.mem_append_left _ member, bounds⟩

theorem InClusters.mono {bpb : Bpb} {left right : List Nat}
    {address : Nat} (inside : InClusters bpb left address)
    (subset : ∀ cluster ∈ left, cluster ∈ right) :
    InClusters bpb right address := by
  obtain ⟨cluster, member, bounds⟩ := inside
  exact ⟨cluster, subset cluster member, bounds⟩

/-- Clusters lie behind the tables. -/
theorem InClusters.behind {bpb : Bpb} {clusters : List Nat}
    {address : Nat} (inside : InClusters bpb clusters address) :
    512 * bpb.rootStart ≤ address := by
  obtain ⟨cluster, _, lower, _⟩ := inside
  have start := dataStart_le_clusterAddr bpb cluster
  have order := rootStart_le_dataStart bpb
  omega

/-- The loop of `fat_write_file` has taken and filled some clusters. -/
structure Filling (base volume : Volume) (data : Bytes) (size : Nat)
    (taken : List Nat) : Prop where
  building : Building base volume [] taken
  outside : ∀ address, ¬ InClusters base.bpb taken address →
    volume.mem address = base.mem address
  stored : Stored volume.mem base.bpb taken data size
  needed : taken.length ≤ clustersFor base.bpb size

/-- How the loop of `fat_write_file` ends. -/
inductive FillOutcome (base : Volume) (data : Bytes) (size : Nat) :
    Option (Nat × Nat × Nat × Volume) → Prop
  | stored {volume' : Volume}
      (enough : clustersFor base.bpb size ≤ base.free.length)
      (filling : Filling base volume' data size
        (base.free.take (clustersFor base.bpb size))) :
      FillOutcome base data size
        (some (0, (base.free.take (clustersFor base.bpb size)).headD 0,
          (base.free.take (clustersFor base.bpb size)).getLastD 0,
          volume'))
  | full {first prev : Nat} {volume' : Volume}
      (short : base.free.length < clustersFor base.bpb size)
      (bpb : volume'.bpb = base.bpb) (sound : volume'.disk.Sound)
      (fatBuf : volume'.fatBuf = base.fatBuf)
      (outside : ∀ address, ¬ InClusters base.bpb base.free address →
        volume'.mem address = base.mem address) :
      FillOutcome base data size (some (3, first, prev, volume'))

namespace Filling

variable {base volume : Volume} {data : Bytes} {size : Nat}
  {taken : List Nat}

theorem start (sound : base.disk.Sound) (data : Bytes) (size : Nat) :
    Filling base base data size [] where
  building :=
    { bpb := rfl
      sound := sound
      path := .done (Or.inl (by decide))
      inside := by simp
      linked := by simp
      others := fun _ _ => rfl
      same := fun _ => rfl
      marked := fun nonempty => absurd rfl nonempty
      free := (List.nil_append _).symm }
  outside := fun _ _ => rfl
  stored := fun number bound => absurd bound (Nat.not_lt_zero _)
  needed := Nat.zero_le _

theorem geometry (filling : Filling base volume data size taken)
    (geometry : Geometry base.bpb) : Geometry volume.bpb :=
  filling.building.geometry geometry

/-- The clusters taken are different and have blocks of their own. -/
theorem fresh_apart
    (filling : Filling base volume data size taken) {fresh : Nat}
    {rest : List Nat} (free : volume.free = fresh :: rest) :
    ∀ cluster ∈ taken,
      base.bpb.clusterAddr cluster + base.bpb.clusterSize ≤
          base.bpb.clusterAddr fresh ∨
        base.bpb.clusterAddr fresh + base.bpb.clusterSize ≤
          base.bpb.clusterAddr cluster := by
  intro cluster member
  have isFree : fresh ∈ volume.free := by
    rw [free]
    exact List.mem_cons_self
  obtain ⟨low, _, unused⟩ := Volume.mem_free.mp isFree
  have linked := filling.building.linked cluster (by simpa using member)
  have clusterLow := filling.building.low cluster (by simpa using member)
  refine clusterAddr_apart base.bpb clusterLow low fun same => ?_
  rw [same, unused] at linked
  omega

/-- One pass of the loop: `linked` is the volume after the cluster has been
hung on the chain, and its block is then written. -/
theorem step {linked : Volume} (geometry : Geometry base.bpb)
    (filling : Filling base volume data size taken) {fresh : Nat}
    {rest : List Nat} (free : volume.free = fresh :: rest)
    (more : taken.length * base.bpb.clusterSize < size)
    (building : Building base linked [] (taken ++ [fresh]))
    (sameMem : linked.mem = volume.mem) :
    ∃ volume',
      linked.write (linked.bpb.clusterLba fresh) linked.bpb.perCluster
          ((scratch.fill 0 0 linked.bpb.clusterSize).copy 0
            (data.shift (taken.length * base.bpb.clusterSize))
            (min (size - taken.length * base.bpb.clusterSize)
              linked.bpb.clusterSize)) = (0, volume') ∧
        Filling base volume' data size (taken ++ [fresh]) := by
  have positive := geometry.clusterSize_pos
  have low := building.low fresh (by simp)
  have high := building.inside fresh (by simp)
  rw [← building.bpb] at high
  obtain ⟨volume', written, kept, fatBuf, mem⟩ :=
    Volume.writeCluster_kept (building.geometry geometry) building.sound
      low high
      ((scratch.fill 0 0 linked.bpb.clusterSize).copy 0
        (data.shift (taken.length * base.bpb.clusterSize))
        (min (size - taken.length * base.bpb.clusterSize)
          linked.bpb.clusterSize))
  rw [building.bpb, sameMem] at mem
  refine ⟨volume', written, ?_⟩
  exact
    { building := building.congr kept.bpb kept.sound fatBuf
      outside := by
        intro address outside
        have notFresh : address < base.bpb.clusterAddr fresh ∨
            base.bpb.clusterAddr fresh + base.bpb.clusterSize ≤
              address := by
          by_contra inside
          exact outside ⟨fresh, by simp, by omega, by omega⟩
        rw [mem, Bytes.copy_outside notFresh]
        exact filling.outside address fun inside =>
          outside inside.append_left
      stored := by
        intro number bound index small
        rw [List.length_append, List.length_singleton] at bound
        by_cases before : number < taken.length
        · have block : (taken ++ [fresh])[number] = taken[number] :=
            List.getElem_append_left before
          have apart := filling.fresh_apart free taken[number]
            (List.getElem_mem before)
          rw [mem, block, Bytes.copy_outside (by omega)]
          exact filling.stored number before index small
        · have last : number = taken.length := by omega
          subst last
          rw [mem, List.getElem_concat_length rfl,
            Bytes.copy_inside (by omega) (by omega),
            Nat.add_sub_cancel_left]
          split
          case isTrue inData =>
            rw [Bytes.copy_inside (by omega) (by omega), Bytes.shift]
            rfl
          case isFalse behind =>
            rw [Bytes.copy_outside (by omega)]
            exact if_pos ⟨by omega, by omega⟩
      needed := by
        rw [List.length_append, List.length_singleton]
        by_contra enough
        have fits := (clustersFor_le_iff positive size taken.length).mp
          (by omega)
        omega }

/-- Both cases of linking a new cluster in `fat_write_file`. -/
theorem linked (geometry : Geometry base.bpb)
    (filling : Filling base volume data size taken) {fresh : Nat}
    {rest : List Nat} (free : volume.free = fresh :: rest) :
    Building base
      (if taken.getLastD 0 = 0 then volume.setEntry fresh fatEocMark
        else (volume.setEntry fresh fatEocMark).setEntry
          (taken.getLastD 0) fresh) [] (taken ++ [fresh]) := by
  by_cases empty : taken = []
  · subst empty
    exact filling.building.take_first geometry free
  · have nonempty : [] ++ taken ≠ [] := by simpa using empty
    have last : taken.getLastD 0 = ([] ++ taken).getLast nonempty := by
      simp [List.getLastD_eq_getLast?, List.getLast?_eq_some_getLast empty]
    have low := filling.building.low _ (List.getLast_mem nonempty)
    rw [last, if_neg (by omega)]
    exact filling.building.take_next geometry nonempty free

/-- The loop of `fat_write_file` from any of its states. -/
theorem loop (geometry : Geometry base.bpb) :
    ∀ (fuel : Nat) {taken : List Nat} {volume : Volume},
      Filling base volume data size taken →
      volume.free.length + 1 < fuel →
        FillOutcome base data size
          (writeChain data fuel (taken.headD 0) (taken.getLastD 0)
            (min size (taken.length * base.bpb.clusterSize))
            (size - taken.length * base.bpb.clusterSize) volume)
  | 0, _, _, _, short => absurd short (Nat.not_lt_zero _)
  | fuel + 1, taken, volume, filling, enough => by
      have positive := geometry.clusterSize_pos
      have free := filling.building.free
      have total : base.free.length =
          taken.length + volume.free.length := by
        rw [free, List.length_append]
      rw [writeChain]
      by_cases finished : size - taken.length * base.bpb.clusterSize = 0
      · rw [if_pos finished]
        have exact_ : clustersFor base.bpb size = taken.length := by
          have fits := (clustersFor_le_iff positive size taken.length).mpr
            (by omega)
          exact Nat.le_antisymm fits filling.needed
        have takenEq :
            base.free.take (clustersFor base.bpb size) = taken := by
          rw [exact_, free, List.take_left]
        have filled : Filling base volume data size
            (base.free.take (clustersFor base.bpb size)) := by
          rwa [takenEq]
        have outcome := FillOutcome.stored (by omega) filled
        rwa [takenEq] at outcome
      rw [if_neg finished]
      have more : taken.length * base.bpb.clusterSize < size := by omega
      have unfilled : taken.length < clustersFor base.bpb size := by
        by_contra reached
        have fits := (clustersFor_le_iff positive size taken.length).mp
          (by omega)
        omega
      cases freeEq : volume.free with
      | nil =>
          rw [freeEq, List.length_nil] at total
          rw [fatAllocCluster_none (filling.geometry geometry) freeEq]
          have short : base.free.length < clustersFor base.bpb size := by
            omega
          have takenAll : taken = base.free := by
            rw [free, freeEq, List.append_nil]
          have outside : ∀ address,
              ¬ InClusters base.bpb base.free address →
                volume.mem address = base.mem address := by
            intro address notFree
            rw [← takenAll] at notFree
            exact filling.outside address notFree
          cases takenEq : taken with
          | nil =>
              exact .full short filling.building.bpb
                filling.building.sound (filling.building.same takenEq)
                outside
          | cons first others =>
              have low := filling.building.low first (by simp [takenEq])
              obtain ⟨volume', freed, bpb, disk, fatBuf⟩ :=
                filling.building.release
              rw [takenEq, List.headD_cons] at freed
              have nonzero : first ≠ 0 := by omega
              simp only [Option.bind_eq_bind, Option.bind_some, if_true,
                List.headD_cons, nonzero, if_false, freed]
              refine .full short bpb ?_ fatBuf fun address notFree => ?_
              · rw [disk]
                exact filling.building.sound
              · rw [← outside address notFree, Volume.mem, disk]
                rfl
      | cons fresh rest =>
          have isFree : fresh ∈ volume.free := by
            rw [freeEq]
            exact List.mem_cons_self
          have low := (Volume.mem_free.mp isFree).1
          have nonzero : fresh ≠ 0 := by omega
          have building := filling.linked geometry freeEq
          obtain ⟨volume', written, filling'⟩ := filling.step geometry
            freeEq more building (by split <;> rfl)
          have restEq : volume'.free = rest := by
            have after := filling'.building.free
            rw [free, freeEq, List.append_assoc, List.singleton_append]
              at after
            have tail := List.append_cancel_left after
            rw [List.cons.injEq] at tail
            exact tail.2.symm
          have next := loop geometry fuel filling' (by
            rw [restEq]
            rw [freeEq, List.length_cons] at enough
            omega)
          have position : min size (taken.length * base.bpb.clusterSize) =
              taken.length * base.bpb.clusterSize := by omega
          have head : (if taken.getLastD 0 = 0 then fresh
              else taken.headD 0) = (taken ++ [fresh]).headD 0 := by
            cases takenEq : taken with
            | nil => rfl
            | cons first others =>
                have lastLow := filling.building.low
                  ((first :: others).getLastD 0) (by
                    rw [List.nil_append, takenEq, List.getLastD_cons]
                    exact List.getLastD_mem_cons)
                rw [if_neg (by omega)]
                rfl
          have last : fresh = (taken ++ [fresh]).getLastD 0 := by simp
          have layout := building.bpb
          rw [layout] at written
          rw [fatAllocCluster_some (filling.geometry geometry) freeEq,
            position]
          simp only [Option.bind_eq_bind, Option.bind_some, nonzero,
            if_false, layout, written, ne_eq, not_true, head]
          rw [List.length_append, List.length_singleton, Nat.succ_mul,
            ← last] at next
          have position' : min size
                (taken.length * base.bpb.clusterSize +
                  base.bpb.clusterSize) =
              taken.length * base.bpb.clusterSize +
                min (size - taken.length * base.bpb.clusterSize)
                  base.bpb.clusterSize := by omega
          have remaining : size - (taken.length * base.bpb.clusterSize +
                base.bpb.clusterSize) =
              size - taken.length * base.bpb.clusterSize -
                min (size - taken.length * base.bpb.clusterSize)
                  base.bpb.clusterSize := by omega
          rwa [position', remaining] at next

end Filling

end LoafOs
