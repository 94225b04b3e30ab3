import LoafOs.Fs.FatWriteFile

/-!
# Writing in place

The two loops of `fat_write_at` walk along a chain and extend it where it
ends.  `Along` is a position on the chain, `Spliced` the bytes replaced so
far.  A loop that finds no free cluster has taken all of them and written
up to the end of the chain.
-/

namespace LoafOs

/-! ## Walking and extending -/

/-- The walk stands at the cluster number `position` of the chain, and has
extended the chain no further. -/
structure Along (base volume : Volume) (old taken : List Nat)
    (position cluster : Nat) : Prop where
  building : Building base volume old taken
  here : (old ++ taken)[position]? = some cluster
  length : (old ++ taken).length = max old.length (position + 1)

/-- No cluster is left, and the chain ends before the position. -/
structure Exhausted (base volume : Volume) (old : List Nat)
    (position : Nat) : Prop where
  building : Building base volume old base.free
  short : (old ++ base.free).length ≤ position

section Walk

variable {base volume : Volume} {old taken : List Nat}
  {position cluster : Nat}

theorem Along.bound
    (along : Along base volume old taken position cluster) :
    position < (old ++ taken).length :=
  (List.getElem?_eq_some_iff.mp along.here).1

theorem Along.getElem
    (along : Along base volume old taken position cluster)
    (bound : position < (old ++ taken).length) :
    (old ++ taken)[position] = cluster :=
  (List.getElem?_eq_some_iff.mp along.here).2

theorem Along.low (along : Along base volume old taken position cluster) :
    2 ≤ cluster :=
  along.building.low cluster (List.mem_of_getElem? along.here)

theorem Along.high (along : Along base volume old taken position cluster) :
    cluster < base.bpb.totalClusters :=
  along.building.inside cluster (List.mem_of_getElem? along.here)

/-- The step from one cluster to the next in `fat_write_at`. -/
theorem Along.next (geometry : Geometry base.bpb)
    (along : Along base volume old taken position cluster) :
    (∃ next volume' more, nextOrAlloc volume cluster =
        some (next, volume') ∧ next ≠ 0 ∧
      Along base volume' old (taken ++ more) (position + 1) next ∧
      volume'.mem = volume.mem) ∨
    nextOrAlloc volume cluster = some (0, volume) ∧
      Exhausted base volume old (position + 1) := by
  have building := along.building
  have nonempty : old ++ taken ≠ [] := by
    intro empty
    have bound := along.bound
    rw [empty] at bound
    exact absurd bound (Nat.not_lt_zero _)
  by_cases inner : position + 1 < (old ++ taken).length
  · have follows := building.path.next_getElem inner
    rw [along.getElem] at follows
    have member := List.getElem_mem inner
    have going := building.path.not_stop _ member
    simp only [ChainStop, not_or] at going
    have goesOn : ¬ (volume.next cluster = 0 ∨
        0x0ff8 ≤ volume.next cluster) := by
      rw [follows]
      omega
    refine Or.inl ⟨(old ++ taken)[position + 1], volume, [], ?_, ?_, ?_,
      rfl⟩
    · rw [nextOrAlloc, if_neg goesOn, follows]
      rfl
    · omega
    · rw [List.append_nil]
      refine ⟨building, List.getElem?_eq_getElem inner, ?_⟩
      have length := along.length
      omega
  · have bound := along.bound
    have length := along.length
    have isLast : (old ++ taken).getLast nonempty = cluster := by
      rw [List.getLast_eq_getElem, ← along.getElem along.bound]
      exact getElem_congr_idx (by omega)
    have stopped := building.path.next_getLast nonempty
    have linked := building.linked _ (List.getLast_mem nonempty)
    rw [isLast] at stopped linked
    have ended : volume.next cluster = 0 ∨
        0x0ff8 ≤ volume.next cluster := by
      simp only [ChainStop] at stopped
      omega
    cases free : volume.free with
    | nil =>
        right
        have all : base.free = taken := by
          rw [building.free, free, List.append_nil]
        refine ⟨?_, by rwa [all], by rw [all]; omega⟩
        rw [nextOrAlloc, if_pos ended,
          fatAllocCluster_none (building.geometry geometry) free]
        rfl
    | cons fresh rest =>
        left
        have taken' := building.take_next geometry nonempty free
        have isFree : fresh ∈ volume.free := by
          rw [free]
          exact List.mem_cons_self
        have low := (Volume.mem_free.mp isFree).1
        have nonzero : fresh ≠ 0 := by omega
        rw [isLast] at taken'
        refine ⟨fresh, _, [fresh], ?_, nonzero, ⟨taken', ?_, ?_⟩, ?_⟩
        · rw [nextOrAlloc, if_pos ended,
            fatAllocCluster_some (building.geometry geometry) free]
          simp only [Option.bind_eq_bind, Option.bind_some, nonzero,
            if_false]
          rfl
        · have atEnd : position + 1 = (old ++ taken).length := by omega
          rw [← List.append_assoc, atEnd]
          exact List.getElem?_concat_length
        · rw [← List.append_assoc, List.length_append,
            List.length_singleton]
          omega
        · rfl

theorem skipClusters_eq (geometry : Geometry base.bpb) :
    ∀ (count : Nat) {volume : Volume} {taken : List Nat}
      {position cluster : Nat},
      Along base volume old taken position cluster →
      (∃ cluster' volume' taken', skipClusters count cluster volume =
          some (cluster', volume') ∧ cluster' ≠ 0 ∧
        Along base volume' old taken' (position + count) cluster' ∧
        volume'.mem = volume.mem) ∨
      ∃ volume', skipClusters count cluster volume = some (0, volume') ∧
        Exhausted base volume' old (position + count) ∧
        volume'.mem = volume.mem
  | 0, volume, taken, position, cluster, along => by
      have low := along.low
      exact Or.inl ⟨cluster, volume, taken, rfl, by omega, along, rfl⟩
  | count + 1, volume, taken, position, cluster, along => by
      rw [skipClusters]
      rcases along.next geometry with
        ⟨next, volume', more, step, nonzero, along', mem⟩ |
          ⟨step, exhausted⟩
      · rw [step]
        simp only [Option.bind_eq_bind, Option.bind_some, nonzero, if_false]
        have position' : position + (count + 1) = position + 1 + count := by
          omega
        rw [position', ← mem]
        exact skipClusters_eq geometry count along'
      · rw [step]
        refine Or.inr ⟨volume, rfl, ⟨exhausted.building, ?_⟩, rfl⟩
        have short := exhausted.short
        omega

end Walk

/-! ## The bytes replaced -/

/-- The bytes at the positions from `offset` to `offset + count` of the
chain have been replaced by the data; nothing else has changed. -/
structure Spliced (bpb : Bpb) (mem mem' : Bytes) (nodes : List Nat)
    (offset count : Nat) (data : Bytes) : Prop where
  inside : ∀ number (bound : number < nodes.length),
    ∀ index < bpb.clusterSize,
      mem' (bpb.clusterAddr nodes[number] + index) =
        if offset ≤ number * bpb.clusterSize + index ∧
            number * bpb.clusterSize + index < offset + count then
          data (number * bpb.clusterSize + index - offset)
        else mem (bpb.clusterAddr nodes[number] + index)
  outside : ∀ address, ¬ InClusters bpb nodes address →
    mem' address = mem address

section Spliced

variable {bpb : Bpb} {mem mem' mem'' : Bytes} {nodes : List Nat}
  {offset count : Nat} {data : Bytes}

theorem Spliced.zero (bpb : Bpb) (mem : Bytes) (nodes : List Nat)
    (offset : Nat) (data : Bytes) :
    Spliced bpb mem mem nodes offset 0 data where
  inside := by
    intro number bound index small
    rw [if_neg (by omega)]
  outside := fun _ _ => rfl

/-- Different clusters of a list have blocks of their own. -/
theorem nodes_apart (bpb : Bpb) (low : ∀ cluster ∈ nodes, 2 ≤ cluster)
    (nodup : nodes.Nodup) {left right : Nat} (leftBound : left < nodes.length)
    (rightBound : right < nodes.length) (different : left ≠ right) :
    bpb.clusterAddr nodes[left] + bpb.clusterSize ≤
        bpb.clusterAddr nodes[right] ∨
      bpb.clusterAddr nodes[right] + bpb.clusterSize ≤
        bpb.clusterAddr nodes[left] := by
  refine clusterAddr_apart bpb (low _ (List.getElem_mem leftBound))
    (low _ (List.getElem_mem rightBound)) fun same => ?_
  exact different ((List.Nodup.getElem_inj_iff nodup).mp same)

/-- Clusters appended behind the written positions change nothing. -/
theorem Spliced.append {more : List Nat}
    (spliced : Spliced bpb mem mem' nodes offset count data)
    (low : ∀ cluster ∈ nodes ++ more, 2 ≤ cluster)
    (nodup : (nodes ++ more).Nodup)
    (behind : offset + count ≤ nodes.length * bpb.clusterSize) :
    Spliced bpb mem mem' (nodes ++ more) offset count data where
  inside := by
    intro number bound index small
    by_cases before : number < nodes.length
    · have block : (nodes ++ more)[number] = nodes[number] :=
        List.getElem_append_left before
      rw [block]
      exact spliced.inside number before index small
    · have reached : nodes.length * bpb.clusterSize ≤
          number * bpb.clusterSize :=
        Nat.mul_le_mul_right _ (by omega)
      rw [if_neg (by omega)]
      refine spliced.outside _ ?_
      rintro ⟨cluster, member, lower, upper⟩
      obtain ⟨other, otherBound, rfl⟩ := List.getElem_of_mem member
      have longer : other < (nodes ++ more).length := by
        rw [List.length_append]
        omega
      have block : (nodes ++ more)[other] = nodes[other] :=
        List.getElem_append_left otherBound
      have apart := nodes_apart bpb low nodup longer bound (by omega)
      rw [block] at apart
      omega
  outside := fun address outside =>
    spliced.outside address fun inside => outside inside.append_left

/-- One more piece inside one cluster. -/
theorem Spliced.step {position curOff chunk : Nat}
    (spliced : Spliced bpb mem mem' nodes offset count data)
    (low : ∀ cluster ∈ nodes, 2 ≤ cluster) (nodup : nodes.Nodup)
    (bound : position < nodes.length)
    (reached : position * bpb.clusterSize + curOff = offset + count)
    (fits : curOff + chunk ≤ bpb.clusterSize)
    (written : mem'' = mem'.copy
      (bpb.clusterAddr nodes[position] + curOff) (data.shift count)
      chunk) :
    Spliced bpb mem mem'' nodes offset (count + chunk) data where
  inside := by
    intro number numberBound index small
    rw [written]
    by_cases same : number = position
    · subst same
      by_cases piece : curOff ≤ index ∧ index < curOff + chunk
      · rw [Bytes.copy_inside (by omega) (by omega),
          if_pos (by omega), Bytes.shift]
        exact congrArg data (by omega)
      · rw [Bytes.copy_outside (by omega),
          spliced.inside number numberBound index small]
        by_cases before : offset ≤ number * bpb.clusterSize + index ∧
            number * bpb.clusterSize + index < offset + count
        · rw [if_pos before, if_pos (by omega)]
        · rw [if_neg before, if_neg (by omega)]
    · have apart := nodes_apart bpb low nodup numberBound bound same
      rw [Bytes.copy_outside (by omega),
        spliced.inside number numberBound index small]
      have order : number * bpb.clusterSize + bpb.clusterSize ≤
            position * bpb.clusterSize ∨
          position * bpb.clusterSize + bpb.clusterSize ≤
            number * bpb.clusterSize := by
        rw [← Nat.succ_mul, ← Nat.succ_mul]
        rcases Nat.lt_or_gt_of_ne same with before | after
        · exact Or.inl (Nat.mul_le_mul_right _ before)
        · exact Or.inr (Nat.mul_le_mul_right _ after)
      by_cases before : offset ≤ number * bpb.clusterSize + index ∧
          number * bpb.clusterSize + index < offset + count
      · rw [if_pos before, if_pos (by omega)]
      · rw [if_neg before, if_neg (by omega)]
  outside := by
    intro address outside
    rw [written, Bytes.copy_outside, spliced.outside address outside]
    by_contra inside
    exact outside ⟨nodes[position], List.getElem_mem bound,
      by omega, by omega⟩

end Spliced

/-! ## The write loop -/

section WriteLoop

variable {base volume : Volume} {old taken : List Nat}
  {position cluster : Nat} {data : Bytes}

/-- The block is read when the piece does not fill it, changed, and
written back. -/
theorem writePiece (geometry : Geometry volume.bpb)
    (sound : volume.disk.Sound) (low : 2 ≤ cluster)
    (high : cluster < volume.bpb.totalClusters) {curOff chunk : Nat}
    (fits : curOff + chunk ≤ volume.bpb.clusterSize) (source : Bytes) :
    ∃ clusterBuf volume',
      (if curOff ≠ 0 ∨ chunk < volume.bpb.clusterSize then
          readLba volume.disk (volume.bpb.clusterLba cluster)
            volume.bpb.perCluster scratch
        else some scratch) = some clusterBuf ∧
      volume.write (volume.bpb.clusterLba cluster) volume.bpb.perCluster
          (clusterBuf.copy curOff source chunk) = (0, volume') ∧
      volume'.bpb = volume.bpb ∧ volume'.fatBuf = volume.fatBuf ∧
      volume'.disk.Sound ∧
      volume'.mem = volume.mem.copy
        (volume.bpb.clusterAddr cluster + curOff) source chunk := by
  have loaded : ∃ clusterBuf,
      (if curOff ≠ 0 ∨ chunk < volume.bpb.clusterSize then
          readLba volume.disk (volume.bpb.clusterLba cluster)
            volume.bpb.perCluster scratch
        else some scratch) = some clusterBuf ∧
      ∀ index < volume.bpb.clusterSize,
        index < curOff ∨ curOff + chunk ≤ index →
          clusterBuf index =
            volume.mem (volume.bpb.clusterAddr cluster + index) := by
    by_cases some_ : curOff ≠ 0 ∨ chunk < volume.bpb.clusterSize
    · refine ⟨_, by
        rw [if_pos some_,
          Volume.readCluster_eq geometry sound low high], ?_⟩
      intro index small _
      rw [Bytes.copy_inside (by omega) (by omega)]
      rfl
    · refine ⟨scratch, if_neg some_, fun index small away => ?_⟩
      omega
  obtain ⟨clusterBuf, loadEq, rest⟩ := loaded
  obtain ⟨volume', written, bpb, fatBuf, sound', mem⟩ :=
    Volume.writeCluster_eq geometry sound low high
      (clusterBuf.copy curOff source chunk)
  refine ⟨clusterBuf, volume', loadEq, written, bpb, fatBuf, sound', ?_⟩
  rw [mem]
  funext address
  by_cases inBlock : volume.bpb.clusterAddr cluster ≤ address ∧
      address < volume.bpb.clusterAddr cluster + volume.bpb.clusterSize
  · rw [Bytes.copy_inside inBlock.1 inBlock.2]
    by_cases piece :
        curOff ≤ address - volume.bpb.clusterAddr cluster ∧
          address - volume.bpb.clusterAddr cluster < curOff + chunk
    · rw [Bytes.copy_inside piece.1 piece.2,
        Bytes.copy_inside (by omega) (by omega)]
      exact congrArg source (by omega)
    · rw [Bytes.copy_outside (by omega), Bytes.copy_outside (by omega),
        rest _ (by omega) (by omega)]
      exact congrArg volume.mem (by omega)
  · rw [Bytes.copy_outside (by omega), Bytes.copy_outside (by omega)]

/-- How the loop of `fat_write_at` over the clusters up to number `last`
ends. -/
inductive WriteOutcome (base : Volume) (old : List Nat)
    (offset len last : Nat) (data : Bytes) :
    Option (Nat × Volume) → Prop
  | written {volume' : Volume} {taken : List Nat}
      (building : Building base volume' old taken)
      (length : (old ++ taken).length = max old.length (last + 1))
      (spliced : Spliced base.bpb base.mem volume'.mem (old ++ taken)
        offset len data) :
      WriteOutcome base old offset len last data (some (0, volume'))
  | full {volume' : Volume} (exhausted : Exhausted base volume' old last)
      (spliced : Spliced base.bpb base.mem volume'.mem (old ++ base.free)
        offset ((old ++ base.free).length * base.bpb.clusterSize - offset)
        data) :
      WriteOutcome base old offset len last data (some (3, volume'))

theorem writeClusters_eq (geometry : Geometry base.bpb) {offset len : Nat} :
    ∀ (count : Nat) {volume : Volume} {taken : List Nat}
      {position cluster curOff pos : Nat},
      Along base volume old taken position cluster →
      Spliced base.bpb base.mem volume.mem (old ++ taken) offset pos data →
      position * base.bpb.clusterSize + curOff = offset + pos →
      curOff < base.bpb.clusterSize → pos < len →
      (position + count) * base.bpb.clusterSize < offset + len →
      offset + len ≤ (position + count + 1) * base.bpb.clusterSize →
        WriteOutcome base old offset len (position + count) data
          (writeClusters data (count + 1) cluster curOff pos (len - pos)
            volume)
  | count, volume, taken, position, cluster, curOff, pos, along, spliced,
      reached, small, more, lower, upper => by
      have building := along.building
      have layout := building.bpb
      have nodup := building.path.nodup
      have high := along.high
      rw [← layout] at high
      have fits : curOff +
            min (len - pos) (base.bpb.clusterSize - curOff) ≤
          volume.bpb.clusterSize := by
        rw [layout]
        omega
      obtain ⟨clusterBuf, volume', loadEq, written, bpb, fatBuf, sound,
          mem⟩ :=
        writePiece (building.geometry geometry) building.sound along.low
          high fits (data.shift pos)
      rw [layout] at loadEq written mem fits
      rw [← along.getElem along.bound] at mem
      have spliced' := spliced.step building.low nodup along.bound reached
        fits mem
      have building' := building.congr bpb sound fatBuf
      rw [writeClusters, layout, loadEq]
      simp only [written, ne_eq, not_true, if_false]
      cases count with
      | zero =>
          have all : pos + min (len - pos)
              (base.bpb.clusterSize - curOff) = len := by
            rw [Nat.add_zero, Nat.succ_mul] at upper
            omega
          rw [all] at spliced'
          rw [if_pos rfl]
          exact .written building' along.length spliced'
      | succ count =>
          have further : (position + 1) * base.bpb.clusterSize ≤
              (position + (count + 1)) * base.bpb.clusterSize :=
            Nat.mul_le_mul_right _ (by omega)
          have stepMul : (position + 1) * base.bpb.clusterSize =
              position * base.bpb.clusterSize + base.bpb.clusterSize :=
            Nat.succ_mul _ _
          have piece : min (len - pos) (base.bpb.clusterSize - curOff) =
              base.bpb.clusterSize - curOff := by omega
          rw [piece] at spliced'
          have along' : Along base volume' old taken position cluster :=
            ⟨building', along.here, along.length⟩
          rw [if_neg (Nat.succ_ne_zero count), piece]
          rcases along'.next geometry with
            ⟨next, volume'', added, step, nonzero, along'', mem''⟩ |
              ⟨step, exhausted⟩
          · rw [step]
            simp only [Option.bind_eq_bind, Option.bind_some, nonzero,
              if_false]
            have position' : position + (count + 1) =
                position + 1 + count := by omega
            have nodup'' := along''.building.path.nodup
            have low'' := along''.building.low
            rw [← List.append_assoc] at nodup'' low''
            have grown : Spliced base.bpb base.mem volume''.mem
                (old ++ (taken ++ added)) offset
                (pos + (base.bpb.clusterSize - curOff)) data := by
              rw [← List.append_assoc, mem'']
              refine spliced'.append low'' nodup'' ?_
              have reachedEnd :
                  (position + 1) * base.bpb.clusterSize ≤
                    (old ++ taken).length * base.bpb.clusterSize :=
                Nat.mul_le_mul_right _ along.bound
              omega
            have reached' : (position + 1) * base.bpb.clusterSize + 0 =
                offset + (pos + (base.bpb.clusterSize - curOff)) := by
              omega
            have more' : pos + (base.bpb.clusterSize - curOff) < len := by
              omega
            rw [position'] at lower upper
            have left : len - pos - (base.bpb.clusterSize - curOff) =
                len - (pos + (base.bpb.clusterSize - curOff)) := by
              omega
            have next_ := writeClusters_eq geometry count along'' grown
              reached' geometry.clusterSize_pos more' lower upper
            rwa [← position', ← left] at next_
          · rw [step]
            have short := exhausted.short
            have bound := along.bound
            have none : volume'.free = [] := by
              have free := exhausted.building.free
              exact List.self_eq_append_right.mp free
            have all : taken = base.free := by
              rw [building'.free, none, List.append_nil]
            rw [← all] at short
            have length : (old ++ taken).length = position + 1 := by omega
            have written_ : (position + 1) * base.bpb.clusterSize -
                offset = pos + (base.bpb.clusterSize - curOff) := by
              omega
            refine .full ⟨exhausted.building, ?_⟩ ?_
            · rw [← all]
              omega
            · rw [← all, length, written_]
              exact spliced'

end WriteLoop

end LoafOs
