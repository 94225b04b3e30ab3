import LoafOs.Fs.FatRead

/-!
# Building a chain

Both write calls take clusters one at a time, always the lowest free one,
and hang each on the end of the chain they are working on.  `Building`
is the state of that work: the chain had the clusters `old` and has got
those in `taken`, an initial piece of the free clusters.
-/

namespace LoafOs

/-- The chain `old` of the volume `base` has been extended by `taken`. -/
structure Building (base volume : Volume) (old taken : List Nat) :
    Prop where
  bpb : volume.bpb = base.bpb
  sound : volume.disk.Sound
  path : Links.Path volume.next ChainStop ((old ++ taken).headD 0)
    (old ++ taken)
  inside : ∀ cluster ∈ old ++ taken, cluster < base.bpb.totalClusters
  linked : ∀ cluster ∈ old ++ taken, 2 ≤ volume.next cluster
  others : ∀ cluster, cluster ∉ old ++ taken →
    volume.next cluster = base.next cluster
  same : taken = [] → volume.fatBuf = base.fatBuf
  marked : ∀ nonempty : taken ≠ [],
    volume.next (taken.getLast nonempty) = fatEocMark
  free : base.free = taken ++ volume.free

/-- `fat_free_chain` along a finite chain. -/
theorem Volume.freeChain_eq {volume : Volume} {start : Nat}
    {clusters : List Nat}
    (path : Links.Path volume.next ChainStop start clusters) :
    ∃ volume', volume.freeChain start = some volume' ∧
      volume'.bpb = volume.bpb ∧ volume'.disk = volume.disk ∧
      ∀ cluster, volume'.next cluster =
        if cluster ∈ clusters then 0 else volume.next cluster := by
  obtain ⟨freed, result, next⟩ := fatFreeChain_eq path
  refine ⟨{ volume with fatBuf := freed }, ?_, rfl, rfl, next⟩
  rw [Volume.freeChain, result]
  rfl

namespace Building

variable {base volume : Volume} {old taken : List Nat}

theorem low (building : Building base volume old taken) :
    ∀ cluster ∈ old ++ taken, 2 ≤ cluster := by
  intro cluster member
  have going := building.path.not_stop cluster member
  simp only [ChainStop, not_or] at going
  omega

theorem geometry (building : Building base volume old taken)
    (geometry : Geometry base.bpb) : Geometry volume.bpb := by
  rw [building.bpb]
  exact geometry

/-- The clusters taken were free. -/
theorem taken_free (building : Building base volume old taken) :
    ∀ cluster ∈ taken, cluster ∈ base.free := by
  intro cluster member
  rw [building.free]
  exact List.mem_append_left _ member

/-- The chain begins with its old first cluster, or the lowest free one. -/
theorem head (building : Building base volume old taken)
    (nonempty : old ++ taken ≠ []) :
    (old ++ taken).headD 0 = (old ++ base.free).headD 0 := by
  rw [building.free]
  cases old with
  | nil =>
      cases taken with
      | nil => exact absurd rfl nonempty
      | cons first others => rfl
  | cons first others => rfl

theorem congr {volume' : Volume}
    (building : Building base volume old taken)
    (bpb : volume'.bpb = volume.bpb) (sound : volume'.disk.Sound)
    (fatBuf : volume'.fatBuf = volume.fatBuf) :
    Building base volume' old taken := by
  have next := Volume.next_congr fatBuf
  have free : volume'.free = volume.free := by
    rw [Volume.free, Volume.free, bpb, next]
  exact
    { bpb := bpb.trans building.bpb
      sound := sound
      path := by rw [next]; exact building.path
      inside := building.inside
      linked := by rw [next]; exact building.linked
      others := by rw [next]; exact building.others
      same := fun none => fatBuf.trans (building.same none)
      marked := by rw [next]; exact building.marked
      free := by rw [free]; exact building.free }

/-- The first cluster of a chain that had none. -/
theorem take_first (geometry : Geometry base.bpb)
    (building : Building base volume [] []) {fresh : Nat}
    {rest : List Nat} (free : volume.free = fresh :: rest) :
    Building base (volume.setEntry fresh fatEocMark) [] [fresh] := by
  have isFree : fresh ∈ volume.free := by
    rw [free]
    exact List.mem_cons_self
  obtain ⟨low, high, _⟩ := Volume.mem_free.mp isFree
  rw [building.bpb] at high
  have few := geometry.totalClusters_le
  have next : (volume.setEntry fresh fatEocMark).next =
      Function.update volume.next fresh fatEocMark :=
    Volume.setEntry_next volume fresh fatEocMark
  have atFresh :
      (volume.setEntry fresh fatEocMark).next fresh = fatEocMark := by
    rw [next, Function.update_self]
  exact
    { bpb := building.bpb
      sound := building.sound
      path := by
        refine .more ?_ (.done ?_)
        · simp only [ChainStop, List.nil_append, List.headD_cons]
          omega
        · simp only [List.nil_append, List.headD_cons, atFresh]
          exact Or.inr (by decide)
      inside := by
        intro cluster member
        rw [List.nil_append, List.mem_singleton] at member
        rwa [member]
      linked := by
        intro cluster member
        rw [List.nil_append, List.mem_singleton] at member
        rw [member, atFresh]
        decide
      others := by
        intro cluster notMember
        rw [List.nil_append, List.mem_singleton] at notMember
        rw [next, Function.update_of_ne notMember]
        exact building.others cluster (by simp)
      same := by simp
      marked := fun _ => atFresh
      free := by
        have restFree :
            (volume.setEntry fresh fatEocMark).free = rest := by
          refine freeClusters_take free ?_ fun cluster different => ?_
          · rw [atFresh]
            decide
          · rw [next, Function.update_of_ne different]
        rw [restFree, building.free, free]
        rfl }

/-- One more cluster at the end of the chain. -/
theorem take_next (geometry : Geometry base.bpb)
    (building : Building base volume old taken)
    (nonempty : old ++ taken ≠ []) {fresh : Nat} {rest : List Nat}
    (free : volume.free = fresh :: rest) :
    Building base
      ((volume.setEntry fresh fatEocMark).setEntry
        ((old ++ taken).getLast nonempty) fresh)
      old (taken ++ [fresh]) := by
  have isFree : fresh ∈ volume.free := by
    rw [free]
    exact List.mem_cons_self
  obtain ⟨low, high, unused⟩ := Volume.mem_free.mp isFree
  rw [building.bpb] at high
  have few := geometry.totalClusters_le
  have lastMember := List.getLast_mem nonempty
  have notVisited : fresh ∉ old ++ taken := by
    intro member
    have linked := building.linked fresh member
    omega
  have lastDifferent : (old ++ taken).getLast nonempty ≠ fresh :=
    fun same => notVisited (same ▸ lastMember)
  have small : fresh % 4096 = fresh := Nat.mod_eq_of_lt (by omega)
  have next :
      ((volume.setEntry fresh fatEocMark).setEntry
        ((old ++ taken).getLast nonempty) fresh).next =
        Function.update (Function.update volume.next fresh fatEocMark)
          ((old ++ taken).getLast nonempty) fresh := by
    rw [Volume.setEntry_next, Volume.setEntry_next, small]
    rfl
  have nodes : old ++ (taken ++ [fresh]) = (old ++ taken) ++ [fresh] :=
    (List.append_assoc old taken [fresh]).symm
  have head : ((old ++ taken) ++ [fresh]).headD 0 =
      (old ++ taken).headD 0 := by
    cases list : old ++ taken with
    | nil => exact absurd list nonempty
    | cons first others => rfl
  exact
    { bpb := building.bpb
      sound := building.sound
      path := by
        rw [nodes, head, next]
        refine building.path.concat nonempty notVisited ?_
          (Or.inr (by decide))
        simp only [ChainStop]
        omega
      inside := by
        intro cluster member
        rw [nodes, List.mem_append, List.mem_singleton] at member
        rcases member with before | atEnd
        · exact building.inside cluster before
        · rwa [atEnd]
      linked := by
        intro cluster member
        rw [nodes, List.mem_append, List.mem_singleton] at member
        rw [next]
        by_cases isLast : cluster = (old ++ taken).getLast nonempty
        · rw [isLast, Function.update_self]
          exact low
        rw [Function.update_of_ne isLast]
        rcases member with before | atEnd
        · have notFresh : cluster ≠ fresh := by
            rintro rfl
            exact notVisited before
          rw [Function.update_of_ne notFresh]
          exact building.linked cluster before
        · rw [atEnd, Function.update_self]
          decide
      others := by
        intro cluster notMember
        rw [nodes, List.mem_append, List.mem_singleton, not_or]
          at notMember
        have notLast : cluster ≠ (old ++ taken).getLast nonempty := by
          rintro rfl
          exact notMember.1 lastMember
        rw [next, Function.update_of_ne notLast,
          Function.update_of_ne notMember.2]
        exact building.others cluster notMember.1
      same := by simp
      marked := by
        intro _
        rw [List.getLast_concat, next,
          Function.update_of_ne lastDifferent.symm, Function.update_self]
      free := by
        have restFree : ((volume.setEntry fresh fatEocMark).setEntry
            ((old ++ taken).getLast nonempty) fresh).free = rest := by
          refine freeClusters_take free ?_ fun cluster different => ?_
          · rw [next, Function.update_of_ne lastDifferent.symm,
              Function.update_self]
            decide
          · rw [next]
            by_cases isLast : cluster = (old ++ taken).getLast nonempty
            · have before := building.linked _ lastMember
              rw [isLast, Function.update_self]
              omega
            · rw [Function.update_of_ne isLast,
                Function.update_of_ne different]
        rw [restFree, building.free, free]
        simp }

/-- Freeing a chain that was built from nothing restores the table. -/
theorem release (building : Building base volume [] taken) :
    ∃ volume', volume.freeChain (taken.headD 0) = some volume' ∧
      volume'.bpb = base.bpb ∧ volume'.disk = volume.disk ∧
      volume'.fatBuf = base.fatBuf := by
  have path := building.path
  rw [List.nil_append] at path
  obtain ⟨volume', freed, bpb, disk, next⟩ := Volume.freeChain_eq path
  refine ⟨volume', freed, bpb.trans building.bpb, disk, ?_⟩
  refine fatNext_injective (funext fun cluster => ?_)
  have here := next cluster
  by_cases member : cluster ∈ taken
  · have unused :=
      (Volume.mem_free.mp (building.taken_free cluster member)).2.2
    rw [if_pos member] at here
    exact here.trans unused.symm
  · rw [if_neg member, building.others cluster (by simpa using member)]
      at here
    exact here

end Building

end LoafOs
