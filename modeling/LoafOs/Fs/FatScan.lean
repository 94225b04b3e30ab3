import LoafOs.Fs.FatTree

/-!
# What a directory lookup returns

On a sound disk the nested loops of `dir_lookup` are one scan over the
slots of the directory in order.  `scan` is that loop over a list of
addresses; `dirLookup_root` and `dirLookup_chain` connect it with the code,
and the rest of the file says what a finished scan has found.
-/

namespace LoafOs

/-- The slot that the code reports for the entry at an address. -/
def slotAt (address : Nat) (existing : Bool) : DirSlot :=
  ⟨address / 512, address % 512, existing⟩

def DirSlot.address (slot : DirSlot) : Nat :=
  512 * slot.sector + slot.offset

@[simp]
theorem slotAt_address (address : Nat) (existing : Bool) :
    (slotAt address existing).address = address := by
  simp only [slotAt, DirSlot.address]
  omega

@[simp]
theorem slotAt_existing (address : Nat) (existing : Bool) :
    (slotAt address existing).existing = existing := rfl

/-- The scan of `dir_lookup` over the slots of a directory. -/
def scan (mem : Bytes) (target : List UInt8) :
    List Nat → Option DirSlot → LookupStep
  | [], freeSlot => .more freeSlot
  | slot :: rest, freeSlot =>
      if mem slot = 0x00 then
        .done (freeSlot.getD (slotAt slot false))
      else if mem slot = 0xe5 then
        scan mem target rest (some (freeSlot.getD (slotAt slot false)))
      else if Listed mem slot ∧ direntName mem slot = target then
        .done (slotAt slot true)
      else
        scan mem target rest freeSlot

theorem scan_append (mem : Bytes) (target : List UInt8) :
    ∀ (left right : List Nat) (freeSlot : Option DirSlot),
      scan mem target (left ++ right) freeSlot =
        match scan mem target left freeSlot with
        | .more freeSlot => scan mem target right freeSlot
        | step => step
  | [], right, freeSlot => rfl
  | slot :: left, right, freeSlot => by
      rw [List.cons_append, scan, scan]
      split
      · rfl
      · split
        · exact scan_append mem target left right _
        · split
          · rfl
          · exact scan_append mem target left right _

/-! ## The loops of the code -/

theorem slotsFrom_append (base first second : Nat) :
    slotsFrom base (first + second) =
      slotsFrom base first ++ slotsFrom (base + 32 * first) second := by
  rw [slotsFrom, slotsFrom, slotsFrom, List.range_add, List.map_append,
    List.map_map]
  congr 1
  refine List.map_congr_left fun index _ => ?_
  simp only [Function.comp_apply]
  omega

theorem slotsFrom_succ (base count : Nat) :
    slotsFrom base (count + 1) = base :: slotsFrom (base + 32) count := by
  rw [Nat.add_comm, slotsFrom_append]
  rfl

/-- One sector read into a buffer shows the entries of the disk. -/
theorem sameEntry_sector (mem : Bytes) (lba : Nat) {off : Nat}
    (bound : off + 32 ≤ 512) :
    SameEntry
      (scratch.copy 0 (mem.shift (512 * lba)) 512) off mem
      (512 * lba + off) := by
  intro index small
  rw [Bytes.copy_inside (by omega) (by omega), Bytes.shift]
  exact congrArg mem (by omega)

private theorem lookupEntries_eq (mem : Bytes) (target : List UInt8)
    (lba : Nat) :
    ∀ (count i : Nat) (freeSlot : Option DirSlot), i + count ≤ 16 →
      lookupEntries (scratch.copy 0 (mem.shift (512 * lba)) 512) lba
          target count i freeSlot =
        scan mem target (slotsFrom (512 * lba + 32 * i) count) freeSlot
  | 0, i, freeSlot, _ => rfl
  | count + 1, i, freeSlot, bound => by
      have same := sameEntry_sector mem lba
        (show 32 * i + 32 ≤ 512 by omega)
      have here (existing : Bool) :
          (⟨lba, 32 * i, existing⟩ : DirSlot) =
            slotAt (512 * lba + 32 * i) existing := by
        simp only [slotAt, DirSlot.mk.injEq, and_true]
        omega
      have step : 512 * lba + 32 * i + 32 = 512 * lba + 32 * (i + 1) := by
        omega
      have rest (freeSlot : Option DirSlot) :=
        lookupEntries_eq mem target lba count (i + 1) freeSlot (by omega)
      rw [slotsFrom_succ, step, lookupEntries, scan]
      simp only [same.head, same.attr, same.name, rest, here]
      by_cases zero : mem (512 * lba + 32 * i) = 0
      · rw [if_pos zero, if_pos zero]
      · rw [if_neg zero, if_neg zero]
        by_cases deleted : mem (512 * lba + 32 * i) = 0xe5
        · rw [if_pos deleted, if_pos deleted]
        · rw [if_neg deleted, if_neg deleted]
          by_cases longName :
              direntAttr mem (512 * lba + 32 * i) = attrLongName
          · rw [if_pos longName,
              if_neg fun found => found.1.2.2.1 longName]
          · rw [if_neg longName]
            by_cases label :
                direntAttr mem (512 * lba + 32 * i) &&& attrVolumeId = 0
            · rw [if_neg (not_not_intro label)]
              by_cases named :
                  direntName mem (512 * lba + 32 * i) = target
              · rw [if_pos named,
                  if_pos ⟨⟨zero, deleted, longName, label⟩, named⟩]
              · rw [if_neg named, if_neg fun found => named found.2]
            · rw [if_pos label,
                if_neg fun found => label found.1.2.2.2]

theorem u32_nextLba {lba : Nat} (inside : lba < lbaLimit) :
    u32 (lba + 1) = lba + 1 := by
  rw [lbaLimit] at inside
  simp only [u32]
  omega

/-- The loop over consecutive sectors is the scan over their entries. -/
theorem lookupSectors_eq {disk : Disk} (sound : disk.Sound)
    (target : List UInt8) :
    ∀ (count lba : Nat) (freeSlot : Option DirSlot),
      lba + count ≤ lbaLimit →
        lookupSectors disk target count lba freeSlot =
          scan disk.mem target (slotsFrom (512 * lba) (16 * count))
            freeSlot
  | 0, lba, freeSlot, _ => rfl
  | count + 1, lba, freeSlot, bound => by
      have readable : lba + 1 ≤ lbaLimit := by omega
      have next : 512 * lba + 32 * 16 = 512 * (lba + 1) := by omega
      have total : 16 * (count + 1) = 16 + 16 * count := by omega
      rw [total, slotsFrom_append, scan_append, lookupSectors,
        readLba_eq sound readable]
      simp only [Nat.mul_one]
      rw [lookupEntries_eq disk.mem target lba 16 0 freeSlot (by omega)]
      simp only [Nat.mul_zero, Nat.add_zero, next]
      cases scan disk.mem target (slotsFrom (512 * lba) 16) freeSlot with
      | failed => rfl
      | done slot => rfl
      | more freeSlot =>
          cases count with
          | zero => rfl
          | succ count =>
              have small := u32_nextLba (show lba < lbaLimit by omega)
              simp only [small]
              exact lookupSectors_eq sound target (count + 1) (lba + 1)
                freeSlot (by omega)

section Lookup

variable {volume : Volume}

/-- `dir_lookup` in the root directory. -/
theorem dirLookup_root (geometry : Geometry volume.bpb)
    (sound : volume.disk.Sound) (target : List UInt8) (slot : DirSlot)
    (create : Bool) :
    dirLookup volume 0 target slot create =
      match scan volume.mem target (rootSlots volume.bpb) none with
      | .failed => some (1, slot, volume)
      | .done found => some (0, found, volume)
      | .more (some free) => some (0, free, volume)
      | .more none => some (2, slot, volume) := by
  have inside : volume.bpb.rootStart + volume.bpb.rootSectors ≤
      lbaLimit :=
    geometry.rootSectors_inside
  rw [dirLookup, if_pos rfl, lookupSectors_eq sound target _ _ _ inside]
  rfl

private theorem dirLookupChain_eq (geometry : Geometry volume.bpb)
    (sound : volume.disk.Sound) (target : List UInt8) (slot : DirSlot)
    (create : Bool) :
    ∀ {clusters : List Nat} {fuel start : Nat}
      (nonempty : clusters ≠ []) (freeSlot : Option DirSlot),
      Links.Path volume.next ChainStop start clusters →
      (∀ cluster ∈ clusters, cluster < volume.bpb.totalClusters) →
      clusters.length ≤ fuel →
        dirLookupChain volume target slot create fuel start freeSlot =
          match scan volume.mem target
              (clusters.flatMap (clusterSlots volume.bpb)) freeSlot with
          | .failed => some (1, slot, volume)
          | .done found => some (0, found, volume)
          | .more (some free) => some (0, free, volume)
          | .more none =>
              if create then
                dirGrow volume (clusters.getLast nonempty) slot
              else some (2, slot, volume)
  | [], _, _, nonempty, _, _, _, _ => absurd rfl nonempty
  | head :: rest, 0, _, _, _, _, _, short => by
      simp at short
  | head :: rest, fuel + 1, start, nonempty, freeSlot, path, inside,
      short => by
      cases path with
      | more going tail =>
      have low : 2 ≤ head := by
        simp only [ChainStop, not_or] at going
        omega
      have high := inside head List.mem_cons_self
      have readable := geometry.clusters_inside low high
      rw [dirLookupChain, geometry.clusterLba_eq low high,
        lookupSectors_eq sound target _ _ _ readable, List.flatMap_cons,
        scan_append]
      have slots : slotsFrom
          (512 * (volume.bpb.dataStart +
            (head - 2) * volume.bpb.perCluster))
          (16 * volume.bpb.perCluster) =
          clusterSlots volume.bpb head := rfl
      have memEq : volume.disk.mem = volume.mem := rfl
      rw [slots, memEq]
      cases scan volume.mem target (clusterSlots volume.bpb head)
          freeSlot with
      | failed => rfl
      | done found => rfl
      | more freeSlot =>
          cases rest with
          | nil =>
              cases tail with
              | done stopped =>
              simp only [stopped, not_true, if_false, List.flatMap_nil,
                scan, List.getLast_singleton]
              cases freeSlot <;> rfl
          | cons second others =>
              have goesOn : ¬ ChainStop (volume.next head) := by
                have same := tail.head_eq
                exact same ▸ tail.not_stop second List.mem_cons_self
              simp only [goesOn, not_false_eq_true, if_true]
              rw [List.getLast_cons (by simp)]
              exact dirLookupChain_eq geometry sound target slot create
                (by simp) freeSlot tail
                (fun cluster member =>
                  inside cluster (List.mem_cons_of_mem head member))
                (Nat.le_of_succ_le_succ short)

/-- `dir_lookup` in a directory with a finite chain. -/
theorem dirLookup_chain (geometry : Geometry volume.bpb)
    (sound : volume.disk.Sound) (target : List UInt8) (slot : DirSlot)
    (create : Bool) {start : Nat} {clusters : List Nat}
    (nonempty : clusters ≠ [])
    (path : Links.Path volume.next ChainStop start clusters)
    (inside : ∀ cluster ∈ clusters,
      cluster < volume.bpb.totalClusters) :
    dirLookup volume start target slot create =
      match scan volume.mem target
          (clusters.flatMap (clusterSlots volume.bpb)) none with
      | .failed => some (1, slot, volume)
      | .done found => some (0, found, volume)
      | .more (some free) => some (0, free, volume)
      | .more none =>
          if create then
            dirGrow volume (clusters.getLast nonempty) slot
          else some (2, slot, volume) := by
  have chained : start ≠ 0 := by
    rintro rfl
    exact nonempty (path.eq_nil_of_stop (Or.inl (by decide)))
  have short := chain_length_le path
  rw [dirLookup, if_neg chained]
  exact dirLookupChain_eq geometry sound target slot create nonempty none
    path inside (by omega)

end Lookup

/-! ## What a scan has found -/

/-- A slot that `dir_lookup` offers for a new entry. -/
def Vacant (mem : Bytes) (slot : Nat) : Prop :=
  mem slot = 0x00 ∨ mem slot = 0xe5

def Matches (mem : Bytes) (target : List UInt8) (slot : Nat) : Prop :=
  Listed mem slot ∧ direntName mem slot = target

/-- `entry` is the first listed entry with the name, and no end mark
stands before it. -/
inductive Finds (mem : Bytes) (target : List UInt8) :
    List Nat → Nat → Prop
  | here {entry : Nat} {rest : List Nat}
      (matched : Matches mem target entry) :
      Finds mem target (entry :: rest) entry
  | later {slot entry : Nat} {rest : List Nat} (going : mem slot ≠ 0x00)
      (other : ¬ Matches mem target slot)
      (found : Finds mem target rest entry) :
      Finds mem target (slot :: rest) entry

/-- The first slot of a list that `dir_lookup` may hand out. -/
inductive FirstVacant (mem : Bytes) : List Nat → Nat → Prop
  | here {entry : Nat} {rest : List Nat} (vacant : Vacant mem entry) :
      FirstVacant mem (entry :: rest) entry
  | later {slot entry : Nat} {rest : List Nat}
      (going : ¬ Vacant mem slot) (first : FirstVacant mem rest entry) :
      FirstVacant mem (slot :: rest) entry

section Results

variable {mem mem' : Bytes} {target : List UInt8}

theorem FirstVacant.member {slots : List Nat} {entry : Nat}
    (first : FirstVacant mem slots entry) : entry ∈ slots := by
  induction first with
  | here _ => exact List.mem_cons_self
  | later _ _ inductionHypothesis =>
      exact List.mem_cons_of_mem _ inductionHypothesis

theorem FirstVacant.vacant {slots : List Nat} {entry : Nat}
    (first : FirstVacant mem slots entry) : Vacant mem entry := by
  induction first with
  | here vacant => exact vacant
  | later _ _ inductionHypothesis => exact inductionHypothesis

theorem FirstVacant.append_left {left right : List Nat} {entry : Nat}
    (full : ∀ slot ∈ left, ¬ Vacant mem slot)
    (first : FirstVacant mem right entry) :
    FirstVacant mem (left ++ right) entry := by
  induction left with
  | nil => exact first
  | cons slot rest inductionHypothesis =>
      exact .later (full slot List.mem_cons_self)
        (inductionHypothesis fun slot member =>
          full slot (List.mem_cons_of_mem _ member))

theorem Vacant.not_listed {slot : Nat} (vacant : Vacant mem slot) :
    ¬ Listed mem slot := by
  rintro ⟨nonzero, notDeleted, _⟩
  rcases vacant with zero | deleted
  · exact nonzero zero
  · exact notDeleted deleted

theorem SameEntry.vacant_iff {slot slot' : Nat}
    (same : SameEntry mem slot mem' slot') :
    Vacant mem slot ↔ Vacant mem' slot' := by
  rw [Vacant, Vacant, same.head]

theorem SameEntry.matches_iff {slot slot' : Nat}
    (same : SameEntry mem slot mem' slot') :
    Matches mem target slot ↔ Matches mem' target slot' := by
  rw [Matches, Matches, same.listed_iff, same.name]

theorem Finds.member {slots : List Nat} {entry : Nat}
    (found : Finds mem target slots entry) : entry ∈ slots := by
  induction found with
  | here _ => exact List.mem_cons_self
  | later _ _ _ inductionHypothesis =>
      exact List.mem_cons_of_mem _ inductionHypothesis

theorem Finds.matches {slots : List Nat} {entry : Nat}
    (found : Finds mem target slots entry) :
    Matches mem target entry := by
  induction found with
  | here matched => exact matched
  | later _ _ _ inductionHypothesis => exact inductionHypothesis

theorem Finds.unique {slots : List Nat} {left right : Nat}
    (foundLeft : Finds mem target slots left)
    (foundRight : Finds mem target slots right) : left = right := by
  induction foundLeft with
  | here matched =>
      cases foundRight with
      | here _ => rfl
      | later _ other _ => exact absurd matched other
  | later _ other _ inductionHypothesis =>
      cases foundRight with
      | here matched => exact absurd matched other
      | later _ _ found => exact inductionHypothesis found

/-- An entry is still found after the bytes of one other slot have changed
and slots have been appended. -/
theorem Finds.frame {slots more : List Nat} {entry changed : Nat}
    (found : Finds mem target slots entry)
    (same : ∀ slot ∈ slots, slot ≠ changed ∨ slot = entry →
      SameEntry mem' slot mem slot)
    (going : mem' changed ≠ 0x00)
    (noMatch : changed ∈ slots → Matches mem' target changed →
      Matches mem target changed) :
    Finds mem' target (slots ++ more) entry := by
  induction found with
  | here matched =>
      have kept := same _ List.mem_cons_self (Or.inr rfl)
      exact .here (kept.matches_iff.mpr matched)
  | @later slot entry rest goingSlot other found inductionHypothesis =>
      have tail := inductionHypothesis
        (fun slot member => same slot (List.mem_cons_of_mem _ member))
        (fun member => noMatch (List.mem_cons_of_mem _ member))
      by_cases here : slot = changed
      · subst here
        refine .later going (fun matched => other ?_) tail
        exact noMatch List.mem_cons_self matched
      · have kept := same slot List.mem_cons_self (Or.inl here)
        refine .later ?_ ?_ tail
        · rwa [kept.head]
        · rwa [kept.matches_iff]

/-- An entry written into the first vacant slot is found. -/
theorem FirstVacant.finds {slots more : List Nat} {entry : Nat}
    (first : FirstVacant mem slots entry)
    (absent : ∀ other, ¬ Finds mem target slots other)
    (same : ∀ slot ∈ slots, slot ≠ entry →
      SameEntry mem' slot mem slot)
    (matched : Matches mem' target entry) :
    Finds mem' target (slots ++ more) entry := by
  induction first with
  | here _ => exact .here matched
  | @later slot entry rest going first inductionHypothesis =>
      by_cases here : slot = entry
      · rw [here]
        exact .here matched
      have kept := same slot List.mem_cons_self here
      have notHere : ¬ Matches mem target slot :=
        fun isHere => absent slot (.here isHere)
      have nonzero : mem slot ≠ 0x00 := fun zero => going (Or.inl zero)
      refine .later ?_ ?_ (inductionHypothesis
        (fun other found => absent other (.later nonzero notHere found))
        (fun slot member => same slot (List.mem_cons_of_mem _ member))
        matched)
      · rwa [kept.head]
      · rwa [kept.matches_iff]

/-- Appended vacant slots hold no entry to find. -/
theorem Finds.of_append {slots more : List Nat} {entry : Nat}
    (found : Finds mem' target (slots ++ more) entry)
    (same : ∀ slot ∈ slots, SameEntry mem' slot mem slot)
    (vacant : ∀ slot ∈ more, Vacant mem' slot) :
    Finds mem target slots entry := by
  induction slots with
  | nil =>
      exact absurd found.matches.1 (vacant entry found.member).not_listed
  | cons slot rest inductionHypothesis =>
      have here := same slot List.mem_cons_self
      cases found with
      | here matched => exact .here (here.matches_iff.mp matched)
      | later going other found =>
          refine .later ?_ ?_ (inductionHypothesis found
            fun slot member => same slot (List.mem_cons_of_mem _ member))
          · rwa [here.head] at going
          · rwa [here.matches_iff] at other

/-- The scan ends at the entry with the name if there is one.  Otherwise
it ends with the first vacant slot, or with none. -/
theorem scan_cases (mem : Bytes) (target : List UInt8) :
    ∀ (slots : List Nat) (freeSlot : Option DirSlot),
      (∃ entry, Finds mem target slots entry ∧
        scan mem target slots freeSlot = .done (slotAt entry true)) ∨
      (∀ entry, ¬ Finds mem target slots entry) ∧
        ∃ carried, (scan mem target slots freeSlot = .more carried ∨
            ∃ slot, carried = some slot ∧
              scan mem target slots freeSlot = .done slot) ∧
          (carried = freeSlot ∧
              (freeSlot = none → ∀ slot ∈ slots, ¬ Vacant mem slot) ∨
            freeSlot = none ∧ ∃ slot, FirstVacant mem slots slot ∧
              carried = some (slotAt slot false))
  | [], freeSlot => by
      refine Or.inr ⟨fun entry found => (nomatch found), freeSlot,
        Or.inl rfl, Or.inl ⟨rfl, by simp⟩⟩
  | slot :: rest, freeSlot => by
      rw [scan]
      by_cases zero : mem slot = 0x00
      · rw [if_pos zero]
        refine Or.inr ⟨?_, some (freeSlot.getD (slotAt slot false)),
          Or.inr ⟨_, rfl, rfl⟩, ?_⟩
        · intro entry found
          cases found with
          | here matched => exact matched.1.1 zero
          | later going _ _ => exact going zero
        · cases freeSlot with
          | none =>
              exact Or.inr ⟨rfl, slot, .here (Or.inl zero), rfl⟩
          | some free => exact Or.inl ⟨rfl, by simp⟩
      rw [if_neg zero]
      by_cases deleted : mem slot = 0xe5
      · rw [if_pos deleted]
        have notHere : ¬ Matches mem target slot :=
          fun matched => matched.1.2.1 deleted
        rcases scan_cases mem target rest
            (some (freeSlot.getD (slotAt slot false))) with
          ⟨entry, found, result⟩ | ⟨none, carried, result, origin⟩
        · exact Or.inl ⟨entry, .later zero notHere found, result⟩
        · refine Or.inr ⟨?_, carried, result, ?_⟩
          · intro entry found
            cases found with
            | here matched => exact notHere matched
            | later _ _ found => exact none entry found
          · rcases origin with ⟨same, _⟩ | ⟨absurdNone, _⟩
            · cases freeSlot with
              | none =>
                  exact Or.inr ⟨rfl, slot, .here (Or.inr deleted), same⟩
              | some free => exact Or.inl ⟨same, by simp⟩
            · simp at absurdNone
      rw [if_neg deleted]
      by_cases matched : Listed mem slot ∧ direntName mem slot = target
      · rw [if_pos matched]
        exact Or.inl ⟨slot, .here matched, rfl⟩
      rw [if_neg matched]
      rcases scan_cases mem target rest freeSlot with
        ⟨entry, found, result⟩ | ⟨none, carried, result, origin⟩
      · exact Or.inl ⟨entry, .later zero matched found, result⟩
      · refine Or.inr ⟨?_, carried, result, ?_⟩
        · intro entry found
          cases found with
          | here matchedHere => exact matched matchedHere
          | later _ _ found => exact none entry found
        · have going : ¬ Vacant mem slot := not_or.mpr ⟨zero, deleted⟩
          rcases origin with ⟨same, full⟩ | ⟨empty, other, first, origin⟩
          · refine Or.inl ⟨same, fun empty other member => ?_⟩
            rcases List.mem_cons.mp member with rfl | tailMember
            · exact going
            · exact full empty other tailMember
          · exact Or.inr ⟨empty, other, .later going first, origin⟩

end Results

end LoafOs
