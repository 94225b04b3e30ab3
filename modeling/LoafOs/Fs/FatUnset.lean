import LoafOs.Fs.FatInPlace

/-!
# The slot that a failed lookup does not set

`fat_write_file` and `fat_write_at` test the result of `dir_lookup` for 1
and 2.  When it is 3, because a full directory cannot grow, they go on to
`slot.exists`, and `dir_lookup` has set the slot only when it returned 0.
-/

namespace LoafOs

/-- How a call ends: with a return value, or at a read of the slot variable
before it is set. -/
inductive SlotOutcome
  | returned (code : Nat) (volume : Volume)
  | readsUnset

/-- The calls from `resolve_path` to the first use of the slot, which
`rest` begins with. -/
def untilSlot (volume : Volume) (path : CString)
    (rest : Volume → DirSlot → List UInt8 → Option (Nat × Volume)) :
    Option SlotOutcome := do
  match ← openTarget volume path 4 .unset true with
  | .error code => return .returned code volume
  | .ok (target, _, r, slot, volume) =>
      if r = 1 then
        return .returned 1 volume
      if r = 2 then
        return .returned 2 volume
      if r ≠ 0 then
        return .readsUnset
      let (code, volume) ← rest volume slot target
      return .returned code volume

/-- `fat_write_file`, with the slot variable unset before `dir_lookup`. -/
def checkedWriteFile (volume : Volume) (path : CString) (data : Bytes)
    (size : Nat) : Option SlotOutcome :=
  untilSlot volume path fun volume slot target =>
    replaceFile volume slot target data size

/-- `fat_write_at`, with the slot variable unset before `dir_lookup`. -/
def checkedWriteAt (volume : Volume) (path : CString) (offset : Nat)
    (data : Bytes) (len : Nat) : Option SlotOutcome :=
  if len = 0 then some (.returned 0 volume)
  else
    untilSlot volume path fun volume slot target =>
      spliceFile volume slot target offset data len

/-- The call returns an error, without a read of an unset slot, and the
volume is as before. -/
def Reported (volume : Volume) (outcome : Option SlotOutcome) : Prop :=
  ∃ code, code ≠ 0 ∧ outcome = some (.returned code volume)

section Unset

variable {volume volume' : Volume} {path : CString} {data : Bytes}
variable {size offset len code : Nat}

/-- What `dir_lookup` leaves in the slot variable. -/
def setIfFound (slot : DirSlot) :
    Nat × DirSlot × Volume → Nat × DirSlot × Volume :=
  fun (r, found, volume) => (r, if r = 0 then found else slot, volume)

theorem dirGrow_slot (volume : Volume) (cluster : Nat) (slot : DirSlot) :
    dirGrow volume cluster slot =
      (dirGrow volume cluster .unset).map (setIfFound slot) := by
  rw [dirGrow, dirGrow]
  cases fatAllocCluster volume with
  | none => rfl
  | some taken =>
      simp only [Option.bind_eq_bind, Option.bind_some]
      split
      case isTrue => rfl
      case isFalse =>
      split
      case isTrue => rfl
      case isFalse =>
      split
      case isTrue => rfl
      case isFalse => rfl

theorem dirLookupChain_slot (volume : Volume) (target : List UInt8)
    (slot : DirSlot) (create : Bool) (fuel cluster : Nat)
    (freeSlot : Option DirSlot) :
    dirLookupChain volume target slot create fuel cluster freeSlot =
      (dirLookupChain volume target .unset create fuel cluster
        freeSlot).map (setIfFound slot) := by
  induction fuel generalizing cluster freeSlot with
  | zero => rfl
  | succ fuel inductionHypothesis =>
      rw [dirLookupChain, dirLookupChain]
      cases lookupSectors volume.disk target volume.bpb.perCluster
          (volume.bpb.clusterLba cluster) freeSlot with
      | failed => rfl
      | done found => rfl
      | more freeSlot =>
          simp only
          split
          case isTrue => exact inductionHypothesis _ _
          case isFalse =>
            cases freeSlot with
            | some free => rfl
            | none =>
                cases create with
                | true => exact dirGrow_slot volume cluster slot
                | false => rfl

/-- `dir_lookup` sets the slot when it returns 0 and leaves it alone
otherwise. -/
theorem dirLookup_slot (volume : Volume) (dirCluster : Nat)
    (target : List UInt8) (slot : DirSlot) (create : Bool) :
    dirLookup volume dirCluster target slot create =
      (dirLookup volume dirCluster target .unset create).map
        (setIfFound slot) := by
  rw [dirLookup, dirLookup]
  split
  case isTrue =>
    cases lookupSectors volume.disk target volume.bpb.rootSectors
        volume.bpb.rootStart none with
    | failed => rfl
    | done found => rfl
    | more freeSlot => cases freeSlot <;> rfl
  case isFalse => exact dirLookupChain_slot _ _ _ _ _ _ _

/-- The same for the beginning of the calls. -/
theorem openTarget_slot (volume : Volume) (path : CString) (rootCode : Nat)
    (slot : DirSlot) :
    openTarget volume path rootCode slot true =
      (openTarget volume path rootCode .unset true).map fun
        | .error code => .error code
        | .ok (target, parent, r, found, volume) =>
            .ok (target, parent, r, if r = 0 then found else slot,
              volume) := by
  rw [openTarget, openTarget]
  cases resolvePath volume path with
  | none => rfl
  | some resolved =>
      simp only [Option.bind_eq_bind, Option.bind_some]
      split
      case isTrue => rfl
      case isFalse =>
      split
      case isTrue => rfl
      case isFalse =>
        rw [dirLookup_slot]
        cases dirLookup volume resolved.dirCluster resolved.finalName
            .unset true with
        | none => rfl
        | some found => rfl

/-- A lookup that returns 3 leaves the calls with an unset slot. -/
theorem untilSlot_full (full : LookupFull volume path)
    (rest : Volume → DirSlot → List UInt8 → Option (Nat × Volume)) :
    untilSlot volume path rest = some .readsUnset := by
  obtain ⟨resolved, slot, slot', grown, isResolved, isCode, notRoot,
    lookup⟩ := full
  rw [dirLookup_slot, Option.map_eq_some_iff] at lookup
  obtain ⟨⟨r, found, grown'⟩, lookup, same⟩ := lookup
  obtain rfl : r = 3 := congrArg Prod.fst same
  rw [untilSlot, openTarget, isResolved]
  simp [isCode, notRoot, lookup]

theorem checkedWriteFile_full (full : LookupFull volume path)
    (data : Bytes) (size : Nat) :
    checkedWriteFile volume path data size = some .readsUnset :=
  untilSlot_full full _

theorem checkedWriteAt_full (full : LookupFull volume path)
    (offset : Nat) (data : Bytes) (positive : len ≠ 0) :
    checkedWriteAt volume path offset data len = some .readsUnset := by
  rw [checkedWriteAt, if_neg positive]
  exact untilSlot_full full _

/-- A call that returns without reading an unset slot goes the same way
whatever the slot variable holds before. -/
theorem untilSlot_returned
    {rest : Volume → DirSlot → List UInt8 → Option (Nat × Volume)}
    (result : untilSlot volume path rest =
      some (.returned code volume')) (slot : DirSlot) :
    (do
      match ← openTarget volume path 4 slot true with
      | .error code => return (code, volume)
      | .ok (target, _, r, slot, volume) =>
          if r = 1 then
            return (1, volume)
          if r = 2 then
            return (2, volume)
          rest volume slot target) = some (code, volume') := by
  rw [untilSlot] at result
  rw [openTarget_slot]
  generalize openTarget volume path 4 .unset true = opened at result ⊢
  match opened with
  | none => simp at result
  | some (.error _) => simpa using result
  | some (.ok (target, _, r, found, grown)) =>
      simp only [Option.bind_eq_bind, Option.bind_some, Option.map_some,
        Option.pure_def] at result ⊢
      by_cases readError : r = 1
      · rw [if_pos readError] at result ⊢
        simpa using result
      rw [if_neg readError] at result ⊢
      by_cases missing : r = 2
      · rw [if_pos missing] at result ⊢
        simpa using result
      rw [if_neg missing] at result ⊢
      by_cases found' : r = 0
      · rw [if_neg (not_not_intro found')] at result
        rw [if_pos found']
        obtain ⟨⟨code', volume''⟩, restEq, same⟩ :=
          Option.bind_eq_some_iff.mp result
        cases same
        exact restEq
      · rw [if_pos found'] at result
        cases result

theorem checkedWriteFile_returned
    (result : checkedWriteFile volume path data size =
      some (.returned code volume')) (slot : DirSlot) :
    fatWriteFile volume slot path data size = some (code, volume') :=
  untilSlot_returned result slot

theorem checkedWriteAt_returned
    (result : checkedWriteAt volume path offset data len =
      some (.returned code volume')) (slot : DirSlot) :
    fatWriteAt volume slot path offset data len = some (code, volume') := by
  rw [checkedWriteAt] at result
  rw [fatWriteAt]
  split
  case isTrue nothing =>
    rw [if_pos nothing] at result
    cases result
    rfl
  case isFalse some =>
    rw [if_neg some] at result
    exact untilSlot_returned result slot

/-- Neither call ever reports that the directory cannot grow. -/
theorem growthFailure_unreported (full : LookupFull volume path)
    (data : Bytes) (size offset len : Nat) :
    ¬ Reported volume (checkedWriteFile volume path data size) ∧
      ¬ Reported volume (checkedWriteAt volume path offset data len) := by
  constructor
  · rintro ⟨code, _, returned⟩
    rw [checkedWriteFile_full full] at returned
    cases returned
  · rintro ⟨code, nonzero, returned⟩
    by_cases nothing : len = 0
    · rw [checkedWriteAt, if_pos nothing] at returned
      cases returned
      exact nonzero rfl
    · rw [checkedWriteAt_full full offset data nothing] at returned
      cases returned

end Unset

theorem sampleAbsent_full : LookupFull sampleFull sampleAbsent := by
  have resolved : resolvePath sampleFull sampleAbsent =
      some ⟨0, false, 2, padName 11 [0x5a]⟩ := by
    decide +kernel
  have code : (dirLookup sampleFull 2 (padName 11 [0x5a]) .unset true).map
      Prod.fst = some 3 := by
    decide +kernel
  obtain ⟨⟨r, slot, volume⟩, lookup, rfl⟩ := Option.map_eq_some_iff.mp code
  exact ⟨_, .unset, slot, volume, resolved, rfl, rfl, lookup⟩

theorem sampleAbsent_unreported :
    ¬ Reported sampleFull
        (checkedWriteFile sampleFull sampleAbsent (fun _ => 5) 1) ∧
      ¬ Reported sampleFull
        (checkedWriteAt sampleFull sampleAbsent 0 (fun _ => 5) 1) :=
  growthFailure_unreported sampleAbsent_full (fun _ => 5) 1 0 1

/-- One byte for `/D/Z`: the slot is read before it is set.  With what an
earlier call for `/B` left in it, the call returns 0, and `/B` is gone. -/
theorem sampleAbsent_replaces :
    WellFormed sampleFull ∧ LookupFull sampleFull sampleAbsent ∧
      checkedWriteFile sampleFull sampleAbsent (fun _ => 5) 1 =
        some .readsUnset ∧
      checkedWriteAt sampleFull sampleAbsent 0 (fun _ => 5) 1 =
        some .readsUnset ∧
      (fatWriteFile sampleFull sampleStale sampleAbsent (fun _ => 5)
        1).map Prod.fst = some 0 ∧
      fatStat sampleFull [0x2f, 0x42] ≠ some (.error 1) ∧
      fatStat (sampleFull.after (fatWriteFile sampleFull sampleStale
        sampleAbsent (fun _ => 5) 1)) [0x2f, 0x42] = some (.error 1) :=
  ⟨sampleFull_wellFormed.1, sampleAbsent_full,
    checkedWriteFile_full sampleAbsent_full _ _,
    checkedWriteAt_full sampleAbsent_full _ _ (by decide),
    by decide +kernel, by decide +kernel, by decide +kernel⟩

end LoafOs
