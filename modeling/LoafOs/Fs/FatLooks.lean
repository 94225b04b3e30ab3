import LoafOs.Fs.FatAliases
import Mathlib.Data.List.TakeWhile

/-!
# How far into a path the driver looks

`resolve_path` splits off a component, then goes on in the directory that
the component before names.  It looks at a byte of the path exactly if the
components that end before that byte can be resolved.
-/

namespace LoafOs

/-- The first cluster of the directory `pending`, in which a pass of
`resolve_path` goes on. -/
def enterPending (volume : Volume) (cur : Nat) (pending : CString) :
    Option Nat := do
  let (r, slot, _) ←
    dirLookup volume cur (toFatName pending) .unset false
  if r = 1 ∨ r = 2 ∨ ¬ slot.existing then
    none
  let sectorBuf ← readLba volume.disk slot.sector 1 scratch
  if direntAttr sectorBuf slot.offset &&& attrDirectory = 0 then
    none
  return direntFirst sectorBuf slot.offset

/-- How many bytes of the path the loop of `resolve_path` looks at. -/
def resolveLooks (volume : Volume) :
    (fuel : Nat) → CString → (cur : Nat) → (pending : Option CString) → Nat
  | 0, _, _, _ => 0
  | fuel + 1, path, cur, pending =>
      match splitNext path, pending with
      | none, _ => path.length + 1
      | some (comp, rest), none =>
          path.length - rest.length +
            resolveLooks volume fuel rest cur (some comp)
      | some (comp, rest), some pending =>
          match enterPending volume cur pending with
          | none => path.length - rest.length + 1
          | some cur =>
              path.length - rest.length +
                resolveLooks volume fuel rest cur (some comp)

/-- The length of the components that `split_next` splits off without a
look at the byte at `room` or behind it. -/
def wholeLength : (fuel : Nat) → CString → (room : Nat) → Nat
  | 0, _, _ => 0
  | fuel + 1, path, room =>
      match splitNext path with
      | none => 0
      | some (_, rest) =>
          let taken := path.length - rest.length
          if taken < room then
            taken + wholeLength fuel rest (room - taken)
          else
            0

/-- Those components. -/
def wholePart (path : CString) (room : Nat) : CString :=
  path.take (wholeLength (path.length + 1) path room)

section Looks

variable {volume : Volume} {path comp rest pending : CString}
variable {cur next room fuel : Nat}

/-- A path that ends behind its first component is split in the same way. -/
theorem splitNext_take (split : splitNext path = some (comp, rest))
    (more : Nat) :
    splitNext (path.take (path.length - rest.length + more)) =
      some (comp, rest.take more) := by
  simp only [splitNext] at split
  split at split
  case isTrue => cases split
  case isFalse nonempty =>
    simp only [Option.some.injEq, Prod.mk.injEq] at split
    obtain ⟨isComp, isRest⟩ := split
    obtain ⟨first, others, isTail, notSlash⟩ :
        ∃ first others, path.dropWhile (· = 0x2f) = first :: others ∧
          first ≠ 0x2f := by
      cases isTail : path.dropWhile (· = 0x2f) with
      | nil => exact absurd isTail nonempty
      | cons first others =>
          refine ⟨first, others, rfl, fun slash => ?_⟩
          have head := List.head?_dropWhile_not (· = (0x2f : UInt8)) path
          rw [isTail] at head
          simp [slash] at head
    have whole : path = path.takeWhile (· = 0x2f) ++ first :: others := by
      rw [← isTail, List.takeWhile_append_dropWhile]
    have isSlash : ∀ byte ∈ path.takeWhile (· = 0x2f),
        decide (byte = 0x2f) = true := fun _ => List.mem_takeWhile_imp
    rw [isTail] at isComp isRest
    generalize path.takeWhile (· = 0x2f) = slashes at whole isSlash
    have short : comp.length ≤ (first :: others).length := by
      rw [← isComp]
      exact ((List.take_sublist _ _).trans
        (List.takeWhile_sublist _)).length_le
    have positive : 0 < comp.length := by
      rw [← isComp, List.takeWhile_cons_of_pos (by simp [notSlash]),
        List.length_take, List.length_cons]
      omega
    have taken : path.length - rest.length + more =
        slashes.length + (comp.length + more) := by
      rw [← isRest, isComp, whole, List.length_append, List.length_drop]
      omega
    obtain ⟨count, isCount⟩ : ∃ count, comp.length + more = count + 1 :=
      Nat.exists_eq_add_one.mpr (by omega)
    have cut : path.take (path.length - rest.length + more) =
        slashes ++ first :: others.take count := by
      rw [taken, whole, List.take_length_add_append, isCount,
        List.take_succ_cons]
    have tail : (path.take (path.length - rest.length + more)).dropWhile
        (· = 0x2f) = (first :: others).take (comp.length + more) := by
      rw [cut, List.dropWhile_append_of_pos isSlash,
        List.dropWhile_cons_of_neg (by simp [notSlash]), isCount,
        List.take_succ_cons]
    have sameComp : (((first :: others).take (comp.length + more)).takeWhile
        (· ≠ 0x2f)).take 12 = comp := by
      rw [← List.take_takeWhile, List.take_take]
      have isLength := congrArg List.length isComp
      rw [List.length_take] at isLength
      by_cases full : 12 ≤ comp.length + more
      · rw [Nat.min_eq_left full]
        exact isComp
      · rw [List.take_of_length_le (by omega), ← isComp,
          List.take_of_length_le (by omega)]
    have nonempty' : (first :: others).take (comp.length + more) ≠ [] := by
      rw [isCount]
      exact List.cons_ne_nil _ _
    rw [splitNext, tail]
    simp only [if_neg nonempty', sameComp]
    rw [← isRest, isComp, List.drop_take, Nat.add_sub_cancel_left]

/-- A pass over a component that follows `pending`. -/
theorem resolveLoop_enter (fuel : Nat)
    (split : splitNext path = some (comp, rest)) :
    (∀ next, enterPending volume cur pending = some next →
      resolveLoop volume (fuel + 1) path cur (some pending) =
        resolveLoop volume fuel rest next (some comp)) ∧
    (enterPending volume cur pending = none → ∀ resolved,
      resolveLoop volume (fuel + 1) path cur (some pending) =
        some resolved → resolved.code ≠ 0) := by
  obtain ⟨whole, isWhole⟩ : ∃ whole,
      whole = resolveLoop volume (fuel + 1) path cur (some pending) :=
    ⟨_, rfl⟩
  rw [← isWhole, enterPending]
  unfold resolveLoop at isWhole
  rw [split] at isWhole
  subst isWhole
  simp only [Option.bind_eq_bind]
  cases dirLookup volume cur (toFatName pending) .unset false with
  | none => simp
  | some looked =>
      obtain ⟨r, slot, after⟩ := looked
      simp only [Option.bind_some]
      by_cases failed : r = 1
      · simp [failed, Resolved.error]
      · by_cases missing : r = 2 ∨ ¬ slot.existing = true
        · simp only [failed, missing, or_true, if_true, if_false,
            Resolved.error]
          simp
        · simp only [failed, missing, false_or, if_false]
          cases readLba volume.disk slot.sector 1 scratch with
          | none => simp [Resolved.error]
          | some sectorBuf =>
              by_cases notDir :
                  direntAttr sectorBuf slot.offset &&& attrDirectory = 0
              · simp [notDir, Resolved.error]
              · simp [notDir]

theorem wholeLength_le {fuel room : Nat} {path : CString} :
    wholeLength fuel path room ≤ path.length := by
  induction fuel generalizing path room with
  | zero => exact Nat.zero_le _
  | succ fuel inductionHypothesis =>
      unfold wholeLength
      cases split : splitNext path with
      | none => exact Nat.zero_le _
      | some found =>
          obtain ⟨comp, rest⟩ := found
          have shorter := length_splitNext split
          dsimp only
          split
          case isTrue =>
            have onward := @inductionHypothesis
              (room - (path.length - rest.length)) rest
            omega
          case isFalse => exact Nat.zero_le _

/-! ## One pass -/

theorem resolveLooks_zero (volume : Volume) (fuel cur : Nat)
    (pending : Option CString) (split : splitNext path = none) :
    resolveLooks volume (fuel + 1) path cur pending = path.length + 1 := by
  unfold resolveLooks
  rw [split]

theorem resolveLooks_first (volume : Volume) (fuel cur : Nat)
    (split : splitNext path = some (comp, rest)) :
    resolveLooks volume (fuel + 1) path cur none =
      path.length - rest.length +
        resolveLooks volume fuel rest cur (some comp) := by
  conv_lhs => unfold resolveLooks
  rw [split]

theorem resolveLooks_stay (split : splitNext path = some (comp, rest))
    (stays : enterPending volume cur pending = none) :
    resolveLooks volume (fuel + 1) path cur (some pending) =
      path.length - rest.length + 1 := by
  conv_lhs => unfold resolveLooks
  rw [split]
  simp only [stays]

theorem resolveLooks_enter (split : splitNext path = some (comp, rest))
    (enters : enterPending volume cur pending = some next) :
    resolveLooks volume (fuel + 1) path cur (some pending) =
      path.length - rest.length +
        resolveLooks volume fuel rest next (some comp) := by
  conv_lhs => unfold resolveLooks
  rw [split]
  simp only [enters]

/-- A pass looks at the byte behind its component. -/
theorem resolveLooks_pass {fuel : Nat} (volume : Volume) (cur : Nat)
    (pending : Option CString)
    (split : splitNext path = some (comp, rest)) (enough : 0 < fuel) :
    path.length - rest.length <
      resolveLooks volume (fuel + 1) path cur pending := by
  have positive (cur : Nat) :
      0 < resolveLooks volume fuel rest cur (some comp) := by
    obtain ⟨fuel, rfl⟩ := Nat.exists_eq_add_one.mpr enough
    unfold resolveLooks
    cases behind : splitNext rest with
    | none => exact Nat.succ_pos _
    | some found =>
        obtain ⟨comp', rest'⟩ := found
        have shorter := length_splitNext behind
        simp only
        cases enterPending volume cur comp with
        | none => exact Nat.succ_pos _
        | some next => exact Nat.add_pos_left (by omega) _
  cases pending with
  | none =>
      rw [resolveLooks_first volume fuel cur split]
      exact Nat.lt_add_of_pos_right (positive cur)
  | some pending =>
      cases enters : enterPending volume cur pending with
      | none =>
          rw [resolveLooks_stay split enters]
          exact Nat.lt_succ_self _
      | some next =>
          rw [resolveLooks_enter split enters]
          exact Nat.lt_add_of_pos_right (positive next)

/-! ## The whole loop -/

/-- Resolving the components that end before the byte at `room` decides
whether it is looked at. -/
theorem resolveLooks_iff {fuel fuel' : Nat} {path : CString}
    {room cur : Nat} {pending : Option CString} (enough : path.length < fuel)
    (enough' : wholeLength fuel path room < fuel') :
    room < resolveLooks volume fuel path cur pending ↔
      room ≤ path.length ∧ ∃ resolved,
        resolveLoop volume fuel'
            (path.take (wholeLength fuel path room)) cur pending =
          some resolved ∧ resolved.code = 0 := by
  induction fuel generalizing fuel' path room cur pending with
  | zero => exact absurd enough (Nat.not_lt_zero _)
  | succ fuel inductionHypothesis =>
      obtain ⟨fuel', rfl⟩ :=
        Nat.exists_eq_add_one.mpr (Nat.zero_lt_of_lt enough')
      have nothing : ∃ resolved, resolveLoop volume (fuel' + 1) (path.take 0)
          cur pending = some resolved ∧ resolved.code = 0 := by
        rw [resolveLoop_zero volume cur fuel' rfl]
        cases pending with
        | none => exact ⟨_, rfl, rfl⟩
        | some pending => exact ⟨_, rfl, rfl⟩
      unfold wholeLength at enough' ⊢
      cases split : splitNext path with
      | none =>
          rw [resolveLooks_zero volume fuel cur pending split]
          simp only [nothing, and_true]
          exact Nat.lt_succ_iff
      | some found =>
          obtain ⟨comp, rest⟩ := found
          have shorter := length_splitNext split
          simp only [split] at enough' ⊢
          by_cases before : path.length - rest.length < room
          · rw [if_pos before] at enough' ⊢
            -- the component stands before the byte: the pass goes on behind it
            have split' := splitNext_take split
              (wholeLength fuel rest (room - (path.length - rest.length)))
            have onward (next : Nat) := @inductionHypothesis fuel' rest
              (room - (path.length - rest.length)) next (some comp)
              (by omega) (by omega)
            have sum : room - (path.length - rest.length) ≤ rest.length ↔
                room ≤ path.length := by
              omega
            have less (looks : Nat) : room < path.length - rest.length + looks ↔
                room - (path.length - rest.length) < looks := by
              omega
            cases pending with
            | none =>
                rw [resolveLooks_first volume fuel cur split,
                  resolveLoop_first volume cur fuel' split', less, onward cur,
                  sum]
            | some pending =>
                cases enters : enterPending volume cur pending with
                | none =>
                    rw [resolveLooks_stay split enters]
                    have fails := (resolveLoop_enter fuel' split').2 enters
                    constructor
                    · intro _
                      omega
                    · rintro ⟨_, resolved, result, resolves⟩
                      exact absurd resolves (fails resolved result)
                | some next =>
                    rw [resolveLooks_enter split enters,
                      (resolveLoop_enter fuel' split').1 next enters, less,
                      onward next, sum]
          · rw [if_neg before]
            simp only [nothing, and_true]
            have looked := resolveLooks_pass volume cur pending split
              (show 0 < fuel by omega)
            constructor
            · intro _
              omega
            · intro _
              omega

/-- `resolve_path` looks at the byte at `room` exactly if the path reaches
it and the components before it can be resolved. -/
theorem looks_iff (volume : Volume) (path : CString) (room : Nat) :
    room < resolveLooks volume (path.length + 1) path 0 none ↔
      room ≤ path.length ∧ ∃ resolved,
        resolvePath volume (wholePart path room) = some resolved ∧
          resolved.code = 0 := by
  apply resolveLooks_iff (Nat.lt_succ_self _)
  rw [wholePart, List.length_take, Nat.min_eq_left wholeLength_le]
  exact Nat.lt_succ_self _

/-- A path that is resolved has been looked at as a whole. -/
theorem resolveLooks_whole {pending : Option CString} {resolved : Resolved}
    (result : resolveLoop volume fuel path cur pending = some resolved)
    (resolves : resolved.code = 0) :
    resolveLooks volume fuel path cur pending = path.length + 1 := by
  induction fuel generalizing path cur pending with
  | zero => cases result
  | succ fuel inductionHypothesis =>
      cases split : splitNext path with
      | none => exact resolveLooks_zero volume fuel cur pending split
      | some found =>
          obtain ⟨comp, rest⟩ := found
          have shorter := length_splitNext split
          cases pending with
          | none =>
              rw [resolveLoop_first volume cur fuel split] at result
              rw [resolveLooks_first volume fuel cur split,
                inductionHypothesis result]
              omega
          | some pending =>
              cases enters : enterPending volume cur pending with
              | none =>
                  exact absurd resolves
                    ((resolveLoop_enter fuel split).2 enters _ result)
              | some next =>
                  rw [(resolveLoop_enter fuel split).1 next enters] at result
                  rw [resolveLooks_enter split enters,
                    inductionHypothesis result]
                  omega

end Looks

end LoafOs
