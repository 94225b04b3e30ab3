import LoafOs.Fs.FatRun

/-!
# Paths that name the same entry

`split_next` cuts a component after twelve bytes and takes the rest for the
next one, and `to_fat_name` keeps eight bytes and three.  What a path stands
for is the list of names that comes out of this: two paths lead to the same
entry of a volume exactly if they lead to one at all and their lists are
equal.
-/

namespace LoafOs

/-- The non-empty parts of a path between its slashes, in upper case. -/
def components (path : CString) : List CString :=
  ((path.splitOn 0x2f).filter (· ≠ [])).map (List.map toUpper)

def rawNamesLoop : (fuel : Nat) → CString → List (List UInt8)
  | 0, _ => []
  | fuel + 1, path =>
      match splitNext path with
      | none => []
      | some (comp, rest) => toFatName comp :: rawNamesLoop fuel rest

/-- The names that `resolve_path` looks up, one after the other. -/
def rawNames (path : CString) : List (List UInt8) :=
  rawNamesLoop (path.length + 1) path

/-- The directory that the names lead to from the root, by its first cluster
and its slots. -/
inductive Descends (volume : Volume) :
    List (List UInt8) → Nat → List Nat → Prop
  | root : Descends volume [] 0 (rootSlots volume.bpb)
  | sub {names : List (List UInt8)} {cur dir : Nat}
      {slots clusters : List Nat} {name : CString}
      (parent : Descends volume names cur slots)
      (found : Finds volume.mem (toFatName name) slots dir)
      (isDir : IsDir volume.mem dir)
      (chain : Chain volume dir clusters) :
      Descends volume (names ++ [toFatName name])
        (direntFirst volume.mem dir)
        (clusters.flatMap (clusterSlots volume.bpb))

section Aliases

variable {volume : Volume} {names names' : List (List UInt8)}
  {cur cur' entry slot : Nat} {slots slots' : List Nat} {p q : CString}

theorem Descends.dirSlots (descends : Descends volume names cur slots) :
    DirSlots volume cur slots := by
  induction descends with
  | root => exact .root
  | sub _ found isDir chain inductionHypothesis =>
      exact .sub (found.reach inductionHypothesis) isDir chain

/-- A directory has one list of names. -/
theorem Descends.unique (wellFormed : WellFormed volume)
    (left : Descends volume names cur slots)
    (right : Descends volume names' cur' slots') (inLeft : slot ∈ slots)
    (inRight : slot ∈ slots') : names = names' := by
  induction left generalizing names' cur' slots' slot with
  | root =>
      cases right with
      | root => rfl
      | sub _ _ _ _ =>
          obtain ⟨_, _, inCluster⟩ := List.mem_flatMap.mp inRight
          exact (rootSlot_apart inLeft inCluster).elim
  | sub parent found isDir chain inductionHypothesis =>
      cases right with
      | root =>
          obtain ⟨_, _, inCluster⟩ := List.mem_flatMap.mp inLeft
          exact (rootSlot_apart inRight inCluster).elim
      | sub parent' found' isDir' chain' =>
          obtain rfl := chain.same_of_slot wellFormed
            (found.reach parent.dirSlots) (found'.reach parent'.dirSlots)
            chain' inLeft inRight
          rw [inductionHypothesis parent' found.member found'.member,
            ← found.matches.2, ← found'.matches.2]

/-- `resolve_path` walks down the names that it splits off. -/
theorem resolveLoop_descends (readable : Readable volume)
    (sound : volume.disk.Sound) {raw : List UInt8} :
    ∀ {fuel cur : Nat} {path : CString} {names : List (List UInt8)}
      {slots : List Nat} (pending : CString),
      Descends volume names cur slots →
      resolveLoop volume fuel path cur (some pending) =
        some ⟨0, false, cur', raw⟩ →
      ∃ names' slots', Descends volume names' cur' slots' ∧
        names' ++ [raw] =
          names ++ toFatName pending :: rawNamesLoop fuel path
  | 0, _, _, _, _, _, _, result => by cases result
  | fuel + 1, cur, path, names, slots, pending, descends, result => by
      cases split : splitNext path with
      | none =>
          rw [resolveLoop_zero volume cur fuel split] at result
          cases result
          refine ⟨names, slots, descends, ?_⟩
          rw [rawNamesLoop, split]
      | some found =>
          obtain ⟨comp, rest⟩ := found
          rcases resolveLoop_step readable sound descends.dirSlots split fuel
            with ⟨dir, clusters, inDir, isDir, chain⟩ |
              ⟨code, nonzero, failed⟩
          · rw [resolveLoop_down readable sound descends.dirSlots split inDir
              isDir] at result
            obtain ⟨names', slots', descends', same⟩ :=
              resolveLoop_descends readable sound comp
                (.sub descends inDir isDir chain) result
            refine ⟨names', slots', descends', ?_⟩
            rw [rawNamesLoop, split, same, List.append_assoc]
            rfl
          · rw [failed] at result
            cases result
            exact absurd rfl nonzero

theorem resolvePath_descends (readable : Readable volume)
    (sound : volume.disk.Sound) {raw : List UInt8}
    (resolved : resolvePath volume p = some ⟨0, false, cur, raw⟩) :
    ∃ names slots, Descends volume names cur slots ∧
      rawNames p = names ++ [raw] := by
  rw [resolvePath] at resolved
  cases split : splitNext p with
  | none =>
      rw [resolveLoop_zero volume 0 p.length split] at resolved
      cases resolved
  | some found =>
      obtain ⟨comp, rest⟩ := found
      rw [resolveLoop_first volume 0 p.length split] at resolved
      obtain ⟨names, slots, descends, same⟩ :=
        resolveLoop_descends readable sound comp .root resolved
      refine ⟨names, slots, descends, ?_⟩
      rw [rawNames, rawNamesLoop, split, same]
      rfl

/-- Paths to one entry are made of the same names. -/
theorem Names.rawNames_eq (wellFormed : WellFormed volume)
    (sound : volume.disk.Sound) (left : Names volume p entry)
    (right : Names volume q entry) : rawNames p = rawNames q := by
  obtain ⟨cur, name, slots, resolved, dirSlots, found⟩ := left
  obtain ⟨cur', name', slots', resolved', dirSlots', found'⟩ := right
  obtain ⟨names, _, descends, isRaw⟩ :=
    resolvePath_descends wellFormed.readable sound resolved
  obtain ⟨names', _, descends', isRaw'⟩ :=
    resolvePath_descends wellFormed.readable sound resolved'
  obtain rfl := descends.dirSlots.unique dirSlots
  obtain rfl := descends'.dirSlots.unique dirSlots'
  rw [isRaw, isRaw', descends.unique wellFormed descends' found.member
    found'.member, ← found.matches.2, ← found'.matches.2]

/-- `resolve_path` sees nothing of a path but its names. -/
theorem resolveLoop_congr (volume : Volume) :
    ∀ {fuel fuel' : Nat} {p q : CString} (cur : Nat)
      {pending pending' : CString}, p.length < fuel → q.length < fuel' →
      toFatName pending = toFatName pending' →
      rawNamesLoop fuel p = rawNamesLoop fuel' q →
      resolveLoop volume fuel p cur (some pending) =
        resolveLoop volume fuel' q cur (some pending')
  | 0, _, _, _, _, _, _, short, _, _, _ => absurd short (Nat.not_lt_zero _)
  | _ + 1, 0, _, _, _, _, _, _, short, _, _ =>
      absurd short (Nat.not_lt_zero _)
  | fuel + 1, fuel' + 1, p, q, cur, pending, pending', short, short',
      samePending, sameNames => by
      rw [rawNamesLoop, rawNamesLoop] at sameNames
      cases split : splitNext p with
      | none =>
          rw [split] at sameNames
          cases split' : splitNext q with
          | none =>
              rw [resolveLoop_zero volume cur fuel split,
                resolveLoop_zero volume cur fuel' split']
              simp only [samePending]
          | some _ =>
              rw [split'] at sameNames
              cases sameNames
      | some found =>
          obtain ⟨comp, rest⟩ := found
          rw [split] at sameNames
          cases split' : splitNext q with
          | none =>
              rw [split'] at sameNames
              cases sameNames
          | some found' =>
              obtain ⟨comp', rest'⟩ := found'
              rw [split'] at sameNames
              obtain ⟨sameComp, sameRest⟩ := List.cons.inj sameNames
              have shorter := length_splitNext split
              have shorter' := length_splitNext split'
              have onward (cur : Nat) := resolveLoop_congr volume cur
                (show rest.length < fuel by omega)
                (show rest'.length < fuel' by omega) sameComp sameRest
              unfold resolveLoop
              rw [split, split']
              simp only [samePending, onward]

theorem resolvePath_congr (volume : Volume)
    (same : rawNames p = rawNames q) :
    resolvePath volume p = resolvePath volume q := by
  rw [rawNames, rawNames, rawNamesLoop, rawNamesLoop] at same
  rw [resolvePath, resolvePath]
  cases split : splitNext p with
  | none =>
      rw [split] at same
      cases split' : splitNext q with
      | none =>
          rw [resolveLoop_zero volume 0 p.length split,
            resolveLoop_zero volume 0 q.length split']
      | some _ =>
          rw [split'] at same
          cases same
  | some found =>
      obtain ⟨comp, rest⟩ := found
      rw [split] at same
      cases split' : splitNext q with
      | none =>
          rw [split'] at same
          cases same
      | some found' =>
          obtain ⟨comp', rest'⟩ := found'
          rw [split'] at same
          obtain ⟨sameComp, sameRest⟩ := List.cons.inj same
          have shorter := length_splitNext split
          have shorter' := length_splitNext split'
          rw [resolveLoop_first volume 0 p.length split,
            resolveLoop_first volume 0 q.length split']
          exact resolveLoop_congr volume 0 (by omega) (by omega) sameComp
            sameRest

theorem Names.congr (left : Names volume p entry)
    (same : rawNames p = rawNames q) : Names volume q entry := by
  obtain ⟨cur, name, slots, resolved, dirSlots, found⟩ := left
  rw [resolvePath_congr volume same] at resolved
  exact ⟨cur, name, slots, resolved, dirSlots, found⟩

end Aliases

/-- Two paths lead to one entry of a well-formed volume unless the first
leads to none or they are made of different names. -/
theorem paths_apart_iff {volume : Volume} (wellFormed : WellFormed volume)
    (sound : volume.disk.Sound) (p q : CString) :
    (¬ ∃ entry, Names volume p entry ∧ Names volume q entry) ↔
      (¬ ∃ entry, Names volume p entry) ∨ rawNames p ≠ rawNames q := by
  rw [← not_and_or, not_iff_not]
  constructor
  · rintro ⟨entry, left, right⟩
    exact ⟨⟨entry, left⟩, left.rawNames_eq wellFormed sound right⟩
  · rintro ⟨⟨entry, left⟩, same⟩
    exact ⟨entry, left, left.congr same⟩

/-! Names of nine letters that differ in the last one. -/

/-- `/ABCDEFGHI` and `/ABCDEFGHJ`. -/
def sampleLong : CString :=
  [0x2f, 0x41, 0x42, 0x43, 0x44, 0x45, 0x46, 0x47, 0x48, 0x49]

def sampleLonger : CString :=
  [0x2f, 0x41, 0x42, 0x43, 0x44, 0x45, 0x46, 0x47, 0x48, 0x4a]

def sampleCut : Volume :=
  afterCalls sampleVolume [.writeFile sampleLong (fun _ => 7) 1]

theorem sampleCut_wellFormed :
    WellFormed sampleCut ∧ sampleCut.disk.Sound :=
  callsOk_wellFormed [.writeFile sampleLong (fun _ => 7) 1]
    sampleVolume_wellFormed blankDisk_sound (by decide +kernel)

theorem sampleCut_apart :
    (¬ ∃ entry, Names sampleCut samplePath entry ∧
        Names sampleCut sampleLong entry) ↔
      (¬ ∃ entry, Names sampleCut samplePath entry) ∨
        rawNames samplePath ≠ rawNames sampleLong :=
  paths_apart_iff sampleCut_wellFormed.1 sampleCut_wellFormed.2 _ _

/-- Both paths lead to the file, and deleting the one deletes the other. -/
theorem sampleCut_aliases :
    WellFormed sampleCut ∧ sampleCut.disk.Sound ∧
      components sampleLong ≠ components sampleLonger ∧
      (∃ entry, Names sampleCut sampleLong entry ∧
        Names sampleCut sampleLonger entry) ∧
      fatStat sampleCut sampleLong ≠ some (.error 1) ∧
      (fatDeleteFile sampleCut sampleLonger).map Prod.fst = some 0 ∧
      fatStat (sampleCut.after (fatDeleteFile sampleCut sampleLonger))
        sampleLong = some (.error 1) := by
  have same : rawNames sampleLong = rawNames sampleLonger := by
    decide +kernel
  obtain ⟨stat, isStat, regular⟩ : ∃ stat,
      fatStat sampleCut sampleLong = some (.ok stat) ∧
        stat.attr ≠ attrDirectory := by
    have isFile : fatStat sampleCut sampleLong = some (.ok
        ⟨[0x41, 0x42, 0x43, 0x44, 0x45, 0x46, 0x47, 0x48], 1, 2,
          attrArchive⟩) := by
      decide +kernel
    exact ⟨_, isFile, by decide⟩
  obtain ⟨entry, names⟩ : ∃ entry, Names sampleCut sampleLong entry := by
    refine (fatStat_ok sampleCut_wellFormed.1.readable
      sampleCut_wellFormed.2 isStat).resolve_left fun root => ?_
    rw [root.fatStat_eq] at isStat
    cases isStat
    exact regular rfl
  exact ⟨sampleCut_wellFormed.1, sampleCut_wellFormed.2, by decide +kernel,
    ⟨entry, names, names.congr same⟩, by decide +kernel, by decide +kernel,
    by decide +kernel⟩

end LoafOs
