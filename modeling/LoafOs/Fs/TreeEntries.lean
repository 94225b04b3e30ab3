import LoafOs.Fs.FatAliases
import LoafOs.Fs.FatOrder

/-!
# Entries by their names

An orderly volume shows every reachable entry under exactly one list of
names.  Resolving a path goes to the directory that its names but the last
lead to, and replacing one entry leaves the others where they were.
-/

namespace LoafOs

/-- The names of the entries `.` and `..`. -/
def DotName (raw : List UInt8) : Prop :=
  raw.take 2 = [0x2e, 0x20] ∨ raw.take 3 = [0x2e, 0x2e, 0x20]

theorem isDot_iff (mem : Bytes) (slot : Nat) :
    IsDot mem slot ↔ DotName (direntName mem slot) := by
  have front : (direntName mem slot).take 3 =
      [mem slot, mem (slot + 1), mem (slot + 2)] := rfl
  have shorter : (direntName mem slot).take 2 =
      [mem slot, mem (slot + 1)] := rfl
  rw [DotName, front, shorter, IsDot]
  simp

theorem toFatName_plain_dot (name : CString) :
    ¬ DotName (toFatName name) := by
  have head := toFatName_head name
  intro dot
  cases isRaw : toFatName name with
  | nil =>
      rw [isRaw] at dot
      simp [DotName] at dot
  | cons first rest =>
      rw [isRaw] at dot head
      rcases dot with dot | dot
      · exact head (congrArg some (List.cons.inj dot).1)
      · exact head (congrArg some (List.cons.inj dot).1)

theorem Matches.plain_live {mem : Bytes} {raw : List UInt8} {slot : Nat}
    (matched : Matches mem raw slot) (plain : ¬ DotName raw) :
    Live mem slot :=
  ⟨matched.1, fun isDot =>
    plain (matched.2 ▸ (isDot_iff mem slot).mp isDot)⟩

/-- The names lead from the root to the directory with this first cluster
and these slots. -/
inductive Leads (volume : Volume) :
    List (List UInt8) → Nat → List Nat → Prop
  | root : Leads volume [] 0 (rootSlots volume.bpb)
  | sub {names : List (List UInt8)} {cur dir : Nat}
      {slots clusters : List Nat} {raw : List UInt8}
      (parent : Leads volume names cur slots)
      (plain : ¬ DotName raw)
      (found : Finds volume.mem raw slots dir)
      (isDir : IsDir volume.mem dir)
      (chain : Chain volume dir clusters) :
      Leads volume (names ++ [raw]) (direntFirst volume.mem dir)
        (clusters.flatMap (clusterSlots volume.bpb))

/-- The names lead from the root to the entry. -/
structure EntryAt (volume : Volume) (names : List (List UInt8))
    (entry : Nat) : Prop where
  path : ∃ parent raw cur slots, names = parent ++ [raw] ∧
    Leads volume parent cur slots ∧ ¬ DotName raw ∧
    Finds volume.mem raw slots entry

section Leads

variable {volume : Volume} {names names' more : List (List UInt8)}
  {cur cur' slot entry entry' : Nat} {slots slots' : List Nat}
  {raw raw' : List UInt8}

/-- What is found under a name other than these is live. -/
theorem Finds.plain_reach (dirSlots : DirSlots volume cur slots)
    (plain : ¬ DotName raw)
    (found : Finds volume.mem raw slots entry) : Reach volume entry :=
  (dirSlots.treeSlot found.member).reach (found.matches.plain_live plain)

theorem Leads.dirSlots (leads : Leads volume names cur slots) :
    DirSlots volume cur slots := by
  induction leads with
  | root => exact .root
  | sub _ plain found isDir chain inductionHypothesis =>
      exact .sub (found.plain_reach inductionHypothesis plain) isDir chain

theorem Descends.leads (descends : Descends volume names cur slots) :
    Leads volume names cur slots := by
  induction descends with
  | root => exact .root
  | sub _ found isDir chain inductionHypothesis =>
      exact .sub inductionHypothesis (toFatName_plain_dot _) found isDir chain

/-- The names determine the directory. -/
theorem Leads.directory_unique (left : Leads volume names cur slots)
    (right : Leads volume names cur' slots') :
    cur = cur' ∧ slots = slots' := by
  induction left generalizing cur' slots' with
  | root =>
      generalize isNil : ([] : List (List UInt8)) = none' at right
      cases right with
      | root => exact ⟨rfl, rfl⟩
      | sub _ _ _ _ _ => simp at isNil
  | @sub names cur dir slots clusters raw parent _ found _ chain
      inductionHypothesis =>
      generalize same : names ++ [raw] = all at right
      cases right with
      | root => simp at same
      | sub parent' _ found' _ chain' =>
          obtain ⟨rfl, sameLast⟩ := List.append_inj' same rfl
          cases sameLast
          obtain ⟨rfl, rfl⟩ := inductionHypothesis parent'
          obtain rfl := found.unique found'
          rw [chain.unique chain']
          exact ⟨rfl, rfl⟩

/-- A directory has one list of names. -/
theorem Leads.names_unique (wellFormed : WellFormed volume)
    (left : Leads volume names cur slots)
    (right : Leads volume names' cur' slots') (inLeft : slot ∈ slots)
    (inRight : slot ∈ slots') : names = names' := by
  induction left generalizing names' cur' slots' slot with
  | root =>
      cases right with
      | root => rfl
      | sub _ _ _ _ _ =>
          obtain ⟨_, _, inCluster⟩ := List.mem_flatMap.mp inRight
          exact (rootSlot_apart inLeft inCluster).elim
  | sub parent plain found isDir chain inductionHypothesis =>
      cases right with
      | root =>
          obtain ⟨_, _, inCluster⟩ := List.mem_flatMap.mp inLeft
          exact (rootSlot_apart inRight inCluster).elim
      | sub parent' plain' found' isDir' chain' =>
          obtain rfl := chain.same_of_slot wellFormed
            (found.plain_reach parent.dirSlots plain)
            (found'.plain_reach parent'.dirSlots plain') chain' inLeft
            inRight
          rw [inductionHypothesis parent' found.member found'.member,
            ← found.matches.2, ← found'.matches.2]

/-- What names lead through is a directory. -/
theorem Leads.initial (leads : Leads volume (names ++ more) cur slots) :
    ∃ cur slots, Leads volume names cur slots := by
  induction more using List.reverseRecOn generalizing cur slots with
  | nil =>
      rw [List.append_nil] at leads
      exact ⟨cur, slots, leads⟩
  | append_singleton more raw inductionHypothesis =>
      rw [← List.append_assoc] at leads
      generalize same : names ++ more ++ [raw] = all at leads
      cases leads with
      | root => simp at same
      | sub parent _ _ _ _ =>
          obtain ⟨rfl, _⟩ := List.append_inj' same rfl
          exact inductionHypothesis parent

/-- The last step of a list of names. -/
theorem Leads.last (leads : Leads volume (names ++ [raw]) cur slots) :
    ∃ cur' slots' dir clusters, Leads volume names cur' slots' ∧
      Finds volume.mem raw slots' dir ∧ IsDir volume.mem dir ∧
      Chain volume dir clusters ∧ cur = direntFirst volume.mem dir ∧
      slots = clusters.flatMap (clusterSlots volume.bpb) := by
  generalize same : names ++ [raw] = all at leads
  cases leads with
  | root => simp at same
  | sub parent _ found isDir chain =>
      obtain ⟨rfl, sameLast⟩ := List.append_inj' same rfl
      cases sameLast
      exact ⟨_, _, _, _, parent, found, isDir, chain, rfl, rfl⟩

theorem EntryAt.reach (place : EntryAt volume names entry) :
    Reach volume entry := by
  obtain ⟨_, _, _, _, _, leads, plain, found⟩ := place.path
  exact found.plain_reach leads.dirSlots plain

theorem EntryAt.names_ne_nil (place : EntryAt volume names entry) :
    names ≠ [] := by
  obtain ⟨_, _, _, _, rfl, _⟩ := place.path
  simp

/-- The last name is the one in the entry. -/
theorem EntryAt.name (place : EntryAt volume (names ++ [raw]) entry) :
    direntName volume.mem entry = raw := by
  obtain ⟨_, _, _, _, same, _, _, found⟩ := place.path
  obtain ⟨_, sameLast⟩ := List.append_inj' same rfl
  cases sameLast
  exact found.matches.2

/-- The names determine the entry. -/
theorem EntryAt.unique (left : EntryAt volume names entry)
    (right : EntryAt volume names entry') : entry = entry' := by
  obtain ⟨_, _, _, _, rfl, leads, _, found⟩ := left.path
  obtain ⟨_, _, _, _, same, leads', _, found'⟩ := right.path
  obtain ⟨rfl, sameLast⟩ := List.append_inj' same rfl
  cases sameLast
  obtain ⟨rfl, rfl⟩ := leads.directory_unique leads'
  exact found.unique found'

/-- An entry has one list of names. -/
theorem EntryAt.names_unique (wellFormed : WellFormed volume)
    (left : EntryAt volume names entry)
    (right : EntryAt volume names' entry) : names = names' := by
  obtain ⟨_, _, _, _, rfl, leads, _, found⟩ := left.path
  obtain ⟨_, _, _, _, rfl, leads', _, found'⟩ := right.path
  rw [leads.names_unique wellFormed leads' found.member found'.member,
    ← found.matches.2, ← found'.matches.2]

theorem EntryAt.leads {clusters : List Nat}
    (place : EntryAt volume names entry) (isDir : IsDir volume.mem entry)
    (chain : Chain volume entry clusters) :
    Leads volume names (direntFirst volume.mem entry)
      (clusters.flatMap (clusterSlots volume.bpb)) := by
  obtain ⟨_, _, _, _, rfl, leads, plain, found⟩ := place.path
  exact .sub leads plain found isDir chain

theorem Leads.entryAt (leads : Leads volume names cur slots)
    (plain : ¬ DotName raw)
    (found : Finds volume.mem raw slots entry) :
    EntryAt volume (names ++ [raw]) entry :=
  ⟨names, raw, cur, slots, rfl, leads, plain, found⟩

/-- A list of names that leads to a directory is empty or leads to its
entry. -/
theorem Leads.cases_entry (leads : Leads volume names cur slots) :
    names = [] ∧ cur = 0 ∧ slots = rootSlots volume.bpb ∨
      ∃ dir clusters, EntryAt volume names dir ∧ IsDir volume.mem dir ∧
        Chain volume dir clusters ∧ cur = direntFirst volume.mem dir ∧
        slots = clusters.flatMap (clusterSlots volume.bpb) := by
  cases leads with
  | root => exact .inl ⟨rfl, rfl, rfl⟩
  | sub parent plain found isDir chain =>
      exact .inr ⟨_, _, parent.entryAt plain found, isDir, chain, rfl, rfl⟩

end Leads

section Orderly

variable {volume volume' : Volume} {names : List (List UInt8)}
  {entry other cur : Nat} {slots old new : List Nat}

/-- Every reachable entry has a place in the tree. -/
theorem Reach.entryAt (wellFormed : WellFormed volume)
    (orderly : DirectoriesOrderly volume)
    (reach : Reach volume entry) : ∃ names, EntryAt volume names entry := by
  have here {cur slot : Nat} {slots : List Nat}
      {names : List (List UInt8)} (leads : Leads volume names cur slots)
      (member : slot ∈ slots) (live : Live volume.mem slot) :
      EntryAt volume (names ++ [direntName volume.mem slot]) slot := by
    refine leads.entryAt
      (fun dot => live.2 ((isDot_iff _ _).mpr dot)) ?_
    exact (orderly cur slots leads.dirSlots).finds_iff.mpr
      ⟨member, live.1, rfl⟩
  induction reach with
  | root member live => exact ⟨_, here .root member live⟩
  | @sub dir cluster slot parent isDir owned member live
      inductionHypothesis =>
      obtain ⟨names, place⟩ := inductionHypothesis
      obtain ⟨clusters, chain⟩ := wellFormed.chain dir parent
      exact ⟨_, here (place.leads isDir chain)
        (List.mem_flatMap.mpr ⟨cluster, chain.owns_iff.mp owned, member⟩)
        live⟩

/-- The last name of a path is that of its last component. -/
theorem rawNamesLoop_last :
    ∀ (comp : CString) (fuel : Nat) (path : CString), ∃ front name,
      toFatName comp :: rawNamesLoop fuel path = front ++ [toFatName name]
  | comp, 0, _ => ⟨[], comp, rfl⟩
  | comp, fuel + 1, path => by
      rw [rawNamesLoop]
      cases splitNext path with
      | none => exact ⟨[], comp, rfl⟩
      | some found =>
          obtain ⟨next, rest⟩ := found
          obtain ⟨front, name, isFront⟩ := rawNamesLoop_last next fuel rest
          refine ⟨toFatName comp :: front, name, ?_⟩
          rw [List.cons_append, ← isFront]

/-- What `resolve_path` makes of a list of names. -/
structure ResolvesTo (volume : Volume) (parent : List (List UInt8))
    (raw : List UInt8) (result : Option Resolved) : Prop where
  leads : ∀ cur slots, Leads volume parent cur slots →
    result = some ⟨0, false, cur, raw⟩
  stops : (¬ ∃ cur slots, Leads volume parent cur slots) →
    ∃ code, code ≠ 0 ∧ result = some (.error code)

/-- The loop goes down as long as the names lead to directories. -/
theorem resolveLoop_leads (readable : Readable volume)
    (sound : volume.disk.Sound) :
    ∀ {fuel cur : Nat} {path : CString} {names : List (List UInt8)}
      {slots : List Nat} (pending : CString), path.length < fuel →
      Leads volume names cur slots →
        ∃ front name, toFatName pending :: rawNamesLoop fuel path =
            front ++ [toFatName name] ∧
          ResolvesTo volume (names ++ front) (toFatName name)
            (resolveLoop volume fuel path cur (some pending))
  | 0, _, _, _, _, _, short, _ => absurd short (Nat.not_lt_zero _)
  | fuel + 1, cur, path, names, slots, pending, short, leads => by
      cases split : splitNext path with
      | none =>
          refine ⟨[], pending, ?_, ?_⟩
          · rw [rawNamesLoop, split]
            rfl
          · rw [resolveLoop_zero volume cur fuel split, List.append_nil]
            refine ⟨fun cur' slots' leads' => ?_, fun none => ?_⟩
            · rw [(leads.directory_unique leads').1]
            · exact absurd ⟨cur, slots, leads⟩ none
      | some found =>
          obtain ⟨comp, rest⟩ := found
          have enough : rest.length < fuel := by
            have := length_splitNext split
            omega
          by_cases down : ∃ dir,
              Finds volume.mem (toFatName pending) slots dir ∧
                IsDir volume.mem dir
          · obtain ⟨dir, inDir, isDir⟩ := down
            have plain := toFatName_plain_dot pending
            obtain ⟨clusters, chain⟩ := readable.chain dir
              (inDir.plain_reach leads.dirSlots plain) isDir
            obtain ⟨front, name, isFront, resolves⟩ := resolveLoop_leads
              readable sound comp enough
              (.sub leads plain inDir isDir chain)
            refine ⟨toFatName pending :: front, name, ?_, ?_⟩
            · rw [rawNamesLoop, split, List.cons_append, ← isFront]
            · rw [resolveLoop_down readable sound leads.dirSlots split inDir
                isDir]
              rwa [List.append_assoc] at resolves
          · obtain ⟨dir, _, inDir, isDir, _⟩ | ⟨code, failed, stopped⟩ :=
              resolveLoop_step readable sound leads.dirSlots split fuel
            · exact absurd ⟨dir, inDir, isDir⟩ down
            obtain ⟨front, name, isFront⟩ : ∃ front name,
                toFatName comp :: rawNamesLoop fuel rest =
                  front ++ [toFatName name] :=
              rawNamesLoop_last comp fuel rest
            refine ⟨toFatName pending :: front, name, ?_, ?_, ?_⟩
            · rw [rawNamesLoop, split, List.cons_append, ← isFront]
            · intro cur' slots' leads'
              have split' : names ++ toFatName pending :: front =
                  (names ++ [toFatName pending]) ++ front := by
                rw [List.append_assoc, List.singleton_append]
              rw [split'] at leads'
              obtain ⟨_, _, partway⟩ := leads'.initial
              obtain ⟨_, _, dir, _, before, inDir, isDir, _⟩ :=
                partway.last
              obtain ⟨_, rfl⟩ := leads.directory_unique before
              exact absurd ⟨dir, inDir, isDir⟩ down
            · exact fun _ => ⟨code, failed, stopped⟩

/-- Resolving a path: the root, or the directory that all names but the last
lead to. -/
theorem resolvePath_leads (readable : Readable volume)
    (sound : volume.disk.Sound) (path : CString) :
    rawNames path = [] ∧
        resolvePath volume path = some ⟨0, true, 0, []⟩ ∨
      ∃ parent name, rawNames path = parent ++ [toFatName name] ∧
        ResolvesTo volume parent (toFatName name)
          (resolvePath volume path) := by
  cases split : splitNext path with
  | none =>
      refine .inl ⟨?_, ?_⟩
      · rw [rawNames, rawNamesLoop, split]
      · rw [resolvePath, resolveLoop_zero volume 0 path.length split]
  | some found =>
      obtain ⟨comp, rest⟩ := found
      obtain ⟨front, name, isFront, resolves⟩ := resolveLoop_leads readable
        sound comp (length_splitNext split) .root
      refine .inr ⟨front, name, ?_, ?_⟩
      · rw [rawNames, rawNamesLoop, split, ← isFront]
      · rwa [resolvePath, resolveLoop_first volume 0 path.length split]

/-- A path leads to an entry if its names do. -/
theorem names_iff_entryAt (readable : Readable volume)
    (sound : volume.disk.Sound) (path : CString) :
    Names volume path entry ↔ EntryAt volume (rawNames path) entry := by
  constructor
  · rintro ⟨cur, name, slots, resolved, dirSlots, found⟩
    obtain ⟨names, slots', descends, isRaw⟩ :=
      resolvePath_descends readable sound resolved
    obtain rfl := descends.dirSlots.unique dirSlots
    rw [isRaw]
    exact descends.leads.entryAt (toFatName_plain_dot name) found
  · intro place
    rcases resolvePath_leads readable sound path with
      ⟨none, _⟩ | ⟨parent, name, isRaw, resolves⟩
    · exact absurd none place.names_ne_nil
    · obtain ⟨_, _, cur, slots, same, leads, _, found⟩ := place.path
      rw [isRaw] at same
      obtain ⟨rfl, sameLast⟩ := List.append_inj' same rfl
      cases sameLast
      exact ⟨cur, name, slots, resolves.leads cur slots leads,
        leads.dirSlots, found⟩

end Orderly

end LoafOs
