import LoafOs.Userspace.UserPaths
import LoafOs.Userspace.UserRanges

/-!
# Errors in `SYS_CHDIR` and `SYS_SPAWN`

`SYS_CHDIR` should refuse whatever is no directory, and `SYS_SPAWN` an
argument that the caller may not read.  Both have a test that does not stop
the call.
-/

namespace LoafOs

/-- `fat_stat` succeeds with the directory attribute set. -/
def StatsDirectory (volume : Volume) (path : CString) : Prop :=
  ∃ st, fatStat volume path = some (.ok st) ∧
    st.attr &&& attrDirectory ≠ 0

/-- The bytes that a copy looks at lead to one that may not be read. -/
def StringUnreadable (memory : Memory) (pd ptr max : Nat) : Prop :=
  ∃ k < max - 1,
    (∀ j < k, userByte memory pd (u32 (ptr + j)) ≠ some 0) ∧
      ¬ UserReadable memory pd (u32 (ptr + k))

section Copy

variable {memory : Memory} {pd ptr max : Nat}

theorem copyUserLoop_unreadable {count i k : Nat}
    (inPage : u32 (ptr + i) % 4096 = 0 ∨
      UserReadable memory pd (u32 (ptr + i)))
    (below : k < count)
    (noNul : ∀ j < k, userByte memory pd (u32 (ptr + (i + j))) ≠ some 0)
    (unreadable : ¬ UserReadable memory pd (u32 (ptr + (i + k)))) :
    (copyUserLoop memory pd ptr count i).result = some none := by
  induction count generalizing i k with
  | zero => exact absurd below (Nat.not_lt_zero _)
  | succ count inductionHypothesis =>
      rw [copyUserLoop, Logged.result_bind, checkPageStart_result,
        Option.bind_some]
      split
      case isTrue => rfl
      case isFalse valid =>
        have readable : UserReadable memory pd (u32 (ptr + i)) := by
          rcases inPage with start | readable
          · exact validateByte_readable (u32_lt _) (by simpa [start] using valid)
          · exact readable
        cases k with
        | zero => exact absurd readable unreadable
        | succ k =>
            obtain ⟨c, isByte⟩ := readable.byte
            have nonzero : c ≠ 0 := by
              rintro rfl
              exact noNul 0 (Nat.succ_pos _) isByte
            rw [Logged.result_bind,
              show (readUser memory pd (u32 (ptr + i))).result = some c from
                isByte, Option.bind_some, if_neg nonzero, Logged.result_bind]
            have onward : (copyUserLoop memory pd ptr count (i + 1)).result =
                some none := by
              apply inductionHypothesis
                ((nextByte_page ptr i).imp_right readable.same_page)
                (Nat.lt_of_succ_lt_succ below)
              · intro j less
                rw [Nat.add_right_comm i 1 j]
                exact noNul (j + 1) (Nat.succ_lt_succ less)
              · rw [Nat.add_right_comm i 1 k]
                exact unreadable
            rw [onward]
            rfl

/-- Such a string is not copied. -/
theorem copyUserStr_unreadable (word : ptr < 2 ^ 32)
    (unreadable : StringUnreadable memory pd ptr max) :
    (copyUserStr memory pd ptr max).result = some none := by
  obtain ⟨k, below, noNul, unreadable⟩ := unreadable
  rw [copyUserStr_result]
  split
  case isFalse => rfl
  case isTrue valid =>
    refine copyUserLoop_unreadable ?_ below ?_ ?_
    · rw [Nat.add_zero, show u32 ptr = ptr from Nat.mod_eq_of_lt word]
      exact .inr (validateByte_readable word valid)
    · simpa only [Nat.zero_add] using noNul
    · rwa [Nat.zero_add]

/-- A readable path is copied. -/
theorem copyUserStr_readable {path : CString} {capacity : Nat}
    (string : UserString memory pd ptr path)
    (readable : PagesReadable memory pd ptr (path.length + 1))
    (fits : path.length ≤ capacity) :
    (copyUserStr memory pd ptr (capacity + 1)).result =
      some (some path) := by
  rw [copyUserStr_result, if_pos readable.first]
  rcases copyUserLoop_string string (capacity + 1 - 1) (Nat.zero_le _)
    with ⟨_, result⟩ | ⟨⟨j, _, _, inside, invalid⟩, _⟩
  · refine result.trans ?_
    rw [List.drop_zero, Nat.add_sub_cancel, List.take_of_length_le fits]
  · exact absurd (readable.next j (Nat.lt_succ_of_le inside)) invalid

end Copy

namespace UserSystem

variable {s : UserSystem} {unset : Leftovers} {ptr : Nat} {path : CString}

/-! ## The working directory -/

/-- `SYS_CHDIR` goes to a directory and refuses anything else, whatever it
finds in its variables. -/
structure ChdirExact (s : UserSystem) (ptr : Nat) (path : CString) :
    Prop where
  directory : StatsDirectory s.volume path → ∀ unset,
    (s.sysChdir unset ptr).result =
      some (0, { s with proc := { s.proc with cwd := path } })
  other : ¬ StatsDirectory s.volume path → ∀ unset,
    (s.sysChdir unset ptr).result = some (refused, s)

/-- `SYS_CHDIR` for a path that it can copy. -/
theorem sysChdir_result
    (copied : (copyUserStr s.memory s.pd ptr maxBuf).result =
      some (some path)) :
    (s.sysChdir unset ptr).result =
      (fatStat s.volume path).map fun
        | .ok _ => (0, { s with proc := { s.proc with cwd := procCwd path } })
        | .error _ =>
            if unset.attr &&& attrDirectory = 0 then (refused, s)
            else (0, { s with
              proc := { s.proc with cwd := procCwd path } }) := by
  rw [sysChdir, (withPath_some copied).1, chdirPath, Logged.result_bind,
    passPath]
  cases fatStat s.volume path with
  | none => rfl
  | some stat =>
      cases stat with
      | ok st => rfl
      | error _ =>
          by_cases stale : unset.attr &&& attrDirectory = 0
          · simp [stale, Except.isOk, Except.toBool]
          · simp [stale, Except.isOk, Except.toBool]

theorem procCwd_eq_self (short : path.length < maxBuf) :
    procCwd path = path ↔ path ≠ [] := by
  have limit : maxBuf = 128 := rfl
  rw [procCwd]
  split
  case isTrue empty => simp [empty]
  case isFalse nonempty =>
    rw [List.take_of_length_le (by omega)]
    exact iff_of_true rfl nonempty

/-- The memory that `st` had before decides when `fat_stat` fails. -/
theorem chdirExact_iff
    (copied : (copyUserStr s.memory s.pd ptr maxBuf).result =
      some (some path)) (short : path.length < maxBuf) :
    s.ChdirExact ptr path ↔ StatsDirectory s.volume path ∧ path ≠ [] := by
  have nonzero : ¬ 0 = refused := by decide
  have result (unset : Leftovers) : (s.sysChdir unset ptr).result = _ :=
    sysChdir_result copied
  constructor
  · intro exact
    by_cases directory : StatsDirectory s.volume path
    · refine ⟨directory, (procCwd_eq_self short).mp ?_⟩
      have went := exact.directory directory noLeftovers
      obtain ⟨st, isStat, _⟩ := directory
      rw [result, isStat] at went
      exact congrArg (fun result => result.2.proc.cwd) (Option.some.inj went)
    · have stale := exact.other directory { noLeftovers with attr := 0x10 }
      rw [result] at stale
      cases isStat : fatStat s.volume path with
      | none => rw [isStat] at stale; cases stale
      | some stat =>
          rw [isStat] at stale
          cases stat with
          | ok st =>
              exact absurd (congrArg Prod.fst (Option.some.inj stale)) nonzero
          | error _ =>
              exact absurd (congrArg Prod.fst (Option.some.inj stale)) nonzero
  · rintro ⟨directory, nonempty⟩
    refine ⟨fun _ unset => ?_, fun other => absurd directory other⟩
    obtain ⟨st, isStat, _⟩ := directory
    rw [result, isStat, Option.map_some,
      (procCwd_eq_self short).mpr nonempty]

/-! ## The argument vector -/

/-- An argument of `SYS_SPAWN` is a string that the caller may not read. -/
def BadArgument (s : UserSystem) (argc argv : UInt32) : Prop :=
  ∃ i < argc.toNat, ∃ userStr,
    (readUserWord s.memory s.pd (argv.toNat + 4 * i)).result =
        some userStr ∧
      StringUnreadable s.memory s.pd userStr maxSpawnArglen

/-- The call fails before `process_create`. -/
def CreatesNothing (s : UserSystem) (run : UserRun (Nat × UserSystem)) :
    Prop :=
  run.result = some (refused, s) ∧ passedPaths run.events = []

/-- The entry of `kargv` for a bad argument is what the stack held. -/
theorem copyArgs_unreadable {argv count i j userStr : Nat}
    {kargv : List CString}
    (result : (s.copyArgs unset argv count i).result = some kargv)
    (lower : i ≤ j) (upper : j < i + count)
    (isPointer : (readUserWord s.memory s.pd (argv + 4 * j)).result =
      some userStr)
    (unreadable : StringUnreadable s.memory s.pd userStr maxSpawnArglen) :
    kargv[j - i]? = some (unset.args j) := by
  induction count generalizing i kargv with
  | zero => exact absurd upper (Nat.not_lt.mpr lower)
  | succ count inductionHypothesis =>
      rw [copyArgs, Logged.result_bind] at result
      obtain ⟨here, isHere, result⟩ := Option.bind_eq_some_iff.mp result
      rw [Logged.result_bind] at result
      obtain ⟨copied, isCopied, result⟩ := Option.bind_eq_some_iff.mp result
      cases copied with
      | none =>
          cases result
          rw [List.getElem?_map, List.getElem?_range (by omega),
            Option.map_some, Nat.add_sub_cancel' lower]
      | some arg =>
          rcases Nat.lt_or_eq_of_le lower with later | rfl
          · rw [Logged.result_bind] at result
            obtain ⟨rest, isRest, same⟩ :=
              Option.bind_eq_some_iff.mp result
            cases same
            rw [show j - i = (j - (i + 1)) + 1 by omega,
              List.getElem?_cons_succ]
            exact inductionHypothesis isRest later (by omega)
          · obtain rfl := Option.some.inj (isHere.symm.trans isPointer)
            rw [copyUserStr_unreadable (readUserWord_lt isPointer)
              unreadable] at isCopied
            cases isCopied

theorem intOf_small {word : UInt32} (few : word.toNat ≤ maxSpawnArgc) :
    ¬ (intOf word < 0 ∨ (maxSpawnArgc : Int) < intOf word) := by
  have value : intOf word = word.toBitVec.toInt := rfl
  have limit : maxSpawnArgc = 16 := rfl
  rw [BitVec.toInt_eq_toNat_cond, UInt32.toNat_toBitVec] at value
  split at value
  case isTrue => omega
  case isFalse => omega

/-- The loop over the arguments never ends the call. -/
theorem spawnArgs_stops {kpath : CString} {argc argv : UInt32}
    (many : 0 < argc.toNat) (few : argc.toNat ≤ maxSpawnArgc) :
    (s.spawnArgs unset kpath argc argv).result = some none ↔
      argv ≠ 0 ∧ pagingValidateUserRange s.memory s.pd argv.toNat
        (argc.toNat * 4) false = false := by
  have nonzero : argc ≠ 0 := by
    rintro rfl
    exact absurd many (by decide)
  rw [spawnArgs, if_neg (intOf_small few)]
  by_cases null : argv = 0
  · rw [if_pos (.inr null)]
    refine iff_of_false (fun stops => ?_) fun bad => bad.1 null
    cases stops
  · rw [if_neg (not_or.mpr ⟨nonzero, null⟩), checked_eq.1]
    split
    case isFalse invalid =>
      exact iff_of_true rfl ⟨null, eq_false_of_ne_true invalid⟩
    case isTrue valid =>
      rw [Logged.result_bind, valid]
      refine iff_of_false (fun stops => ?_) (by simp)
      obtain ⟨kargv, _, same⟩ := Option.bind_eq_some_iff.mp stops
      cases same

/-- `SYS_SPAWN` stops early only for its path or for the array itself. -/
theorem createsNothing_iff {argc argv : UInt32} (word : ptr < 2 ^ 32)
    (many : 0 < argc.toNat) (few : argc.toNat ≤ maxSpawnArgc) :
    s.CreatesNothing (s.sysSpawn unset ptr argc argv) ↔
      (copyUserStr s.memory s.pd ptr kpathSize).result = some none ∨
        argv ≠ 0 ∧ pagingValidateUserRange s.memory s.pd argv.toNat
          (argc.toNat * 4) false = false := by
  obtain ⟨copied, isCopied⟩ :=
    copyUserStr_returns s.memory s.pd kpathSize word
  rw [CreatesNothing, sysSpawn, isCopied]
  cases copied with
  | none =>
      refine iff_of_true ⟨withPath_none isCopied, ?_⟩ (.inl rfl)
      rw [withPath, Logged.bind_returns isCopied, passedPaths,
        List.filterMap_append, ← passedPaths, passedPaths_copyUserStr]
      rfl
  | some kpath =>
      rw [(withPath_some isCopied).1, (withPath_some isCopied).2,
        or_iff_right (by simp), ← spawnArgs_stops many few]
      obtain ⟨args, isArgs⟩ := @spawnArgs_returns s unset kpath argc argv
      rw [isArgs, spawnPath, Logged.bind_returns isArgs, passedPaths,
        List.filterMap_append, ← passedPaths, passedPaths_spawnArgs]
      cases args with
      | none => exact iff_of_true ⟨rfl, rfl⟩ rfl
      | some kargv =>
          refine iff_of_false (fun nothing => ?_) (by simp)
          refine absurd (Eq.trans (Eq.symm ?_) nothing.2)
            (List.cons_ne_nil kpath [])
          refine passPath_eq fun created => ?_
          obtain ⟨system, created⟩ := created
          cases created with
          | error _ => rfl
          | ok child => rfl

end UserSystem

/-! ## The two calls -/

/-- `SYS_CHDIR` decides as it should exactly for directories, but for the
empty path, which it takes for the root. -/
theorem sysChdir_exact_iff {s : UserSystem} {ptr : UInt32} {path : CString}
    (string : UserString s.memory s.pd ptr.toNat path)
    (readable : PagesReadable s.memory s.pd ptr.toNat (path.length + 1))
    (short : path.length < maxBuf) :
    s.ChdirExact ptr.toNat path ↔
      StatsDirectory s.volume path ∧ path ≠ [] := by
  have fits : path.length ≤ maxBuf - 1 := Nat.le_pred_of_lt short
  exact UserSystem.chdirExact_iff
    (copyUserStr_readable string readable fits) short

/-- A bad argument ends `SYS_SPAWN` exactly if the call fails before it
looks at the arguments. -/
theorem sysSpawn_badArgument_iff {s : UserSystem} {ptr argc argv : UInt32}
    (few : argc.toNat ≤ maxSpawnArgc) :
    (s.BadArgument argc argv → ∀ unset,
        s.CreatesNothing (s.sysSpawn unset ptr.toNat argc argv)) ↔
      (s.BadArgument argc argv →
        (copyUserStr s.memory s.pd ptr.toNat kpathSize).result = some none ∨
          argv ≠ 0 ∧ pagingValidateUserRange s.memory s.pd argv.toNat
            (argc.toNat * 4) false = false) := by
  refine imp_congr_right fun bad => ?_
  have many : 0 < argc.toNat := by
    obtain ⟨i, below, _⟩ := bad
    omega
  have each (unset : Leftovers) :
      s.CreatesNothing (s.sysSpawn unset ptr.toNat argc argv) ↔ _ :=
    UserSystem.createsNothing_iff ptr.toNat_lt many few
  exact ⟨fun nothing => (each noLeftovers).mp (nothing noLeftovers),
    fun stops unset => (each unset).mpr stops⟩

/-! ## Programs with one page -/

theorem onePage_text {bytes : Bytes} {path : CString}
    (short : path.length < 4096) (noNul : 0 ∉ path)
    (same : ∀ i ≤ path.length, bytes i = path.getD i 0) :
    UserString (onePage bytes) 0x1000 0 path where
  bytes i inside := by
    rw [Nat.zero_add, show u32 i = i from Nat.mod_eq_of_lt (by omega),
      userByte, onePage_byte (by omega), Option.map_some,
      same i (Nat.le_of_lt inside)]
    simp [inside]
  nul := by
    rw [Nat.zero_add, show u32 path.length = path.length from
      Nat.mod_eq_of_lt (by omega), userByte, onePage_byte short,
      Option.map_some, same _ (Nat.le_refl _)]
    simp
  noNul := noNul

/-- The page of a short path may be read. -/
theorem onePage_pathReadable (bytes : Bytes) {count : Nat}
    (short : count ≤ kpathSize - 1) :
    PagesReadable (onePage bytes) 0x1000 0 count :=
  ⟨(onePage_readable bytes).first, fun i below =>
    (onePage_readable bytes).next i (Nat.lt_of_lt_of_le below short)⟩

theorem sysChdir_exact_sample :
    let s := UserSystem.onPage sampleStored (pageText samplePath)
    s.ChdirExact (0 : UInt32).toNat samplePath ↔
      StatsDirectory s.volume samplePath ∧ samplePath ≠ [] := by
  intro s
  have string : UserString s.memory s.pd 0 samplePath :=
    onePage_string (by decide) (by decide)
  exact sysChdir_exact_iff string (onePage_pathReadable _ (by decide))
    (by decide)

/-- `SYS_CHDIR` goes to the regular file `/D/A`. -/
theorem sampleFile_entered :
    let s := UserSystem.onPage sampleStored (pageText sampleFile)
    UserString s.memory s.pd 0 sampleFile ∧
      PagesReadable s.memory s.pd 0 (sampleFile.length + 1) ∧
      ¬ s.ChdirExact 0 sampleFile := by
  intro s
  have string : UserString s.memory s.pd 0 sampleFile :=
    onePage_string (by decide) (by decide)
  have readable : PagesReadable s.memory s.pd 0 (sampleFile.length + 1) :=
    onePage_pathReadable _ (by decide)
  have regular : (fatStat s.volume sampleFile).map (fun
      | .ok st => st.attr &&& attrDirectory
      | .error _ => 0) = some 0 := by
    decide +kernel
  refine ⟨string, readable, fun exact => ?_⟩
  have copied : (copyUserStr s.memory s.pd 0 maxBuf).result =
      some (some sampleFile) :=
    copyUserStr_readable string readable
      (show sampleFile.length ≤ maxBuf - 1 by decide)
  obtain ⟨⟨st, isStat, directory⟩, _⟩ :=
    (UserSystem.chdirExact_iff copied (by decide)).mp exact
  rw [isStat] at regular
  exact directory (Option.some.inj regular)

/-- The path `/A`, and at 16 a pointer to a page that does not exist. -/
def badVector : Bytes := fun i =>
  if i = 0 then 0x2f else if i = 1 then 0x41 else if i = 17 then 0x10 else 0

theorem badVector_bad :
    (UserSystem.onPage sampleStored badVector).BadArgument 1 16 := by
  have isByte (i : Nat) (inside : i < 4096) :
      (readUser (onePage badVector) 0x1000 i).result =
        some (badVector i) := by
    change userByte _ _ _ = _
    rw [userByte, onePage_byte inside]
    rfl
  refine ⟨0, by decide, 4096, ?_, 0, by decide, fun j below => ?_, ?_⟩
  · change (readUserWord (onePage badVector) 0x1000 16).result = some 4096
    simp only [readUserWord, Logged.result_bind, Logged.result_pure]
    rw [show u32 16 = 16 from rfl, show u32 (16 + 1) = 17 from rfl,
      show u32 (16 + 2) = 18 from rfl, show u32 (16 + 3) = 19 from rfl,
      isByte 16 (by decide), isByte 17 (by decide), isByte 18 (by decide),
      isByte 19 (by decide)]
    rfl
  · exact absurd below (Nat.not_lt_zero j)
  · rintro ⟨cell, isCell, _⟩
    have absent : userView (onePage badVector) 0x1000 4096 = none :=
      onePage_absent rfl
    cases absent.symm.trans isCell

theorem sysSpawn_badArgument_sample :
    let s := UserSystem.onPage sampleStored badVector
    (s.BadArgument 1 16 → ∀ unset,
        s.CreatesNothing (s.sysSpawn unset (0 : UInt32).toNat 1 16)) ↔
      (s.BadArgument 1 16 →
        (copyUserStr s.memory s.pd (0 : UInt32).toNat kpathSize).result =
            some none ∨
          (16 : UInt32) ≠ 0 ∧ pagingValidateUserRange s.memory s.pd
            (16 : UInt32).toNat ((1 : UInt32).toNat * 4) false = false) :=
  sysSpawn_badArgument_iff (by decide)

/-- `SYS_SPAWN` starts `/A` with an argument that it could not read. -/
theorem badVector_spawns :
    let s := UserSystem.onPage sampleStored badVector
    s.BadArgument 1 16 ∧
      ¬ s.CreatesNothing (s.sysSpawn noLeftovers 0 1 16) := by
  intro s
  refine ⟨badVector_bad, fun nothing => ?_⟩
  have string : UserString s.memory s.pd 0 [0x2f, 0x41] := by
    refine onePage_text (by decide) (by decide) fun i below => ?_
    have cases : i = 0 ∨ i = 1 ∨ i = 2 := by
      change i ≤ 2 at below
      omega
    rcases cases with rfl | rfl | rfl <;> rfl
  have copied : (copyUserStr s.memory s.pd 0 kpathSize).result =
      some (some [0x2f, 0x41]) :=
    copyUserStr_readable string (onePage_pathReadable _ (by decide))
      (show 2 ≤ kpathSize - 1 by decide)
  have valid : pagingValidateUserRange s.memory s.pd 16 4 false = true :=
    validateRange_of_all (by decide) fun addr _ upper =>
      pageAllows_iff.mpr (validateUserPage_iff.mpr
        ⟨_, onePage_byte (by omega), rfl⟩)
  have stops := (UserSystem.createsNothing_iff (by decide) (by decide)
    (by decide)).mp nothing
  rcases stops with none | ⟨_, invalid⟩
  · rw [copied] at none
    cases none
  · cases valid.symm.trans invalid

end LoafOs
