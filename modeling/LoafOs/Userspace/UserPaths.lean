import LoafOs.Userspace.UserReads

/-!
# Paths of the caller

The calls copy a path to a buffer of 64 bytes, or 128 in `SYS_CHDIR`, and
`file_open` keeps 63 bytes of it.  A longer path is cut without an error.
-/

namespace LoafOs

/-- The null-terminated string at `ptr`. -/
structure UserString (memory : Memory) (pd ptr : Nat) (path : CString) :
    Prop where
  bytes : ∀ i (inside : i < path.length),
    userByte memory pd (u32 (ptr + i)) = some path[i]
  nul : userByte memory pd (u32 (ptr + path.length)) = some 0
  noNul : 0 ∉ path

/-- The page that begins with byte `i` of a string may be read. -/
def StartsReadable (memory : Memory) (pd ptr i : Nat) : Prop :=
  u32 (ptr + i) % 4096 = 0 →
    pagingValidateUserRange memory pd (u32 (ptr + i)) 1 false = true

/-- The pages of the first `count` bytes of a string may be read. -/
structure PagesReadable (memory : Memory) (pd ptr count : Nat) : Prop where
  first : pagingValidateUserRange memory pd ptr 1 false = true
  next : ∀ i < count, StartsReadable memory pd ptr i

/-- The paths with which a run has called the file system. -/
def passedPaths (events : List UserEvent) : List CString :=
  events.filterMap fun
    | .passed path => some path
    | _ => none

section Copy

variable {memory : Memory} {pd ptr : Nat} {path : CString}

theorem UserString.byte (string : UserString memory pd ptr path) {i : Nat}
    (below : i ≤ path.length) :
    userByte memory pd (u32 (ptr + i)) = some (path[i]?.getD 0) := by
  rcases Nat.lt_or_eq_of_le below with before | rfl
  · rw [string.bytes i before, List.getElem?_eq_getElem before,
      Option.getD_some]
  · rw [string.nul, List.getElem?_eq_none (Nat.le_refl _), Option.getD_none]

/-- A string that went around the address space would meet itself. -/
theorem UserString.short (string : UserString memory pd ptr path) :
    path.length < 2 ^ 32 := by
  by_contra long
  have inside : path.length - 2 ^ 32 < path.length := by omega
  have again := string.bytes _ inside
  rw [show u32 (ptr + (path.length - 2 ^ 32)) = u32 (ptr + path.length) by
    rw [u32, u32]
    omega, string.nul, Option.some.injEq] at again
  exact string.noNul (again ▸ List.getElem_mem inside)

theorem userTextFrom_string (string : UserString memory pd ptr path)
    {fuel i : Nat} (below : i ≤ path.length)
    (enough : path.length - i < fuel) :
    userTextFrom memory pd ptr fuel i = path.drop i := by
  induction fuel generalizing i with
  | zero => exact absurd enough (Nat.not_lt_zero _)
  | succ fuel inductionHypothesis =>
      rw [userTextFrom, string.byte below]
      dsimp only
      rcases Nat.lt_or_eq_of_le below with before | rfl
      · have nonzero : path[i] ≠ 0 := fun zero =>
          string.noNul (zero ▸ List.getElem_mem before)
        rw [List.getElem?_eq_getElem before, Option.getD_some,
          if_neg nonzero, inductionHypothesis before (by omega),
          List.drop_eq_getElem_cons before]
      · rw [List.getElem?_eq_none (Nat.le_refl _), Option.getD_none,
          if_pos rfl, List.drop_length]

theorem userText_string (string : UserString memory pd ptr path) :
    userText memory pd ptr = path :=
  userTextFrom_string string (Nat.zero_le _) string.short

/-- The loop stops at the end of the string, or at a page that it may not
read. -/
theorem copyUserLoop_string (string : UserString memory pd ptr path)
    (count : Nat) {i : Nat} (below : i ≤ path.length) :
    ((∀ j, i ≤ j → j < i + count → j ≤ path.length →
        StartsReadable memory pd ptr j) ∧
      (copyUserLoop memory pd ptr count i).result =
        some (some ((path.drop i).take count))) ∨
    ((∃ j, i ≤ j ∧ j < i + count ∧ j ≤ path.length ∧
        ¬ StartsReadable memory pd ptr j) ∧
      (copyUserLoop memory pd ptr count i).result = some none) := by
  induction count generalizing i with
  | zero => exact .inl ⟨fun j _ _ _ => by omega, rfl⟩
  | succ count inductionHypothesis =>
      rw [copyUserLoop, Logged.result_bind, checkPageStart_result,
        Option.bind_some]
      by_cases starts : StartsReadable memory pd ptr i
      · rw [if_neg (by simpa [StartsReadable] using starts),
          Logged.result_bind,
          show (readUser memory pd (u32 (ptr + i))).result = _ from
            string.byte below, Option.bind_some]
        rcases Nat.lt_or_eq_of_le below with before | rfl
        · have nonzero : path[i] ≠ 0 := fun zero =>
            string.noNul (zero ▸ List.getElem_mem before)
          rw [List.getElem?_eq_getElem before, Option.getD_some,
            if_neg nonzero, Logged.result_bind,
            List.drop_eq_getElem_cons before, List.take_succ_cons]
          rcases inductionHypothesis before with
            ⟨valid, result⟩ | ⟨⟨j, lower, upper, inside, invalid⟩, result⟩
          · refine .inl ⟨fun j lower upper inside => ?_, ?_⟩
            · rcases Nat.lt_or_eq_of_le lower with later | rfl
              · exact valid j later (by omega) inside
              · exact starts
            · rw [result]
              rfl
          · refine .inr ⟨⟨j, by omega, by omega, inside, invalid⟩, ?_⟩
            rw [result]
            rfl
        · refine .inl ⟨fun j lower _ inside => ?_, ?_⟩
          · rwa [Nat.le_antisymm inside lower]
          · rw [List.getElem?_eq_none (Nat.le_refl _), Option.getD_none,
              if_pos rfl, List.drop_length]
            rfl
      · refine .inr ⟨⟨i, Nat.le_refl _, by omega, below, starts⟩, ?_⟩
        rw [if_pos (by simpa [StartsReadable] using starts)]
        rfl

theorem copyUserStr_result {max : Nat} :
    (copyUserStr memory pd ptr max).result =
      if pagingValidateUserRange memory pd ptr 1 false then
        (copyUserLoop memory pd ptr (max - 1) 0).result
      else some none := by
  rw [copyUserStr, Logged.result_bind, checkUser_result, Option.bind_some]
  cases pagingValidateUserRange memory pd ptr 1 false with
  | true => rfl
  | false => rfl

/-- A path that fits is copied whole, if at all. -/
theorem copyUserStr_short (string : UserString memory pd ptr path)
    {capacity : Nat} (fits : path.length ≤ capacity) :
    (copyUserStr memory pd ptr (capacity + 1)).result = some none ∨
      (copyUserStr memory pd ptr (capacity + 1)).result =
        some (some path) := by
  rw [copyUserStr_result]
  split
  case isFalse => exact .inl rfl
  case isTrue =>
    rcases copyUserLoop_string string (capacity + 1 - 1) (Nat.zero_le _)
      with ⟨_, result⟩ | ⟨_, result⟩
    · refine .inr (result.trans ?_)
      rw [List.drop_zero, Nat.add_sub_cancel, List.take_of_length_le fits]
    · exact .inl result

/-- A longer path is cut, if its pages may be read up to there. -/
theorem copyUserStr_long (string : UserString memory pd ptr path)
    {capacity : Nat} (long : capacity < path.length) :
    (PagesReadable memory pd ptr capacity ∧
      (copyUserStr memory pd ptr (capacity + 1)).result =
        some (some (path.take capacity))) ∨
    (¬ PagesReadable memory pd ptr capacity ∧
      (copyUserStr memory pd ptr (capacity + 1)).result = some none) := by
  rw [copyUserStr_result]
  split
  case isFalse invalid =>
    exact .inr ⟨fun readable => invalid readable.first, rfl⟩
  case isTrue valid =>
    rcases copyUserLoop_string string (capacity + 1 - 1) (Nat.zero_le _)
      with ⟨next, result⟩ | ⟨⟨j, _, upper, _, invalid⟩, result⟩
    · refine .inl ⟨⟨valid, fun i less => ?_⟩, ?_⟩
      · exact next i (Nat.zero_le _) (by omega) (by omega)
      · rw [result, List.drop_zero]
        rfl
    · refine .inr ⟨fun readable => invalid (readable.next j ?_), result⟩
      omega

/-! No call faults at a byte whose page it has validated. -/

theorem UserReadable.same_page {addr addr' : Nat}
    (readable : UserReadable memory pd addr)
    (same : addr' / 4096 = addr / 4096) : UserReadable memory pd addr' := by
  rw [← validateUserPage_iff, ← validateUserPage_page] at readable ⊢
  rwa [same]

theorem UserReadable.byte {addr : Nat}
    (readable : UserReadable memory pd addr) :
    ∃ c, userByte memory pd addr = some c := by
  obtain ⟨cell, mapped, _⟩ := readable
  exact ⟨cell.byte, by rw [userByte, mapped]; rfl⟩

theorem validateByte_readable {addr : Nat} (word : addr < 2 ^ 32)
    (valid : pagingValidateUserRange memory pd addr 1 false = true) :
    UserReadable memory pd addr :=
  (validateByte_finds word valid).2.same_page (by omega)

theorem copyUserLoop_returns {count i : Nat}
    (inPage : u32 (ptr + i) % 4096 = 0 ∨
      UserReadable memory pd (u32 (ptr + i))) :
    ∃ copied, (copyUserLoop memory pd ptr count i).result = some copied := by
  induction count generalizing i with
  | zero => exact ⟨_, rfl⟩
  | succ count inductionHypothesis =>
      rw [copyUserLoop, Logged.result_bind, checkPageStart_result,
        Option.bind_some]
      split
      case isTrue => exact ⟨_, rfl⟩
      case isFalse valid =>
        have readable : UserReadable memory pd (u32 (ptr + i)) := by
          rcases inPage with start | readable
          · exact validateByte_readable (u32_lt _) (by simpa [start] using valid)
          · exact readable
        obtain ⟨c, isByte⟩ := readable.byte
        rw [Logged.result_bind,
          show (readUser memory pd (u32 (ptr + i))).result = some c from
            isByte, Option.bind_some]
        split
        case isTrue => exact ⟨_, rfl⟩
        case isFalse =>
          obtain ⟨rest, result⟩ := inductionHypothesis
            ((nextByte_page ptr i).imp_right readable.same_page)
          rw [Logged.result_bind, result]
          exact ⟨_, rfl⟩

theorem copyUserStr_returns (memory : Memory) (pd max : Nat)
    (word : ptr < 2 ^ 32) :
    ∃ copied, (copyUserStr memory pd ptr max).result = some copied := by
  rw [copyUserStr_result]
  split
  case isFalse => exact ⟨_, rfl⟩
  case isTrue valid =>
    apply copyUserLoop_returns
    rw [Nat.add_zero, show u32 ptr = ptr from Nat.mod_eq_of_lt word]
    exact .inr (validateByte_readable word valid)

theorem readUserWord_returns {addr : Nat}
    (readable : ∀ i < 4, UserReadable memory pd (u32 (addr + i))) :
    ∃ word, (readUserWord memory pd addr).result = some word := by
  obtain ⟨b0, is0⟩ := (readable 0 (by decide)).byte
  obtain ⟨b1, is1⟩ := (readable 1 (by decide)).byte
  obtain ⟨b2, is2⟩ := (readable 2 (by decide)).byte
  obtain ⟨b3, is3⟩ := (readable 3 (by decide)).byte
  rw [Nat.add_zero] at is0
  simp only [readUserWord, readUser, Logged.result_bind, is0, is1, is2, is3,
    Option.bind_some, Logged.result_pure]
  exact ⟨_, rfl⟩

/-! The copy does not call the file system. -/

theorem passedPaths_bind {α β : Type} {run : UserRun α} {next : α → UserRun β}
    (first : passedPaths run.events = [])
    (rest : ∀ value, passedPaths (next value).events = []) :
    passedPaths (run >>= next).events = [] := by
  cases returns : run.result with
  | none =>
      rw [Logged.bind_stops returns]
      exact first
  | some value =>
      rw [Logged.bind_returns returns, passedPaths, List.filterMap_append]
      exact List.append_eq_nil_iff.mpr ⟨first, rest value⟩

theorem passedPaths_checkUser {vaddr size : Nat} {needWrite : Bool} :
    passedPaths (checkUser memory pd vaddr size needWrite).events = [] := by
  rw [checkUser]
  split
  case isTrue => rfl
  case isFalse => rfl

theorem passedPaths_checkPageStart {addr : Nat} :
    passedPaths (checkPageStart memory pd addr).events = [] := by
  rw [checkPageStart]
  split
  case isTrue => exact passedPaths_checkUser
  case isFalse => rfl

theorem passedPaths_copyUserLoop {count i : Nat} :
    passedPaths (copyUserLoop memory pd ptr count i).events = [] := by
  induction count generalizing i with
  | zero => rfl
  | succ count inductionHypothesis =>
      refine passedPaths_bind passedPaths_checkPageStart fun ok => ?_
      split
      case isTrue => rfl
      case isFalse =>
        refine passedPaths_bind rfl fun c => ?_
        split
        case isTrue => rfl
        case isFalse => exact passedPaths_bind inductionHypothesis fun _ => rfl

theorem passedPaths_copyUserStr {max : Nat} :
    passedPaths (copyUserStr memory pd ptr max).events = [] := by
  refine passedPaths_bind passedPaths_checkUser fun ok => ?_
  split
  case isTrue => rfl
  case isFalse => exact passedPaths_copyUserLoop

theorem passedPaths_readUserWord {addr : Nat} :
    passedPaths (readUserWord memory pd addr).events = [] :=
  passedPaths_bind rfl fun _ => passedPaths_bind rfl fun _ =>
    passedPaths_bind rfl fun _ => passedPaths_bind rfl fun _ => rfl

end Copy

/-! ## The calls -/

/-- The calls that copy their path, with their other arguments. -/
inductive PathCall where
  | stat (out : Nat)
  | unlink
  | mkdir
  | rmdir
  | opendir
  | spawn (argc argv : UInt32)
  | chdir

/-- The longest path that fits in `kpath`. -/
def PathCall.capacity : PathCall → Nat
  | .chdir => maxBuf - 1
  | _ => kpathSize - 1

namespace UserSystem

def pathCall (s : UserSystem) (unset : Leftovers) (ptr : Nat) :
    PathCall → UserRun (Nat × UserSystem)
  | .stat out => s.sysStat unset ptr out
  | .unlink => s.sysUnlink ptr
  | .mkdir => s.sysMkdir ptr
  | .rmdir => s.sysRmdir ptr
  | .opendir => s.sysOpendir ptr
  | .spawn argc argv => s.sysSpawn unset ptr argc argv
  | .chdir => s.sysChdir unset ptr

/-- The rest of a call, on a path in `kpath`. -/
def callOn (s : UserSystem) (unset : Leftovers) :
    PathCall → CString → UserRun (Nat × UserSystem)
  | .stat out => s.statPath unset out
  | .unlink => s.changeTree fatDeleteFile
  | .mkdir => s.changeTree fatMkdir
  | .rmdir => s.changeTree fatRmdir
  | .opendir => s.opendirPath
  | .spawn argc argv => s.spawnPath unset argc argv
  | .chdir => s.chdirPath unset

/-- The call fails without an effect, or acts on this path and no other. -/
def Faithful (s : UserSystem) (path : CString)
    (run : UserRun (Nat × UserSystem)) : Prop :=
  run.result = some (refused, s) ∨ passedPaths run.events = [path]

/-- The driver fails for a path and leaves everything as it is. -/
def TreeRefuses (s : UserSystem)
    (driver : Volume → CString → Option (Nat × Volume)) (kpath : CString) :
    Prop :=
  ∃ code, driver s.volume kpath = some (code, s.volume) ∧ code ≠ 0

/-- When a call refuses a path without an effect. -/
def Refuses (s : UserSystem) (unset : Leftovers) (kpath : CString) :
    PathCall → Prop
  | .stat out =>
      pagingValidateUserRange s.memory s.pd out statSize true = false ∨
        ∃ code, fatStat s.volume kpath = some (.error code)
  | .unlink => s.TreeRefuses fatDeleteFile kpath
  | .mkdir => s.TreeRefuses fatMkdir kpath
  | .rmdir => s.TreeRefuses fatRmdir kpath
  | .opendir =>
      s.allocDirfd = none ∨
        ∃ code, fatOpendir s.volume kpath = some (.error code)
  | .spawn argc argv =>
      (s.spawnArgs unset kpath argc argv).result = some none ∨
        ∃ kargv code,
          (s.spawnArgs unset kpath argc argv).result = some (some kargv) ∧
            processCreate s.system unset.isrReturn kpath kargv =
              some (s.system, .error code)
  | .chdir =>
      (∃ code, fatStat s.volume kpath = some (.error code)) ∧
        unset.attr &&& attrDirectory = 0

section Calls

variable {s : UserSystem} {unset : Leftovers} {ptr : Nat}
variable {path kpath : CString} {call : PathCall}

theorem pathCall_eq :
    s.pathCall unset ptr call =
      s.withPath ptr (call.capacity + 1) (s.callOn unset call) := by
  cases call <;> rfl

/-! Where a call may stop before it calls the file system. -/

theorem checked_eq {α : Type} {memory : Memory} {pd vaddr size : Nat}
    {needWrite : Bool} {failed : α} {rest : UserRun α} :
    (checkUser memory pd vaddr size needWrite >>= fun ok =>
        if ¬ ok = true then pure failed else rest).result =
      (if pagingValidateUserRange memory pd vaddr size needWrite then
        rest.result else some failed) ∧
    passedPaths (checkUser memory pd vaddr size needWrite >>= fun ok =>
        if ¬ ok = true then pure failed else rest).events =
      if pagingValidateUserRange memory pd vaddr size needWrite then
        passedPaths rest.events else [] := by
  rw [checkUser]
  split
  case isTrue => exact ⟨rfl, rfl⟩
  case isFalse => exact ⟨rfl, rfl⟩

theorem passPath_eq {α β : Type} {driver : CString → Option α}
    {rest : α → UserRun β}
    (onward : ∀ value, passedPaths (rest value).events = []) :
    passedPaths (passPath kpath driver >>= rest).events = [kpath] := by
  cases returns : driver kpath with
  | none =>
      rw [Logged.bind_stops returns]
      rfl
  | some value =>
      rw [Logged.bind_returns returns, passedPaths, List.filterMap_append]
      exact congrArg (kpath :: ·) (onward value)

theorem copyArgs_returns {argv count i : Nat}
    (readable : ∀ k < 4 * count,
      UserReadable s.memory s.pd (u32 (argv + 4 * i + k))) :
    ∃ kargv, (s.copyArgs unset argv count i).result = some kargv := by
  induction count generalizing i with
  | zero => exact ⟨_, rfl⟩
  | succ count inductionHypothesis =>
      obtain ⟨userStr, isPointer⟩ := readUserWord_returns
        fun k below => readable k (show k < _ by omega)
      obtain ⟨copied, isCopied⟩ := copyUserStr_returns s.memory s.pd
        maxSpawnArglen (readUserWord_lt isPointer)
      rw [copyArgs, Logged.result_bind, isPointer, Option.bind_some,
        Logged.result_bind, isCopied, Option.bind_some]
      cases copied with
      | none => exact ⟨_, rfl⟩
      | some arg =>
          obtain ⟨rest, result⟩ := @inductionHypothesis (i + 1) fun k below =>
            by
              have here := readable (4 + k) (by omega)
              rwa [show argv + 4 * i + (4 + k) = argv + 4 * (i + 1) + k by
                omega] at here
          dsimp only
          rw [Logged.result_bind, result]
          exact ⟨_, rfl⟩

theorem passedPaths_copyArgs {argv count i : Nat} :
    passedPaths (s.copyArgs unset argv count i).events = [] := by
  induction count generalizing i with
  | zero => rfl
  | succ count inductionHypothesis =>
      refine passedPaths_bind passedPaths_readUserWord fun userStr => ?_
      refine passedPaths_bind passedPaths_copyUserStr fun copied => ?_
      cases copied with
      | none => rfl
      | some arg => exact passedPaths_bind inductionHypothesis fun _ => rfl

theorem spawnArgs_returns {argc argv : UInt32} :
    ∃ args, (s.spawnArgs unset kpath argc argv).result = some args := by
  rw [spawnArgs]
  split
  case isTrue => exact ⟨_, rfl⟩
  case isFalse count =>
    split
    case isTrue => exact ⟨_, rfl⟩
    case isFalse =>
      rw [not_or] at count
      have few := intOf_of_le count.1 count.2
      have limit : maxSpawnArgc = 16 := rfl
      rw [checked_eq.1]
      split
      case isFalse => exact ⟨_, rfl⟩
      case isTrue valid =>
        have readable (k : Nat) (below : k < 4 * argc.toNat) :
            UserReadable s.memory s.pd (u32 (argv.toNat + 4 * 0 + k)) := by
          have found := validateRange_finds argv.toNat_lt (by omega) valid
            (show k < argc.toNat * 4 by omega)
          refine found.2.same_page ?_
          rw [Nat.mul_zero, Nat.add_zero]
          omega
        obtain ⟨kargv, result⟩ := @copyArgs_returns s unset _ _ _ readable
        rw [Logged.result_bind, result]
        exact ⟨_, rfl⟩

theorem passedPaths_spawnArgs {argc argv : UInt32} :
    passedPaths (s.spawnArgs unset kpath argc argv).events = [] := by
  rw [spawnArgs]
  split
  case isTrue => rfl
  case isFalse =>
    split
    case isTrue => rfl
    case isFalse =>
      rw [checked_eq.2]
      split
      case isFalse => rfl
      case isTrue => exact passedPaths_bind passedPaths_copyArgs fun _ => rfl

/-- A call either stops early or calls the file system once. -/
theorem callOn_cases :
    ((s.callOn unset call kpath).result = some (refused, s) ∧
        passedPaths (s.callOn unset call kpath).events = []) ∨
      passedPaths (s.callOn unset call kpath).events = [kpath] := by
  cases call with
  | stat out =>
      rw [callOn, statPath, checked_eq.1, checked_eq.2]
      split
      case isFalse => exact .inl ⟨rfl, rfl⟩
      case isTrue =>
        refine .inr (passPath_eq fun stat => ?_)
        cases stat with
        | error _ => rfl
        | ok st => exact passedPaths_bind rfl fun _ => rfl
  | unlink => exact .inr (passPath_eq fun _ => rfl)
  | mkdir => exact .inr (passPath_eq fun _ => rfl)
  | rmdir => exact .inr (passPath_eq fun _ => rfl)
  | opendir =>
      rw [callOn, opendirPath]
      cases s.allocDirfd with
      | none => exact .inl ⟨rfl, rfl⟩
      | some slot =>
          refine .inr (passPath_eq fun opened => ?_)
          cases opened with
          | error _ => rfl
          | ok cluster => rfl
  | spawn argc argv =>
      obtain ⟨args, result⟩ := @spawnArgs_returns s unset kpath argc argv
      rw [callOn, spawnPath, Logged.bind_returns result, passedPaths,
        List.filterMap_append, ← passedPaths, passedPaths_spawnArgs]
      cases args with
      | none => exact .inl ⟨rfl, rfl⟩
      | some kargv =>
          refine .inr (passPath_eq fun created => ?_)
          obtain ⟨system, created⟩ := created
          cases created with
          | error _ => rfl
          | ok child => rfl
  | chdir =>
      refine .inr (passPath_eq fun stat => ?_)
      cases stat with
      | error _ =>
          dsimp only
          split
          case isTrue => rfl
          case isFalse => rfl
      | ok st =>
          dsimp only
          split
          case isTrue => rfl
          case isFalse => rfl

theorem setVolume_eq_self {volume : Volume} :
    s.setVolume volume = s ↔ volume = s.volume := by
  constructor
  · intro same
    exact congrArg UserSystem.volume same
  · rintro rfl
    rfl

theorem changeTree_refuses
    {driver : Volume → CString → Option (Nat × Volume)} :
    (s.changeTree driver kpath).result = some (refused, s) ↔
      s.TreeRefuses driver kpath := by
  rw [changeTree, Logged.result_bind, passPath, TreeRefuses]
  cases driver s.volume kpath with
  | none => simp
  | some result =>
      obtain ⟨code, volume⟩ := result
      simp only [Option.bind_some, Logged.result_pure, Option.some.injEq,
        Prod.mk.injEq, setVolume_eq_self]
      by_cases zero : code = 0
      · simp [zero, refused]
      · simp [zero]

/-- `process_create` does not change the process list. -/
theorem processCreate_procList {system system' : System} {isrReturn : Nat}
    {argv : List CString} {created : Except Int Process}
    (runs : processCreate system isrReturn kpath argv =
      some (system', created)) : system'.procList = system.procList := by
  rw [processCreate] at runs
  obtain ⟨⟨kernel, proc⟩, _, runs⟩ := Option.bind_eq_some_iff.mp runs
  dsimp only at runs
  split at runs
  case isTrue =>
    cases runs
    rfl
  case isFalse =>
    obtain ⟨⟨loaded, image⟩, _, runs⟩ := Option.bind_eq_some_iff.mp runs
    cases image with
    | error code =>
        cases runs
        rfl
    | ok image =>
        obtain ⟨⟨withStack, kstack⟩, _, runs⟩ :=
          Option.bind_eq_some_iff.mp runs
        dsimp only at runs
        split at runs
        case isTrue =>
          cases runs
          rfl
        case isFalse =>
          obtain ⟨⟨withArgs, stackTop⟩, _, runs⟩ :=
            Option.bind_eq_some_iff.mp runs
          cases runs
          rfl

theorem spawnPath_refuses {argc argv : UInt32} :
    (s.spawnPath unset argc argv kpath).result = some (refused, s) ↔
      s.Refuses unset kpath (.spawn argc argv) := by
  obtain ⟨args, isArgs⟩ := @spawnArgs_returns s unset kpath argc argv
  rw [spawnPath, Logged.result_bind, isArgs, Option.bind_some, Refuses,
    isArgs]
  cases args with
  | none => simp
  | some kargv =>
      dsimp only
      rw [Logged.result_bind, passPath]
      cases runs : processCreate s.system unset.isrReturn kpath kargv with
      | none => simp [runs]
      | some result =>
          obtain ⟨system, created⟩ := result
          have procList := processCreate_procList runs
          cases created with
          | error code =>
              have same : ({ s with system } : UserSystem) = s ↔
                  system = s.system := by
                constructor
                · exact congrArg UserSystem.system
                · rintro rfl
                  rfl
              simp [runs, same]
          | ok child =>
              simp only [Option.bind_some, Logged.result_pure]
              refine iff_of_false (fun same => ?_) ?_
              · have list := congrArg (fun result : Option (Nat × UserSystem) =>
                  result.map fun pair => pair.2.system.procList.length) same
                simp [procList] at list
              · simp [runs]

/-- When the rest of a call fails without an effect. -/
theorem callOn_refuses :
    (s.callOn unset call kpath).result = some (refused, s) ↔
      s.Refuses unset kpath call := by
  cases call with
  | stat out =>
      rw [callOn, statPath, checked_eq.1, Refuses]
      split
      case isFalse invalid =>
        exact iff_of_true rfl (.inl (eq_false_of_ne_true invalid))
      case isTrue valid =>
        rw [valid, Logged.result_bind, passPath]
        cases fatStat s.volume kpath with
        | none => simp
        | some stat =>
            cases stat with
            | error code => simp
            | ok st =>
                simp only [Option.bind_some, Logged.result_bind,
                  Logged.ofOption]
                cases copyToUser s.memory s.pd out (statBytes unset.stat st)
                  statSize with
                | none => simp
                | some memory => simp [refused]
  | unlink => exact changeTree_refuses
  | mkdir => exact changeTree_refuses
  | rmdir => exact changeTree_refuses
  | opendir =>
      rw [callOn, opendirPath, Refuses]
      cases free : s.allocDirfd with
      | none => simp
      | some slot =>
          have small : slot < maxDirsPerProc :=
            List.mem_range.mp (List.mem_of_find?_eq_some free)
          have other : slot ≠ refused := by
            have limit : maxDirsPerProc = 8 := rfl
            rw [refused]
            omega
          dsimp only
          rw [Logged.result_bind, passPath]
          cases fatOpendir s.volume kpath with
          | none => simp
          | some opened =>
              cases opened with
              | error code => simp
              | ok cluster => simp [other]
  | spawn argc argv => exact spawnPath_refuses
  | chdir =>
      rw [callOn, chdirPath, Logged.result_bind, passPath, Refuses]
      cases fatStat s.volume kpath with
      | none => simp
      | some stat =>
          cases stat with
          | error code =>
              by_cases stale : unset.attr &&& attrDirectory = 0
              · simp [stale, Except.isOk, Except.toBool]
              · simp [stale, Except.isOk, Except.toBool, refused]
          | ok st => simp [Except.isOk, Except.toBool, refused]

theorem withPath_none {max : Nat}
    {rest : CString → UserRun (Nat × UserSystem)}
    (result : (copyUserStr s.memory s.pd ptr max).result = some none) :
    (s.withPath ptr max rest).result = some (refused, s) := by
  rw [withPath, Logged.bind_returns result]
  rfl

theorem withPath_some {max : Nat}
    {rest : CString → UserRun (Nat × UserSystem)}
    (result : (copyUserStr s.memory s.pd ptr max).result =
      some (some kpath)) :
    (s.withPath ptr max rest).result = (rest kpath).result ∧
      passedPaths (s.withPath ptr max rest).events =
        passedPaths (rest kpath).events := by
  rw [withPath, Logged.bind_returns result]
  refine ⟨rfl, ?_⟩
  rw [passedPaths, List.filterMap_append, ← passedPaths,
    passedPaths_copyUserStr]
  rfl

/-- A path that fits reaches the file system as it is. -/
theorem pathCall_short (string : UserString s.memory s.pd ptr path)
    (fits : path.length ≤ call.capacity) :
    s.Faithful path (s.pathCall unset ptr call) := by
  rw [pathCall_eq]
  rcases copyUserStr_short string fits with result | result
  · exact .inl (withPath_none result)
  · rw [Faithful, (withPath_some result).1, (withPath_some result).2]
    exact callOn_cases.imp_left And.left

/-- A longer one does not, unless the cut path is refused. -/
theorem pathCall_long (string : UserString s.memory s.pd ptr path)
    (long : call.capacity < path.length) :
    s.Faithful path (s.pathCall unset ptr call) ↔
      ¬ PagesReadable s.memory s.pd ptr call.capacity ∨
        s.Refuses unset (path.take call.capacity) call := by
  rw [pathCall_eq]
  rcases copyUserStr_long string long with
    ⟨readable, result⟩ | ⟨unreadable, result⟩
  · rw [Faithful, (withPath_some result).1, (withPath_some result).2,
      ← callOn_refuses, or_iff_right (not_not.mpr readable)]
    refine or_iff_left_of_imp fun passes => ?_
    rcases @callOn_cases s unset (path.take call.capacity) call with
      ⟨refuses, _⟩ | once
    · exact refuses
    · rw [once] at passes
      have same := congrArg List.length (List.cons.inj passes).1
      rw [List.length_take] at same
      omega
  · exact iff_of_true (.inl (withPath_none result)) (.inl unreadable)

/-! ## The stored paths -/

/-- The path in the entry of `open_files` behind a descriptor. -/
def handlePath (s : UserSystem) (fd : Nat) : CString :=
  (s.openFiles (s.proc.fds.getD fd (-1)).toNat).path

theorem fileOpen_path {fs fs' : FileSystem} {stack : DirSlot}
    {writable : Bool} {idx : Int}
    (opened : fileOpen fs stack path writable = some (idx, fs'))
    (nonneg : ¬ idx < 0) :
    (fs'.openFiles idx.toNat).path = path.take pathCapacity := by
  rw [fileOpen] at opened
  obtain ⟨stat, _, opened⟩ := Option.bind_eq_some_iff.mp opened
  split at opened
  case isTrue =>
    cases opened
    exact absurd (by decide) nonneg
  case isFalse =>
    split at opened
    case h_1 =>
      cases opened
      exact absurd (by decide) nonneg
    case h_2 slot _ =>
      obtain ⟨⟨code, volume⟩, _, opened⟩ :=
        Option.bind_eq_some_iff.mp opened
      dsimp only at opened
      split at opened
      case isTrue =>
        cases opened
        exact absurd (by decide) nonneg
      case isFalse =>
        cases opened
        simp only [Int.toNat_natCast, FileSystem.setFile,
          Function.update_self]

theorem sysOpen_path (string : UserString s.memory s.pd ptr path)
    {writable : Bool} {fd : Nat} {s' : UserSystem}
    (returned : (s.sysOpen unset ptr writable).result = some (fd, s'))
    (success : fd ≠ refused) :
    s'.handlePath fd = path.take pathCapacity := by
  have isRefused {s'' : UserSystem}
      (same : (some (refused, s'') : Option (Nat × UserSystem)) =
        some (fd, s')) : s'.handlePath fd = path.take pathCapacity := by
    cases same
    exact absurd rfl success
  rw [sysOpen, Logged.result_bind, checkUser_result, Option.bind_some]
    at returned
  split at returned
  case isTrue => exact isRefused returned
  case isFalse =>
    cases free : Machine.allocFd s.proc.fds with
    | none =>
        rw [free] at returned
        exact isRefused returned
    | some slot =>
        rw [free, userText_string string] at returned
        dsimp only at returned
        rw [Logged.result_bind] at returned
        obtain ⟨_, _, returned⟩ := Option.bind_eq_some_iff.mp returned
        rw [Logged.result_bind] at returned
        obtain ⟨⟨idx, files⟩, opened, returned⟩ :=
          Option.bind_eq_some_iff.mp returned
        dsimp only at returned
        split at returned
        case isTrue => exact isRefused returned
        case isFalse nonneg =>
          cases returned
          have inside : fd < s.proc.fds.length :=
            (List.findIdx?_eq_some_iff_getElem.mp free).1
          have here : (s.proc.fds.set fd idx).getD fd (-1) = idx := by
            rw [List.getD_eq_getElem?_getD, List.getElem?_set_self inside,
              Option.getD_some]
          change (files.openFiles
            ((s.proc.fds.set fd idx).getD fd (-1)).toNat).path = _
          rw [here]
          exact fileOpen_path opened nonneg

theorem sysChdir_cwd (string : UserString s.memory s.pd ptr path)
    {s' : UserSystem}
    (returned : (s.sysChdir unset ptr).result = some (0, s'))
    (nonempty : path ≠ []) :
    s'.proc.cwd = path.take (maxBuf - 1) := by
  have copied (kpath : CString)
      (result : (copyUserStr s.memory s.pd ptr maxBuf).result =
        some (some kpath)) : s'.proc.cwd = procCwd kpath := by
    rw [sysChdir, (withPath_some result).1, chdirPath, Logged.result_bind]
      at returned
    obtain ⟨stat, _, returned⟩ := Option.bind_eq_some_iff.mp returned
    cases stat with
    | error _ =>
        dsimp only at returned
        split at returned
        case isTrue => cases returned
        case isFalse =>
          cases returned
          rfl
    | ok st =>
        dsimp only at returned
        split at returned
        case isTrue => cases returned
        case isFalse =>
          cases returned
          rfl
  have stopped (result : (copyUserStr s.memory s.pd ptr maxBuf).result =
      some none) : False := by
    rw [sysChdir, withPath_none result] at returned
    cases returned
  have whole : s'.proc.cwd = procCwd (path.take (maxBuf - 1)) := by
    by_cases fits : path.length ≤ maxBuf - 1
    · rcases copyUserStr_short string fits with result | result
      · exact (stopped result).elim
      · rw [List.take_of_length_le fits]
        exact copied path result
    · rcases copyUserStr_long string (Nat.lt_of_not_le fits) with
        ⟨_, result⟩ | ⟨_, result⟩
      · exact copied _ result
      · exact (stopped result).elim
  have some : path.take (maxBuf - 1) ≠ [] := by
    rw [Ne, List.take_eq_nil_iff]
    exact not_or.mpr ⟨by decide, nonempty⟩
  rw [whole, procCwd, if_neg some, List.take_take, Nat.min_self]

end Calls

end UserSystem

/-- A call passes the caller's path on exactly if it fits in `kpath`, or is
refused without an effect; a handle and the working directory keep it
exactly if it fits there. -/
theorem paths_whole_iff {s : UserSystem} {ptr : Nat} {path : CString}
    (string : UserString s.memory s.pd ptr path) (unset : Leftovers) :
    (∀ call, s.Faithful path (s.pathCall unset ptr call) ↔
      path.length ≤ call.capacity ∨
        ¬ PagesReadable s.memory s.pd ptr call.capacity ∨
        s.Refuses unset (path.take call.capacity) call) ∧
    (∀ s', (s.sysChdir unset ptr).result = some (0, s') → path ≠ [] →
      (s'.proc.cwd = path ↔ path.length ≤ maxBuf - 1)) ∧
    ∀ writable fd s',
      (s.sysOpen unset ptr writable).result = some (fd, s') →
        fd ≠ refused →
          (s'.handlePath fd = path ↔ path.length ≤ pathCapacity) := by
  refine ⟨fun call => ?_, fun s' returned nonempty => ?_,
    fun writable fd s' returned success => ?_⟩
  · by_cases fits : path.length ≤ call.capacity
    · exact iff_of_true (UserSystem.pathCall_short string fits) (.inl fits)
    · rw [UserSystem.pathCall_long string (Nat.lt_of_not_le fits),
        or_iff_right fits]
  · rw [UserSystem.sysChdir_cwd string returned nonempty,
      List.take_eq_self_iff]
  · rw [UserSystem.sysOpen_path string returned success,
      List.take_eq_self_iff]

/-- A path at the beginning of the only page. -/
def pageText (path : CString) : Bytes := fun i => path.getD i 0

theorem onePage_string {path : CString} (short : path.length < 4096)
    (noNul : 0 ∉ path) :
    UserString (onePage (pageText path)) 0x1000 0 path where
  bytes i inside := by
    have small : i < 4096 := by omega
    rw [Nat.zero_add, show u32 i = i from Nat.mod_eq_of_lt (by omega),
      userByte, onePage_byte small, Option.map_some]
    simp [pageText, inside]
  nul := by
    rw [Nat.zero_add, show u32 path.length = path.length from
      Nat.mod_eq_of_lt (by omega), userByte, onePage_byte short,
      Option.map_some]
    simp [pageText]
  noNul := noNul

theorem onePage_readable (bytes : Bytes) :
    PagesReadable (onePage bytes) 0x1000 0 (kpathSize - 1) where
  first := (validateByte_iff (by decide)).mpr
    ⟨_, onePage_byte (by decide), rfl⟩
  next i less start := by
    have limit : kpathSize - 1 = 63 := rfl
    rw [Nat.zero_add, u32] at start ⊢
    have zero : i % 2 ^ 32 = 0 := by omega
    rw [zero]
    exact (validateByte_iff (by decide)).mpr
      ⟨_, onePage_byte (by decide), rfl⟩

theorem paths_whole_sample :
    let s := UserSystem.onPage sampleStored (pageText sampleFile)
    (∀ call, s.Faithful sampleFile (s.pathCall noLeftovers 0 call) ↔
      sampleFile.length ≤ call.capacity ∨
        ¬ PagesReadable s.memory s.pd 0 call.capacity ∨
        s.Refuses noLeftovers (sampleFile.take call.capacity) call) ∧
    (∀ s', (s.sysChdir noLeftovers 0).result = some (0, s') →
      sampleFile ≠ [] →
        (s'.proc.cwd = sampleFile ↔ sampleFile.length ≤ maxBuf - 1)) ∧
    ∀ writable fd s',
      (s.sysOpen noLeftovers 0 writable).result = some (fd, s') →
        fd ≠ refused →
          (s'.handlePath fd = sampleFile ↔
            sampleFile.length ≤ pathCapacity) := by
  intro s
  have string : UserString s.memory s.pd 0 sampleFile :=
    onePage_string (by decide) (by decide)
  exact paths_whole_iff string noLeftovers

/-- The sample file behind 60 slashes, and a longer name. -/
def slashedFile : CString := List.replicate 60 0x2f ++ [0x44, 0x2f, 0x41]

def slashedLonger : CString := slashedFile ++ [0x42]

/-- `SYS_UNLINK` of a path that ends in `/D/AB` deletes `/D/A`. -/
theorem slashedLonger_deletes :
    let s := UserSystem.onPage sampleStored (pageText slashedLonger)
    UserString s.memory s.pd 0 slashedLonger ∧
      ¬ s.Faithful slashedLonger (s.pathCall noLeftovers 0 .unlink) ∧
      passedPaths (s.pathCall noLeftovers 0 .unlink).events =
        [slashedFile] ∧
      (fatDeleteFile s.volume slashedFile).map Prod.fst = some 0 := by
  intro s
  have string : UserString s.memory s.pd 0 slashedLonger :=
    onePage_string (by decide) (by decide)
  have deleted : (fatDeleteFile s.volume slashedFile).map Prod.fst =
      some 0 := by
    decide +kernel
  have cut : slashedLonger.take 63 = slashedFile := rfl
  have copied : (copyUserStr s.memory s.pd 0 kpathSize).result =
      some (some slashedFile) := by
    rcases copyUserStr_long string (show kpathSize - 1 < _ by decide) with
      ⟨_, result⟩ | ⟨unreadable, _⟩
    · exact result.trans (congrArg (fun path => some (some path)) cut)
    · exact absurd (onePage_readable _) unreadable
  have passed : passedPaths (s.pathCall noLeftovers 0 .unlink).events =
      [slashedFile] :=
    (UserSystem.withPath_some copied).2.trans
      (UserSystem.passPath_eq fun _ => rfl)
  refine ⟨string, ?_, passed, deleted⟩
  rintro (refuses | passes)
  · have result := (UserSystem.withPath_some copied).1.symm.trans refuses
    obtain ⟨code, failed, nonzero⟩ :=
      UserSystem.changeTree_refuses.mp result
    rw [failed] at deleted
    exact nonzero (Option.some.inj deleted)
  · rw [passed] at passes
    cases passes

end LoafOs
