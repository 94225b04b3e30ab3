import LoafOs.Userspace.UserCalls

/-!
# Reads through user pointers

Every byte that a call reads through a pointer of its caller should lie in a
page that the call has found present and accessible before.
-/

namespace LoafOs

/-- The page was found present and accessible from user mode. -/
def UserEvent.Finds (memory : Memory) (pd : Nat) :
    UserEvent → Nat → Prop
  | .validated vaddr size, page =>
      page ∈ pagesOf vaddr size ∧ UserReadable memory pd (page * 4096)
  | _, _ => False

/-- A byte of the page is read. -/
def UserEvent.Reads : UserEvent → Nat → Prop
  | .read addr, page => page = addr / 4096
  | _, _ => False

/-- No byte is read before its page was found accessible; `known` has the
pages that were found before. -/
def ReadsValidated (memory : Memory) (pd : Nat) (known : Nat → Prop)
    (events : List UserEvent) : Prop :=
  GuardedLog (UserEvent.Finds memory pd) UserEvent.Reads known events

section Ranges

variable {memory : Memory} {pd : Nat} {needWrite : Bool}

theorem validateUserPages_page {stop page fuel : Nat} (index : Nat)
    (valid : validateUserPages memory pd stop needWrite fuel page = true)
    (inFuel : index < fuel) (below : page + 4096 * index ≤ stop)
    (last : page + 4096 * index ≤ 0xfffff000) :
    validateUserPage memory pd (page + 4096 * index) needWrite = true := by
  have size : pageSize = 4096 := rfl
  induction fuel generalizing page index with
  | zero => exact absurd inFuel (Nat.not_lt_zero _)
  | succ fuel inductionHypothesis =>
      rw [validateUserPages, if_pos (by omega)] at valid
      split at valid
      case isTrue => cases valid
      case isFalse here =>
        cases index with
        | zero => simpa using here
        | succ index =>
            rw [if_neg (by omega)] at valid
            have onward := inductionHypothesis index valid (by omega)
              (by omega) (by omega)
            rwa [size, show page + 4096 + 4096 * index =
              page + 4096 * (index + 1) by omega] at onward

theorem validateRange_inside {vaddr size : Nat}
    (word : vaddr < 2 ^ 32) (small : size < 2 ^ 32) (some : 0 < size)
    (valid : pagingValidateUserRange memory pd vaddr size needWrite = true) :
    vaddr + size < 2 ^ 32 := by
  rw [pagingValidateUserRange, if_neg (by omega), u32] at valid
  split at valid
  case isTrue => cases valid
  case isFalse => omega

/-- In a range that is validated, each page passes the tests. -/
theorem validateRange_page {vaddr size page : Nat}
    (word : vaddr < 2 ^ 32) (small : size < 2 ^ 32)
    (valid : pagingValidateUserRange memory pd vaddr size needWrite = true)
    (member : page ∈ pagesOf vaddr size) :
    validateUserPage memory pd (page * 4096) needWrite = true := by
  obtain ⟨addr, lower, upper, rfl⟩ := mem_pagesOf.mp member
  have inside := validateRange_inside word small (by omega) valid
  have last : u32 (vaddr + size + 2 ^ 32 - 1) = vaddr + size - 1 := by
    rw [u32]
    omega
  rw [pagingValidateUserRange, if_neg (by omega), last] at valid
  split at valid
  case isTrue => cases valid
  case isFalse noWrap =>
    have found := validateUserPages_page (addr / 4096 - vaddr / 4096) valid
      (by omega) (by omega) (by omega)
    rwa [show vaddr / 4096 * 4096 + 4096 * (addr / 4096 - vaddr / 4096) =
      addr / 4096 * 4096 by omega] at found

/-- A range that is validated has only pages that user mode may read. -/
theorem validateRange_readable {vaddr size page : Nat}
    (word : vaddr < 2 ^ 32) (small : size < 2 ^ 32)
    (valid : pagingValidateUserRange memory pd vaddr size false = true)
    (member : page ∈ pagesOf vaddr size) :
    UserReadable memory pd (page * 4096) :=
  validateUserPage_iff.mp (validateRange_page word small valid member)

/-- Each byte of a range that is validated passes the tests. -/
theorem validateRange_byte {vaddr size i : Nat}
    (word : vaddr < 2 ^ 32) (small : size < 2 ^ 32)
    (valid : pagingValidateUserRange memory pd vaddr size needWrite = true)
    (below : i < size) :
    validateUserPage memory pd (u32 (vaddr + i)) needWrite = true := by
  have inside := validateRange_inside word small (by omega) valid
  have member : (vaddr + i) / 4096 ∈ pagesOf vaddr size :=
    mem_pagesOf.mpr ⟨vaddr + i, Nat.le_add_right _ _, by omega, rfl⟩
  rw [show u32 (vaddr + i) = vaddr + i from Nat.mod_eq_of_lt (by omega),
    ← validateUserPage_page]
  exact validateRange_page word small valid member

end Ranges

/-! ## Runs -/

section Runs

variable {memory : Memory} {pd ptr : Nat} {known known' : Nat → Prop}
variable {α : Type}

theorem ReadsValidated.mono {events : List UserEvent}
    (validated : ReadsValidated memory pd known events)
    (more : ∀ page, known page → known' page) :
    ReadsValidated memory pd known' events :=
  GuardedLog.mono validated more

/-- A run that is given up after a check. -/
theorem readsValidated_check {vaddr size : Nat} {needWrite : Bool}
    {failed : α} {rest : UserRun α}
    (onward : pagingValidateUserRange memory pd vaddr size needWrite =
        true →
      ReadsValidated memory pd
        (fun page => known page ∨
          UserEvent.Finds memory pd (.validated vaddr size) page)
        rest.events) :
    ReadsValidated memory pd known
      (checkUser memory pd vaddr size needWrite >>= fun ok =>
        if ¬ ok = true then pure failed else rest).events := by
  rw [checkUser]
  split
  case isTrue valid =>
    rw [Logged.bind_returns rfl]
    refine guarded_append.mpr ⟨⟨fun _ need => need.elim, trivial⟩, ?_⟩
    exact (onward valid).mono fun page isKnown =>
      isKnown.imp_right fun finds => ⟨_, List.mem_singleton_self _, finds⟩
  case isFalse =>
    rw [Logged.bind_returns rfl]
    trivial

/-- One byte of a page that is known. -/
theorem readsValidated_read {addr : Nat} {rest : UInt8 → UserRun α}
    (isKnown : known (addr / 4096))
    (onward : ∀ c, ReadsValidated memory pd known (rest c).events) :
    ReadsValidated memory pd known
      (readUser memory pd addr >>= rest).events := by
  refine Logged.guarded_bind ⟨fun _ need => need ▸ isKnown, trivial⟩ ?_
  intro c _
  exact (onward c).mono fun page => Or.inl

/-- The check of one byte finds its page. -/
theorem validateByte_finds {addr : Nat} (word : addr < 2 ^ 32)
    (valid : pagingValidateUserRange memory pd addr 1 false = true) :
    UserEvent.Finds memory pd (.validated addr 1) (addr / 4096) := by
  have member : addr / 4096 ∈ pagesOf addr 1 :=
    mem_pagesOf.mpr ⟨addr, Nat.le_refl _, Nat.lt_succ_self _, rfl⟩
  exact ⟨member, validateRange_readable word (by decide) valid member⟩

/-- A pass of the loops over a string. -/
theorem readsValidated_pass {addr : Nat} {failed : α}
    {rest : UInt8 → UserRun α} (word : addr < 2 ^ 32)
    (inPage : addr % 4096 = 0 ∨ known (addr / 4096))
    (onward : ∀ c, ReadsValidated memory pd
      (fun page => known page ∨ page = addr / 4096) (rest c).events) :
    ReadsValidated memory pd known
      (checkPageStart memory pd addr >>= fun ok =>
        if ¬ ok = true then pure failed
        else readUser memory pd addr >>= rest).events := by
  rw [checkPageStart]
  split
  case isTrue start =>
    refine readsValidated_check fun valid => ?_
    have found := validateByte_finds word valid
    refine readsValidated_read (Or.inr found) fun c => ?_
    refine (onward c).mono fun page isKnown => ?_
    rcases isKnown with isKnown | rfl
    · exact Or.inl isKnown
    · exact Or.inr found
  case isFalse inside =>
    have isKnown := inPage.resolve_left inside
    rw [Logged.bind_returns rfl]
    refine readsValidated_read isKnown fun c => ?_
    refine (onward c).mono fun page => ?_
    rintro (isKnown' | rfl)
    · exact isKnown'
    · exact isKnown

/-- The next byte of a string starts a page or is in the page before. -/
theorem nextByte_page (ptr i : Nat) :
    u32 (ptr + (i + 1)) % 4096 = 0 ∨
      u32 (ptr + (i + 1)) / 4096 = u32 (ptr + i) / 4096 := by
  rw [u32, u32]
  omega

theorem u32_lt (value : Nat) : u32 value < 2 ^ 32 :=
  Nat.mod_lt _ (by decide)

/-- The end of a pass: the string stops or the loop goes on. -/
theorem readsValidated_onward {β : Type} {c : UInt8} {stopped : β}
    {loop : UserRun α} {finish : α → β}
    (validated : ReadsValidated memory pd known loop.events) :
    ReadsValidated memory pd known
      (if c = 0 then pure stopped
      else loop >>= fun rest => pure (finish rest)).events := by
  split
  case isTrue => trivial
  case isFalse => exact Logged.guarded_bind validated fun _ _ => trivial

theorem readsValidated_copyUserLoop {count i : Nat}
    (inPage : u32 (ptr + i) % 4096 = 0 ∨ known (u32 (ptr + i) / 4096)) :
    ReadsValidated memory pd known
      (copyUserLoop memory pd ptr count i).events := by
  induction count generalizing known i with
  | zero => trivial
  | succ count inductionHypothesis =>
      refine readsValidated_pass (u32_lt _) inPage fun c => ?_
      apply readsValidated_onward
      apply inductionHypothesis
      exact (nextByte_page ptr i).imp_right Or.inr

theorem readsValidated_printLoop {count i : Nat}
    (inPage : u32 (ptr + i) % 4096 = 0 ∨ known (u32 (ptr + i) / 4096)) :
    ReadsValidated memory pd known
      (printLoop memory pd ptr count i).events := by
  induction count generalizing known i with
  | zero => trivial
  | succ count inductionHypothesis =>
      refine readsValidated_pass (u32_lt _) inPage fun c => ?_
      apply readsValidated_onward
      apply inductionHypothesis
      exact (nextByte_page ptr i).imp_right Or.inr

theorem readsValidated_copyUserStr (max : Nat) (word : ptr < 2 ^ 32) :
    ReadsValidated memory pd known
      (copyUserStr memory pd ptr max).events := by
  refine readsValidated_check fun valid => ?_
  apply readsValidated_copyUserLoop
  rw [Nat.add_zero, show u32 ptr = ptr from Nat.mod_eq_of_lt word]
  exact .inr (.inr (validateByte_finds word valid))

theorem readsValidated_printUser (word : ptr < 2 ^ 32) :
    ReadsValidated memory pd known (printUser memory pd ptr).events := by
  refine readsValidated_check fun valid => ?_
  refine Logged.guarded_bind (readsValidated_printLoop ?_) fun _ _ => trivial
  rw [Nat.add_zero, show u32 ptr = ptr from Nat.mod_eq_of_lt word]
  exact .inr (.inr (validateByte_finds word valid))

theorem readsValidated_readUserBytes {addr count : Nat}
    (inside : ∀ i < count, known (u32 (addr + i) / 4096)) :
    ReadsValidated memory pd known
      (readUserBytes memory pd addr count).events := by
  induction count generalizing addr with
  | zero => trivial
  | succ count inductionHypothesis =>
      refine readsValidated_read (inside 0 (Nat.succ_pos _)) fun _ => ?_
      apply inductionHypothesis
      intro i below
      rw [Nat.add_right_comm]
      exact inside (i + 1) (Nat.succ_lt_succ below)

theorem readsValidated_readUserWord {addr : Nat}
    (inside : ∀ i < 4, known (u32 (addr + i) / 4096)) :
    ReadsValidated memory pd known
      (readUserWord memory pd addr).events := by
  refine readsValidated_read (inside 0 (by decide)) fun _ => ?_
  refine readsValidated_read (inside 1 (by decide)) fun _ => ?_
  refine readsValidated_read (inside 2 (by decide)) fun _ => ?_
  exact readsValidated_read (inside 3 (by decide)) fun _ => trivial

end Runs

/-! ## The calls -/

namespace UserSystem

section Calls

variable {s : UserSystem} {ptr : Nat} {known : Nat → Prop}

theorem readsValidated_pure {α : Type} {memory : Memory} {pd : Nat}
    (value : α) :
    ReadsValidated memory pd known (pure value : UserRun α).events :=
  trivial

theorem readsValidated_passPath {α β : Type} {memory : Memory} {pd : Nat}
    {path : CString} {driver : CString → Option α} {rest : α → UserRun β}
    (onward : ∀ value, ReadsValidated memory pd known (rest value).events) :
    ReadsValidated memory pd known
      (passPath path driver >>= rest).events := by
  refine Logged.guarded_bind ⟨fun _ need => need.elim, trivial⟩ ?_
  intro value _
  exact (onward value).mono fun page => Or.inl

theorem readsValidated_ofOption {α β : Type} {memory : Memory} {pd : Nat}
    {result : Option α} {rest : α → UserRun β}
    (onward : ∀ value, ReadsValidated memory pd known (rest value).events) :
    ReadsValidated memory pd known
      ((Logged.ofOption result : UserRun α) >>= rest).events := by
  refine Logged.guarded_bind trivial fun value _ => ?_
  exact (onward value).mono fun page => Or.inl

theorem readsValidated_withPath {max : Nat}
    {call : CString → UserRun (Nat × UserSystem)} (word : ptr < 2 ^ 32)
    (onward : ∀ known kpath,
      ReadsValidated s.memory s.pd known (call kpath).events) :
    ReadsValidated s.memory s.pd known (s.withPath ptr max call).events := by
  refine Logged.guarded_bind (readsValidated_copyUserStr max word) ?_
  intro copied _
  cases copied with
  | none => trivial
  | some kpath => exact onward _ kpath

theorem readsValidated_changeTree
    {driver : Volume → CString → Option (Nat × Volume)} (kpath : CString) :
    ReadsValidated s.memory s.pd known (s.changeTree driver kpath).events :=
  readsValidated_passPath fun _ => trivial

theorem readsValidated_statPath {unset : Leftovers} {out : Nat}
    (kpath : CString) :
    ReadsValidated s.memory s.pd known (s.statPath unset out kpath).events := by
  refine readsValidated_check fun _ => readsValidated_passPath fun stat => ?_
  cases stat with
  | error _ => trivial
  | ok st => exact readsValidated_ofOption fun _ => trivial

theorem readsValidated_opendirPath (kpath : CString) :
    ReadsValidated s.memory s.pd known (s.opendirPath kpath).events := by
  rw [opendirPath]
  cases s.allocDirfd with
  | none => trivial
  | some slot =>
      refine readsValidated_passPath fun opened => ?_
      cases opened with
      | error _ => trivial
      | ok cluster => trivial

theorem readsValidated_chdirPath {unset : Leftovers} (kpath : CString) :
    ReadsValidated s.memory s.pd known
      (s.chdirPath unset kpath).events := by
  refine readsValidated_passPath fun stat => ?_
  cases stat with
  | error _ =>
      dsimp only
      split
      case isTrue => trivial
      case isFalse => trivial
  | ok st =>
      dsimp only
      split
      case isTrue => trivial
      case isFalse => trivial

theorem readUserWord_lt {memory : Memory} {pd addr word : Nat}
    (result : (readUserWord memory pd addr).result = some word) :
    word < 2 ^ 32 := by
  simp only [readUserWord, Logged.result_bind, Logged.result_pure,
    Option.bind_eq_some_iff, Option.some.injEq] at result
  obtain ⟨b0, _, b1, _, b2, _, b3, _, rfl⟩ := result
  have := b0.toNat_lt
  have := b1.toNat_lt
  have := b2.toNat_lt
  have := b3.toNat_lt
  omega

theorem readsValidated_copyArgs {unset : Leftovers} {argv count i : Nat}
    (inside : ∀ k < 4 * count, known (u32 (argv + 4 * i + k) / 4096)) :
    ReadsValidated s.memory s.pd known
      (s.copyArgs unset argv count i).events := by
  induction count generalizing known i with
  | zero => trivial
  | succ count inductionHypothesis =>
      have pointer : ReadsValidated s.memory s.pd known
          (readUserWord s.memory s.pd (argv + 4 * i)).events :=
        readsValidated_readUserWord fun k below => inside k (by omega)
      refine Logged.guarded_bind pointer fun userStr result => ?_
      refine Logged.guarded_bind
        (readsValidated_copyUserStr _ (readUserWord_lt result)) ?_
      intro copied _
      cases copied with
      | none => trivial
      | some arg =>
          refine Logged.guarded_bind (inductionHypothesis ?_) fun _ _ => trivial
          intro k below
          have here := inside (4 + k) (by omega)
          rw [show argv + 4 * i + (4 + k) = argv + 4 * (i + 1) + k by
            omega] at here
          exact .inl (.inl here)

/-- The bytes of a validated range are in pages that were found. -/
theorem validateRange_finds {memory : Memory} {pd vaddr size i : Nat}
    (word : vaddr < 2 ^ 32) (small : size < 2 ^ 32)
    (valid : pagingValidateUserRange memory pd vaddr size false = true)
    (below : i < size) :
    UserEvent.Finds memory pd (.validated vaddr size)
      (u32 (vaddr + i) / 4096) := by
  have inside := validateRange_inside word small (by omega) valid
  rw [show u32 (vaddr + i) = vaddr + i from Nat.mod_eq_of_lt (by omega)]
  have member : (vaddr + i) / 4096 ∈ pagesOf vaddr size :=
    mem_pagesOf.mpr ⟨vaddr + i, Nat.le_add_right _ _, by omega, rfl⟩
  exact ⟨member, validateRange_readable word small valid member⟩

theorem intOf_of_le {word : UInt32} (nonneg : ¬ intOf word < 0)
    (most : ¬ (maxSpawnArgc : Int) < intOf word) :
    word.toNat ≤ maxSpawnArgc := by
  have value : intOf word = word.toBitVec.toInt := rfl
  have limit : maxSpawnArgc = 16 := rfl
  have bound := word.toNat_lt
  rw [BitVec.toInt_eq_toNat_cond, UInt32.toNat_toBitVec] at value
  split at value
  case isTrue => omega
  case isFalse => omega

theorem readsValidated_spawnArgs {unset : Leftovers} {kpath : CString}
    {argc argv : UInt32} :
    ReadsValidated s.memory s.pd known
      (s.spawnArgs unset kpath argc argv).events := by
  rw [spawnArgs]
  split
  case isTrue => trivial
  case isFalse count =>
    split
    case isTrue => trivial
    case isFalse =>
      rw [not_or] at count
      have few := intOf_of_le count.1 count.2
      have limit : maxSpawnArgc = 16 := rfl
      refine readsValidated_check fun valid => ?_
      refine Logged.guarded_bind (readsValidated_copyArgs ?_)
        fun _ _ => trivial
      intro k below
      rw [Nat.mul_zero, Nat.add_zero]
      exact .inr (validateRange_finds argv.toNat_lt (by omega) valid
        (by omega))

theorem readsValidated_spawnPath {unset : Leftovers} {argc argv : UInt32}
    (kpath : CString) :
    ReadsValidated s.memory s.pd known
      (s.spawnPath unset argc argv kpath).events := by
  refine Logged.guarded_bind readsValidated_spawnArgs fun args _ => ?_
  cases args with
  | none => trivial
  | some kargv =>
      refine readsValidated_passPath fun result => ?_
      obtain ⟨system, created⟩ := result
      cases created with
      | error _ => trivial
      | ok child => trivial

theorem readsValidated_sysWrite {unset : Leftovers} {fd : Int}
    {buf : Nat} {len : UInt32} (word : buf < 2 ^ 32) :
    ReadsValidated s.memory s.pd known
      (s.sysWrite unset fd buf len).events := by
  rw [sysWrite]
  cases s.fileOf fd with
  | none => trivial
  | some idx =>
      refine readsValidated_check fun valid => ?_
      have inside (i : Nat) (below : i < len.toNat) :=
        validateRange_finds word len.toNat_lt valid below
      refine Logged.guarded_bind
        (readsValidated_readUserBytes fun i below => .inr (inside i below))
        fun _ _ => ?_
      exact readsValidated_ofOption fun _ => trivial

end Calls

/-! ## The path of `SYS_OPEN` -/

theorem fatStat_resolves {volume : Volume} {path : CString} {st : FatStat}
    (found : fatStat volume path = some (.ok st)) :
    ∃ resolved, resolvePath volume path = some resolved ∧
      resolved.code = 0 := by
  rw [fatStat] at found
  obtain ⟨resolved, result, found⟩ := Option.bind_eq_some_iff.mp found
  refine ⟨resolved, result, ?_⟩
  by_contra failed
  rw [if_pos failed] at found
  cases found

theorem fatWriteFile_resolves {volume volume' : Volume} {stack : DirSlot}
    {path : CString} {data : Bytes} {size : Nat}
    (written : fatWriteFile volume stack path data size =
      some (0, volume')) :
    ∃ resolved, resolvePath volume path = some resolved ∧
      resolved.code = 0 := by
  rw [fatWriteFile] at written
  obtain ⟨target, opened, written⟩ := Option.bind_eq_some_iff.mp written
  rw [openTarget] at opened
  obtain ⟨resolved, result, opened⟩ := Option.bind_eq_some_iff.mp opened
  refine ⟨resolved, result, ?_⟩
  by_contra failed
  rw [if_pos failed] at opened
  cases opened
  cases written

theorem fileOpen_resolves {fs fs' : FileSystem} {stack : DirSlot}
    {path : CString} {writable : Bool} {idx : Int}
    (opened : fileOpen fs stack path writable = some (idx, fs'))
    (nonneg : ¬ idx < 0) :
    ∃ resolved, resolvePath fs.volume path = some resolved ∧
      resolved.code = 0 := by
  rw [fileOpen] at opened
  obtain ⟨stat, isStat, opened⟩ := Option.bind_eq_some_iff.mp opened
  split at opened
  case isTrue =>
    cases opened
    exact absurd (by decide) nonneg
  case isFalse present =>
    split at opened
    case h_1 =>
      cases opened
      exact absurd (by decide) nonneg
    case h_2 slot free =>
      obtain ⟨⟨code, volume⟩, truncated, opened⟩ :=
        Option.bind_eq_some_iff.mp opened
      dsimp only at opened
      split at opened
      case isTrue =>
        cases opened
        exact absurd (by decide) nonneg
      case isFalse stored =>
        cases writable with
        | true =>
            have zero : code = 0 := not_not.mp stored
            subst zero
            exact fatWriteFile_resolves truncated
        | false =>
            cases stat with
            | error _ =>
                exact absurd ⟨Bool.false_ne_true, Bool.false_ne_true⟩ present
            | ok st => exact fatStat_resolves isStat

/-- `file_open` looks at no byte of the path that `resolve_path` in
`fat_stat` has not looked at. -/
theorem fileOpenLooks_eq (fs : FileSystem) (stack : DirSlot)
    (path : CString) (writable : Bool) :
    fileOpenLooks fs stack path writable =
      resolveLooks fs.volume (path.length + 1) path 0 none := by
  rw [fileOpenLooks]
  cases opened : fileOpen fs stack path writable with
  | none => rfl
  | some result =>
      obtain ⟨idx, fs'⟩ := result
      dsimp only
      split
      case isTrue => rfl
      case isFalse nonneg =>
        obtain ⟨resolved, result, resolves⟩ := fileOpen_resolves opened nonneg
        rw [resolveLooks_whole result resolves]
        omega

/-- How much of the first page the path can use. -/
def firstRoom (ptr : Nat) : Nat := 4096 - ptr % 4096

/-- The call gets to `file_open` with a path that leaves its first page, and
the components that end in this page can be resolved. -/
structure OpensAcross (s : UserSystem) (ptr : Nat) : Prop where
  valid : pagingValidateUserRange s.memory s.pd ptr 1 false = true
  free : (Machine.allocFd s.proc.fds).isSome = true
  leaves : firstRoom ptr ≤ (userText s.memory s.pd ptr).length
  resolves : ∃ resolved, resolvePath s.volume
      (wholePart (userText s.memory s.pd ptr) (firstRoom ptr)) =
        some resolved ∧ resolved.code = 0

theorem userTextFrom_mapped {memory : Memory} {pd ptr fuel start i : Nat}
    (below : i < (userTextFrom memory pd ptr fuel start).length) :
    (userByte memory pd (u32 (ptr + (start + i)))).isSome = true := by
  induction fuel generalizing start i with
  | zero => exact absurd below (Nat.not_lt_zero _)
  | succ fuel inductionHypothesis =>
      rw [userTextFrom] at below
      split at below
      case h_1 => exact absurd below (Nat.not_lt_zero _)
      case h_2 c isByte =>
        cases i with
        | zero =>
            rw [Nat.add_zero, isByte]
            rfl
        | succ i =>
            split at below
            case isTrue => exact absurd below (Nat.not_lt_zero _)
            case isFalse =>
              have onward := inductionHypothesis
                (Nat.lt_of_succ_lt_succ below)
              rwa [show start + 1 + i = start + (i + 1) by omega] at onward

/-- The first byte that is not mapped is still looked at. -/
theorem mem_readUserBytes {memory : Memory} {pd addr count i : Nat}
    (below : i < count)
    (mapped : ∀ j < i, (userByte memory pd (u32 (addr + j))).isSome = true) :
    .read (u32 (addr + i)) ∈ (readUserBytes memory pd addr count).events := by
  induction count generalizing addr i with
  | zero => exact absurd below (Nat.not_lt_zero _)
  | succ count inductionHypothesis =>
      rw [readUserBytes]
      cases i with
      | zero =>
          cases isByte : userByte memory pd (u32 addr) with
          | none =>
              rw [Logged.bind_stops isByte]
              exact List.mem_singleton_self _
          | some c =>
              rw [Logged.bind_returns isByte]
              exact List.mem_cons_self
      | succ i =>
          obtain ⟨c, isByte⟩ :=
            Option.isSome_iff_exists.mp (mapped 0 (Nat.succ_pos _))
          rw [Logged.bind_returns isByte]
          refine List.mem_cons_of_mem _ ?_
          rw [show addr + (i + 1) = addr + 1 + i by omega]
          apply inductionHypothesis (Nat.lt_of_succ_lt_succ below)
          intro j less
          rw [Nat.add_right_comm]
          exact mapped (j + 1) (Nat.succ_lt_succ less)

theorem readUserBytes_reads {memory : Memory} {pd addr count : Nat}
    {event : UserEvent}
    (member : event ∈ (readUserBytes memory pd addr count).events) :
    ∃ addr, event = .read addr := by
  induction count generalizing addr with
  | zero => cases member
  | succ count inductionHypothesis =>
      rw [readUserBytes] at member
      cases isByte : userByte memory pd (u32 addr) with
      | none =>
          rw [Logged.bind_stops isByte] at member
          exact ⟨_, List.mem_singleton.mp member⟩
      | some c =>
          rw [Logged.bind_returns isByte] at member
          rcases List.mem_cons.mp member with here | later
          · exact ⟨_, here⟩
          · exact inductionHypothesis later

/-- `SYS_OPEN` reads beyond its page exactly if the components in this page
lead on. -/
theorem readsValidated_sysOpen_iff {s : UserSystem} {unset : Leftovers}
    {ptr : Nat} {writable : Bool} (word : ptr < 2 ^ 32) :
    ReadsValidated s.memory s.pd (fun _ => False)
        (s.sysOpen unset ptr writable).events ↔
      ¬ s.OpensAcross ptr := by
  have looks := looks_iff s.volume (userText s.memory s.pd ptr)
    (firstRoom ptr)
  have room : firstRoom ptr = 4096 - ptr % 4096 := rfl
  have onePage : u32 ptr = ptr := Nat.mod_eq_of_lt word
  constructor
  · rintro validated ⟨valid, free, leaves, resolves⟩
    obtain ⟨fd, isFd⟩ := Option.isSome_iff_exists.mp free
    rw [sysOpen, checkUser, if_pos valid, Logged.bind_returns rfl, isFd]
      at validated
    have reads := (guarded_append.mp validated).2
    simp only [not_true_eq_false, if_false] at reads
    have reads := Logged.guarded_of_bind reads
    rw [fileOpenLooks_eq] at reads
    have mapped (j : Nat) (below : j < firstRoom ptr) :
        (userByte s.memory s.pd (u32 (ptr + j))).isSome = true := by
      have here : (userByte s.memory s.pd (u32 (ptr + (0 + j)))).isSome =
          true :=
        userTextFrom_mapped (Nat.lt_of_lt_of_le below leaves)
      rwa [Nat.zero_add] at here
    have beyond := mem_readUserBytes (looks.mpr ⟨leaves, resolves⟩) mapped
    rcases reads.granted beyond rfl with
      (known | ⟨event, member, finds⟩) | ⟨event, member, finds⟩
    · exact known
    · rw [List.mem_singleton.mp member] at finds
      obtain ⟨addr, lower, upper, page⟩ := mem_pagesOf.mp finds.1
      rw [u32] at page
      omega
    · obtain ⟨addr, rfl⟩ := readUserBytes_reads member
      exact finds
  · intro stays
    refine readsValidated_check fun valid => ?_
    cases free : Machine.allocFd s.proc.fds with
    | none => trivial
    | some fd =>
        refine Logged.guarded_bind (readsValidated_readUserBytes ?_) ?_
        · intro i below
          rw [fileOpenLooks_eq] at below
          have inside : i < firstRoom ptr := by
            by_contra beyond
            have reaches := looks.mp
              (Nat.lt_of_le_of_lt (Nat.not_lt.mp beyond) below)
            exact stays ⟨valid, Option.isSome_iff_exists.mpr ⟨fd, free⟩,
              reaches.1, reaches.2⟩
          have page : u32 (ptr + i) / 4096 = ptr / 4096 := by
            rw [u32]
            omega
          rw [page]
          exact .inr (validateByte_finds word valid)
        · intro _ _
          refine readsValidated_passPath fun opened => ?_
          obtain ⟨idx, files⟩ := opened
          dsimp only
          split
          case isTrue => trivial
          case isFalse => trivial

end UserSystem

open UserSystem in
/-- The reads of a call are validated unless it is `SYS_OPEN` with a path
that leaves its first page before it fails to resolve. -/
theorem userEvents_validated_iff (s : UserSystem) (unset : Leftovers)
    (regs : Registers) :
    ReadsValidated s.memory s.pd (fun _ => False)
        (s.userEvents unset regs) ↔
      ¬ (regs.eax = 6 ∧ s.OpensAcross regs.ebx.toNat) := by
  have word := regs.ebx.toNat_lt
  have string {max : Nat} {call : CString → UserRun (Nat × UserSystem)}
      (onward : ∀ known kpath,
        ReadsValidated s.memory s.pd known (call kpath).events) :
      ReadsValidated s.memory s.pd (fun _ => False)
        (s.withPath regs.ebx.toNat max call).events :=
    readsValidated_withPath word onward
  by_cases isOpen : regs.eax = 6
  · rw [userEvents, isOpen]
    simp only [true_and]
    exact readsValidated_sysOpen_iff word
  · simp only [isOpen, false_and, not_false_eq_true, iff_true]
    rw [userEvents]
    split
    case h_1 => exact readsValidated_printUser word
    case h_2 six => exact absurd (UInt32.toNat_inj.mp six) isOpen
    case h_3 => exact readsValidated_sysWrite regs.ecx.toNat_lt
    case h_4 => exact string fun _ => readsValidated_statPath
    case h_5 => exact string fun _ => readsValidated_changeTree
    case h_6 => exact string fun _ => readsValidated_changeTree
    case h_7 => exact string fun _ => readsValidated_changeTree
    case h_8 => exact string fun _ => readsValidated_opendirPath
    case h_9 => exact string fun _ => readsValidated_spawnPath
    case h_10 => exact string fun _ => readsValidated_chdirPath
    case h_11 => trivial

/-- `a` is the last byte of the only page. -/
def lastByte : Bytes := fun i => if i = 4095 then 0x61 else 0

theorem lastByte_text :
    userText (onePage lastByte) 0x1000 4095 = [0x61] := by
  have here : userByte (onePage lastByte) 0x1000 (u32 (4095 + 0)) =
      some 0x61 := by
    rw [userByte, show u32 (4095 + 0) = 4095 from rfl,
      onePage_byte (by decide)]
    rfl
  have beyond : userByte (onePage lastByte) 0x1000 (u32 (4095 + (0 + 1))) =
      none := by
    rw [userByte, show u32 (4095 + (0 + 1)) = 4096 from rfl,
      onePage_absent rfl]
    rfl
  rw [userText, show 2 ^ 32 = (2 ^ 32 - 2) + 1 + 1 from rfl, userTextFrom,
    here]
  dsimp only
  rw [if_neg (by decide), userTextFrom, beyond]

/-- `SYS_OPEN` looks for the end of the name `a` in a page that does not
exist. -/
theorem lastByte_unvalidated :
    ¬ ReadsValidated (onePage lastByte) 0x1000 (fun _ => False)
      ((UserSystem.onPage sampleVolume lastByte).userEvents noLeftovers
        ⟨6, 4095, 0, 0⟩) := by
  generalize isSystem : UserSystem.onPage sampleVolume lastByte = s
  have memory : s.memory = onePage lastByte := by
    rw [← isSystem]
    rfl
  have pd : s.pd = 0x1000 := by
    rw [← isSystem]
    rfl
  have fds : s.proc.fds = List.replicate maxFdsPerProc (-1) := by
    rw [← isSystem]
    rfl
  have run : s.userEvents noLeftovers ⟨6, 4095, 0, 0⟩ =
      (s.sysOpen noLeftovers 4095 false).events := rfl
  have across : s.OpensAcross 4095 := by
    have text : userText s.memory s.pd 4095 = [0x61] := by
      rw [memory, pd]
      exact lastByte_text
    refine ⟨?_, ?_, ?_, ?_⟩
    · rw [memory, pd]
      exact (validateByte_iff (by decide)).mpr
        ⟨_, onePage_byte (by decide), rfl⟩
    · rw [fds]
      rfl
    · rw [text]
      decide
    · rw [text]
      exact ⟨_, rfl, rfl⟩
  rw [run, ← memory, ← pd]
  exact fun validated =>
    (UserSystem.readsValidated_sysOpen_iff (by decide)).mp validated across

end LoafOs
