import LoafOs.Devices.Rtc
import LoafOs.Userspace.UserReads
import Mathlib.Data.UInt

/-!
# Writes through user pointers

The calls of `src/userspace/syscalls.c` that store through a pointer of
their caller.  A run logs the addresses of these stores, and each should lie
in a page that the caller may write.
-/

namespace LoafOs

/-- A run that logs the addresses of its stores. -/
abbrev StoreRun := Logged Nat

/-- The page of an address may be written from user mode. -/
def UserWritable (memory : Memory) (pd addr : Nat) : Prop :=
  UserReadable memory pd addr ∧ isRw (pteAt memory pd addr) = true

/-- `memcpy` to a pointer of the caller.  The log has every store that it is
to make; a page that is not mapped ends it with a fault. -/
def storeUser (memory : Memory) (pd dest : Nat) (src : Bytes)
    (count : Nat) : StoreRun Memory :=
  ⟨(List.range count).map fun i => u32 (dest + i),
    copyToUser memory pd dest src count⟩

/-- `sizeof(struct tm)`; the byte before `tm_year` is padding. -/
def tmSize : Nat := 8

/-- The assignments to the fields of `*out` in `SYS_DATETIME`. -/
def storeTm (memory : Memory) (pd out : Nat) (t : RtcTime) :
    StoreRun Memory := do
  let fields := [t.seconds, t.minutes, t.hours, t.day, t.month]
  let memory ← storeUser memory pd out (fun i => fields.getD i 0) 5
  let year : Bytes := Bytes.putWord16 (fun _ => 0) 0 t.year.toNat
  storeUser memory pd (u32 (out + 6)) year 2

/-- `sizeof(fat_dirent_info_t)`. -/
def direntInfoSize : Nat := 24

/-- The bytes of a `fat_dirent_info_t`, which is laid out like a
`fat_stat_t`. -/
def direntInfoBytes (unset : Bytes) (info : DirentInfo) : Bytes :=
  UserSystem.statBytes unset
    ⟨info.name, info.size, info.firstCluster, info.attr⟩

/-- `sizeof(proc_info_t)`. -/
def procInfoSize : Nat := 44

/-- The value of a `proc_state_t`. -/
def ProcState.code : ProcState → Nat
  | .ready => 0
  | .running => 1
  | .blocked => 2
  | .dead => 3

/-- The `proc_info_t` of a process; `strncpy` fills the name up. -/
def procInfo (proc : Process) : Bytes :=
  let name : Bytes := fun i =>
    (proc.name.take (maxProcName - 1)).getD (i - 12) 0
  ((name.putWord32 0 proc.pid).putWord32 4 proc.ppid).putWord32 8
    proc.state.code

/-- What the loop of `SYS_PS` copies to `out`, one entry after the other. -/
def procInfos (max : Nat) (procs : List Process) : List UInt8 :=
  (procs.take max).flatMap fun proc => (procInfo proc).slice 0 procInfoSize

/-- What the calls get from the parts below them: the result of `rtc_now`,
the buffer of `file_read`, the place of `*curr_proc` in `proc_list`, the
bytes of the entry that `SYS_READDIR` leaves unset, and those behind `cwd`. -/
structure Surroundings where
  now : RtcTime
  heap : Option Bytes
  place : Nat
  entry : Bytes
  behindCwd : Bytes

namespace UserSystem

variable (s : UserSystem)

/-- `SYS_DATETIME`. -/
def sysDatetime (now : RtcTime) (out : Nat) :
    StoreRun (Nat × UserSystem) := do
  if ¬ pagingValidateUserRange s.memory s.pd out tmSize true then
    return (refused, s)
  let memory ← storeTm s.memory s.pd out now
  return (0, s.setMemory memory)

/-- `SYS_READ`. -/
def sysRead (heap : Option Bytes) (fd : Int) (buf : Nat) (len : UInt32) :
    StoreRun (Nat × UserSystem) :=
  match s.fileOf fd with
  | none => return (refused, s)
  | some idx => do
      if ¬ pagingValidateUserRange s.memory s.pd buf len.toNat true then
        return (refused, s)
      let read ← .ofOption (fileRead s.files heap idx len)
      let memory ← storeUser s.memory s.pd buf
        (fun i => read.bytes.getD i 0) read.bytes.length
      return (u32 (read.result + 2 ^ 32).toNat,
        (s.setFiles read.fs).setMemory memory)

/-- `SYS_STAT`, with the stores in the log. -/
def sysStatStores (unset : Leftovers) (ptr out : Nat) :
    StoreRun (Nat × UserSystem) := do
  match ← .ofOption (copyUserStr s.memory s.pd ptr kpathSize).result with
  | none => return (refused, s)
  | some kpath =>
      if ¬ pagingValidateUserRange s.memory s.pd out statSize true then
        return (refused, s)
      match ← .ofOption (fatStat s.volume kpath) with
      | .error _ => return (refused, s)
      | .ok st =>
          let memory ← storeUser s.memory s.pd out
            (statBytes unset.stat st) statSize
          return (0, s.setMemory memory)

/-- `SYS_READDIR`. -/
def sysReaddir (entry : Bytes) (dirfd : Int) (out : Nat) :
    StoreRun (Nat × UserSystem) := do
  let dh := s.dirs dirfd.toNat
  if dirfd < 0 ∨ (maxDirsPerProc : Int) ≤ dirfd ∨ ¬ dh.inUse then
    return (refused, s)
  if ¬ pagingValidateUserRange s.memory s.pd out direntInfoSize true then
    return (refused, s)
  match ← .ofOption (fatReaddir s.volume dh.cluster dh.index.toNat) with
  | .error _ => return (0, s)
  | .ok info =>
      let memory ← storeUser s.memory s.pd out
        (direntInfoBytes entry info) direntInfoSize
      return (1, { s.setMemory memory with
        dirs := Function.update s.dirs dirfd.toNat
          { dh with index := dh.index + 1 } })

/-- `proc_list`. -/
def procs (place : Nat) : List Process :=
  s.system.procList.insertIdx place s.proc

/-- `SYS_PS`. -/
def sysPs (place : Nat) (out max : UInt32) :
    StoreRun (Nat × UserSystem) := do
  let procs := s.procs place
  if out = 0 ∨ max = 0 then
    return (procs.length, s)
  if ¬ pagingValidateUserRange s.memory s.pd out.toNat
      (u32 (max.toNat * procInfoSize)) true then
    return (refused, s)
  let infos := procInfos max.toNat procs
  let memory ← storeUser s.memory s.pd out.toNat
    (fun i => infos.getD i 0) infos.length
  return ((procs.take max.toNat).length, s.setMemory memory)

/-- The length that `SYS_GETCWD` copies. -/
def cwdLength (max : Nat) : Nat :=
  if max ≤ s.proc.cwd.length then u32 (max + 2 ^ 32 - 1)
  else s.proc.cwd.length

/-- `SYS_GETCWD`. -/
def sysGetcwd (behindCwd : Bytes) (out max : Nat) :
    StoreRun (Nat × UserSystem) := do
  if ¬ pagingValidateUserRange s.memory s.pd out max true then
    return (refused, s)
  let len := s.cwdLength max
  let cwd := behindCwd.copy 0 (fun i => (s.proc.cwd ++ [0]).getD i 0)
    (s.proc.cwd.length + 1)
  let memory ← storeUser s.memory s.pd out cwd len
  let memory ← storeUser memory s.pd (u32 (out + len)) (fun _ => 0) 1
  return (0, s.setMemory memory)

/-- What `syscall_dispatch` stores through the pointers of the caller. -/
def userStores (below : Surroundings) (unset : Leftovers)
    (regs : Registers) : List Nat :=
  let ebx := regs.ebx.toNat
  let ecx := regs.ecx.toNat
  match regs.eax.toNat with
  | 4 => (s.sysDatetime below.now ebx).events
  | 8 => (s.sysRead below.heap (intOf regs.ebx) ecx regs.edx).events
  | 10 => (s.sysStatStores unset ebx ecx).events
  | 15 => (s.sysReaddir below.entry (intOf regs.ebx) ecx).events
  | 24 => (s.sysPs below.place regs.ebx regs.ecx).events
  | 26 => (s.sysGetcwd below.behindCwd ebx ecx).events
  | _ => []

/-- `SYS_PS` accepts a length that has wrapped around, and the entries reach
a page behind it that the caller may not write. -/
structure PsOverruns (place : Nat) (out max : UInt32) : Prop where
  asked : out ≠ 0 ∧ max ≠ 0
  valid : pagingValidateUserRange s.memory s.pd out.toNat
    (u32 (max.toNat * procInfoSize)) true = true
  beyond : ∃ i, u32 (max.toNat * procInfoSize) ≤ i ∧
    i < procInfoSize * min max.toNat (s.procs place).length ∧
      ¬ UserWritable s.memory s.pd (u32 (out.toNat + i))

end UserSystem

section Stores

variable {memory : Memory} {pd addr dest size count : Nat} {src : Bytes}

theorem validateUserPage_writable_iff :
    validateUserPage memory pd addr true = true ↔
      UserWritable memory pd addr := by
  rw [UserWritable, ← validateUserPage_iff, validateUserPage,
    validateUserPage]
  cases table : isPresent (memory.entry pd (pdIndex addr)) with
  | false => simp
  | true =>
      rw [pteAt_present table]
      simp

/-- What holds of a byte holds of its page. -/
theorem UserWritable.same_page {addr' : Nat}
    (writable : UserWritable memory pd addr)
    (page : addr / 4096 = addr' / 4096) : UserWritable memory pd addr' := by
  rw [← validateUserPage_writable_iff, ← validateUserPage_page] at writable ⊢
  rwa [← page]

theorem storeUser_all {property : Nat → Prop} :
    (storeUser memory pd dest src count).All property ↔
      ∀ i < count, property (u32 (dest + i)) := by
  simp [Logged.All, storeUser]

/-- What is stored to a part of a range that was validated. -/
theorem storeUser_writable {memory' : Memory} {vaddr : Nat}
    (word : vaddr < 2 ^ 32) (small : size < 2 ^ 32)
    (valid : pagingValidateUserRange memory pd vaddr size true = true)
    (offset : Nat) (within : offset + count ≤ size) :
    (storeUser memory' pd (u32 (vaddr + offset)) src count).All
      (UserWritable memory pd) := by
  rw [storeUser_all]
  intro i below
  have here := validateRange_byte word small valid
    (show offset + i < size by omega)
  rw [show u32 (u32 (vaddr + offset) + i) = u32 (vaddr + (offset + i)) by
    rw [u32, u32, u32]
    omega]
  exact validateUserPage_writable_iff.mp here

theorem storeUser_start (word : dest < 2 ^ 32) (small : size < 2 ^ 32)
    (valid : pagingValidateUserRange memory pd dest size true = true)
    (within : count ≤ size) :
    (storeUser memory pd dest src count).All (UserWritable memory pd) := by
  have start : (storeUser memory pd (u32 (dest + 0)) src count).All
      (UserWritable memory pd) :=
    storeUser_writable word small valid 0
      (Nat.le_trans (Nat.le_of_eq (Nat.zero_add count)) within)
  rwa [Nat.add_zero, show u32 dest = dest from Nat.mod_eq_of_lt word]
    at start

theorem procInfos_length (max : Nat) (procs : List Process) :
    (procInfos max procs).length =
      procInfoSize * min max procs.length := by
  rw [procInfos, List.length_flatMap]
  simp [Bytes.length_slice, Nat.mul_comm]

end Stores

/-! ## The calls -/

namespace UserSystem

section Calls

variable {s : UserSystem}

/-- A call that only fails when its check does. -/
theorem all_check {vaddr size : Nat} {failed : Nat × UserSystem}
    {rest : StoreRun (Nat × UserSystem)} {property : Nat → Prop}
    (onward : pagingValidateUserRange s.memory s.pd vaddr size true = true →
      rest.All property) :
    (if ¬ pagingValidateUserRange s.memory s.pd vaddr size true = true then
      pure failed
    else rest).All property := by
  split
  case isTrue => exact Logged.all_pure
  case isFalse valid => exact onward (not_not.mp valid)

theorem sysDatetime_writable {now : RtcTime} {out : Nat}
    (word : out < 2 ^ 32) :
    (s.sysDatetime now out).All (UserWritable s.memory s.pd) := by
  have small : tmSize < 2 ^ 32 := by decide
  refine all_check fun valid => Logged.all_bind.mpr ⟨?_, fun _ _ =>
    Logged.all_pure⟩
  refine Logged.all_bind.mpr ⟨?_, fun memory _ => ?_⟩
  · exact storeUser_start word small valid (by decide)
  · exact storeUser_writable word small valid 6 (by decide)

/-- `file_read` has no more bytes than asked for. -/
theorem fileRead_length {fs : FileSystem} {heap : Option Bytes} {idx : Int}
    {len : UInt32} {read : StreamRead}
    (result : fileRead fs heap idx len = some read) :
    read.bytes.length ≤ len.toNat := by
  rw [fileRead] at result
  split at result
  case h_1 =>
    cases result
    exact Nat.zero_le _
  case h_2 f _ =>
    split at result
    case h_1 =>
      cases result
      exact Nat.zero_le _
    case h_2 heap =>
      obtain ⟨data, _, result⟩ := Option.bind_eq_some_iff.mp result
      split at result
      case isTrue =>
        cases result
        exact Nat.zero_le _
      case isFalse =>
        cases result
        rw [Bytes.length_slice]
        split
        case isTrue => exact Nat.le_refl _
        case isFalse more =>
          exact UInt32.le_iff_toNat_le.mp (UInt32.not_lt.mp more)

theorem sysRead_writable {heap : Option Bytes} {fd : Int} {buf : Nat}
    {len : UInt32} (word : buf < 2 ^ 32) :
    (s.sysRead heap fd buf len).All (UserWritable s.memory s.pd) := by
  rw [sysRead]
  cases s.fileOf fd with
  | none => exact Logged.all_pure
  | some idx =>
      refine all_check fun valid => Logged.all_bind.mpr
        ⟨Logged.all_ofOption, fun read isRead => ?_⟩
      refine Logged.all_bind.mpr ⟨?_, fun _ _ => Logged.all_pure⟩
      exact storeUser_start word len.toNat_lt valid (fileRead_length isRead)

theorem sysStatStores_writable {unset : Leftovers} {ptr out : Nat}
    (word : out < 2 ^ 32) :
    (s.sysStatStores unset ptr out).All (UserWritable s.memory s.pd) := by
  refine Logged.all_bind.mpr ⟨Logged.all_ofOption, fun copied _ => ?_⟩
  cases copied with
  | none => exact Logged.all_pure
  | some kpath =>
      refine all_check fun valid => Logged.all_bind.mpr
        ⟨Logged.all_ofOption, fun stat _ => ?_⟩
      cases stat with
      | error _ => exact Logged.all_pure
      | ok st =>
          refine Logged.all_bind.mpr ⟨?_, fun _ _ => Logged.all_pure⟩
          exact storeUser_start word (by decide) valid (Nat.le_refl _)

theorem sysReaddir_writable {entry : Bytes} {dirfd : Int} {out : Nat}
    (word : out < 2 ^ 32) :
    (s.sysReaddir entry dirfd out).All (UserWritable s.memory s.pd) := by
  rw [sysReaddir]
  split
  case isTrue => exact Logged.all_pure
  case isFalse =>
    refine all_check fun valid => Logged.all_bind.mpr
      ⟨Logged.all_ofOption, fun listed _ => ?_⟩
    cases listed with
    | error _ => exact Logged.all_pure
    | ok info =>
        refine Logged.all_bind.mpr ⟨?_, fun _ _ => Logged.all_pure⟩
        exact storeUser_start word (by decide) valid (Nat.le_refl _)

/-- The log is all that this call adds to `SYS_STAT`. -/
theorem sysStatStores_result {unset : Leftovers} {ptr out : Nat} :
    (s.sysStatStores unset ptr out).result =
      (s.sysStat unset ptr out).result := by
  rw [sysStatStores, sysStat, withPath, Logged.result_bind,
    Logged.result_bind]
  congr 1
  funext copied
  cases copied with
  | none => rfl
  | some kpath =>
      have check : (s.statPath unset out kpath).result = _ :=
        Logged.result_bind
      dsimp only
      rw [check, checkUser_result, Option.bind_some]
      split
      case isTrue => rfl
      case isFalse =>
        rw [Logged.result_bind, Logged.result_bind]
        congr 1
        funext stat
        cases stat with
        | error _ => rfl
        | ok st =>
            rw [Logged.result_bind, Logged.result_bind]
            rfl

/-- A store behind the length that was validated is the only one that can
go wrong. -/
theorem sysPs_writable_iff {place : Nat} {out max : UInt32} :
    (s.sysPs place out max).All (UserWritable s.memory s.pd) ↔
      ¬ s.PsOverruns place out max := by
  have small (value : Nat) : u32 value < 2 ^ 32 := u32_lt value
  rw [sysPs]
  dsimp only
  split
  case isTrue none =>
    refine iff_of_true Logged.all_pure fun overruns => ?_
    exact none.elim overruns.asked.1 overruns.asked.2
  case isFalse asked =>
    split
    case isTrue refusal =>
      exact iff_of_true Logged.all_pure fun overruns =>
        refusal overruns.valid
    case isFalse valid =>
      have valid := not_not.mp valid
      rw [Logged.all_bind, storeUser_all, procInfos_length]
      constructor
      · rintro ⟨writable, _⟩ overruns
        obtain ⟨i, _, below, locked⟩ := overruns.beyond
        exact locked (writable i below)
      · intro fits
        refine ⟨fun i below => ?_, fun _ _ => Logged.all_pure⟩
        by_contra locked
        have behind : u32 (max.toNat * procInfoSize) ≤ i := by
          by_contra within
          refine locked (validateUserPage_writable_iff.mp ?_)
          exact validateRange_byte out.toNat_lt (small _) valid
            (Nat.not_le.mp within)
        exact fits ⟨not_or.mp asked, valid, i, behind, below, locked⟩

theorem cwdLength_of_pos {max : Nat} (word : max < 2 ^ 32)
    (positive : 0 < max) : s.cwdLength max < max := by
  rw [cwdLength]
  split
  case isTrue =>
    rw [u32]
    omega
  case isFalse less => exact Nat.not_le.mp less

/-- With a length of 0 the whole address space is written. -/
theorem sysGetcwd_writable_iff {behindCwd : Bytes} {out max : Nat}
    (word : out < 2 ^ 32) (small : max < 2 ^ 32) :
    (s.sysGetcwd behindCwd out max).All (UserWritable s.memory s.pd) ↔
      ¬ (max = 0 ∧ ∃ addr < 2 ^ 32,
        ¬ UserWritable s.memory s.pd addr) := by
  by_cases none : max = 0
  · subst none
    have valid : pagingValidateUserRange s.memory s.pd out 0 true = true :=
      if_pos rfl
    have whole : s.cwdLength 0 = 2 ^ 32 - 1 := if_pos (Nat.zero_le _)
    rw [sysGetcwd, if_neg (not_not.mpr valid)]
    dsimp only
    rw [whole, Logged.all_bind, storeUser_all]
    simp only [true_and, not_exists, not_and, not_not]
    constructor
    · rintro ⟨writable, _⟩ addr inside
      -- the page has two bytes, and only one is left out
      have reached (addr' : Nat) (word : addr' < 2 ^ 32)
          (page : addr' / 4096 = addr / 4096)
          (kept : u32 (addr' + 2 ^ 32 - out) < 2 ^ 32 - 1) :
          UserWritable s.memory s.pd addr := by
        have here := writable _ kept
        rw [show u32 (out + u32 (addr' + 2 ^ 32 - out)) = addr' by
          rw [u32, u32]
          omega] at here
        exact here.same_page page
      by_cases kept : u32 (addr + 2 ^ 32 - out) < 2 ^ 32 - 1
      · exact reached addr inside rfl kept
      · rw [u32] at kept
        by_cases start : addr % 4096 = 0
        · refine reached (addr + 1) (by omega) (by omega) ?_
          rw [u32]
          omega
        · refine reached (addr - 1) (by omega) (by omega) ?_
          rw [u32]
          omega
    · intro writable
      refine ⟨fun i _ => writable _ (u32_lt _), fun memory _ => ?_⟩
      refine Logged.all_bind.mpr ⟨?_, fun _ _ => Logged.all_pure⟩
      exact storeUser_all.mpr fun i _ => writable _ (u32_lt _)
  · refine iff_of_true (all_check fun valid => ?_) fun bad => none bad.1
    have below := cwdLength_of_pos (s := s) small (Nat.pos_of_ne_zero none)
    refine Logged.all_bind.mpr ⟨?_, fun memory _ => ?_⟩
    · exact storeUser_start word small valid (Nat.le_of_lt below)
    · refine Logged.all_bind.mpr ⟨?_, fun _ _ => Logged.all_pure⟩
      exact storeUser_writable word small valid _ below

end Calls

end UserSystem

open UserSystem in
/-- The stores of a call stay in the writable pages of the caller unless it
is `SYS_PS` with a length that wraps around, or `SYS_GETCWD` with no room. -/
theorem userStores_writable_iff (s : UserSystem) (below : Surroundings)
    (unset : Leftovers) (regs : Registers) :
    (∀ addr ∈ s.userStores below unset regs,
        UserWritable s.memory s.pd addr) ↔
      ¬ (regs.eax = 24 ∧ s.PsOverruns below.place regs.ebx regs.ecx) ∧
        ¬ (regs.eax = 26 ∧ regs.ecx = 0 ∧
          ∃ addr < 2 ^ 32, ¬ UserWritable s.memory s.pd addr) := by
  have ebx := regs.ebx.toNat_lt
  have ecx := regs.ecx.toNat_lt
  have zero : regs.ecx.toNat = 0 ↔ regs.ecx = 0 :=
    UInt32.toNat_inj (b := 0)
  by_cases isPs : regs.eax = 24
  · rw [userStores, isPs]
    simp only [true_and]
    rw [and_iff_left (fun bad => absurd bad.1 (by decide))]
    exact sysPs_writable_iff
  · by_cases isGetcwd : regs.eax = 26
    · rw [userStores, isGetcwd, ← zero]
      simp only [true_and]
      rw [and_iff_right (fun bad => absurd bad.1 (by decide))]
      exact sysGetcwd_writable_iff ebx ecx
    · refine iff_of_true ?_
        ⟨fun bad => isPs bad.1, fun bad => isGetcwd bad.1⟩
      rw [userStores]
      split
      case h_1 => exact sysDatetime_writable ebx
      case h_2 => exact sysRead_writable ecx
      case h_3 => exact sysStatStores_writable ecx
      case h_4 => exact sysReaddir_writable ecx
      case h_5 ps => exact absurd (UInt32.toNat_inj.mp ps) isPs
      case h_6 getcwd => exact absurd (UInt32.toNat_inj.mp getcwd) isGetcwd
      case h_7 => exact fun _ member => nomatch member

/-- `SYS_PS` for `2 ^ 30` entries validates no byte, and it writes to a page
that does not exist. -/
theorem manyEntries_unwritable :
    ¬ ∀ addr ∈ (UserSystem.onPage sampleVolume lastByte).userStores
        ⟨⟨0, 0, 0, 1, 1, 2000⟩, none, 0, fun _ => 0, fun _ => 0⟩ noLeftovers
        ⟨24, 4096, 2 ^ 30, 0⟩,
      UserWritable (onePage lastByte) 0x1000 addr := by
  generalize isSystem : UserSystem.onPage sampleVolume lastByte = s
  have memory : s.memory = onePage lastByte := by
    rw [← isSystem]
    rfl
  have pd : s.pd = 0x1000 := by
    rw [← isSystem]
    rfl
  have procs : (s.procs 0).length = 1 := by
    rw [← isSystem]
    rfl
  have overruns : s.PsOverruns 0 4096 (2 ^ 30) := by
    refine ⟨by decide, if_pos (by decide), 0, Nat.zero_le _, ?_, ?_⟩
    · rw [procs]
      decide
    · rw [memory, pd]
      rintro ⟨⟨cell, isCell, _⟩, _⟩
      rw [onePage_absent (by decide)] at isCell
      cases isCell
  rw [← memory, ← pd]
  exact fun writable =>
    UserSystem.sysPs_writable_iff.mp writable overruns

end LoafOs
