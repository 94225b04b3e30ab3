import LoafOs.Multi.OpenFiles

/-!
# Open files over whole runs

Every step of the kernel, taken apart along its definition: most leave
descriptors and open files alone, the calls on files change one entry, and
the timer closes the files of the dead.
-/

namespace LoafOs

open Links Runs

namespace Machine

variable {m m' : Machine} {known : Nat → Prop} {p : Nat} {label : Label}
  {labels : List Label}

/-- Descriptors, open files and pointers stay as they are. -/
structure Untouched (m m' : Machine) : Prop where
  fds : ∀ p, m'.fdsOf p = m.fdsOf p
  openFiles : m'.files.openFiles = m.files.openFiles
  next : m'.tasks.next = m.tasks.next
  procList : m'.tasks.procList = m.tasks.procList
  curr : m'.tasks.currProc = m.tasks.currProc
  idle : m'.tasks.idleProc = m.tasks.idleProc

theorem Untouched.refl : Untouched m m := ⟨fun _ => rfl, rfl, rfl, rfl, rfl, rfl⟩

theorem Untouched.trans {m'' : Machine} (left : Untouched m m')
    (right : Untouched m' m'') : Untouched m m'' :=
  ⟨fun p => (right.fds p).trans (left.fds p),
    right.openFiles.trans left.openFiles, right.next.trans left.next,
    right.procList.trans left.procList, right.curr.trans left.curr,
    right.idle.trans left.idle⟩

theorem Reaches.congr {tasks tasks' : Tasks}
    (reaches : Reaches tasks known) (next : tasks'.next = tasks.next)
    (procList : tasks'.procList = tasks.procList)
    (curr : tasks'.currProc = tasks.currProc)
    (idle : tasks'.idleProc = tasks.idleProc) : Reaches tasks' known := by
  refine ⟨?_, ?_, ?_, ?_⟩
  · rw [procList]
    exact reaches.procList
  · rw [next]
    exact reaches.next
  · rw [curr, idle]
    exact reaches.curr
  · rw [next, idle]
    exact reaches.idleNext

theorem Tracked.untouched (tracked : m.Tracked known)
    (same : Untouched m m') : m'.Tracked known :=
  ⟨tracked.files.same same.fds same.openFiles,
    tracked.reaches.congr same.next same.procList same.curr same.idle⟩

theorem untouched_setProc {change : Process → Process}
    (fds : (change (m.tasks.procs p)).fds = m.fdsOf p) :
    Untouched m (m.setProc p change) := by
  refine ⟨fun q => ?_, rfl, rfl, rfl, rfl, rfl⟩
  by_cases same : q = p
  · rw [same, fdsOf, setProc_same, fds]
  · rw [fdsOf, setProc_other m change same]
    rfl

theorem fdsOf_setProc (m : Machine) (p : Nat) (change : Process → Process) :
    (m.setProc p change).fdsOf p = (change (m.tasks.procs p)).fds := by
  rw [fdsOf, setProc_same]

theorem fdsOf_setProc_other (m : Machine) {p q : Nat}
    (change : Process → Process) (different : q ≠ p) :
    (m.setProc p change).fdsOf q = m.fdsOf q := by
  rw [fdsOf, setProc_other m change different]
  rfl

theorem untouched_record (event : Event) : Untouched m (m.record event) :=
  ⟨fun _ => rfl, rfl, rfl, rfl, rfl, rfl⟩

theorem untouched_setPending (pending : Pending) :
    Untouched m (m.setPending p pending) :=
  ⟨fun _ => rfl, rfl, rfl, rfl, rfl, rfl⟩

theorem untouched_kbd (kbd : Keyboard) : Untouched m { m with kbd } :=
  ⟨fun _ => rfl, rfl, rfl, rfl, rfl, rfl⟩

theorem untouched_eachProc {change : Process → Process} {tasks : Tasks}
    (done : m.tasks.eachProc change = some tasks)
    (fds : ∀ proc, (change proc).fds = proc.fds) :
    Untouched m (m.setTasks tasks) := by
  rw [Tasks.eachProc] at done
  simp only [Option.bind_eq_bind, Option.pure_def] at done
  obtain ⟨nodes, _, done⟩ := Option.bind_eq_some_iff.mp done
  rw [← Option.some.inj done]
  refine ⟨fun q => ?_, rfl, rfl, rfl, rfl, rfl⟩
  change (if q ∈ nodes then change (m.tasks.procs q)
    else m.tasks.procs q).fds = _
  split
  case isTrue => exact fds _
  case isFalse => rfl

theorem wakeWaiter_fds (pid : Nat) (proc : Process) :
    (Tasks.wakeWaiter pid proc).fds = proc.fds := by
  rw [Tasks.wakeWaiter]
  split
  case isTrue => rfl
  case isFalse => split <;> rfl

theorem wakeFaulted_fds (pid : Nat) (proc : Process) :
    (Tasks.wakeFaulted pid proc).fds = proc.fds := by
  rw [Tasks.wakeFaulted]
  split <;> rfl

theorem Tracked.schedule (tracked : m.Tracked known)
    (done : m.schedule = some m') : m'.Tracked known := by
  obtain ⟨tasks, scheduled, same⟩ := Option.map_eq_some_iff.mp done
  rw [← same]
  rw [Tasks.schedule] at scheduled
  simp only [Option.bind_eq_bind, Option.pure_def] at scheduled
  split at scheduled
  case isTrue =>
    rw [← Option.some.inj scheduled]
    exact tracked
  case isFalse =>
    obtain ⟨next, picked, scheduled⟩ := Option.bind_eq_some_iff.mp scheduled
    split at scheduled
    case isTrue =>
      rw [← Option.some.inj scheduled]
      exact tracked
    case isFalse =>
      rw [← Option.some.inj scheduled]
      obtain ⟨links, head, idle, _⟩ := @Tasks.switchTo_links m.tasks next
      refine ⟨tracked.files.same (fun p => ?_) rfl, ?_⟩
      · rw [fdsOf, setTasks, Tasks.switchTo_procs]
        rfl
      · have reaches : Reaches { m.tasks with currProc := next } known :=
          ⟨tracked.reaches.procList, tracked.reaches.next,
            tracked.reaches.pickNext picked, tracked.reaches.idleNext⟩
        exact reaches.congr links head rfl idle

theorem Reaches.nodes {tasks : Tasks} (reaches : Reaches tasks known)
    {nodes : List Nat}
    (done : LoafOs.listFrom tasks.next listFuel tasks.procList =
      some nodes) : ∀ p ∈ nodes, known p :=
  reaches.listFrom done reaches.procList

theorem Reaches.processFind {tasks : Tasks} (reaches : Reaches tasks known)
    {pid proc : Nat} (done : tasks.processFind pid = some proc)
    (nonzero : proc ≠ 0) : known proc := by
  rw [Tasks.processFind] at done
  simp only [Option.bind_eq_bind, Option.pure_def] at done
  obtain ⟨nodes, walk, done⟩ := Option.bind_eq_some_iff.mp done
  cases found : nodes.find? fun node => (tasks.procs node).pid = pid with
  | none =>
      rw [found] at done
      exact absurd (Option.some.inj done).symm nonzero
  | some node =>
      rw [found] at done
      have same : node = proc := Option.some.inj done
      rw [← same]
      exact reaches.nodes walk node (List.mem_of_find?_eq_some found)

/-! ## The timer -/

theorem Tracked.pitProc (tracked : m.Tracked known) (isKnown : known p) :
    (m.pitProc p).Tracked known := by
  rcases pitProc_cases m p with same | ⟨_, _, _, cleaned⟩ | ⟨_, _, woken⟩
  · rw [same]
    exact tracked
  · rw [cleaned]
    have own : (m.cleanedUp p).fdsOf p = (m.fdsOf p).map fun _ => -1 := by
      rw [fdsOf, cleanedUp_procs]
      rfl
    have gone : ∀ (i : Nat) idx, ((m.cleanedUp p).fdsOf p)[i]? = some idx →
        idx = -1 := by
      intro i idx entry
      rw [own, List.getElem?_map] at entry
      obtain ⟨_, _, same⟩ := Option.map_eq_some_iff.mp entry
      exact same.symm
    have files : (m.cleanedUp p).files =
        ((m.fdsOf p).filter (· ≠ -1)).foldl fileClose m.files := rfl
    refine ⟨tracked.files.closed isKnown files (fun idx inside => ?_)
      (fun i idx entry notNone => absurd (gone i idx entry) notNone)
      fun q different => ?_, ?_⟩
    · obtain ⟨member, notNone⟩ := List.mem_filter.mp inside
      obtain ⟨i, entry⟩ := List.mem_iff_getElem?.mp member
      exact ⟨i, entry, by simpa using notNone, gone i⟩
    · rw [fdsOf, cleanedUp_other m different]
      rfl
    · have same := cleanedUp_same m p
      exact tracked.reaches.congr same.next same.procList same.curr same.idle
  · rw [woken]
    exact tracked.untouched (untouched_setProc rfl)

theorem Tracked.foldl_pitProc (nodes : List Nat)
    (tracked : m.Tracked known) (inside : ∀ p ∈ nodes, known p) :
    (nodes.foldl Machine.pitProc m).Tracked known :=
  Machine.foldl_pitProc nodes m (fun mid => mid.Tracked known) tracked
    fun _ held p member => held.pitProc (inside p member)

theorem Tracked.tick (tracked : m.Tracked known)
    (done : m.tick = some m') : m'.Tracked known := by
  obtain ⟨mid, handled, scheduled⟩ := Option.bind_eq_some_iff.mp done
  refine Tracked.schedule ?_ scheduled
  have counted : ({ m with
      tickCount := u32 (m.tickCount + 1) } : Machine).Tracked known :=
    tracked.untouched ⟨fun _ => rfl, rfl, rfl, rfl, rfl, rfl⟩
  rw [pitHandler] at handled
  simp only [Option.bind_eq_bind, Option.pure_def] at handled
  split at handled
  case isTrue =>
    obtain ⟨nodes, walk, handled⟩ := Option.bind_eq_some_iff.mp handled
    rw [← Option.some.inj handled]
    exact counted.foldl_pitProc nodes (tracked.reaches.nodes walk)
  case isFalse =>
    rw [← Option.some.inj handled]
    exact counted

/-! ## The calls on files -/

theorem fileOf_some {fd idx : Int} (found : m.fileOf fd = some idx) :
    (m.fdsOf m.curr)[fd.toNat]? = some idx ∧ idx ≠ -1 := by
  rw [fileOf] at found
  split at found
  case isTrue => simp at found
  case isFalse =>
    split at found
    case isTrue => simp at found
    case isFalse notNone =>
      have same := Option.some.inj found
      rw [same] at notNone
      refine ⟨?_, notNone⟩
      rw [List.getD_eq_getElem?_getD] at same
      change (m.fdsOf m.curr)[fd.toNat]?.getD (-1) = idx at same
      cases entry : (m.fdsOf m.curr)[fd.toNat]? with
      | none =>
          rw [entry] at same
          exact absurd same.symm notNone
      | some other =>
          rw [entry] at same
          rw [← same]
          rfl

theorem Tracked.sysOpen (tracked : m.Tracked known)
    {stack : DirSlot} {path : CString} {writable : Bool}
    (done : m.sysOpen stack path writable = some m') :
    m'.Tracked known := by
  rw [Machine.sysOpen] at done
  split at done
  case h_1 => exact Option.some.inj done ▸ tracked
  case h_2 free _ =>
    simp only [Option.bind_eq_bind, Option.pure_def] at done
    obtain ⟨⟨idx, files⟩, opened, done⟩ := Option.bind_eq_some_iff.mp done
    rcases fileOpen_entry opened with
      ⟨failed, same⟩ | ⟨slot, file, bounded, index, unused, inUse, inFile,
        openFiles⟩
    · rw [if_pos (by omega)] at done
      rw [← Option.some.inj done]
      exact tracked.untouched ⟨fun _ => rfl, same, rfl, rfl, rfl, rfl⟩
    · rw [if_neg (by omega)] at done
      rw [← Option.some.inj done]
      refine ⟨tracked.files.opened bounded unused inUse inFile openFiles
        (p := m.curr) (i := free) ?_ fun q different => ?_,
        tracked.reaches.congr rfl rfl rfl rfl⟩
      · rw [← index]
        exact fdsOf_setProc ..
      · exact fdsOf_setProc_other _ _ different

theorem Tracked.sysClose (tracked : m.Tracked known)
    (isKnown : known m.curr) (fd : Int) : (m.sysClose fd).Tracked known := by
  rw [Machine.sysClose]
  split
  case h_1 => exact tracked
  case h_2 idx found =>
    obtain ⟨entry, notNone⟩ := fileOf_some found
    have after : ∀ i : Nat, ((m.fdsOf m.curr).set fd.toNat (-1))[i]? =
        if fd.toNat = i ∧ i < (m.fdsOf m.curr).length then some (-1)
        else (m.fdsOf m.curr)[i]? := by
      intro i
      rw [List.getElem?_set]
      by_cases same : fd.toNat = i
      · subst same
        by_cases inside : fd.toNat < (m.fdsOf m.curr).length
        · simp [inside]
        · simp [inside]
      · simp [same]
    have inside := (List.getElem?_eq_some_iff.mp entry).1
    have own : (({ m with files := fileClose m.files idx } : Machine).setProc
        m.curr fun fields =>
          { fields with fds := fields.fds.set fd.toNat (-1) }).fdsOf m.curr =
        (m.fdsOf m.curr).set fd.toNat (-1) := fdsOf_setProc ..
    have files : fileClose m.files idx = [idx].foldl fileClose m.files := rfl
    refine ⟨tracked.files.closed isKnown files
      (fun other member => ?_) (fun i other is otherNone => ?_)
      fun q different => ?_, tracked.reaches.congr rfl rfl rfl rfl⟩
    · rw [List.mem_singleton.mp member]
      refine ⟨fd.toNat, entry, notNone, fun idx' is => ?_⟩
      rw [own, after, if_pos ⟨rfl, inside⟩] at is
      exact (Option.some.inj is).symm
    · rw [own, after] at is
      split at is
      case isTrue => exact absurd (Option.some.inj is).symm otherNone
      case isFalse => exact is
    · exact fdsOf_setProc_other _ _ different

theorem Tracked.sysRead (tracked : m.Tracked known) {fd : Int}
    {heap : Option Bytes} {len : UInt32}
    (done : m.sysRead fd heap len = some m') : m'.Tracked known := by
  rw [Machine.sysRead] at done
  split at done
  case h_1 => exact Option.some.inj done ▸ tracked
  case h_2 idx _ =>
    simp only [Option.bind_eq_bind, Option.pure_def] at done
    obtain ⟨read, reads, done⟩ := Option.bind_eq_some_iff.mp done
    rw [← Option.some.inj done]
    rcases fileRead_entry reads with
      same | ⟨slot, file, bounded, _, used, inUse, inFile, openFiles⟩
    · exact tracked.untouched ⟨fun _ => rfl, same, rfl, rfl, rfl, rfl⟩
    · exact ⟨tracked.files.entry (fun _ => rfl) inUse
        (inFile (tracked.files.offsets slot bounded used)) openFiles,
        tracked.reaches.congr rfl rfl rfl rfl⟩

theorem Tracked.sysWrite (tracked : m.Tracked known) {fd : Int}
    {stack : DirSlot} {data : Bytes} {len : UInt32}
    (done : m.sysWrite fd stack data len = some m') : m'.Tracked known := by
  rw [Machine.sysWrite] at done
  split at done
  case h_1 => exact Option.some.inj done ▸ tracked
  case h_2 idx _ =>
    simp only [Option.bind_eq_bind, Option.pure_def] at done
    obtain ⟨⟨code, files⟩, writes, done⟩ := Option.bind_eq_some_iff.mp done
    rw [← Option.some.inj done]
    rcases fileWrite_entry writes with
      same | ⟨slot, file, _, _, _, inUse, inFile, openFiles⟩
    · exact tracked.untouched ⟨fun _ => rfl, same, rfl, rfl, rfl, rfl⟩
    · exact ⟨tracked.files.entry (fun _ => rfl) inUse inFile openFiles,
        tracked.reaches.congr rfl rfl rfl rfl⟩

/-! ## The other calls -/

theorem procUnlink_procs {tasks tasks' : Tasks} {proc : Nat}
    (done : tasks.procUnlink proc = some tasks') :
    tasks'.procs = tasks.procs := by
  rw [Tasks.procUnlink] at done
  simp only [Option.bind_eq_bind, Option.pure_def] at done
  split at done
  case isTrue => rw [← Option.some.inj done]
  case isFalse =>
    obtain ⟨nodes, _, done⟩ := Option.bind_eq_some_iff.mp done
    split at done <;> rw [← Option.some.inj done]

theorem Tracked.sysSpawn (tracked : m.Tracked known) {child : Process}
    (created : m.Created child) :
    (m.sysSpawn child).Tracked fun p => known p ∨ p = child.addr := by
  have none : ∀ (i : Nat) idx,
      ((m.sysSpawn child).fdsOf child.addr)[i]? = some idx → idx = -1 := by
    intro i idx entry
    have fds : (m.sysSpawn child).fdsOf child.addr =
        List.replicate maxFdsPerProc (-1) := by
      rw [fdsOf, sysSpawn_child]
      exact created.fds
    rw [fds] at entry
    exact List.eq_of_mem_replicate (List.mem_of_getElem? entry)
  have links : Reaches (m.tasks.schedulerAdd child.addr)
      fun p => known p ∨ p = child.addr := tracked.reaches.schedulerAdd
  refine ⟨tracked.files.fewer (fun p inside i idx entry notNone => ?_)
    (fun _ _ _ _ _ used => used) tracked.files.offsets,
    links.congr rfl rfl rfl rfl⟩
  by_cases same : p = child.addr
  · exact absurd (none i idx (same ▸ entry)) notNone
  · rw [fdsOf, sysSpawn_other same] at entry
    exact ⟨inside.resolve_right same, entry⟩

theorem Tracked.sysKill (tracked : m.Tracked known) {pid : Nat}
    (done : m.sysKill pid = some m') : m'.Tracked known := by
  rw [Machine.sysKill] at done
  simp only [Option.bind_eq_bind, Option.pure_def] at done
  obtain ⟨proc, _, done⟩ := Option.bind_eq_some_iff.mp done
  split at done
  case isTrue => exact Option.some.inj done ▸ tracked
  case isFalse =>
    have dead : (m.markDead proc).Tracked known :=
      tracked.untouched (untouched_setProc rfl)
    have marked : (if m.tasks.stateOf proc ≠ .dead then
        (m.markDead proc).record (.died pid (-1))
        else m.markDead proc).Tracked known := by
      split
      case isTrue => exact dead.untouched (untouched_record _)
      case isFalse => exact dead
    have ended : ∀ mid : Machine, mid.Tracked known →
        (if proc = mid.curr then mid.schedule else some mid) = some m' →
        m'.Tracked known := by
      intro mid held done
      split at done
      case isTrue => exact held.schedule done
      case isFalse => exact Option.some.inj done ▸ held
    obtain ⟨tasks, woken, done⟩ := Option.bind_eq_some_iff.mp done
    exact ended _ (marked.untouched
      (untouched_eachProc woken (wakeWaiter_fds _))) done

theorem Tracked.sysWait (tracked : m.Tracked known) {pid : Nat}
    (done : m.sysWait pid = some m') : m'.Tracked known := by
  rw [Machine.sysWait] at done
  simp only [Option.bind_eq_bind, Option.pure_def] at done
  obtain ⟨proc, _, done⟩ := Option.bind_eq_some_iff.mp done
  split at done
  case isTrue => exact Option.some.inj done ▸ tracked
  case isFalse =>
    split at done
    case isTrue =>
      exact Option.some.inj done ▸ tracked.untouched (untouched_record _)
    case isFalse =>
      refine Tracked.schedule ?_ done
      exact (tracked.untouched (untouched_setProc rfl)).untouched
        (untouched_setPending _)

theorem Tracked.resume (tracked : m.Tracked known)
    (done : m.resume = some m') : m'.Tracked known := by
  have rest : (m.setPending m.curr .none).Tracked known :=
    tracked.untouched (untouched_setPending _)
  rw [Machine.resume] at done
  split at done
  case h_1 => simp at done
  case h_2 pid _ =>
    rw [resumeWait] at done
    simp only [Option.bind_eq_bind, Option.pure_def] at done
    obtain ⟨proc, found, done⟩ := Option.bind_eq_some_iff.mp done
    split at done
    case isTrue => simp at done
    case isFalse nonzero =>
      obtain ⟨tasks, unlinked, done⟩ := Option.bind_eq_some_iff.mp done
      rw [← Option.some.inj done]
      have isKnown := rest.reaches.processFind found nonzero
      have procs : tasks.procs = m.tasks.procs := procUnlink_procs unlinked
      refine ⟨rest.files.same (fun p => ?_) rfl,
        (rest.reaches.procUnlink isKnown unlinked).congr rfl rfl rfl rfl⟩
      change (tasks.procs p).fds = _
      rw [procs]
      rfl
  case h_3 =>
    rw [← Option.some.inj done]
    exact rest.untouched ⟨fun _ => rfl, rfl, rfl, rfl, rfl, rfl⟩

theorem Tracked.key (tracked : m.Tracked known) {scancode : UInt8}
    (done : m.key scancode = some m') : m'.Tracked known := by
  have stored : ({ m with
      kbd := (m.kbd.interrupt scancode).1 } : Machine).Tracked known :=
    tracked.untouched (untouched_kbd _)
  rw [Machine.key] at done
  simp only [Option.bind_eq_bind, Option.pure_def] at done
  split at done
  case isTrue =>
    obtain ⟨nodes, _, done⟩ := Option.bind_eq_some_iff.mp done
    split at done
    case h_1 => exact Option.some.inj done ▸ stored
    case h_2 =>
      exact Option.some.inj done ▸ stored.untouched (untouched_setProc rfl)
  case isFalse => exact Option.some.inj done ▸ stored

theorem Tracked.fault (tracked : m.Tracked known)
    (done : m.fault = some m') : m'.Tracked known := by
  rw [Machine.fault] at done
  simp only [Option.bind_eq_bind] at done
  split at done
  case isTrue => simp at done
  case isFalse =>
    obtain ⟨tasks, woken, done⟩ := Option.bind_eq_some_iff.mp done
    refine Tracked.schedule ?_ done
    exact ((tracked.untouched (untouched_setProc rfl)).untouched
      (untouched_record _)).untouched
        (untouched_eachProc woken (wakeFaulted_fds _))

theorem Tracked.sysExit (tracked : m.Tracked known) {code : Int}
    (done : m.sysExit code = some m') : m'.Tracked known := by
  rw [Machine.sysExit] at done
  simp only [Option.bind_eq_bind] at done
  obtain ⟨tasks, woken, done⟩ := Option.bind_eq_some_iff.mp done
  refine Tracked.schedule ?_ done
  exact ((tracked.untouched (untouched_setProc rfl)).untouched
    (untouched_record _)).untouched
      (untouched_eachProc woken (wakeWaiter_fds _))

theorem Tracked.sysGetchar (tracked : m.Tracked known)
    (done : m.sysGetchar = some m') : m'.Tracked known := by
  rw [Machine.sysGetchar] at done
  split at done
  case h_1 =>
    refine Tracked.schedule ?_ done
    exact ((tracked.untouched (untouched_kbd _)).untouched
      (untouched_setProc rfl)).untouched (untouched_setPending _)
  case h_2 =>
    rw [← Option.some.inj done]
    exact (tracked.untouched (untouched_kbd _)).untouched
      (untouched_record _)

theorem Tracked.syscallDispatch (tracked : m.Tracked known)
    (program : m.curr ≠ m.tasks.idleProc) {call : Call}
    (created : ∀ child, call = .spawn child → m.Created child)
    (done : m.syscallDispatch call = some m') :
    ∃ known', m'.Tracked known' := by
  have isKnown : known m.curr := tracked.reaches.curr.resolve_right program
  cases call with
  | exit code => exact ⟨known, tracked.sysExit done⟩
  | yieldHlt => exact ⟨known, tracked.schedule done⟩
  | kill pid => exact ⟨known, tracked.sysKill done⟩
  | wait pid => exact ⟨known, tracked.sysWait done⟩
  | sleep ms =>
      exact ⟨known, (tracked.untouched (untouched_setProc rfl)).schedule done⟩
  | getchar => exact ⟨known, tracked.sysGetchar done⟩
  | getcharNb =>
      exact ⟨known, Option.some.inj done ▸ tracked.untouched
        (untouched_kbd _)⟩
  | spawn child =>
      exact ⟨_, Option.some.inj done ▸ tracked.sysSpawn (created child rfl)⟩
  | «open» stack path writable =>
      exact ⟨known, tracked.sysOpen done⟩
  | close fd => exact ⟨known, Option.some.inj done ▸ tracked.sysClose isKnown fd⟩
  | read fd heap len => exact ⟨known, tracked.sysRead done⟩
  | write fd stack data len => exact ⟨known, tracked.sysWrite done⟩
  | other volume =>
      exact ⟨known, Option.some.inj done ▸ tracked.untouched
        ⟨fun _ => rfl, rfl, rfl, rfl, rfl, rfl⟩⟩

/-- Every step keeps the descriptors and the open files in order. -/
theorem Tracked.step (tracked : m.Tracked known)
    (step : Step m label m') : ∃ known', m'.Tracked known' := by
  obtain ⟨enabled, done⟩ := step
  cases enabled with
  | tick _ => exact ⟨known, tracked.tick done⟩
  | key _ => exact ⟨known, tracked.key done⟩
  | fault _ _ => exact ⟨known, tracked.fault done⟩
  | idle _ => exact ⟨known, tracked.schedule done⟩
  | call _ program created =>
      exact tracked.syscallDispatch program created done
  | resume _ => exact ⟨known, tracked.resume done⟩

theorem Booted.tracked (booted : m.Booted) : m.Tracked (· = m.curr) := by
  have none : ∀ (i : Nat) idx, (m.fdsOf m.curr)[i]? = some idx →
      idx = -1 := by
    intro i idx entry
    have fds : m.fdsOf m.curr = List.replicate maxFdsPerProc (-1) :=
      booted.fds
    rw [fds] at entry
    exact List.eq_of_mem_replicate (List.mem_of_getElem? entry)
  refine ⟨⟨?_, ?_, fun slot _ used => ?_⟩,
    ⟨fun _ => booted.list.1, ?_, .inl rfl, ?_⟩⟩
  · rintro p rfl i idx entry notNone
    exact absurd (none i idx entry) notNone
  · rintro p q rfl _ i j idx entry _ notNone
    exact absurd (none i idx entry) notNone
  · rw [booted.files slot] at used
    simp at used
  · rintro p rfl nonzero
    exact absurd booted.list.2 nonzero
  · exact fun nonzero => absurd booted.idle.2.2 nonzero

theorem Reaches.path {tasks : Tasks} (reaches : Reaches tasks known)
    {head : Nat} {nodes : List Nat}
    (path : Path tasks.next (· = 0) head nodes)
    (isHead : head ≠ 0 → known head) : ∀ p ∈ nodes, known p := by
  induction path with
  | done _ => simp
  | @more node rest going _ inductionHypothesis =>
      intro p member
      rcases List.mem_cons.mp member with rfl | later
      · exact isHead going
      · exact inductionHypothesis (reaches.next node (isHead going)) p later

/-- Two processes open one file, one of them writes and reads it, the other
one exits and its descriptor is closed by the timer. -/
def sampleFiles : List Label :=
  [.call (.spawn (sampleNew 0x3000 2)),
    .call (.open .unset [0x2f, 0x41] true), .tick,
    .call (.open .unset [0x2f, 0x41] false), .tick,
    .call (.write 0 .unset (fun _ => 65) 2),
    .call (.read 0 (some fun _ => 0) 2), .tick, .call (.exit 0), .tick]

end Machine

end LoafOs
