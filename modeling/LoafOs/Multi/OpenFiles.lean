import LoafOs.Fs.FileTable
import LoafOs.Multi.Execute

/-!
# Descriptors and open files

The descriptors of all processes that were ever started name entries of
`open_files` that are in use, and no two of them the same.  A process that
was freed keeps its descriptors in this count, so nothing is assumed of the
process numbers.
-/

namespace LoafOs

open Links Runs

namespace Machine

variable {m m' : Machine} {known known' : Nat → Prop} {p q i slot : Nat}
  {idx : Int} {label : Label} {labels : List Label}

def fdsOf (m : Machine) (p : Nat) : List Int := (m.tasks.procs p).fds

/-- The descriptors of the processes at the known addresses. -/
structure FilesOk (m : Machine) (known : Nat → Prop) : Prop where
  named : ∀ p, known p → ∀ (i : Nat) idx, (m.fdsOf p)[i]? = some idx →
    idx ≠ -1 → ∃ slot : Nat, slot < maxOpenFiles ∧ idx = slot ∧
      (m.files.openFiles slot).inUse = true
  once : ∀ p q, known p → known q → ∀ (i j : Nat) idx,
    (m.fdsOf p)[i]? = some idx → (m.fdsOf q)[j]? = some idx → idx ≠ -1 →
    p = q ∧ i = j
  offsets : ∀ slot, slot < maxOpenFiles →
    (m.files.openFiles slot).inUse = true →
    (m.files.openFiles slot).InFile

/-- The pointers that the scheduler follows lead to known addresses. -/
structure Reaches (tasks : Tasks) (known : Nat → Prop) : Prop where
  procList : tasks.procList ≠ 0 → known tasks.procList
  next : ∀ p, known p → tasks.next p ≠ 0 → known (tasks.next p)
  curr : known tasks.currProc ∨ tasks.currProc = tasks.idleProc
  idleNext : tasks.next tasks.idleProc ≠ 0 →
    known (tasks.next tasks.idleProc)

structure Tracked (m : Machine) (known : Nat → Prop) : Prop where
  files : m.FilesOk known
  reaches : Reaches m.tasks known

/-! ## Changes of the descriptors -/

/-- Descriptors are only given up. -/
theorem FilesOk.fewer (ok : m.FilesOk known)
    (entries : ∀ p, known' p → ∀ (i : Nat) idx,
      (m'.fdsOf p)[i]? = some idx → idx ≠ -1 →
      known p ∧ (m.fdsOf p)[i]? = some idx)
    (inUse : ∀ p, known' p → ∀ (i slot : Nat),
      (m'.fdsOf p)[i]? = some (slot : Int) →
      (m.files.openFiles slot).inUse = true →
      (m'.files.openFiles slot).inUse = true)
    (offsets : ∀ slot, slot < maxOpenFiles →
      (m'.files.openFiles slot).inUse = true →
      (m'.files.openFiles slot).InFile) : m'.FilesOk known' := by
  refine ⟨fun p isKnown i idx entry notNone => ?_,
    fun p q left right i j idx first second notNone => ?_, offsets⟩
  · obtain ⟨before, old⟩ := entries p isKnown i idx entry notNone
    obtain ⟨slot, bounded, index, used⟩ := ok.named p before i idx old notNone
    exact ⟨slot, bounded, index,
      inUse p isKnown i slot (index ▸ entry) used⟩
  · obtain ⟨wasLeft, one⟩ := entries p left i idx first notNone
    obtain ⟨wasRight, two⟩ := entries q right j idx second notNone
    exact ok.once p q wasLeft wasRight i j idx one two notNone

theorem FilesOk.same (ok : m.FilesOk known)
    (fds : ∀ p, m'.fdsOf p = m.fdsOf p)
    (openFiles : m'.files.openFiles = m.files.openFiles) :
    m'.FilesOk known := by
  refine ok.fewer (fun p isKnown i idx entry _ => ⟨isKnown, ?_⟩)
    (fun _ _ _ slot _ used => ?_) fun slot bounded used => ?_
  · rwa [fds] at entry
  · rwa [openFiles]
  · rw [openFiles] at used ⊢
    exact ok.offsets slot bounded used

/-- An entry that is in use gets another offset or size. -/
theorem FilesOk.entry (ok : m.FilesOk known) {file : OpenFile}
    (fds : ∀ p, m'.fdsOf p = m.fdsOf p) (inUse : file.inUse = true)
    (inFile : file.InFile)
    (openFiles : m'.files.openFiles =
      Function.update m.files.openFiles slot file) : m'.FilesOk known := by
  refine ok.fewer (fun p isKnown i idx entry _ => ⟨isKnown, ?_⟩)
    (fun _ _ _ other _ used => ?_) fun other bounded used => ?_
  · rwa [fds] at entry
  · rw [openFiles]
    by_cases same : other = slot
    · rw [same, Function.update_self]
      exact inUse
    · rwa [Function.update_of_ne same]
  · rw [openFiles] at used ⊢
    by_cases same : other = slot
    · rw [same, Function.update_self]
      exact inFile
    · rw [Function.update_of_ne same] at used ⊢
      exact ok.offsets other bounded used

/-- A descriptor is given an unused entry. -/
theorem FilesOk.opened (ok : m.FilesOk known) {file : OpenFile}
    (bounded : slot < maxOpenFiles)
    (unused : (m.files.openFiles slot).inUse = false)
    (inUse : file.inUse = true) (inFile : file.InFile)
    (openFiles : m'.files.openFiles =
      Function.update m.files.openFiles slot file)
    (own : m'.fdsOf p = (m.fdsOf p).set i slot)
    (others : ∀ q, q ≠ p → m'.fdsOf q = m.fdsOf q) : m'.FilesOk known := by
  have old : ∀ q, known q → ∀ (j : Nat) idx,
      (m'.fdsOf q)[j]? = some idx → idx ≠ -1 → (q = p ∧ j = i ∧ idx = slot) ∨
        ((m.fdsOf q)[j]? = some idx ∧ idx ≠ slot) := by
    intro q isKnown j idx entry notNone
    have different : (m.fdsOf q)[j]? = some idx → idx ≠ slot := by
      intro before same
      obtain ⟨other, _, index, used⟩ := ok.named q isKnown j idx before notNone
      have here : other = slot := by omega
      rw [here, unused] at used
      simp at used
    by_cases same : q = p
    · subst same
      rw [own, List.getElem?_set] at entry
      split at entry
      case isTrue here =>
        split at entry
        case isTrue => exact .inl ⟨rfl, here.symm, (Option.some.inj entry).symm⟩
        case isFalse => simp at entry
      case isFalse => exact .inr ⟨entry, different entry⟩
    · rw [others q same] at entry
      exact .inr ⟨entry, different entry⟩
  refine ⟨fun q isKnown j idx entry notNone => ?_,
    fun q r left right j k idx first second notNone => ?_,
    fun other inside used => ?_⟩
  · rcases old q isKnown j idx entry notNone with
      ⟨_, _, isNew⟩ | ⟨before, different⟩
    · refine ⟨slot, bounded, isNew, ?_⟩
      rw [openFiles, Function.update_self]
      exact inUse
    · obtain ⟨other, inside, index, used⟩ :=
        ok.named q isKnown j idx before notNone
      refine ⟨other, inside, index, ?_⟩
      rw [openFiles, Function.update_of_ne (by omega)]
      exact used
  · rcases old q left j idx first notNone with
      ⟨isP, isI, isNew⟩ | ⟨before, different⟩ <;>
    rcases old r right k idx second notNone with
      ⟨isP', isI', isNew'⟩ | ⟨before', different'⟩
    · exact ⟨isP.trans isP'.symm, isI.trans isI'.symm⟩
    · exact absurd isNew different'
    · exact absurd isNew' different
    · exact ok.once q r left right j k idx before before' notNone
  · rw [openFiles] at used ⊢
    by_cases same : other = slot
    · rw [same, Function.update_self]
      exact inFile
    · rw [Function.update_of_ne same] at used ⊢
      exact ok.offsets other inside used

/-- A process closes some of its descriptors. -/
theorem FilesOk.closed (ok : m.FilesOk known) (isKnown : known p)
    {used : List Int} (files : m'.files = used.foldl fileClose m.files)
    (held : ∀ idx ∈ used, ∃ i : Nat, (m.fdsOf p)[i]? = some idx ∧
      idx ≠ -1 ∧ ∀ idx', (m'.fdsOf p)[i]? = some idx' → idx' = -1)
    (own : ∀ (i : Nat) idx, (m'.fdsOf p)[i]? = some idx → idx ≠ -1 →
      (m.fdsOf p)[i]? = some idx)
    (others : ∀ q, q ≠ p → m'.fdsOf q = m.fdsOf q) : m'.FilesOk known := by
  have before : ∀ q, known q → ∀ (j : Nat) idx,
      (m'.fdsOf q)[j]? = some idx → idx ≠ -1 →
      (m.fdsOf q)[j]? = some idx := by
    intro q _ j idx entry notNone
    by_cases same : q = p
    · exact same ▸ own j idx (same ▸ entry) notNone
    · rwa [others q same] at entry
  refine ok.fewer (fun q inside j idx entry notNone =>
      ⟨inside, before q inside j idx entry notNone⟩)
    (fun q inside j slot entry inUse => ?_) fun slot bounded inUse => ?_
  · rw [files, foldl_fileClose_openFiles]
    split
    case isFalse => exact inUse
    case isTrue closes =>
      obtain ⟨i, was, notNone, gone⟩ := held slot closes.1
      obtain ⟨isP, isI⟩ := ok.once q p inside isKnown j i slot
        (before q inside j slot entry notNone) was notNone
      exact absurd (gone slot (isP ▸ isI ▸ entry)) notNone
  · rw [files, foldl_fileClose_openFiles] at inUse ⊢
    split at inUse
    case isTrue => simp at inUse
    case isFalse stays =>
      rw [if_neg stays]
      exact ok.offsets slot bounded inUse

/-! ## Changes of the pointers -/

theorem Reaches.listFrom {tasks : Tasks} (reaches : Reaches tasks known)
    {fuel head : Nat} {nodes : List Nat}
    (done : listFrom tasks.next fuel head = some nodes)
    (isHead : head ≠ 0 → known head) : ∀ p ∈ nodes, known p := by
  induction fuel generalizing head nodes with
  | zero =>
      rw [LoafOs.listFrom] at done
      split at done
      case isTrue =>
        rw [← Option.some.inj done]
        simp
      case isFalse => simp at done
  | succ fuel inductionHypothesis =>
      rw [LoafOs.listFrom] at done
      split at done
      case isTrue =>
        rw [← Option.some.inj done]
        simp
      case isFalse nonzero =>
        obtain ⟨rest, found, same⟩ := Option.map_eq_some_iff.mp done
        subst same
        intro p member
        rcases List.mem_cons.mp member with rfl | later
        · exact isHead nonzero
        · exact inductionHypothesis found
            (reaches.next head (isHead nonzero)) p later

theorem Reaches.following {tasks : Tasks} (reaches : Reaches tasks known)
    (isNode : known p ∨ p = tasks.idleProc)
    (nonzero : tasks.following p ≠ 0) : known (tasks.following p) := by
  rw [Tasks.following] at nonzero ⊢
  split
  case isTrue zero =>
    rw [if_pos zero] at nonzero
    exact reaches.procList nonzero
  case isFalse going =>
    rcases isNode with isKnown | isIdle
    · exact reaches.next p isKnown going
    · exact isIdle ▸ reaches.idleNext (isIdle ▸ going)

theorem Reaches.pickFrom {tasks : Tasks} (reaches : Reaches tasks known)
    {fuel start found : Nat}
    (done : tasks.pickFrom start fuel p = some found)
    (isNode : p ≠ 0 → known p) (nonzero : found ≠ 0) : known found := by
  induction fuel generalizing p with
  | zero => simp [Tasks.pickFrom] at done
  | succ fuel inductionHypothesis =>
      rw [Tasks.pickFrom] at done
      split at done
      case isTrue => exact absurd (Option.some.inj done).symm nonzero
      case isFalse going =>
        split at done
        case isTrue => exact Option.some.inj done ▸ isNode going
        case isFalse =>
          split at done
          case isTrue => exact absurd (Option.some.inj done).symm nonzero
          case isFalse =>
            exact inductionHypothesis done
              (reaches.following (.inl (isNode going)))

theorem Reaches.pickNext {tasks : Tasks} {next : Nat}
    (reaches : Reaches tasks known) (done : tasks.pickNext = some next) :
    known next ∨ next = tasks.idleProc := by
  rw [Tasks.pickNext] at done
  simp only [Option.bind_eq_bind, Option.pure_def] at done
  split at done
  case isTrue =>
    rw [← Option.some.inj done]
    split
    case isTrue => exact .inr rfl
    case isFalse nonzero => exact .inl (reaches.procList nonzero)
  case isFalse =>
    obtain ⟨found, picked, done⟩ := Option.bind_eq_some_iff.mp done
    split at done
    case isTrue nonzero =>
      rw [← Option.some.inj done]
      exact .inl (reaches.pickFrom picked (reaches.following reaches.curr)
        nonzero)
    case isFalse =>
      split at done
      case isTrue => simp at done
      case isFalse => exact .inr (Option.some.inj done).symm

theorem Reaches.procUnlink {tasks tasks' : Tasks} {proc : Nat}
    (reaches : Reaches tasks known) (isKnown : known proc)
    (done : tasks.procUnlink proc = some tasks') :
    Reaches tasks' known := by
  rw [Tasks.procUnlink] at done
  simp only [Option.bind_eq_bind, Option.pure_def] at done
  split at done
  case isTrue =>
    rw [← Option.some.inj done]
    exact ⟨reaches.next proc isKnown, reaches.next, reaches.curr,
      reaches.idleNext⟩
  case isFalse =>
    obtain ⟨nodes, _, done⟩ := Option.bind_eq_some_iff.mp done
    split at done
    case h_1 => exact Option.some.inj done ▸ reaches
    case h_2 node _ =>
      rw [← Option.some.inj done]
      have update : ∀ q, (tasks.next q ≠ 0 → known (tasks.next q)) →
          Function.update tasks.next node (tasks.next proc) q ≠ 0 →
          known (Function.update tasks.next node (tasks.next proc) q) := by
        intro q before nonzero
        by_cases same : q = node
        · rw [same, Function.update_self] at nonzero ⊢
          exact reaches.next proc isKnown nonzero
        · rw [Function.update_of_ne same] at nonzero ⊢
          exact before nonzero
      exact ⟨reaches.procList, fun q inside => update q (reaches.next q inside),
        reaches.curr, update _ reaches.idleNext⟩

theorem Reaches.schedulerAdd {tasks : Tasks} {child : Nat}
    (reaches : Reaches tasks known) :
    Reaches (tasks.schedulerAdd child) fun p => known p ∨ p = child := by
  have update : ∀ q, (q ≠ child → tasks.next q ≠ 0 →
      known (tasks.next q)) →
      Function.update tasks.next child tasks.procList q ≠ 0 →
      known (Function.update tasks.next child tasks.procList q) := by
    intro q before nonzero
    by_cases same : q = child
    · rw [same, Function.update_self] at nonzero ⊢
      exact reaches.procList nonzero
    · rw [Function.update_of_ne same] at nonzero ⊢
      exact before same nonzero
  refine ⟨fun _ => .inr rfl, fun q inside nonzero => .inl ?_,
    reaches.curr.imp_left .inl, fun nonzero => .inl ?_⟩
  · refine update q (fun other => ?_) nonzero
    exact reaches.next q (inside.resolve_right other)
  · exact update _ (fun _ => reaches.idleNext) nonzero

end Machine

end LoafOs
