import LoafOs.Fs.ChainWalks
import LoafOs.Fs.FileReads

/-!
# The buffer of a read

`file_read` asks `kmalloc` for a buffer by the size that the handle keeps,
and `fat_read_file` stores every cluster of the chain that the path leads to
now.  A transfer that fails has stored the sectors before the bad one.
-/

namespace LoafOs

open Links

/-- The sectors that `read_lba` stores, up to the first bad one. -/
def sectorsMoved (disk : Disk) (lba : Nat) : (count pass : Nat) → Nat
  | 0, _ => 0
  | count + 1, pass =>
      if disk.bad (lbaToChs (u32 (lba + pass))) then 0
      else sectorsMoved disk lba count (pass + 1) + 1

/-- The bytes of a cluster that `fat_read_file` stores. -/
def clusterMoved (volume : Volume) (cluster : Nat) : Nat :=
  512 * sectorsMoved volume.disk (volume.bpb.clusterLba cluster)
    volume.bpb.perCluster 0

/-- The bytes that the copy loop of `fat_read_file` stores. -/
def chainMoved (volume : Volume) : (fuel cluster : Nat) → Option Nat
  | 0, _ => none
  | fuel + 1, cluster =>
      if ChainStop cluster then
        some 0
      else if clusterMoved volume cluster < volume.bpb.clusterSize then
        some (clusterMoved volume cluster)
      else do
        let rest ← chainMoved volume fuel (volume.next cluster)
        return clusterMoved volume cluster + rest

/-- The bytes that `fat_read_file` stores. -/
def fatReadMoved (volume : Volume) (path : CString) : Option Nat := do
  let resolved ← resolvePath volume path
  if resolved.code ≠ 0 then
    return 0
  if resolved.isRoot then
    return 0
  let (r, slot, _) ←
    dirLookup volume resolved.dirCluster resolved.finalName .unset false
  if r ≠ 0 ∨ ¬ slot.existing then
    return 0
  match readLba volume.disk slot.sector 1 scratch with
  | none => return 0
  | some sectorBuf =>
      chainMoved volume chainFuel (direntFirst sectorBuf slot.offset)

/-- The clusters to which the path leads now, as far as they can be read,
fit in the buffer for the size that the handle keeps. -/
def ChainFits (volume : Volume) (f : OpenFile) : Prop :=
  ∀ stat clusters, fatStat volume f.path = some (.ok stat) →
    ReadWalk volume stat.firstCluster clusters →
      (clusters.map (clusterMoved volume)).sum ≤
        (fatReadAllocSize volume.bpb f.size).toNat

section Moved

variable {disk : Disk} {volume : Volume} {path : CString}
variable {start fuel moved : Nat}

theorem sectorsMoved_le (disk : Disk) (lba : Nat) :
    ∀ count pass, sectorsMoved disk lba count pass ≤ count
  | 0, _ => Nat.le_refl _
  | count + 1, pass => by
      rw [sectorsMoved]
      split
      case isTrue => exact Nat.zero_le _
      case isFalse =>
        exact Nat.succ_le_succ (sectorsMoved_le disk lba count (pass + 1))

theorem readLbaLoop_moved (lba : Nat) :
    ∀ (count pass : Nat) (buffer : Bytes),
      readLbaLoop disk lba count pass buffer = none ↔
        sectorsMoved disk lba count pass < count
  | 0, pass, buffer => by simp [readLbaLoop]
  | count + 1, pass, buffer => by
      rw [readLbaLoop, sectorsMoved, ataReadSectors]
      split
      case isTrue => simp
      case isFalse =>
        rw [Nat.succ_lt_succ_iff]
        exact readLbaLoop_moved lba count (pass + 1) _

/-- Fewer bytes than a cluster are stored when the transfer fails. -/
theorem clusterMoved_lt_iff {cluster : Nat} :
    clusterMoved volume cluster < volume.bpb.clusterSize ↔
      Unreadable volume cluster := by
  rw [Unreadable, readLba, readLbaLoop_moved, clusterMoved, Bpb.clusterSize]
  omega

/-- The loop stores the bytes of the clusters that it walks over. -/
theorem chainMoved_walk
    (result : chainMoved volume fuel start = some moved) :
    ∃ clusters, ReadWalk volume start clusters ∧
      moved = (clusters.map (clusterMoved volume)).sum := by
  induction fuel generalizing start moved with
  | zero => cases result
  | succ fuel inductionHypothesis =>
      rw [chainMoved] at result
      split at result
      case isTrue stopped =>
        cases result
        exact ⟨[], .stop stopped, rfl⟩
      case isFalse going =>
        split at result
        case isTrue short =>
          cases result
          exact ⟨[start], .exit going (clusterMoved_lt_iff.mp short),
            (List.sum_singleton).symm⟩
        case isFalse long =>
          obtain ⟨rest, behind, same⟩ := Option.bind_eq_some_iff.mp result
          cases same
          obtain ⟨clusters, walk, rfl⟩ := inductionHypothesis behind
          have stays : ¬ Unreadable volume start := fun left =>
            long (clusterMoved_lt_iff.mpr left)
          exact ⟨start :: clusters, .step going stays walk,
            (List.sum_cons).symm⟩

theorem ReadWalk.unique {left right : List Nat}
    (first : ReadWalk volume start left)
    (second : ReadWalk volume start right) : left = right := by
  induction first generalizing right with
  | stop stopped =>
      cases second with
      | stop _ => rfl
      | exit going _ => exact absurd stopped going
      | step going _ _ => exact absurd stopped going
  | exit going leaves =>
      cases second with
      | stop stopped => exact absurd stopped going
      | exit _ _ => rfl
      | step _ stays _ => exact absurd leaves stays
  | step going stays tail inductionHypothesis =>
      cases second with
      | stop stopped => exact absurd stopped going
      | exit _ leaves => exact absurd leaves stays
      | step _ _ tail' => rw [inductionHypothesis tail']

/-- What `chainMoved` counts is what `fat_read_file` reports as stored. -/
theorem chainMoved_of_readChain {stored stored' : Nat} {dest dest' : Bytes}
    (done : readChain volume fuel start stored dest =
      some (0, stored', dest')) :
    ∃ moved, chainMoved volume fuel start = some moved ∧
      stored' = stored + moved := by
  induction fuel generalizing start stored dest with
  | zero => cases done
  | succ fuel inductionHypothesis =>
      rw [readChain] at done
      rw [chainMoved]
      split at done
      case isTrue stopped =>
        cases done
        exact ⟨0, if_pos stopped, rfl⟩
      case isFalse going =>
        split at done
        case h_1 => cases done
        case h_2 out readable =>
          have stays : ¬ Unreadable volume start := fun left => by
            rw [(unreadable_iff _ _).mpr left] at readable
            cases readable
          have long := fun short => stays (clusterMoved_lt_iff.mp short)
          have whole : clusterMoved volume start = volume.bpb.clusterSize := by
            have most := sectorsMoved_le volume.disk
              (volume.bpb.clusterLba start) volume.bpb.perCluster 0
            have least := Nat.not_lt.mp long
            rw [clusterMoved, Bpb.clusterSize] at least ⊢
            omega
          obtain ⟨moved, behind, same⟩ := inductionHypothesis done
          refine ⟨clusterMoved volume start + moved, ?_, by omega⟩
          rw [if_neg going, if_neg long, behind]
          rfl

theorem fatReadMoved_of_read {dest : Bytes} {read : FileRead}
    (done : fatReadFile volume path dest = some read)
    (ok : read.code = 0) : fatReadMoved volume path = some read.stored := by
  rw [fatReadFile] at done
  rw [fatReadMoved]
  simp only [Option.bind_eq_bind, Option.pure_def] at done ⊢
  obtain ⟨resolved, isResolved, done⟩ := Option.bind_eq_some_iff.mp done
  rw [isResolved, Option.bind_some]
  split at done
  case isTrue =>
    cases done
    cases ok
  case isFalse found =>
    split at done
    case isTrue =>
      cases done
      cases ok
    case isFalse notRoot =>
      obtain ⟨⟨r, slot, volume'⟩, isSlot, done⟩ :=
        Option.bind_eq_some_iff.mp done
      dsimp only at done
      rw [if_neg found, if_neg notRoot, isSlot, Option.bind_some]
      dsimp only
      split at done
      case isTrue =>
        cases done
        cases ok
      case isFalse existing =>
        rw [if_neg existing]
        generalize readLba volume.disk slot.sector 1 scratch = sector
          at done ⊢
        cases sector with
        | none =>
          cases done
          cases ok
        | some sectorBuf =>
          obtain ⟨⟨code, stored, dest'⟩, copied, done⟩ :=
            Option.bind_eq_some_iff.mp done
          cases done
          change code = 0 at ok
          subst ok
          obtain ⟨moved, isMoved, same⟩ := chainMoved_of_readChain copied
          rw [Nat.zero_add] at same
          subst same
          exact isMoved

/-- What is read is the chain that `fat_stat` reports, if there is one. -/
theorem fatReadMoved_stat (result : fatReadMoved volume path = some moved) :
    (moved = 0 ∧ ∀ stat, fatStat volume path = some (.ok stat) →
      ChainStop stat.firstCluster) ∨
    ∃ stat, fatStat volume path = some (.ok stat) ∧
      chainMoved volume chainFuel stat.firstCluster = some moved := by
  rw [fatReadMoved] at result
  rw [fatStat]
  simp only [Option.bind_eq_bind, Option.pure_def] at result ⊢
  obtain ⟨resolved, isResolved, result⟩ := Option.bind_eq_some_iff.mp result
  rw [isResolved, Option.bind_some]
  split at result
  case isTrue failed =>
    cases result
    rw [if_pos failed]
    exact .inl ⟨rfl, fun stat found => nomatch found⟩
  case isFalse found =>
    rw [if_neg found]
    split at result
    case isTrue root =>
      cases result
      rw [if_pos root]
      refine .inl ⟨rfl, fun stat isStat => ?_⟩
      cases isStat
      exact .inl (by decide)
    case isFalse notRoot =>
      rw [if_neg notRoot]
      obtain ⟨⟨r, slot, volume'⟩, isSlot, result⟩ :=
        Option.bind_eq_some_iff.mp result
      rw [isSlot, Option.bind_some]
      dsimp only at result ⊢
      split at result
      case isTrue missing =>
        cases result
        rw [if_pos missing]
        exact .inl ⟨rfl, fun stat found => nomatch found⟩
      case isFalse existing =>
        rw [if_neg existing]
        generalize readLba volume.disk slot.sector 1 scratch = sector
          at result ⊢
        cases sector with
        | none =>
          cases result
          exact .inl ⟨rfl, fun stat found => nomatch found⟩
        | some sectorBuf =>
          exact .inr ⟨_, rfl, result⟩

/-- Reading stores what fits exactly if the chain fits. -/
theorem fatReadMoved_iff {f : OpenFile}
    (result : fatReadMoved volume f.path = some moved) :
    moved ≤ (fatReadAllocSize volume.bpb f.size).toNat ↔
      ChainFits volume f := by
  rcases fatReadMoved_stat result with ⟨rfl, stops⟩ | ⟨stat, isStat, chain⟩
  · refine iff_of_true (Nat.zero_le _) fun stat clusters isStat walk => ?_
    rw [walk.unique (.stop (stops stat isStat))]
    exact Nat.zero_le _
  · obtain ⟨clusters, walk, rfl⟩ := chainMoved_walk chain
    constructor
    · intro fits stat' clusters' isStat' walk'
      rw [isStat, Option.some.injEq, Except.ok.injEq] at isStat'
      subst isStat'
      rwa [walk'.unique walk]
    · exact fun fits => fits stat clusters isStat walk

end Moved

/-! ## Runs -/

/-- A buffer that was filled: the volume and the handle before the read, and
the bytes stored. -/
structure BufferFill where
  volume : Volume
  file : OpenFile
  moved : Nat

/-- The size of the buffer. -/
def BufferFill.asked (fill : BufferFill) : Nat :=
  (fatReadAllocSize fill.volume.bpb fill.file.size).toNat

/-- The file system, and the buffers that the reads have filled so far. -/
structure ReadBuffers where
  fs : FileSystem
  fills : List BufferFill

namespace ReadBuffers

/-- `kmalloc` and `fat_read_file` in `file_read`. -/
def fill (s : ReadBuffers) : FileCall → Option (List BufferFill)
  | .read (some _) idx _ =>
      match s.fs.handle idx with
      | none => some []
      | some f => do
          let moved ← fatReadMoved s.fs.volume f.path
          return [⟨s.fs.volume, f, moved⟩]
  | _ => some []

def run (s : ReadBuffers) (call : FileCall) : Option ReadBuffers := do
  let fills ← s.fill call
  let after ← FileReads.run ⟨s.fs, []⟩ call
  return ⟨after.fs, fills ++ s.fills⟩

def Step (s : ReadBuffers) (call : FileCall) (s' : ReadBuffers) : Prop :=
  s.run call = some s'

theorem fill_iff {s : ReadBuffers} {call : FileCall}
    {fills : List BufferFill} (filled : s.fill call = some fills) :
    ∀ fill ∈ fills, fill.moved ≤ fill.asked ↔
      ChainFits fill.volume fill.file := by
  intro fill member
  cases call with
  | read heap idx len =>
      cases heap with
      | none =>
          cases filled
          cases member
      | some heap =>
          rw [ReadBuffers.fill] at filled
          split at filled
          case h_1 =>
            cases filled
            cases member
          case h_2 f _ =>
            obtain ⟨moved, isMoved, same⟩ :=
              Option.bind_eq_some_iff.mp filled
            cases same
            rw [List.mem_singleton.mp member]
            exact fatReadMoved_iff isMoved
  | «open» stack path writable =>
      cases filled
      cases member
  | close idx =>
      cases filled
      cases member
  | write idx stack data len =>
      cases filled
      cases member
  | unlink path =>
      cases filled
      cases member

end ReadBuffers

/-- In every run of opens, closes, reads, writes and unlinks, a read stores
no more than it asked for exactly if the chain of its file fits. -/
theorem readBuffers_run {s s' : ReadBuffers} {calls : List FileCall}
    (start : s.fills = []) (run : Runs.Run ReadBuffers.Step s calls s') :
    ∀ fill ∈ s'.fills, fill.moved ≤ fill.asked ↔
      ChainFits fill.volume fill.file := by
  refine run.invariant
    (fun s => ∀ fill ∈ s.fills, fill.moved ≤ fill.asked ↔
      ChainFits fill.volume fill.file)
    (fun before call after kept step => ?_) (by simp [start])
  obtain ⟨fills, filled, step⟩ := Option.bind_eq_some_iff.mp step
  obtain ⟨next, _, same⟩ := Option.bind_eq_some_iff.mp step
  rw [← Option.some.inj same]
  intro fill member
  rcases List.mem_append.mp member with new | old
  · exact ReadBuffers.fill_iff filled fill new
  · exact kept fill old

/-! The sample directory is opened like a file; its entry has size 0. -/

namespace ReadBuffers

def runAll : List FileCall → ReadBuffers → Option ReadBuffers
  | [], s => some s
  | call :: calls, s => (s.run call).bind (runAll calls)

theorem runAll_run : ∀ {calls : List FileCall} {s s' : ReadBuffers},
    runAll calls s = some s' → Runs.Run Step s calls s'
  | [], _, _, done => by
      cases done
      exact .nil
  | _ :: _, _, _, done => by
      obtain ⟨_, first, rest⟩ := Option.bind_eq_some_iff.mp done
      exact .cons first (runAll_run rest)

end ReadBuffers

def sampleUnread : ReadBuffers := ⟨sampleSystem sampleStored, []⟩

/-- The bytes stored and asked for. -/
def filledBytes (s : ReadBuffers) : List (Nat × Nat) :=
  s.fills.map fun fill => (fill.moved, fill.asked)

def sampleFileRead : List FileCall :=
  [.open .unset sampleFile false, .read (some usedHeap) 0 4]

def sampleDirectoryRead : List FileCall :=
  [.open .unset samplePath false, .read (some usedHeap) 0 4]

theorem sampleFileRead_filled :
    (ReadBuffers.runAll sampleFileRead sampleUnread).map filledBytes =
      some [(1024, 1024)] := by
  decide +kernel

theorem sampleDirectoryRead_filled :
    (ReadBuffers.runAll sampleDirectoryRead sampleUnread).map filledBytes =
      some [(512, 0)] := by
  decide +kernel

theorem sampleFileRead_fits : ∃ s',
    ReadBuffers.runAll sampleFileRead sampleUnread = some s' ∧
      ∀ fill ∈ s'.fills, fill.moved ≤ fill.asked ↔
        ChainFits fill.volume fill.file := by
  obtain ⟨s', done, _⟩ := Option.map_eq_some_iff.mp sampleFileRead_filled
  exact ⟨s', done, readBuffers_run rfl (ReadBuffers.runAll_run done)⟩

/-- A buffer of no bytes receives a cluster. -/
theorem sampleDirectoryRead_overruns :
    WellFormed sampleUnread.fs.volume ∧ ∃ s' fill,
      Runs.Run ReadBuffers.Step sampleUnread sampleDirectoryRead s' ∧
        s'.fills = [fill] ∧ ¬ fill.moved ≤ fill.asked := by
  refine ⟨sampleRun_wellFormed, ?_⟩
  obtain ⟨s', done, filled⟩ :=
    Option.map_eq_some_iff.mp sampleDirectoryRead_filled
  rw [filledBytes, List.map_eq_singleton_iff] at filled
  obtain ⟨fill, only, sizes⟩ := filled
  injection sizes with moved asked
  refine ⟨s', fill, ReadBuffers.runAll_run done, only, ?_⟩
  rw [moved, asked]
  decide

end LoafOs
