import LoafOs.Fs.DirectoryCalls
import LoafOs.Lib.Walks
import Mathlib.Algebra.GroupWithZero.Nat

/-!
# The loops along cluster chains

`fat_read_file`, `dir_lookup`, `dir_is_empty` and `fat_readdir` follow the
table from cluster to cluster, and nothing in them remembers where they
have been.  Each ends after visiting every cluster at most once exactly if
the table leads it to the end of a chain or to a cluster where it returns.
-/

namespace LoafOs

open Links

/-! ## Where the loops return early -/

/-- `fat_read_file` cannot read the cluster. -/
def Unreadable (volume : Volume) (cluster : Nat) : Prop :=
  readLba volume.disk (volume.bpb.clusterLba cluster)
    volume.bpb.perCluster scratch = none

def LookupStep.goesOn : LookupStep → Bool
  | .more _ => true
  | _ => false

/-- `dir_lookup` finds the name or an end mark in the cluster, or cannot
read it. -/
def Decides (volume : Volume) (target : List UInt8) (cluster : Nat) : Prop :=
  (lookupSectors volume.disk target volume.bpb.perCluster
    (volume.bpb.clusterLba cluster) none).goesOn = false

/-- `dir_is_empty` finds an entry in the cluster, or cannot read it. -/
def Occupied (volume : Volume) (cluster : Nat) : Prop :=
  sectorsEmpty volume.disk volume.bpb.perCluster
    (volume.bpb.clusterLba cluster) ≠ some true

/-- The entries of a sector that `fat_readdir` counts, from entry `i`
on. -/
def countEntries (skipped : Bytes → Nat → Bool) (sectorBuf : Bytes) :
    (count i : Nat) → Nat
  | 0, _ => 0
  | count + 1, i =>
      (if skipped sectorBuf (32 * i) then 0 else 1) +
        countEntries skipped sectorBuf count (i + 1)

/-- The same over consecutive sectors; `none` if one cannot be read. -/
def countSectors (disk : Disk) (skipped : Bytes → Nat → Bool) :
    (count lba : Nat) → Option Nat
  | 0, _ => some 0
  | count + 1, lba => do
      let sectorBuf ← readLba disk lba 1 scratch
      let rest ← countSectors disk skipped count (u32 (lba + 1))
      return countEntries skipped sectorBuf 16 0 + rest

/-- The number of entries that `fat_readdir` counts in a cluster. -/
def entryCount (volume : Volume) (cluster : Nat) : Option Nat :=
  countSectors volume.disk skippedInChain volume.bpb.perCluster
    (volume.bpb.clusterLba cluster)

/-- `fat_readdir` returns in the cluster, with `seen` entries before it. -/
def Reports (volume : Volume) (index : Nat) : Nat × Nat → Prop :=
  fun (cluster, seen) =>
    ∀ count, entryCount volume cluster = some count → index < seen + count

/-- The next cluster, and the entries seen up to there. -/
def countNext (volume : Volume) : Nat × Nat → Nat × Nat :=
  fun (cluster, seen) =>
    (volume.next cluster, seen + (entryCount volume cluster).getD 0)

/-! ## The walks -/

/-- The clusters that the loop of `fat_read_file` reads or tries to read. -/
def ReadWalk (volume : Volume) : (start : Nat) → List Nat → Prop :=
  Walk volume.next ChainStop (Unreadable volume)

/-- The clusters that `dir_lookup` looks into; the first one it does not
test. -/
def LookupWalk (volume : Volume) (target : List UInt8) (start : Nat)
    (nodes : List Nat) : Prop :=
  Decides volume target start ∧ nodes = [start] ∨
    ¬ Decides volume target start ∧ ∃ rest, nodes = start :: rest ∧
      Walk volume.next ChainStop (Decides volume target)
        (volume.next start) rest

/-- The clusters that `dir_is_empty` looks into. -/
def EmptyWalk (volume : Volume) : (start : Nat) → List Nat → Prop :=
  Walk volume.next ChainStop (Occupied volume)

/-- The clusters that `fat_readdir` looks into. -/
def ReaddirWalk (volume : Volume) (index start : Nat) (nodes : List Nat) :
    Prop :=
  ∃ walked, nodes = walked.map Prod.fst ∧
    Walk (countNext volume) (fun node => ChainStop node.1)
      (Reports volume index) (start, 0) walked

/-- The loop returns and has visited no cluster twice. -/
def EndsOnce (walk : List Nat → Prop) (returned : Bool) : Prop :=
  ∃ nodes, nodes.Nodup ∧ walk nodes ∧ returned = true

section Walks

variable {volume : Volume} {target : List UInt8} {disk : Disk}
variable {start index seen : Nat} {nodes : List Nat}

/-- Clusters are numbers below the end mark, so a loop that visits none
twice ends within `chainFuel` passes. -/
theorem nodup_length_lt (nodup : nodes.Nodup)
    (going : ∀ cluster ∈ nodes, ¬ ChainStop cluster) :
    nodes.length + 1 < chainFuel := by
  have inside : nodes ⊆ List.range 0x0ff8 := by
    intro cluster member
    have small := going cluster member
    simp only [ChainStop, not_or] at small
    exact List.mem_range.mpr (by omega)
  have bound := (nodup.subperm inside).length_le
  rw [List.length_range] at bound
  rw [chainFuel]
  omega

/-! ### `fat_read_file` -/

theorem readLbaLoop_isSome (lba : Nat) :
    ∀ (count pass : Nat) (left right : Bytes),
      (readLbaLoop disk lba count pass left).isSome =
        (readLbaLoop disk lba count pass right).isSome
  | 0, _, _, _ => rfl
  | count + 1, pass, left, right => by
      rw [readLbaLoop, readLbaLoop, ataReadSectors, ataReadSectors]
      split
      case isTrue => rfl
      case isFalse => exact readLbaLoop_isSome lba count (pass + 1) _ _

/-- Whether a transfer fails does not depend on the buffer. -/
theorem readLba_isSome (lba count : Nat) (left right : Bytes) :
    (readLba disk lba count left).isSome =
      (readLba disk lba count right).isSome :=
  readLbaLoop_isSome lba count 0 left right

theorem unreadable_iff (cluster : Nat) (buffer : Bytes) :
    readLba volume.disk (volume.bpb.clusterLba cluster)
        volume.bpb.perCluster buffer = none ↔
      Unreadable volume cluster := by
  rw [Unreadable, ← Option.not_isSome_iff_eq_none,
    ← Option.not_isSome_iff_eq_none, readLba_isSome]

theorem readChain_isSome (walk : ReadWalk volume start nodes) :
    ∀ {fuel : Nat}, nodes.length < fuel → ∀ stored dest,
      (readChain volume fuel start stored dest).isSome = true := by
  intro fuel enough stored dest
  induction walk generalizing fuel stored dest with
  | stop stopped =>
      obtain ⟨fuel, rfl⟩ := Nat.exists_eq_add_one.mpr enough
      rw [readChain, if_pos stopped]
      rfl
  | exit going left =>
      obtain ⟨fuel, rfl⟩ := Nat.exists_eq_add_one.mpr
        (Nat.lt_of_le_of_lt (Nat.zero_le _) enough)
      rw [readChain, if_neg going, (unreadable_iff _ _).mpr left]
      rfl
  | step going stays tail inductionHypothesis =>
      obtain ⟨fuel, rfl⟩ := Nat.exists_eq_add_one.mpr
        (Nat.lt_of_le_of_lt (Nat.zero_le _) enough)
      rw [readChain, if_neg going]
      split
      case h_1 => rfl
      case h_2 =>
        exact inductionHypothesis (Nat.lt_of_succ_lt_succ enough) _ _

/-- A loop that returns has walked. -/
theorem ReadWalk.of_readChain {fuel stored : Nat} {dest : Bytes}
    (returned : (readChain volume fuel start stored dest).isSome = true) :
    ∃ nodes, ReadWalk volume start nodes := by
  induction fuel generalizing start stored dest with
  | zero => cases returned
  | succ fuel inductionHypothesis =>
      rw [readChain] at returned
      split at returned
      case isTrue stopped => exact ⟨[], .stop stopped⟩
      case isFalse going =>
        by_cases left : Unreadable volume start
        · exact ⟨[start], .exit going left⟩
        split at returned
        case h_1 failed => exact absurd ((unreadable_iff _ _).mp failed) left
        case h_2 =>
          obtain ⟨nodes, walk⟩ := inductionHypothesis returned
          exact ⟨_, .step going left walk⟩

/-! ### `dir_lookup` -/

theorem lookupEntries_goesOn (target : List UInt8) (sectorBuf : Bytes)
    (lba : Nat) :
    ∀ (count i : Nat) (left right : Option DirSlot),
      (lookupEntries sectorBuf lba target count i left).goesOn =
        (lookupEntries sectorBuf lba target count i right).goesOn
  | 0, _, _, _ => rfl
  | count + 1, i, left, right => by
      have onward := lookupEntries_goesOn target sectorBuf lba count (i + 1)
      rw [lookupEntries, lookupEntries]
      split
      case isTrue => rfl
      case isFalse =>
      split
      case isTrue => exact onward _ _
      case isFalse =>
      split
      case isTrue => exact onward _ _
      case isFalse =>
      split
      case isTrue => exact onward _ _
      case isFalse =>
      split
      case isTrue => rfl
      case isFalse => exact onward _ _

/-- Whether the scan goes on does not depend on the free slot so far. -/
theorem lookupSectors_goesOn :
    ∀ (count lba : Nat) (left right : Option DirSlot),
      (lookupSectors disk target count lba left).goesOn =
        (lookupSectors disk target count lba right).goesOn
  | 0, _, _, _ => rfl
  | count + 1, lba, left, right => by
      rw [lookupSectors, lookupSectors]
      split
      case h_1 => rfl
      case h_2 sectorBuf _ =>
        have same := lookupEntries_goesOn target sectorBuf lba
          16 0 left right
        cases before : lookupEntries sectorBuf lba target 16 0 left with
        | failed =>
            cases behind : lookupEntries sectorBuf lba target 16 0 right with
            | failed => rfl
            | done _ => rfl
            | more _ =>
                rw [before, behind] at same
                cases same
        | done _ =>
            cases behind : lookupEntries sectorBuf lba target 16 0 right with
            | failed => rfl
            | done _ => rfl
            | more _ =>
                rw [before, behind] at same
                cases same
        | more _ =>
            cases behind : lookupEntries sectorBuf lba target 16 0 right with
            | failed =>
                rw [before, behind] at same
                cases same
            | done _ =>
                rw [before, behind] at same
                cases same
            | more _ => exact lookupSectors_goesOn count _ _ _

theorem decides_iff (cluster : Nat) (freeSlot : Option DirSlot) :
    (lookupSectors volume.disk target volume.bpb.perCluster
        (volume.bpb.clusterLba cluster) freeSlot).goesOn = false ↔
      Decides volume target cluster := by
  rw [Decides, lookupSectors_goesOn _ _ freeSlot none]

theorem dirGrow_isSome (geometry : Geometry volume.bpb) (cluster : Nat)
    (slot : DirSlot) : (dirGrow volume cluster slot).isSome = true := by
  obtain ⟨taken, alloc⟩ : ∃ taken, fatAllocCluster volume = some taken :=
    ⟨_, fatAllocCluster_eq geometry⟩
  rw [dirGrow, alloc]
  simp only [Option.bind_eq_bind, Option.bind_some]
  split
  case isTrue => rfl
  case isFalse =>
  split
  case isTrue => rfl
  case isFalse =>
  split
  case isTrue => rfl
  case isFalse => rfl

/-- The loop at a cluster that does not decide. -/
theorem dirLookupChain_stays (geometry : Geometry volume.bpb)
    (stays : ¬ Decides volume target start) (slot : DirSlot)
    (create : Bool) (fuel : Nat) (freeSlot : Option DirSlot) :
    ∃ freeSlot', (dirLookupChain volume target slot create (fuel + 1) start
        freeSlot).isSome =
      if ChainStop (volume.next start) then true
      else (dirLookupChain volume target slot create fuel
        (volume.next start) freeSlot').isSome := by
  rw [dirLookupChain]
  have goesOn := mt (decides_iff start freeSlot).mp stays
  cases step : lookupSectors volume.disk target volume.bpb.perCluster
      (volume.bpb.clusterLba start) freeSlot with
  | failed => rw [step] at goesOn; exact absurd rfl goesOn
  | done _ => rw [step] at goesOn; exact absurd rfl goesOn
  | more freeSlot' =>
      refine ⟨freeSlot', ?_⟩
      simp only
      by_cases stopped : ChainStop (volume.next start)
      · rw [if_pos stopped, if_neg (not_not_intro stopped)]
        cases freeSlot' with
        | some _ => rfl
        | none =>
            cases create with
            | true => exact dirGrow_isSome geometry start slot
            | false => rfl
      · rw [if_neg stopped, if_pos stopped]

theorem dirLookupChain_decides (decides : Decides volume target start)
    (slot : DirSlot) (create : Bool) (fuel : Nat)
    (freeSlot : Option DirSlot) :
    (dirLookupChain volume target slot create (fuel + 1) start
      freeSlot).isSome = true := by
  rw [dirLookupChain]
  have ended := (decides_iff start freeSlot).mpr decides
  cases step : lookupSectors volume.disk target volume.bpb.perCluster
      (volume.bpb.clusterLba start) freeSlot with
  | failed => rfl
  | done _ => rfl
  | more _ =>
      rw [step] at ended
      cases ended

theorem dirLookupChain_isSome (geometry : Geometry volume.bpb)
    (slot : DirSlot) (create : Bool)
    (walk : Walk volume.next ChainStop (Decides volume target)
      start nodes) (going : ¬ ChainStop start) :
    ∀ {fuel : Nat}, nodes.length < fuel → ∀ freeSlot,
      (dirLookupChain volume target slot create fuel start
        freeSlot).isSome = true := by
  intro fuel enough freeSlot
  induction walk generalizing fuel freeSlot with
  | stop stopped => exact absurd stopped going
  | exit _ left =>
      obtain ⟨fuel, rfl⟩ := Nat.exists_eq_add_one.mpr
        (Nat.lt_of_le_of_lt (Nat.zero_le _) enough)
      exact dirLookupChain_decides left slot create fuel freeSlot
  | @step node rest _ stays tail inductionHypothesis =>
      obtain ⟨fuel, rfl⟩ := Nat.exists_eq_add_one.mpr
        (Nat.lt_of_le_of_lt (Nat.zero_le _) enough)
      obtain ⟨freeSlot', same⟩ := dirLookupChain_stays geometry stays slot
        create fuel freeSlot
      rw [same]
      split
      case isTrue => rfl
      case isFalse going' =>
        exact inductionHypothesis going' (Nat.lt_of_succ_lt_succ enough) _

/-- A lookup that returns has walked. -/
theorem LookupWalk.of_dirLookupChain (geometry : Geometry volume.bpb)
    {slot : DirSlot} {create : Bool} {fuel : Nat}
    {freeSlot : Option DirSlot}
    (returned : (dirLookupChain volume target slot create fuel start
      freeSlot).isSome = true) :
    ∃ nodes, LookupWalk volume target start nodes := by
  induction fuel generalizing start freeSlot with
  | zero => cases returned
  | succ fuel inductionHypothesis =>
      by_cases decides : Decides volume target start
      · exact ⟨_, .inl ⟨decides, rfl⟩⟩
      obtain ⟨freeSlot', same⟩ := dirLookupChain_stays geometry decides slot
        create fuel freeSlot
      rw [same] at returned
      split at returned
      case isTrue stopped =>
        exact ⟨_, .inr ⟨decides, [], rfl, .stop stopped⟩⟩
      case isFalse going =>
        obtain ⟨nodes, walk⟩ := inductionHypothesis returned
        rcases walk with ⟨left, rfl⟩ | ⟨stays, rest, rfl, tail⟩
        · exact ⟨_, .inr ⟨decides, _, rfl, .exit going left⟩⟩
        · exact ⟨_, .inr ⟨decides, _, rfl, .step going stays tail⟩⟩

theorem LookupWalk.isSome (geometry : Geometry volume.bpb)
    (walk : LookupWalk volume target start nodes) {fuel : Nat}
    (enough : nodes.length < fuel) (slot : DirSlot) (create : Bool)
    (freeSlot : Option DirSlot) :
    (dirLookupChain volume target slot create fuel start
      freeSlot).isSome = true := by
  obtain ⟨fuel, rfl⟩ := Nat.exists_eq_add_one.mpr
    (Nat.lt_of_le_of_lt (Nat.zero_le _) enough)
  rcases walk with ⟨decides, _⟩ | ⟨stays, rest, rfl, tail⟩
  · exact dirLookupChain_decides decides slot create fuel freeSlot
  · obtain ⟨freeSlot', same⟩ := dirLookupChain_stays geometry stays slot
      create fuel freeSlot
    rw [same]
    split
    case isTrue => rfl
    case isFalse going =>
      exact dirLookupChain_isSome geometry slot create tail going
        (Nat.lt_of_succ_lt_succ enough) _

/-- A lookup visits no cluster twice. -/
theorem LookupWalk.nodup (walk : LookupWalk volume target start nodes) :
    nodes.Nodup := by
  rcases walk with ⟨_, rfl⟩ | ⟨stays, rest, rfl, tail⟩
  · exact List.nodup_singleton _
  · by_cases stopped : ChainStop start
    · exact List.nodup_cons.mpr
        ⟨fun member => tail.not_stop start member stopped, tail.nodup⟩
    · exact (Walk.step stopped stays tail).nodup

/-! ### `dir_is_empty` -/

theorem dirIsEmptyLoop_isSome (walk : EmptyWalk volume start nodes) :
    ∀ {fuel : Nat}, nodes.length < fuel →
      (dirIsEmptyLoop volume fuel start).isSome = true := by
  intro fuel enough
  induction walk generalizing fuel with
  | stop stopped =>
      obtain ⟨fuel, rfl⟩ := Nat.exists_eq_add_one.mpr enough
      rw [dirIsEmptyLoop, if_pos stopped]
      rfl
  | exit going left =>
      obtain ⟨fuel, rfl⟩ := Nat.exists_eq_add_one.mpr
        (Nat.lt_of_le_of_lt (Nat.zero_le _) enough)
      rw [dirIsEmptyLoop, if_neg going]
      split
      case h_1 => rfl
      case h_2 => rfl
      case h_3 all => exact absurd all left
  | step going stays tail inductionHypothesis =>
      obtain ⟨fuel, rfl⟩ := Nat.exists_eq_add_one.mpr
        (Nat.lt_of_le_of_lt (Nat.zero_le _) enough)
      rw [dirIsEmptyLoop, if_neg going]
      split
      case h_1 => rfl
      case h_2 => rfl
      case h_3 => exact inductionHypothesis (Nat.lt_of_succ_lt_succ enough)

theorem EmptyWalk.of_dirIsEmptyLoop {fuel : Nat}
    (returned : (dirIsEmptyLoop volume fuel start).isSome = true) :
    ∃ nodes, EmptyWalk volume start nodes := by
  induction fuel generalizing start with
  | zero => cases returned
  | succ fuel inductionHypothesis =>
      rw [dirIsEmptyLoop] at returned
      split at returned
      case isTrue stopped => exact ⟨[], .stop stopped⟩
      case isFalse going =>
        by_cases left : Occupied volume start
        · exact ⟨[start], .exit going left⟩
        rw [not_not.mp left] at returned
        obtain ⟨nodes, walk⟩ := inductionHypothesis returned
        exact ⟨_, .step going left walk⟩

/-! ### `fat_readdir` -/

/-- The scan of a sector, told from the number of its entries. -/
theorem readdirEntries_count (skipped : Bytes → Nat → Bool)
    (sectorBuf : Bytes) :
    ∀ (count i seen : Nat), seen ≤ index →
      (∃ info, index < seen + countEntries skipped sectorBuf count i ∧
        readdirEntries skipped index sectorBuf count i seen =
          .found info) ∨
      seen + countEntries skipped sectorBuf count i ≤ index ∧
        readdirEntries skipped index sectorBuf count i seen =
          .more (seen + countEntries skipped sectorBuf count i)
  | 0, _, _, below => .inr ⟨below, rfl⟩
  | count + 1, i, seen, below => by
      rw [readdirEntries, countEntries]
      split
      case isTrue =>
        rw [Nat.zero_add]
        exact readdirEntries_count skipped sectorBuf count (i + 1) seen below
      case isFalse =>
      split
      case isTrue here =>
        have more : index < seen + (1 + countEntries skipped sectorBuf count
            (i + 1)) := by omega
        exact .inl ⟨_, more, rfl⟩
      case isFalse other =>
        have onward := readdirEntries_count skipped sectorBuf count (i + 1)
          (seen + 1) (show seen + 1 ≤ index by omega)
        rwa [Nat.add_assoc] at onward

/-- The same for a cluster, where a sector may be unreadable. -/
theorem readdirSectors_count (disk : Disk) (skipped : Bytes → Nat → Bool) :
    ∀ (count lba seen : Nat), seen ≤ index →
      (∃ total, countSectors disk skipped count lba = some total ∧
        seen + total ≤ index ∧
        readdirSectors disk skipped index count lba seen =
          .more (seen + total)) ∨
      (∀ total, countSectors disk skipped count lba = some total →
        index < seen + total) ∧
        ∀ seen', readdirSectors disk skipped index count lba seen ≠
          .more seen'
  | 0, _, seen, below => .inl ⟨0, rfl, below, rfl⟩
  | count + 1, lba, seen, below => by
      rw [readdirSectors, countSectors]
      cases readLba disk lba 1 scratch with
      | none =>
          right
          refine ⟨fun _ counted => ?_, fun _ isMore => ?_⟩
          · cases counted
          · cases isMore
      | some sectorBuf =>
          simp only [Option.bind_eq_bind, Option.bind_some]
          rcases readdirEntries_count skipped sectorBuf 16 0 seen below with
            ⟨info, more, isFound⟩ | ⟨less, isMore⟩
          · right
            rw [isFound]
            refine ⟨fun total counted => ?_, fun _ isMore => ?_⟩
            · obtain ⟨rest, _, same⟩ := Option.bind_eq_some_iff.mp counted
              have sum := Option.some.inj same
              omega
            · cases isMore
          · rw [isMore]
            rcases readdirSectors_count disk skipped count (u32 (lba + 1)) _
                less with
              ⟨rest, counted, less', isMore'⟩ | ⟨larger, ended⟩
            · left
              refine ⟨countEntries skipped sectorBuf 16 0 + rest, ?_,
                by omega, ?_⟩
              · rw [counted]
                rfl
              · rw [← Nat.add_assoc]
                exact isMore'
            · right
              refine ⟨fun total counted => ?_, ended⟩
              obtain ⟨rest, isRest, same⟩ :=
                Option.bind_eq_some_iff.mp counted
              have sum := Option.some.inj same
              have more := larger rest isRest
              omega

/-- One pass of `fat_readdir`, told from the number of entries. -/
theorem readdirChain_reports (going : ¬ ChainStop start)
    (below : seen ≤ index) (reports : Reports volume index (start, seen))
    (fuel : Nat) :
    (readdirChain volume index (fuel + 1) start seen).isSome = true := by
  rw [readdirChain, if_neg going]
  rcases readdirSectors_count volume.disk skippedInChain
      volume.bpb.perCluster (volume.bpb.clusterLba start) seen below with
    ⟨total, counted, less, _⟩ | ⟨_, ended⟩
  · have more := reports total counted
    omega
  · split
    case h_1 => rfl
    case h_2 => rfl
    case h_3 seen' isMore => exact absurd isMore (ended seen')

theorem readdirChain_stays (going : ¬ ChainStop start)
    (below : seen ≤ index) (stays : ¬ Reports volume index (start, seen))
    (fuel : Nat) :
    seen + (entryCount volume start).getD 0 ≤ index ∧
      readdirChain volume index (fuel + 1) start seen =
        readdirChain volume index fuel (volume.next start)
          (seen + (entryCount volume start).getD 0) := by
  rw [readdirChain, if_neg going]
  rcases readdirSectors_count volume.disk skippedInChain
      volume.bpb.perCluster (volume.bpb.clusterLba start) seen below with
    ⟨total, counted, less, isMore⟩ | ⟨larger, _⟩
  · have isCount : entryCount volume start = some total := counted
    rw [isMore, isCount]
    exact ⟨less, rfl⟩
  · exact absurd larger stays

theorem readdirChain_isSome {node : Nat × Nat} {walked : List (Nat × Nat)}
    (walk : Walk (countNext volume) (fun node => ChainStop node.1)
      (Reports volume index) node walked) (below : node.2 ≤ index) :
    ∀ {fuel : Nat}, walked.length < fuel →
      (readdirChain volume index fuel node.1 node.2).isSome = true := by
  intro fuel enough
  induction walk generalizing fuel with
  | stop stopped =>
      obtain ⟨fuel, rfl⟩ := Nat.exists_eq_add_one.mpr enough
      rw [readdirChain, if_pos stopped]
      rfl
  | exit going left =>
      obtain ⟨fuel, rfl⟩ := Nat.exists_eq_add_one.mpr
        (Nat.lt_of_le_of_lt (Nat.zero_le _) enough)
      exact readdirChain_reports going below left fuel
  | step going stays tail inductionHypothesis =>
      obtain ⟨fuel, rfl⟩ := Nat.exists_eq_add_one.mpr
        (Nat.lt_of_le_of_lt (Nat.zero_le _) enough)
      obtain ⟨below', same⟩ := readdirChain_stays going below stays fuel
      rw [same]
      exact inductionHypothesis below' (Nat.lt_of_succ_lt_succ enough)

theorem readdirChain_walks {fuel : Nat} (below : seen ≤ index)
    (returned :
      (readdirChain volume index fuel start seen).isSome = true) :
    ∃ walked, Walk (countNext volume) (fun node => ChainStop node.1)
      (Reports volume index) (start, seen) walked := by
  induction fuel generalizing start seen with
  | zero => cases returned
  | succ fuel inductionHypothesis =>
      by_cases going : ChainStop start
      · exact ⟨[], .stop going⟩
      by_cases left : Reports volume index (start, seen)
      · exact ⟨_, .exit going left⟩
      obtain ⟨below', same⟩ := readdirChain_stays going below left fuel
      rw [same] at returned
      obtain ⟨walked, walk⟩ := inductionHypothesis below' returned
      exact ⟨_, .step going left walk⟩

/-- The entries in the clusters are more than `fat_readdir` skips, or one
of the clusters cannot be read. -/
def Enough (volume : Volume) (rest : Nat) (nodes : List Nat) : Prop :=
  (∃ cluster ∈ nodes, entryCount volume cluster = none) ∨
    rest < (nodes.map fun cluster =>
      (entryCount volume cluster).getD 0).sum

theorem enough_cons {cluster rest : Nat} :
    Enough volume rest (cluster :: nodes) ↔
      entryCount volume cluster = none ∨
        rest < (entryCount volume cluster).getD 0 ∨
          Enough volume (rest - (entryCount volume cluster).getD 0)
            nodes := by
  simp only [Enough, List.mem_cons, List.map_cons, List.sum_cons,
    exists_eq_or_imp]
  constructor
  · rintro ((here | later) | more)
    · exact .inl here
    · exact .inr (.inr (.inl later))
    · omega
  · rintro (here | more | later | more)
    · exact .inl (.inl here)
    · omega
    · exact .inl (.inr later)
    · omega

theorem reports_iff {cluster : Nat} (below : seen ≤ index) :
    Reports volume index (cluster, seen) ↔
      entryCount volume cluster = none ∨
        index - seen < (entryCount volume cluster).getD 0 := by
  rw [Reports]
  cases entryCount volume cluster with
  | none => simp
  | some count =>
      simp only [Option.some.injEq, forall_eq', reduceCtorEq, false_or,
        Option.getD_some]
      omega

/-- A walk of `fat_readdir` goes along the chain to its end or as far as
the entries last. -/
theorem readdirWalk_covers {node : Nat × Nat} {walked : List (Nat × Nat)}
    (walk : Walk (countNext volume) (fun node => ChainStop node.1)
      (Reports volume index) node walked) (below : node.2 ≤ index) :
    Path volume.next ChainStop node.1 (walked.map Prod.fst) ∨
      Segment volume.next ChainStop node.1 (walked.map Prod.fst) ∧
        Enough volume (index - node.2) (walked.map Prod.fst) := by
  induction walk with
  | stop stopped => exact .inl (.done stopped)
  | @exit node going left =>
      right
      refine ⟨.cons going .nil, ?_⟩
      have enough := (reports_iff below).mp left
      exact enough_cons.mpr (enough.imp_right .inl)
  | @step node rest going stays tail inductionHypothesis =>
      have stays' := mt (reports_iff below).mpr stays
      have below' : (countNext volume node).2 ≤ index := by
        change node.2 + (entryCount volume node.1).getD 0 ≤ index
        omega
      rcases inductionHypothesis below' with path | ⟨segment, enough⟩
      · exact .inl (.more going path)
      · right
        refine ⟨.cons going segment, enough_cons.mpr (.inr (.inr ?_))⟩
        rwa [Nat.sub_sub]

theorem readdirWalk_of_path (index : Nat)
    (path : Path volume.next ChainStop start nodes) :
    ∀ seen ≤ index, ∃ walked, Walk (countNext volume)
        (fun node => ChainStop node.1) (Reports volume index) (start, seen)
        walked ∧ (walked.map Prod.fst).Sublist nodes := by
  induction path with
  | done stopped => exact fun seen _ => ⟨[], .stop stopped, .slnil⟩
  | @more node rest going tail inductionHypothesis =>
      intro seen below
      by_cases left : Reports volume index (node, seen)
      · exact ⟨[_], .exit going left, .cons_cons _ (List.nil_sublist _)⟩
      have stays := mt (reports_iff below).mpr left
      obtain ⟨walked, walk, inside⟩ := inductionHypothesis
        (seen + (entryCount volume node).getD 0) (by omega)
      exact ⟨_, .step going left walk, inside.cons_cons _⟩

theorem readdirWalk_of_segment
    (segment : Segment volume.next ChainStop start nodes) :
    ∀ seen ≤ index, Enough volume (index - seen) nodes →
      ∃ walked, Walk (countNext volume) (fun node => ChainStop node.1)
        (Reports volume index) (start, seen) walked ∧
          (walked.map Prod.fst).Sublist nodes := by
  induction segment with
  | nil =>
      rintro seen _ (⟨_, member, _⟩ | more)
      · cases member
      · cases more
  | @cons node rest going tail inductionHypothesis =>
      intro seen below enough
      by_cases left : Reports volume index (node, seen)
      · exact ⟨[_], .exit going left, .cons_cons _ (List.nil_sublist _)⟩
      have stays := mt (reports_iff below).mpr left
      rw [not_or] at stays
      have later := ((enough_cons.mp enough).resolve_left
        stays.1).resolve_left stays.2
      rw [Nat.sub_sub] at later
      obtain ⟨walked, walk, inside⟩ := inductionHypothesis
        (seen + (entryCount volume node).getD 0) (by omega) later
      exact ⟨_, .step going left walk, inside.cons_cons _⟩

/-- The clusters that the lookup comes to lead to an end. -/
theorem lookupWalk_iff :
    (∃ nodes, LookupWalk volume target start nodes) ↔
      Decides volume target start ∨
        ∃ nodes, Path volume.next
          (fun cluster => ChainStop cluster ∨ Decides volume target cluster)
          (volume.next start) nodes := by
  constructor
  · rintro ⟨nodes, ⟨decides, _⟩ | ⟨_, rest, _, tail⟩⟩
    · exact .inl decides
    · exact .inr (walk_iff.mp ⟨rest, tail⟩)
  · intro ends
    by_cases decides : Decides volume target start
    · exact ⟨_, .inl ⟨decides, rfl⟩⟩
    · obtain ⟨rest, tail⟩ := walk_iff.mpr (ends.resolve_left decides)
      exact ⟨_, .inr ⟨decides, rest, rfl, tail⟩⟩

/-- `fat_readdir` on a chain that ends, or that holds the entry before a
cluster comes up again. -/
theorem readdirWalk_iff :
    (∃ nodes, nodes.Nodup ∧ ReaddirWalk volume index start nodes) ↔
      (∃ nodes, Path volume.next ChainStop start nodes) ∨
        ∃ nodes, nodes.Nodup ∧
          Segment volume.next ChainStop start nodes ∧
            Enough volume index nodes := by
  constructor
  · rintro ⟨_, nodup, walked, rfl, walk⟩
    rcases readdirWalk_covers walk (Nat.zero_le _) with
      path | ⟨segment, enough⟩
    · exact .inl ⟨_, path⟩
    · exact .inr ⟨_, nodup, segment, enough⟩
  · rintro (⟨nodes, path⟩ | ⟨nodes, nodup, segment, enough⟩)
    · obtain ⟨walked, walk, inside⟩ :=
        readdirWalk_of_path index path 0 (Nat.zero_le _)
      exact ⟨_, path.nodup.sublist inside, walked, rfl, walk⟩
    · obtain ⟨walked, walk, inside⟩ :=
        readdirWalk_of_segment segment 0 (Nat.zero_le _) enough
      exact ⟨_, nodup.sublist inside, walked, rfl, walk⟩

theorem ReaddirWalk.isSome (walk : ReaddirWalk volume index start nodes)
    {fuel : Nat} (enough : nodes.length < fuel) :
    (readdirChain volume index fuel start 0).isSome = true := by
  obtain ⟨walked, rfl, walk⟩ := walk
  rw [List.length_map] at enough
  exact readdirChain_isSome walk (Nat.zero_le _) enough

theorem ReaddirWalk.not_stop
    (walk : ReaddirWalk volume index start nodes) :
    ∀ cluster ∈ nodes, ¬ ChainStop cluster := by
  obtain ⟨walked, rfl, walk⟩ := walk
  intro cluster member
  obtain ⟨node, visited, rfl⟩ := List.mem_map.mp member
  exact walk.not_stop node visited

theorem LookupWalk.length_lt
    (walk : LookupWalk volume target start nodes) :
    nodes.length < chainFuel := by
  rcases walk with ⟨_, rfl⟩ | ⟨_, rest, rfl, tail⟩
  · rw [List.length_singleton, chainFuel]
    omega
  · exact nodup_length_lt tail.nodup tail.not_stop

end Walks

/-- The loops return at all exactly if they walk to an end, which the loop
of `fat_readdir` alone may do after it has come back to a cluster. -/
theorem chainLoops_return_iff {volume : Volume}
    (geometry : Geometry volume.bpb) (start : Nat) :
    (∀ stored dest,
        (∃ fuel, (readChain volume fuel start stored dest).isSome = true) ↔
          ∃ nodes, ReadWalk volume start nodes) ∧
      (∀ target slot create, (∃ fuel, (dirLookupChain volume target slot
          create fuel start none).isSome = true) ↔
        ∃ nodes, LookupWalk volume target start nodes) ∧
      ((∃ fuel, (dirIsEmptyLoop volume fuel start).isSome = true) ↔
        ∃ nodes, EmptyWalk volume start nodes) ∧
      ∀ index,
        (∃ fuel, (readdirChain volume index fuel start 0).isSome = true) ↔
          ∃ nodes, ReaddirWalk volume index start nodes := by
  refine ⟨fun stored dest => ⟨?_, ?_⟩, fun target slot create => ⟨?_, ?_⟩,
    ⟨?_, ?_⟩, fun index => ⟨?_, ?_⟩⟩
  · rintro ⟨fuel, returned⟩
    exact ReadWalk.of_readChain returned
  · rintro ⟨nodes, walk⟩
    exact ⟨_, readChain_isSome walk (Nat.lt_succ_self _) stored dest⟩
  · rintro ⟨fuel, returned⟩
    exact LookupWalk.of_dirLookupChain geometry returned
  · rintro ⟨nodes, walk⟩
    exact ⟨_, walk.isSome geometry (Nat.lt_succ_self _) slot create none⟩
  · rintro ⟨fuel, returned⟩
    exact EmptyWalk.of_dirIsEmptyLoop returned
  · rintro ⟨nodes, walk⟩
    exact ⟨_, dirIsEmptyLoop_isSome walk (Nat.lt_succ_self _)⟩
  · rintro ⟨fuel, returned⟩
    obtain ⟨walked, walk⟩ := readdirChain_walks (Nat.zero_le _) returned
    exact ⟨_, walked, rfl, walk⟩
  · rintro ⟨nodes, walk⟩
    exact ⟨_, walk.isSome (Nat.lt_succ_self _)⟩

/-- The loops of `fat_read_file`, `dir_lookup`, `dir_is_empty` and
`fat_readdir` return after visiting each cluster at most once exactly if the
table leads them to the end of the chain, or to a cluster where they
return, before a cluster comes up again.  For the directory calls cluster 0
stands for the root, which is not a chain. -/
theorem chainWalks_end_iff {volume : Volume}
    (geometry : Geometry volume.bpb) (start : Nat) :
    (∀ dest, EndsOnce (ReadWalk volume start)
        (readChain volume chainFuel start 0 dest).isSome ↔
      ∃ nodes, Path volume.next
        (fun cluster => ChainStop cluster ∨ Unreadable volume cluster)
        start nodes) ∧
      (start ≠ 0 → ∀ target slot create,
        (EndsOnce (LookupWalk volume target start)
          (dirLookup volume start target slot create).isSome ↔
        Decides volume target start ∨
          ∃ nodes, Path volume.next
            (fun cluster => ChainStop cluster ∨
              Decides volume target cluster) (volume.next start) nodes)) ∧
      (EndsOnce (EmptyWalk volume start) (dirIsEmpty volume start).isSome ↔
        ∃ nodes, Path volume.next
          (fun cluster => ChainStop cluster ∨ Occupied volume cluster)
          start nodes) ∧
      (start ≠ 0 → ∀ index,
        (EndsOnce (ReaddirWalk volume index start)
          (fatReaddir volume start index).isSome ↔
        (∃ nodes, Path volume.next ChainStop start nodes) ∨
          ∃ nodes, nodes.Nodup ∧
            Segment volume.next ChainStop start nodes ∧
              Enough volume index nodes)) := by
  refine ⟨fun dest => ?_, fun chained target slot create => ?_, ?_,
    fun chained index => ?_⟩
  · rw [← walk_iff]
    constructor
    · rintro ⟨nodes, _, walk, _⟩
      exact ⟨nodes, walk⟩
    · rintro ⟨nodes, walk⟩
      have short := nodup_length_lt walk.nodup walk.not_stop
      exact ⟨nodes, walk.nodup, walk,
        readChain_isSome walk (Nat.lt_of_succ_lt short) 0 dest⟩
  · rw [← lookupWalk_iff, dirLookup, if_neg chained]
    constructor
    · rintro ⟨nodes, _, walk, _⟩
      exact ⟨nodes, walk⟩
    · rintro ⟨nodes, walk⟩
      exact ⟨nodes, walk.nodup, walk,
        walk.isSome geometry walk.length_lt slot create none⟩
  · rw [← walk_iff]
    constructor
    · rintro ⟨nodes, _, walk, _⟩
      exact ⟨nodes, walk⟩
    · rintro ⟨nodes, walk⟩
      have short := nodup_length_lt walk.nodup walk.not_stop
      exact ⟨nodes, walk.nodup, walk,
        dirIsEmptyLoop_isSome walk (Nat.lt_of_succ_lt short)⟩
  · rw [← readdirWalk_iff, fatReaddir, if_neg chained]
    constructor
    · rintro ⟨nodes, nodup, walk, _⟩
      exact ⟨nodes, nodup, walk⟩
    · rintro ⟨nodes, nodup, walk⟩
      have short := nodup_length_lt nodup walk.not_stop
      exact ⟨nodes, nodup, walk, walk.isSome (Nat.lt_of_succ_lt short)⟩

/-- A fresh volume where the entry of cluster 3 names cluster 3. -/
def sampleCycle : Volume := sampleVolume.setEntry 3 3

theorem sampleCycle_walks :
    EndsOnce (EmptyWalk sampleCycle 4)
        (dirIsEmpty sampleCycle 4).isSome ↔
      ∃ nodes, Path sampleCycle.next
        (fun cluster => ChainStop cluster ∨ Occupied sampleCycle cluster)
        4 nodes :=
  (chainWalks_end_iff (smallBpb_geometry (by decide) (by decide)) 4).2.2.1

theorem sampleCycle_next : sampleCycle.next 3 = 3 := by decide

theorem sampleCycle_readable : ¬ Unreadable sampleCycle 3 := by
  intro unreadable
  have read : (readLba sampleCycle.disk (sampleCycle.bpb.clusterLba 3)
      sampleCycle.bpb.perCluster scratch).isSome = true := by
    decide +kernel
  rw [unreadable] at read
  cases read

/-- On that volume the loops go round in cluster 3 for ever. -/
theorem sampleCycle_never :
    sampleCycle.next 3 = 3 ∧ 3 < sampleCycle.bpb.totalClusters ∧
      (∀ fuel dest, readChain sampleCycle fuel 3 0 dest = none) ∧
      (∀ fuel, dirIsEmptyLoop sampleCycle fuel 3 = none) ∧
      ¬ EndsOnce (ReadWalk sampleCycle 3)
        (readChain sampleCycle chainFuel 3 0 scratch).isSome := by
  have stuck : ∀ nodes, ¬ ReadWalk sampleCycle 3 nodes := by
    intro nodes walk
    obtain ⟨before, path, _⟩ := walk.path
    exact (path.stop_of_loop sampleCycle_next).elim (by decide)
      sampleCycle_readable
  have stuck' : ∀ nodes, ¬ EmptyWalk sampleCycle 3 nodes := by
    intro nodes walk
    obtain ⟨before, path, _⟩ := walk.path
    exact (path.stop_of_loop sampleCycle_next).elim (by decide)
      fun occupied => occupied (by decide +kernel)
  refine ⟨sampleCycle_next, by decide, fun fuel dest => ?_, fun fuel => ?_,
    fun ⟨nodes, _, walk, _⟩ => stuck nodes walk⟩
  · refine Option.not_isSome_iff_eq_none.mp fun returned => ?_
    obtain ⟨nodes, walk⟩ := ReadWalk.of_readChain returned
    exact stuck nodes walk
  · refine Option.not_isSome_iff_eq_none.mp fun returned => ?_
    obtain ⟨nodes, walk⟩ := EmptyWalk.of_dirIsEmptyLoop returned
    exact stuck' nodes walk

end LoafOs
