import LoafOs.Fs.FatGap
import LoafOs.Fs.TreeFrame
import LoafOs.Lib.FileTrees

/-!
# The tree of files that a volume stores

`treeOf` reads a volume as a tree of directories and files.  `fat_stat` and
`fat_read_file` report what the tree holds under the names of their path,
and every successful call of the driver is an operation on the tree.
-/

namespace LoafOs

open FileTrees

/-- The first `size` bytes of the clusters. -/
def chainContent (volume : Volume) (clusters : List Nat) (size : Nat) :
    List UInt8 :=
  (List.range size).map (chainByte volume clusters)

/-- What the entry stands for. -/
inductive NodeOf (volume : Volume) (entry : Nat) : Node UInt8 → Prop
  | directory (isDir : IsDir volume.mem entry) :
      NodeOf volume entry .directory
  | file {clusters : List Nat} (regular : ¬ IsDir volume.mem entry)
      (chain : Chain volume entry clusters) :
      NodeOf volume entry
        (.file (chainContent volume clusters
          (direntSize volume.mem entry)))

/-- The tree of a volume. -/
noncomputable def treeOf (volume : Volume) :
    Tree (List UInt8) UInt8 := fun names =>
  open Classical in
  if names = [] then
    some .directory
  else if present : ∃ node entry,
      EntryAt volume names entry ∧ NodeOf volume entry node then
    some present.choose
  else
    none

section Nodes

variable {volume volume' : Volume} {names : List (List UInt8)}
  {entry : Nat} {node node' : Node UInt8}

theorem NodeOf.unique (left : NodeOf volume entry node)
    (right : NodeOf volume entry node') : node = node' := by
  cases left with
  | directory isDir =>
      cases right with
      | directory _ => rfl
      | file regular _ => exact absurd isDir regular
  | file regular chain =>
      cases right with
      | directory isDir => exact absurd isDir regular
      | file _ chain' => rw [chain.unique chain']

theorem NodeOf.exists (wellFormed : WellFormed volume)
    (reach : Reach volume entry) : ∃ node, NodeOf volume entry node := by
  by_cases isDir : IsDir volume.mem entry
  · exact ⟨_, .directory isDir⟩
  · obtain ⟨clusters, chain⟩ := wellFormed.chain entry reach
    exact ⟨_, .file isDir chain⟩

/-- The tree shows exactly the entries that the names lead to. -/
theorem treeOf_iff (inner : names ≠ []) :
    treeOf volume names = some node ↔
      ∃ entry, EntryAt volume names entry ∧ NodeOf volume entry node := by
  rw [treeOf, if_neg inner]
  split
  case isTrue present =>
    obtain ⟨entry, place, isNode⟩ := present.choose_spec
    constructor
    · intro same
      cases same
      exact ⟨entry, place, isNode⟩
    · rintro ⟨entry', place', isNode'⟩
      obtain rfl := place.unique place'
      exact congrArg some (isNode.unique isNode')
  case isFalse absent =>
    refine ⟨fun shown => (by cases shown), fun shown => ?_⟩
    exact absurd ⟨node, shown⟩ absent

theorem treeOf_eq_none (wellFormed : WellFormed volume) :
    treeOf volume names = none ↔
      names ≠ [] ∧ ∀ entry, ¬ EntryAt volume names entry := by
  by_cases inner : names = []
  · rw [treeOf, if_pos inner]
    simp [inner]
  constructor
  · intro absent
    refine ⟨inner, fun entry place => ?_⟩
    obtain ⟨node, isNode⟩ := NodeOf.exists wellFormed place.reach
    rw [(treeOf_iff inner).mpr ⟨entry, place, isNode⟩] at absent
    cases absent
  · rintro ⟨_, absent⟩
    cases shown : treeOf volume names with
    | none => rfl
    | some node =>
        obtain ⟨entry, place, _⟩ := (treeOf_iff inner).mp shown
        exact absurd place (absent entry)

theorem EntryAt.treeOf_eq (place : EntryAt volume names entry)
    (isNode : NodeOf volume entry node) :
    treeOf volume names = some node :=
  (treeOf_iff place.names_ne_nil).mpr ⟨entry, place, isNode⟩

theorem treeOf_directory {cur : Nat} {slots : List Nat}
    (leads : Leads volume names cur slots) :
    treeOf volume names = some .directory := by
  rcases leads.cases_entry with ⟨rfl, _⟩ | ⟨dir, _, place, isDir, _⟩
  · rw [treeOf, if_pos rfl]
  · exact place.treeOf_eq (.directory isDir)

theorem leads_of_treeOf (wellFormed : WellFormed volume)
    (isDirectory : treeOf volume names = some .directory) :
    ∃ cur slots, Leads volume names cur slots := by
  by_cases inner : names = []
  · subst inner
    exact ⟨_, _, .root⟩
  · obtain ⟨entry, place, isNode⟩ := (treeOf_iff inner).mp isDirectory
    cases isNode with
    | directory isDir =>
        obtain ⟨clusters, chain⟩ := wellFormed.chain entry place.reach
        exact ⟨_, _, place.leads isDir chain⟩

theorem treeOf_rooted : Rooted (treeOf volume) where
  root := by rw [treeOf, if_pos rfl]
  inside := by
    intro parent name present
    obtain ⟨node, shown⟩ := Option.ne_none_iff_exists'.mp present
    obtain ⟨entry, place, _⟩ := (treeOf_iff (by simp)).mp shown
    obtain ⟨_, _, _, _, same, leads, _⟩ := place.path
    obtain ⟨rfl, _⟩ := List.append_inj' same rfl
    exact treeOf_directory leads

/-- Two volumes with the same entries, and the same nodes for them, store
the same under a list of names. -/
theorem treeOf_congr
    (places : ∀ entry, EntryAt volume' names entry ↔
      EntryAt volume names entry)
    (nodes : ∀ entry node, EntryAt volume names entry →
      (NodeOf volume' entry node ↔ NodeOf volume entry node)) :
    treeOf volume' names = treeOf volume names := by
  by_cases inner : names = []
  · rw [treeOf, treeOf, if_pos inner, if_pos inner]
  · refine Option.ext fun node => ?_
    rw [treeOf_iff inner, treeOf_iff inner]
    refine exists_congr fun entry => ?_
    rw [places entry]
    exact and_congr_right fun place => nodes entry node place

/-- An entry that keeps its bytes, and its contents if it is a file. -/
theorem nodeOf_iff (wellFormed : WellFormed volume)
    (bpb : volume'.bpb = volume.bpb)
    (same : SameEntry volume'.mem entry volume.mem entry)
    (file : ¬ IsDir volume.mem entry → SameFile volume volume' entry)
    (reach : Reach volume entry) (node : Node UInt8) :
    NodeOf volume' entry node ↔ NodeOf volume entry node := by
  obtain ⟨shown, isNode⟩ := NodeOf.exists wellFormed reach
  have isNode' : NodeOf volume' entry shown := by
    cases isNode with
    | directory isDir => exact .directory (same.isDir_iff.mpr isDir)
    | @file clusters regular chain =>
        have kept := file regular
        have content : chainContent volume' clusters
              (direntSize volume'.mem entry) =
            chainContent volume clusters
              (direntSize volume.mem entry) := by
          rw [chainContent, chainContent, same.size]
          refine List.map_congr_left fun index inside => ?_
          have positive := wellFormed.geometry.clusterSize_pos
          rw [List.mem_range] at inside
          have number : index / volume.bpb.clusterSize <
              clusters.length := by
            have length := (chain.regular regular).1
            rw [Nat.div_lt_iff_lt_mul positive]
            have enough := (clustersFor_le_iff positive _ _).mp
              (Nat.le_of_eq length.symm)
            omega
          have owned : clusters.getD (index / volume.bpb.clusterSize) 0 ∈
              clusters := by
            rw [List.getD_eq_getElem _ _ number]
            exact List.getElem_mem number
          rw [chainByte, chainByte, bpb]
          exact kept.bytes clusters chain _ owned _
            (Nat.mod_lt index positive)
        rw [← content]
        exact .file (fun isDir => regular (same.isDir_iff.mp isDir))
          (kept.chain clusters chain)
  constructor
  · intro given
    rwa [given.unique isNode']
  · intro given
    rwa [given.unique isNode]

end Nodes

end LoafOs
