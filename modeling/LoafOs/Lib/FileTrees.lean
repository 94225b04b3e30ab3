import Mathlib.Init

/-!
# Trees of files

What a file system stores, seen from outside: a directory or the content of
a file under every list of names that leads to one.  `Step` says what the
operations on such a tree do; all of them need a directory to put an entry
into, and removing one never leaves an entry without its directory.
-/

namespace FileTrees

universe u v

variable {Name : Type u} {Byte : Type v}

inductive Node (Byte : Type v) where
  | directory
  | file (content : List Byte)

/-- What the lists of names lead to. -/
abbrev Tree (Name : Type u) (Byte : Type v) :=
  List Name → Option (Node Byte)

/-- The operations on a tree, with the names that they are about. -/
inductive Edit (Name : Type u) (Byte : Type v) where
  | replace (names : List Name) (content : List Byte)
  | patch (names : List Name) (offset : Nat) (data : List Byte)
  | remove (names : List Name)
  | makeDirectory (names : List Name)
  | removeDirectory (names : List Name)

def Edit.names : Edit Name Byte → List Name
  | replace names _ => names
  | patch names _ _ => names
  | remove names => names
  | makeDirectory names => names
  | removeDirectory names => names

/-- Only what the names lead to has changed, into `node`. -/
structure Changed (tree tree' : Tree Name Byte) (names : List Name)
    (node : Option (Node Byte)) : Prop where
  here : tree' names = node
  others : ∀ other, other ≠ names → tree' other = tree other

/-- `content` with `data` written over it from `offset` on.  What stands
between the old end and a later offset is not specified. -/
structure Patched (content : List Byte) (offset : Nat) (data : List Byte)
    (content' : List Byte) : Prop where
  length : content'.length = max content.length (offset + data.length)
  written : ∀ index < data.length, content'[offset + index]? = data[index]?
  kept : ∀ index < content.length,
    index < offset ∨ offset + data.length ≤ index →
      content'[index]? = content[index]?

/-- A successful operation. -/
inductive Step (tree : Tree Name Byte) :
    Edit Name Byte → Tree Name Byte → Prop
  | replace {parent : List Name} {name : Name} {content : List Byte}
      {tree' : Tree Name Byte} (inside : tree parent = some .directory)
      (regular : tree (parent ++ [name]) ≠ some .directory)
      (changed : Changed tree tree' (parent ++ [name])
        (some (.file content))) :
      Step tree (.replace (parent ++ [name]) content) tree'
  | nothing {names : List Name} {offset : Nat} :
      Step tree (.patch names offset []) tree
  | patch {parent : List Name} {name : Name} {offset : Nat}
      {content data content' : List Byte} {tree' : Tree Name Byte}
      (inside : tree parent = some .directory)
      (old : tree (parent ++ [name]) = some (.file content) ∨
        tree (parent ++ [name]) = none ∧ content = [])
      (patched : Patched content offset data content')
      (changed : Changed tree tree' (parent ++ [name])
        (some (.file content'))) :
      Step tree (.patch (parent ++ [name]) offset data) tree'
  | remove {names : List Name} {content : List Byte}
      {tree' : Tree Name Byte} (isFile : tree names = some (.file content))
      (changed : Changed tree tree' names none) :
      Step tree (.remove names) tree'
  | makeDirectory {parent : List Name} {name : Name}
      {tree' : Tree Name Byte} (inside : tree parent = some .directory)
      (absent : tree (parent ++ [name]) = none)
      (changed : Changed tree tree' (parent ++ [name])
        (some .directory)) :
      Step tree (.makeDirectory (parent ++ [name])) tree'
  | removeDirectory {names : List Name} {tree' : Tree Name Byte}
      (inner : names ≠ []) (isDirectory : tree names = some .directory)
      (empty : ∀ name, tree (names ++ [name]) = none)
      (changed : Changed tree tree' names none) :
      Step tree (.removeDirectory names) tree'

/-- The root is a directory, and every entry lies in one. -/
structure Rooted (tree : Tree Name Byte) : Prop where
  root : tree [] = some .directory
  inside : ∀ parent name, tree (parent ++ [name]) ≠ none →
    tree parent = some .directory

section Steps

variable {tree tree' : Tree Name Byte} {names : List Name}
  {node : Option (Node Byte)} {edit : Edit Name Byte}

/-- An entry that is put into a directory. -/
theorem Rooted.put (rooted : Rooted tree) {parent : List Name} {name : Name}
    (inside : tree parent = some .directory)
    (whole : tree (parent ++ [name]) = some .directory →
      node = some .directory)
    (changed : Changed tree tree' (parent ++ [name]) node) :
    Rooted tree' where
  root := by
    rw [changed.others [] (by simp)]
    exact rooted.root
  inside := by
    intro outer last present
    by_cases here : outer ++ [last] = parent ++ [name]
    · obtain ⟨rfl, _⟩ := List.append_inj' here rfl
      rw [changed.others outer (by simp)]
      exact inside
    · rw [changed.others _ here] at present
      have directory := rooted.inside outer last present
      by_cases itself : outer = parent ++ [name]
      · rw [itself] at directory ⊢
        rw [changed.here, whole directory]
      · rwa [changed.others outer itself]

/-- An entry that nothing lies in is dropped. -/
theorem Rooted.drop (rooted : Rooted tree) (inner : names ≠ [])
    (empty : ∀ name, tree (names ++ [name]) = none)
    (changed : Changed tree tree' names none) : Rooted tree' where
  root := by
    rw [changed.others [] (Ne.symm inner)]
    exact rooted.root
  inside := by
    intro outer last present
    have elsewhere : outer ++ [last] ≠ names := by
      intro here
      rw [here] at present
      exact present changed.here
    rw [changed.others _ elsewhere] at present
    have apart : outer ≠ names := by
      rintro rfl
      exact present (empty last)
    rw [changed.others outer apart]
    exact rooted.inside outer last present

/-- What lies below a file. -/
theorem Rooted.file_leaf (rooted : Rooted tree) {content : List Byte}
    (isFile : tree names = some (.file content)) (name : Name) :
    tree (names ++ [name]) = none := by
  refine Classical.byContradiction fun present => ?_
  have directory := rooted.inside names name present
  rw [isFile] at directory
  cases directory

/-- The operations keep every entry in a directory. -/
theorem Step.rooted (step : Step tree edit tree') (rooted : Rooted tree) :
    Rooted tree' := by
  cases step with
  | replace inside regular changed =>
      exact rooted.put inside (fun whole => absurd whole regular) changed
  | nothing => exact rooted
  | patch inside old _ changed =>
      refine rooted.put inside (fun whole => ?_) changed
      rcases old with isFile | ⟨absent, _⟩
      · rw [isFile] at whole
        cases whole
      · rw [absent] at whole
        cases whole
  | remove isFile changed =>
      refine rooted.drop ?_ (rooted.file_leaf isFile) changed
      rintro rfl
      rw [rooted.root] at isFile
      cases isFile
  | makeDirectory inside absent changed =>
      exact rooted.put inside (fun _ => rfl) changed
  | removeDirectory inner _ empty changed =>
      exact rooted.drop inner empty changed

theorem Step.replaced {content : List Byte}
    (step : Step tree (.replace names content) tree') :
    tree' names = some (.file content) := by
  cases step with
  | replace _ _ changed => exact changed.here

/-- An operation leaves what the other names lead to. -/
theorem Step.others (step : Step tree edit tree') {other : List Name}
    (different : other ≠ edit.names) : tree' other = tree other := by
  cases step with
  | replace _ _ changed => exact changed.others other different
  | nothing => rfl
  | patch _ _ _ changed => exact changed.others other different
  | remove _ changed => exact changed.others other different
  | makeDirectory _ _ changed => exact changed.others other different
  | removeDirectory _ _ _ changed => exact changed.others other different

end Steps

end FileTrees
