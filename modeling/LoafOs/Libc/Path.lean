import LoafOs.Fs.FatDirectory
import Mathlib.Data.List.TakeWhile

/-!
# Paths in the C library

`path_normalize` of `src/libc/path.c`.  Its stores to `out` go one behind
the other; the model returns what stands before the NUL that it stores
last.
-/

namespace LoafOs

/-- `MAX_PATH_DEPTH`. -/
def maxPathDepth : Nat := 16

/-- `sizeof(comp) - 1`. -/
def maxComponent : Nat := 31

/-- What a component does to the stack: one of the branches after the
`strcmp` calls. -/
def stackComponent (stack : List CString) (comp : CString) :
    List CString :=
  if comp = [0x2e] then
    stack
  else if comp = [0x2e, 0x2e] then
    if 0 < stack.length then stack.dropLast else stack
  else if stack.length < maxPathDepth then
    stack ++ [comp]
  else
    stack

theorem skipComponent_shorter {p : CString}
    (nonempty : p.dropWhile (· = 0x2f) ≠ []) :
    ((p.dropWhile (· = 0x2f)).dropWhile (· ≠ 0x2f)).length < p.length := by
  have skipped := (List.dropWhile_suffix (l := p) (· = 0x2f)).length_le
  have solid :=
    List.head_dropWhile_not (fun c : UInt8 => c = 0x2f) nonempty
  cases shape : p.dropWhile (· = 0x2f) with
  | nil => exact absurd shape nonempty
  | cons first rest =>
      simp only [shape, List.head_cons] at solid
      have taken :=
        (List.dropWhile_suffix (l := rest) (· ≠ 0x2f)).length_le
      rw [shape, List.length_cons] at skipped
      rw [List.dropWhile_cons_of_pos (by simpa using solid)]
      omega

/-- The loop of `path_normalize` over the input at `p`. -/
def stackLoop (p : CString) (stack : List CString) : List CString :=
  if p = [] then
    stack
  else
    let p' := p.dropWhile (· = 0x2f)
    if p' = [] then
      stack
    else
      let comp := (p'.takeWhile (· ≠ 0x2f)).take maxComponent
      stackLoop (p'.dropWhile (· ≠ 0x2f)) (stackComponent stack comp)
termination_by p.length
decreasing_by
  rename_i _ nonempty
  exact skipComponent_shorter nonempty

/-- The loop of `path_normalize` over the stack, with `out` so far. -/
def writeComponents (outSize : Nat) :
    (stack : List CString) → (out : CString) → CString
  | [], out => out
  | comp :: rest, out =>
      if outSize ≤ out.length + comp.length + 2 then
        out
      else if rest = [] then
        writeComponents outSize rest (out ++ comp)
      else
        writeComponents outSize rest (out ++ comp ++ [0x2f])

/-- `path_normalize`. -/
def pathNormalize (input : CString) (outSize : Nat) : CString :=
  writeComponents outSize (stackLoop input []) [0x2f]

/-! ## Lexical resolution -/

/-- One component of lexical resolution: an empty one and `.` stand for
nothing, and `..` for the component before it, if there is one. -/
def resolveComponent (stack : List CString) (comp : CString) :
    List CString :=
  if comp = [] ∨ comp = [0x2e] then
    stack
  else if comp = [0x2e, 0x2e] then
    stack.dropLast
  else
    stack ++ [comp]

/-- The components that a path stands for. -/
def resolve (path : CString) : List CString :=
  (path.splitOn 0x2f).foldl resolveComponent []

/-- The text of an absolute path. -/
def rootedPath (components : List CString) : CString :=
  0x2f :: [0x2f].intercalate components

/-- Resolution with the limits of `path_normalize`. -/
def resolveLimited (stack : List CString) (comp : CString) :
    List CString :=
  if comp = [] then
    stack
  else
    stackComponent stack (comp.take maxComponent)

theorem foldl_splitOn_slash (p : CString) (stack : List CString) :
    ((0x2f :: p).splitOn 0x2f).foldl resolveLimited stack =
      (p.splitOn 0x2f).foldl resolveLimited stack := by
  have split : (0x2f :: p).splitOn 0x2f = [] :: p.splitOn 0x2f :=
    List.splitOn_append_cons_self_of_not_mem (List.not_mem_nil) p
  rw [split, List.foldl_cons, resolveLimited, if_pos rfl]

theorem foldl_splitOn_skip (p : CString) (stack : List CString) :
    ((p.dropWhile (· = 0x2f)).splitOn 0x2f).foldl resolveLimited stack =
      (p.splitOn 0x2f).foldl resolveLimited stack := by
  induction p with
  | nil => rfl
  | cons first rest inductionHypothesis =>
      by_cases slash : first = 0x2f
      · subst slash
        rw [List.dropWhile_cons_of_pos (by simp), foldl_splitOn_slash]
        exact inductionHypothesis
      · rw [List.dropWhile_cons_of_neg (by simpa using slash)]

theorem foldl_splitOn_component (comp rest : CString)
    (stack : List CString) (noSlash : (0x2f : UInt8) ∉ comp)
    (nonempty : comp ≠ []) (ends : rest = [] ∨ rest.head? = some 0x2f) :
    ((comp ++ rest).splitOn 0x2f).foldl resolveLimited stack =
      (rest.splitOn 0x2f).foldl resolveLimited
        (stackComponent stack (comp.take maxComponent)) := by
  have first : resolveLimited stack comp =
      stackComponent stack (comp.take maxComponent) := if_neg nonempty
  cases rest with
  | nil =>
      rw [List.append_nil, List.splitOn_eq_singleton noSlash,
        List.foldl_cons, first]
      rfl
  | cons slash rest =>
      have isSlash : slash = 0x2f := by simpa using ends
      subst isSlash
      rw [List.splitOn_append_cons_self_of_not_mem noSlash,
        List.foldl_cons, first, foldl_splitOn_slash]

/-- The parts between the slashes of a path, as the loop cuts them. -/
theorem takeWhile_noSlash (p : CString) :
    (0x2f : UInt8) ∉ p.takeWhile (· ≠ 0x2f) := by
  intro member
  simpa using List.mem_takeWhile_imp member

theorem dropWhile_ends (p : CString) :
    p.dropWhile (· ≠ 0x2f) = [] ∨
      (p.dropWhile (· ≠ 0x2f)).head? = some 0x2f := by
  by_cases nonempty : p.dropWhile (· ≠ 0x2f) = []
  · exact .inl nonempty
  · right
    have slash :=
      List.head_dropWhile_not (fun c : UInt8 => c ≠ 0x2f) nonempty
    rw [List.head?_eq_some_head nonempty]
    simpa using slash

theorem skipped_nonempty {p : CString}
    (nonempty : p.dropWhile (· = 0x2f) ≠ []) :
    (p.dropWhile (· = 0x2f)).takeWhile (· ≠ 0x2f) ≠ [] := by
  have solid :=
    List.head_dropWhile_not (fun c : UInt8 => c = 0x2f) nonempty
  cases shape : p.dropWhile (· = 0x2f) with
  | nil => exact absurd shape nonempty
  | cons first rest =>
      simp only [shape, List.head_cons] at solid
      rw [List.takeWhile_cons_of_pos (by simpa using solid)]
      exact List.cons_ne_nil _ _

/-- The loop is lexical resolution with its limits. -/
theorem stackLoop_eq (p : CString) (stack : List CString) :
    stackLoop p stack = (p.splitOn 0x2f).foldl resolveLimited stack := by
  induction p, stack using stackLoop.induct with
  | case1 stack =>
      rw [stackLoop, if_pos rfl]
      rfl
  | case2 p stack going p' ended =>
      rw [stackLoop, if_neg going, ← foldl_splitOn_skip]
      simp only [ended, p']
      rfl
  | case3 p stack going p' more comp inductionHypothesis =>
      rw [stackLoop, if_neg going, ← foldl_splitOn_skip]
      simp only [if_neg more, p']
      rw [inductionHypothesis]
      have parts : p'.takeWhile (· ≠ 0x2f) ++ p'.dropWhile (· ≠ 0x2f) =
          p' := List.takeWhile_append_dropWhile
      have split := foldl_splitOn_component (p'.takeWhile (· ≠ 0x2f))
        (p'.dropWhile (· ≠ 0x2f)) stack (takeWhile_noSlash p')
        (skipped_nonempty more) (dropWhile_ends p')
      rw [parts] at split
      exact split.symm

/-! ## The text of the result -/

section Writing

variable {outSize : Nat} {stack : List CString} {out input : CString}

theorem intercalate_cons {comp : CString} {rest : List CString}
    (more : rest ≠ []) :
    [0x2f].intercalate (comp :: rest) =
      comp ++ 0x2f :: [0x2f].intercalate rest := by
  rw [List.intercalate_cons_of_ne_nil more, List.append_assoc]
  rfl

/-- Components that fit are all written, with slashes between them. -/
theorem writeComponents_fits (nonempty : stack ≠ [])
    (fits : out.length + ([0x2f].intercalate stack).length + 3 ≤ outSize) :
    writeComponents outSize stack out =
      out ++ [0x2f].intercalate stack := by
  induction stack generalizing out with
  | nil => exact absurd rfl nonempty
  | cons comp rest inductionHypothesis =>
      by_cases last : rest = []
      · subst last
        rw [List.intercalate_singleton] at fits ⊢
        rw [writeComponents, if_neg (by omega), if_pos rfl]
        rfl
      · rw [intercalate_cons last, List.length_append,
          List.length_cons] at fits
        rw [writeComponents, if_neg (by omega), if_neg last,
          inductionHypothesis last, intercalate_cons last]
        · simp
        · simp only [List.length_append, List.length_singleton]
          omega

theorem writeComponents_length (room : out.length < outSize) :
    (writeComponents outSize stack out).length < outSize := by
  induction stack generalizing out with
  | nil => exact room
  | cons comp rest inductionHypothesis =>
      rw [writeComponents]
      split
      case isTrue => exact room
      case isFalse fits =>
        split
        case isTrue =>
          apply inductionHypothesis
          rw [List.length_append]
          omega
        case isFalse =>
          apply inductionHypothesis
          simp only [List.length_append, List.length_singleton]
          omega

/-! ## Resolution without the limits -/

theorem resolveLimited_eq {stack : List CString} {comp : CString}
    (short : comp.length ≤ maxComponent)
    (room : (resolveComponent stack comp).length ≤ maxPathDepth) :
    resolveLimited stack comp = resolveComponent stack comp := by
  have whole : comp.take maxComponent = comp :=
    List.take_of_length_le short
  rw [resolveLimited, whole, stackComponent]
  rw [resolveComponent] at room ⊢
  by_cases empty : comp = []
  · rw [if_pos empty, if_pos (.inl empty)]
  by_cases dot : comp = [0x2e]
  · rw [if_neg empty, if_pos dot, if_pos (.inr dot)]
  have neither : ¬(comp = [] ∨ comp = [0x2e]) := by
    rintro (is | is)
    · exact empty is
    · exact dot is
  rw [if_neg empty, if_neg dot, if_neg neither]
  rw [if_neg neither] at room
  by_cases dots : comp = [0x2e, 0x2e]
  · rw [if_pos dots, if_pos dots]
    cases stack <;> rfl
  · rw [if_neg dots, List.length_append, List.length_singleton] at room
    rw [if_neg dots, if_neg dots, if_pos (by omega)]

theorem foldl_resolveLimited {comps : List CString}
    (short : ∀ comp ∈ comps, comp.length ≤ maxComponent)
    (shallow : ∀ done, done <+: comps →
      (done.foldl resolveComponent stack).length ≤ maxPathDepth) :
    comps.foldl resolveLimited stack =
      comps.foldl resolveComponent stack := by
  induction comps generalizing stack with
  | nil => rfl
  | cons comp rest inductionHypothesis =>
      have first : resolveLimited stack comp =
          resolveComponent stack comp := by
        apply resolveLimited_eq (short comp List.mem_cons_self)
        exact shallow [comp] (by simp)
      rw [List.foldl_cons, List.foldl_cons, first]
      apply inductionHypothesis
      · intro other member
        exact short other (List.mem_cons_of_mem _ member)
      · intro done isPrefix
        exact shallow (comp :: done) (List.cons_prefix_cons.mpr
          ⟨rfl, isPrefix⟩)

/-- Within its limits `path_normalize` is lexical resolution. -/
theorem pathNormalize_lexical
    (short : ∀ comp ∈ input.splitOn 0x2f, comp.length ≤ maxComponent)
    (shallow : ∀ done, done <+: input.splitOn 0x2f →
      (done.foldl resolveComponent []).length ≤ maxPathDepth)
    (fits : (rootedPath (resolve input)).length + 3 ≤ outSize) :
    pathNormalize input outSize = rootedPath (resolve input) ∧
      (pathNormalize input outSize).length < outSize := by
  have resolved : stackLoop input [] = resolve input := by
    rw [stackLoop_eq, foldl_resolveLimited short shallow]
    rfl
  have normalized : pathNormalize input outSize =
      rootedPath (resolve input) := by
    rw [pathNormalize, resolved]
    rw [rootedPath, List.length_cons] at fits
    cases shape : resolve input with
    | nil => rfl
    | cons comp rest =>
        rw [shape] at fits
        rw [writeComponents_fits (List.cons_ne_nil _ _)]
        · rfl
        · rw [List.length_singleton]
          omega
  refine ⟨normalized, ?_⟩
  rw [normalized]
  omega

theorem foldl_resolveComponent_length (comps stack : List CString) :
    (comps.foldl resolveComponent stack).length ≤
      stack.length + comps.length := by
  induction comps generalizing stack with
  | nil => exact Nat.le_refl _
  | cons comp rest inductionHypothesis =>
      have first : (resolveComponent stack comp).length ≤
          stack.length + 1 := by
        rw [resolveComponent]
        split
        case isTrue => omega
        case isFalse =>
          split
          case isTrue =>
            rw [List.length_dropLast]
            omega
          case isFalse => rw [List.length_append, List.length_singleton]
      have later := inductionHypothesis (resolveComponent stack comp)
      rw [List.foldl_cons, List.length_cons]
      omega

/-- `/a//./b/../c`. -/
def dottedPath : CString :=
  [0x2f, 0x61, 0x2f, 0x2f, 0x2e, 0x2f, 0x62, 0x2f, 0x2e, 0x2e, 0x2f, 0x63]

theorem dottedPath_normalized :
    pathNormalize dottedPath 128 = [0x2f, 0x61, 0x2f, 0x63] := by
  have resolved : resolve dottedPath = [[0x61], [0x63]] := by
    decide
  have few : (dottedPath.splitOn 0x2f).length = 7 := by
    decide
  have shallow : ∀ done, done <+: dottedPath.splitOn 0x2f →
      (done.foldl resolveComponent []).length ≤ maxPathDepth := by
    intro done isPrefix
    have shorter := isPrefix.length_le
    have length := foldl_resolveComponent_length done []
    have depth : maxPathDepth = 16 := rfl
    rw [List.length_nil] at length
    omega
  have normalized := (pathNormalize_lexical (by decide) shallow
    (show (rootedPath (resolve dottedPath)).length + 3 ≤ 128 by
      rw [resolved]
      decide)).1
  rw [normalized, resolved]
  rfl

/-! ## Every input -/

/-- What `path_normalize` resolves a path to. -/
def resolveWithin (path : CString) : List CString :=
  (path.splitOn 0x2f).foldl resolveLimited []

/-- A normal path: no component is empty, `.` or `..`, and only the root
ends with a slash. -/
structure CanonicalPath (path : CString) : Prop where
  rooted : path.head? = some 0x2f
  components : path ≠ [0x2f] → ∀ comp ∈ path.tail.splitOn 0x2f,
    comp ≠ [] ∧ comp ≠ [0x2e] ∧ comp ≠ [0x2e, 0x2e]
  noTrailing : path.getLast? = some 0x2f → path = [0x2f]

/-- The result is a normal path that ends inside `out`, and it is its own
result. -/
structure Normalized (input : CString) (outSize : Nat) : Prop where
  terminated : (pathNormalize input outSize).length < outSize
  noNul : ∀ c ∈ pathNormalize input outSize, c ≠ 0
  canonical : CanonicalPath (pathNormalize input outSize)
  stable : pathNormalize (pathNormalize input outSize) outSize =
    pathNormalize input outSize

/-- There is at most one component, or room for the whole text, or not even
room for the first component. -/
def WholeOrNothing (input : CString) (outSize : Nat) : Prop :=
  (resolveWithin input).length ≤ 1 ∨
    (rootedPath (resolveWithin input)).length + 3 ≤ outSize ∨
      ∃ first ∈ (resolveWithin input).head?, outSize ≤ first.length + 3

/-- A component on the stack. -/
structure CleanComponent (comp : CString) : Prop where
  nonempty : comp ≠ []
  notDot : comp ≠ [0x2e]
  notDots : comp ≠ [0x2e, 0x2e]
  noSlash : (0x2f : UInt8) ∉ comp
  noNul : (0 : UInt8) ∉ comp
  short : comp.length ≤ maxComponent

structure CleanStack (stack : List CString) : Prop where
  components : ∀ comp ∈ stack, CleanComponent comp
  shallow : stack.length ≤ maxPathDepth

theorem CleanStack.component (clean : CleanStack stack) {comp : CString}
    (nonempty : comp ≠ []) (noSlash : (0x2f : UInt8) ∉ comp)
    (noNul : (0 : UInt8) ∉ comp) (short : comp.length ≤ maxComponent) :
    CleanStack (stackComponent stack comp) := by
  rw [stackComponent]
  split
  case isTrue => exact clean
  case isFalse notDot =>
    split
    case isTrue =>
      split
      case isTrue =>
        refine ⟨?_, ?_⟩
        · intro other member
          apply clean.components other
          exact (List.dropLast_sublist _).subset member
        · have shallow := clean.shallow
          rw [List.length_dropLast]
          omega
      case isFalse => exact clean
    case isFalse notDots =>
      split
      case isTrue room =>
        refine ⟨?_, ?_⟩
        · intro other member
          rcases List.mem_append.mp member with old | new
          · exact clean.components other old
          · rw [List.mem_singleton.mp new]
            exact ⟨nonempty, notDot, notDots, noSlash, noNul, short⟩
        · rw [List.length_append, List.length_singleton]
          exact room
      case isFalse => exact clean

theorem CleanStack.loop {p : CString} (clean : CleanStack stack)
    (isString : (0 : UInt8) ∉ p) : CleanStack (stackLoop p stack) := by
  induction p, stack using stackLoop.induct with
  | case1 stack =>
      rw [stackLoop, if_pos rfl]
      exact clean
  | case2 p stack going p' ended =>
      rw [stackLoop, if_neg going]
      simp only [ended, p', if_true]
      exact clean
  | case3 p stack going p' more comp inductionHypothesis =>
      rw [stackLoop, if_neg going]
      simp only [if_neg more, p']
      have inside : p' ⊆ p := (List.dropWhile_suffix _).subset
      have taken : p'.takeWhile (· ≠ 0x2f) ⊆ p' :=
        (List.takeWhile_prefix _).subset
      have cut : comp ⊆ p'.takeWhile (· ≠ 0x2f) :=
        (List.take_prefix _ _).subset
      apply inductionHypothesis
      · apply clean.component
        · intro empty
          rcases List.take_eq_nil_iff.mp empty with none | none
          · exact absurd none (by decide)
          · exact skipped_nonempty more none
        · intro member
          exact takeWhile_noSlash p' (cut member)
        · intro member
          exact isString (inside (taken (cut member)))
        · exact List.length_take_le _ _
      · intro member
        exact isString (inside ((List.dropWhile_suffix _).subset member))

theorem resolveWithin_clean (isString : (0 : UInt8) ∉ input) :
    CleanStack (resolveWithin input) := by
  have empty : CleanStack [] := by
    refine ⟨?_, Nat.zero_le _⟩
    intro comp member
    cases member
  have clean := empty.loop isString
  rw [stackLoop_eq] at clean
  exact clean

theorem pathNormalize_eq (input : CString) (outSize : Nat) :
    pathNormalize input outSize =
      writeComponents outSize (resolveWithin input) [0x2f] := by
  rw [pathNormalize, stackLoop_eq]
  rfl

/-- A clean component is pushed as it is. -/
theorem CleanComponent.push {comp : CString} (clean : CleanComponent comp)
    (room : stack.length < maxPathDepth) :
    resolveLimited stack comp = stack ++ [comp] := by
  have whole : comp.take maxComponent = comp :=
    List.take_of_length_le clean.short
  rw [resolveLimited, if_neg clean.nonempty, whole, stackComponent,
    if_neg clean.notDot, if_neg clean.notDots, if_pos room]

theorem foldl_clean {comps : List CString}
    (clean : ∀ comp ∈ comps, CleanComponent comp)
    (room : stack.length + comps.length ≤ maxPathDepth) :
    comps.foldl resolveLimited stack = stack ++ comps := by
  induction comps generalizing stack with
  | nil => rw [List.append_nil]; rfl
  | cons comp rest inductionHypothesis =>
      rw [List.length_cons] at room
      have first := clean comp List.mem_cons_self
      rw [List.foldl_cons, first.push (by omega), inductionHypothesis]
      · simp
      · intro other member
        exact clean other (List.mem_cons_of_mem _ member)
      · rw [List.length_append, List.length_singleton]
        omega

theorem CleanStack.splitOn (clean : CleanStack stack)
    (nonempty : stack ≠ []) :
    ([0x2f].intercalate stack).splitOn 0x2f = stack := by
  apply List.splitOn_intercalate _ _ nonempty
  intro comp member
  exact (clean.components comp member).noSlash

/-- The text of a clean stack is resolved to it. -/
theorem CleanStack.resolved (clean : CleanStack stack) :
    resolveWithin (rootedPath stack) = stack := by
  rw [resolveWithin, rootedPath, foldl_splitOn_slash]
  cases stack with
  | nil => rfl
  | cons comp rest =>
      have shallow := clean.shallow
      rw [clean.splitOn (List.cons_ne_nil _ _),
        foldl_clean clean.components]
      · rfl
      · rw [List.length_nil]
        omega

/-! ## What is written of it -/

theorem intercalate_getLast (nonempty : stack ≠ []) :
    ∃ front, [0x2f].intercalate stack =
      front ++ stack.getLast nonempty := by
  induction stack with
  | nil => exact absurd rfl nonempty
  | cons comp rest inductionHypothesis =>
      by_cases last : rest = []
      · subst last
        exact ⟨[], List.intercalate_singleton⟩
      · obtain ⟨front, shape⟩ := inductionHypothesis last
        refine ⟨comp ++ 0x2f :: front, ?_⟩
        rw [intercalate_cons last, shape, List.getLast_cons last]
        simp

/-- The text of clean components is a normal path. -/
theorem CleanStack.canonical (clean : CleanStack stack)
    (nonempty : stack ≠ []) : CanonicalPath (rootedPath stack) := by
  refine ⟨rfl, ?_, ?_⟩
  · intro _ comp member
    have parts : ([0x2f].intercalate stack).splitOn 0x2f = stack :=
      clean.splitOn nonempty
    rw [rootedPath, List.tail_cons, parts] at member
    have component := clean.components comp member
    exact ⟨component.nonempty, component.notDot, component.notDots⟩
  · intro slash
    obtain ⟨front, shape⟩ := intercalate_getLast nonempty
    have last := clean.components _ (List.getLast_mem nonempty)
    rw [rootedPath, shape, ← List.cons_append,
      List.getLast?_append_of_ne_nil _ last.nonempty] at slash
    exact absurd (List.mem_of_getLast? slash) last.noSlash

theorem root_canonical : CanonicalPath [0x2f] :=
  ⟨rfl, fun other => absurd rfl other, fun _ => rfl⟩

theorem writeComponents_noNul (outNoNul : (0 : UInt8) ∉ out)
    (noNul : ∀ comp ∈ stack, (0 : UInt8) ∉ comp) :
    (0 : UInt8) ∉ writeComponents outSize stack out := by
  induction stack generalizing out with
  | nil => exact outNoNul
  | cons comp rest inductionHypothesis =>
      have first : (0 : UInt8) ∉ comp := noNul comp List.mem_cons_self
      have others : ∀ other ∈ rest, (0 : UInt8) ∉ other := by
        intro other member
        exact noNul other (List.mem_cons_of_mem _ member)
      rw [writeComponents]
      split
      case isTrue => exact outNoNul
      case isFalse =>
        split
        case isTrue =>
          apply inductionHypothesis _ others
          simp [outNoNul, first]
        case isFalse =>
          apply inductionHypothesis _ others
          simp [outNoNul, first]

/-- Components that do not all fit, the first of which does, leave a slash
at the end. -/
theorem writeComponents_cut (nonempty : stack ≠ [])
    (beyond : outSize < out.length + ([0x2f].intercalate stack).length + 3)
    (first : out.length + (stack.head nonempty).length + 3 ≤ outSize) :
    ∃ text, writeComponents outSize stack out = out ++ text ++ [0x2f] := by
  induction stack generalizing out with
  | nil => exact absurd rfl nonempty
  | cons comp rest inductionHypothesis =>
      rw [List.head_cons] at first
      have more : rest ≠ [] := by
        rintro rfl
        rw [List.intercalate_singleton] at beyond
        omega
      rw [intercalate_cons more, List.length_append, List.length_cons]
        at beyond
      rw [writeComponents, if_neg (by omega), if_neg more]
      have length : (out ++ comp ++ [0x2f]).length =
          out.length + comp.length + 1 := by
        simp only [List.length_append, List.length_singleton]
      by_cases next : out.length + comp.length + 1 +
          (rest.head more).length + 3 ≤ outSize
      · obtain ⟨text, shape⟩ :=
          @inductionHypothesis (out ++ comp ++ [0x2f]) more
            (by rw [length]; omega) (by rw [length]; omega)
        refine ⟨comp ++ [0x2f] ++ text, ?_⟩
        rw [shape]
        simp
      · refine ⟨comp, ?_⟩
        cases rest with
        | nil => exact absurd rfl more
        | cons second rest =>
            rw [List.head_cons] at next
            rw [writeComponents, if_pos (by rw [length]; omega)]

/-- A first component that does not fit leaves the root. -/
theorem writeComponents_nothing
    (tooLong : ∃ first ∈ stack.head?, outSize ≤ out.length +
      first.length + 2) : writeComponents outSize stack out = out := by
  obtain ⟨first, isFirst, long⟩ := tooLong
  cases stack with
  | nil => cases isFirst
  | cons comp rest =>
      have same : comp = first := by simpa using isFirst
      subst same
      rw [writeComponents, if_pos long]

/-- The root or the whole text is written. -/
theorem WholeOrNothing.written
    (wholeOrNothing : WholeOrNothing input outSize) :
    pathNormalize input outSize = [0x2f] ∨
      (resolveWithin input ≠ [] ∧
        pathNormalize input outSize = rootedPath (resolveWithin input) ∧
        (rootedPath (resolveWithin input)).length + 3 ≤ outSize) := by
  rw [pathNormalize_eq]
  by_cases empty : resolveWithin input = []
  · left
    rw [empty]
    rfl
  by_cases fits : (rootedPath (resolveWithin input)).length + 3 ≤ outSize
  · right
    refine ⟨empty, ?_, fits⟩
    rw [rootedPath, List.length_cons] at fits
    rw [writeComponents_fits empty]
    · rfl
    · rw [List.length_singleton]
      omega
  · left
    apply writeComponents_nothing
    rw [List.length_singleton]
    rcases wholeOrNothing with few | whole | ⟨first, isFirst, long⟩
    · obtain ⟨comp, isOnly⟩ : ∃ comp, resolveWithin input = [comp] := by
        apply List.length_eq_one_iff.mp
        have positive := List.length_pos_of_ne_nil empty
        omega
      rw [isOnly, rootedPath, List.intercalate_singleton,
        List.length_cons] at fits
      rw [isOnly]
      exact ⟨comp, rfl, by omega⟩
    · exact absurd whole fits
    · exact ⟨first, isFirst, by omega⟩

theorem Normalized.wholeOrNothing
    (normalized : Normalized input outSize) :
    WholeOrNothing input outSize := by
  by_contra neither
  unfold WholeOrNothing at neither
  push Not at neither
  obtain ⟨several, beyond, first⟩ := neither
  have nonempty : resolveWithin input ≠ [] := by
    intro empty
    rw [empty, List.length_nil] at several
    omega
  have fits := first _ (List.head?_eq_some_head nonempty)
  rw [rootedPath, List.length_cons] at beyond
  obtain ⟨text, shape⟩ := @writeComponents_cut outSize
    (resolveWithin input) [0x2f] nonempty
    (by rw [List.length_singleton]; omega)
    (by rw [List.length_singleton]; omega)
  have trailing := normalized.canonical.noTrailing
  rw [pathNormalize_eq, shape, List.getLast?_append_cons] at trailing
  have root := congrArg List.length (trailing rfl)
  simp at root

theorem WholeOrNothing.normalized (isString : (0 : UInt8) ∉ input)
    (size : 2 ≤ outSize) (wholeOrNothing : WholeOrNothing input outSize) :
    Normalized input outSize := by
  have clean := resolveWithin_clean isString
  have terminated : (pathNormalize input outSize).length < outSize := by
    rw [pathNormalize_eq]
    apply writeComponents_length
    rw [List.length_singleton]
    omega
  have noNul : (0 : UInt8) ∉ pathNormalize input outSize := by
    rw [pathNormalize_eq]
    apply writeComponents_noNul (by decide)
    intro comp member
    exact (clean.components comp member).noNul
  have noneNul : ∀ c ∈ pathNormalize input outSize, c ≠ 0 := by
    intro c member zero
    exact noNul (zero ▸ member)
  rcases wholeOrNothing.written with root | ⟨nonempty, whole, fits⟩
  · refine ⟨terminated, noneNul, ?_, ?_⟩
    · rw [root]
      exact root_canonical
    · rw [root, pathNormalize_eq]
      rfl
  · refine ⟨terminated, noneNul, ?_, ?_⟩
    · rw [whole]
      exact clean.canonical nonempty
    · rw [whole, pathNormalize_eq, clean.resolved, ← pathNormalize_eq,
        whole]

/-- A result is normal, and its own result, exactly when it holds all
components or none. -/
theorem pathNormalize_normalized_iff (input : CString) (outSize : Nat)
    (isString : (0 : UInt8) ∉ input) (size : 2 ≤ outSize) :
    Normalized input outSize ↔ WholeOrNothing input outSize := by
  constructor
  · exact Normalized.wholeOrNothing
  · exact WholeOrNothing.normalized isString size

/-- `/usr/bin` fits, with room for the NUL and one more byte. -/
theorem sampleRoom_normalized :
    Normalized [0x2f, 0x75, 0x73, 0x72, 0x2f, 0x62, 0x69, 0x6e] 11 :=
  (pathNormalize_normalized_iff _ 11 (by decide) (by decide)).mpr
    (.inr (.inl (by decide)))

/-- For one byte less it is cut after the slash. -/
theorem sampleRoom_cut :
    ¬Normalized [0x2f, 0x75, 0x73, 0x72, 0x2f, 0x62, 0x69, 0x6e] 10 := by
  intro normalized
  have trailing := normalized.canonical.noTrailing
  rw [pathNormalize_eq] at trailing
  exact absurd (trailing (by decide)) (by decide)

end Writing

end LoafOs
