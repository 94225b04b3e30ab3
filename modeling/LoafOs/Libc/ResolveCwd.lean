import LoafOs.Libc.Path
import LoafOs.Libc.Strings

/-!
# Paths from the working directory

`path_resolve_cwd` of `src/libc/path.c`, with its arrays, and what a path
means in a working directory.
-/

namespace LoafOs

open CStrings

/-- `getcwd` in a process with this `cwd`: what `SYS_GETCWD` stores. -/
def getcwd (cwd : CString) (out : List UInt8) (max : Nat) :
    Option (List UInt8) := do
  let len := if max ≤ cwd.length then max - 1 else cwd.length
  let out ← memcpy len out 0 (cwd ++ [0]) 0
  store out len 0

/-- The slash behind the directory in `combined`, and `clen`. -/
def endWithSlash (combined : List UInt8) (clen : Nat) :
    Option (List UInt8 × Nat) := do
  if 0 < clen then
    let last ← combined[clen - 1]?
    if last ≠ 0x2f ∧ clen < 255 then
      let combined ← store combined clen 0x2f
      let combined ← store combined (clen + 1) 0
      return (combined, clen + 1)
  return (combined, clen)

/-- `path_resolve_cwd` of the string at a pointer; `combined` and `buffer`,
for `char cwd[MAX_BUF]`, are its local arrays. -/
def pathResolveCwd (cwd : CString) (buffer combined input : List UInt8)
    (p outSize : Nat) : Option CString := do
  let buffer ← getcwd cwd buffer 128
  let first ← input[p]?
  if first = 0x2f then
    let combined ← strncpy 255 combined 0 input p
    let combined ← store combined 255 0
    let whole ← stringAt combined 0
    return pathNormalize whole outSize
  else
    let combined ← strncpy 255 combined 0 buffer 0
    let combined ← store combined 255 0
    let clen ← strlen combined 0
    let (combined, clen) ← endWithSlash combined clen
    let combined ← strncat (256 - clen - 1) combined 0 input p
    let whole ← stringAt combined 0
    return pathNormalize whole outSize

/-! ## The text that is resolved -/

/-- The directory, with a slash behind it. -/
def slashed (cwd : CString) : CString :=
  if cwd = [] ∨ cwd.getLast? = some 0x2f then cwd else cwd ++ [0x2f]

/-- A path as seen from a directory. -/
def joinCwd (cwd path : CString) : CString :=
  if path.head? = some 0x2f then path else slashed cwd ++ path

section Joining

variable {cwd path : CString} {buffer combined input array : List UInt8}
  {p n outSize : Nat} {text : CString}

theorem getcwd_eq (isString : (0 : UInt8) ∉ cwd) (short : cwd.length < 128)
    (size : buffer.length = 128) :
    ∃ buffer', getcwd cwd buffer 128 = some buffer' ∧
      HoldsAt buffer' 0 cwd ∧ buffer'.length = 128 := by
  have split : buffer = buffer.take cwd.length ++
      buffer.drop cwd.length := (List.take_append_drop _ _).symm
  obtain ⟨old, rest, isRest⟩ :
      ∃ old rest, buffer.drop cwd.length = old :: rest := by
    cases shape : buffer.drop cwd.length with
    | nil =>
        have length := congrArg List.length shape
        rw [List.length_drop, List.length_nil] at length
        omega
    | cons old rest => exact ⟨old, rest, rfl⟩
  have copied := @memcpy_eq [0] (cwd ++ [0]) [] (buffer.take cwd.length)
    (buffer.drop cwd.length) cwd 0 cwd.length rfl rfl
    (by rw [List.length_take]; omega)
  rw [List.nil_append, ← split, List.length_nil, isRest, List.nil_append]
    at copied
  have stored := @store_append rest old 0 cwd
  rw [getcwd, if_neg (by omega)]
  simp only [Option.bind_eq_bind, copied, Option.bind_some, stored]
  refine ⟨_, rfl, HoldsAt.front isString, ?_⟩
  have length := congrArg List.length isRest
  rw [List.length_drop, List.length_cons] at length
  rw [List.length_append, List.length_cons]
  omega

/-- What `strncpy` and the last NUL leave in `combined`. -/
theorem strncpy_whole (size : combined.length = 256)
    (holds : HoldsAt input p text) (fits : text.length ≤ 255) :
    ∃ copied, strncpy 255 combined 0 input p = some copied ∧
      store copied 255 0 =
        some (text ++ 0 :: List.replicate (255 - text.length) 0) := by
  have nonempty : combined ≠ [] := by
    intro none
    rw [none] at size
    exact absurd size (by decide)
  obtain ⟨old, last, rfl⟩ : ∃ old last, combined = old ++ [last] :=
    ⟨_, _, (List.dropLast_concat_getLast nonempty).symm⟩
  rw [List.length_append, List.length_singleton] at size
  have length : old.length = 255 := by omega
  have copied := @strncpy_eq input [] old [last] text p 255 holds fits length
  have place : (text ++ List.replicate (255 - text.length) (0 : UInt8)).length =
      255 := by
    rw [List.length_append, List.length_replicate]
    omega
  have stored := @store_append [] last 0
    (text ++ List.replicate (255 - text.length) 0)
  rw [place] at stored
  refine ⟨_, copied, ?_⟩
  rw [List.nil_append, stored, List.append_assoc, ← List.replicate_succ',
    List.replicate_succ]

/-- The directory in `combined`, with its slash. -/
theorem endWithSlash_eq (short : cwd.length < 128) :
    endWithSlash (cwd ++ 0 :: List.replicate (255 - cwd.length) 0)
        cwd.length =
      some (slashed cwd ++ 0 ::
        List.replicate (255 - (slashed cwd).length) 0,
          (slashed cwd).length) := by
  by_cases empty : cwd = []
  · subst empty
    rfl
  have positive := List.length_pos_of_ne_nil empty
  have load : (cwd ++ 0 :: List.replicate (255 - cwd.length) 0)[
      cwd.length - 1]? = some (cwd.getLast empty) := by
    rw [List.getElem?_append_left (by omega), ← List.getLast?_eq_getElem?,
      List.getLast?_eq_some_getLast empty]
  rw [endWithSlash, if_pos positive, load]
  simp only [Option.bind_eq_bind, Option.bind_some]
  by_cases slash : cwd.getLast empty = 0x2f
  · have same : slashed cwd = cwd := if_pos (.inr (by
      rw [List.getLast?_eq_some_getLast empty, slash]))
    rw [same, if_neg fun other => other.1 slash]
    rfl
  · have more : slashed cwd = cwd ++ [0x2f] := if_neg (by
      rw [List.getLast?_eq_some_getLast empty, Option.some.injEq]
      exact fun either => either.elim empty slash)
    have room : 255 - cwd.length = (254 - cwd.length) + 1 := by omega
    have length : (cwd ++ [(0x2f : UInt8)]).length = cwd.length + 1 := by
      rw [List.length_append, List.length_singleton]
    have rest : 255 - (cwd.length + 1) = 254 - cwd.length := by omega
    have first := @store_append (List.replicate (255 - cwd.length) 0) 0 0x2f
      cwd
    have second := @store_append (List.replicate (254 - cwd.length) 0) 0 0
      (cwd ++ [0x2f])
    rw [length, List.append_assoc, List.singleton_append] at second
    rw [if_pos ⟨slash, by omega⟩, first, Option.bind_some, room,
      List.replicate_succ, second, Option.bind_some, more, length, rest,
      List.append_assoc, List.singleton_append]
    rfl

theorem slashed_length (cwd : CString) :
    (slashed cwd).length ≤ cwd.length + 1 := by
  rw [slashed]
  split
  · omega
  · rw [List.length_append, List.length_singleton]

theorem slashed_isString (isString : (0 : UInt8) ∉ cwd) :
    (0 : UInt8) ∉ slashed cwd := by
  rw [slashed]
  split
  · exact isString
  · intro member
    rcases List.mem_append.mp member with inside | inside
    · exact isString inside
    · exact absurd (List.mem_singleton.mp inside) (by decide)

/-- `path_resolve_cwd` resolves the path as seen from the directory, and
keeps to its arrays. -/
theorem pathResolveCwd_eq (isString : (0 : UInt8) ∉ cwd)
    (short : cwd.length < 128) (bufferSize : buffer.length = 128)
    (size : combined.length = 256) (holds : HoldsAt input p path)
    (fits : path.length < 128) :
    pathResolveCwd cwd buffer combined input p outSize =
      some (pathNormalize (joinCwd cwd path) outSize) := by
  obtain ⟨buffer', got, directory, _⟩ := getcwd_eq isString short bufferSize
  rw [pathResolveCwd, got, holds.load]
  simp only [Option.bind_eq_bind, Option.bind_some]
  by_cases absolute : path.head? = some 0x2f
  · obtain ⟨copied, copy, stored⟩ := strncpy_whole size holds (by omega)
    have whole : path.headD 0 = 0x2f := by
      rw [List.headD_eq_head?_getD, absolute]
      rfl
    have read := (@HoldsAt.front path (List.replicate (255 - path.length) 0)
      holds.isString).string
    rw [if_pos whole, copy, Option.bind_some, stored, Option.bind_some, read,
      joinCwd, if_pos absolute]
    rfl
  · obtain ⟨copied, copy, stored⟩ :=
      strncpy_whole size directory (by omega)
    have relative : path.headD 0 ≠ 0x2f := by
      rw [List.headD_eq_head?_getD]
      intro slash
      cases first : path.head? with
      | none =>
          rw [first] at slash
          exact absurd slash (by decide)
      | some c =>
          rw [first, Option.getD_some] at slash
          exact absolute (by rw [first, slash])
    have length := slashed_length cwd
    have text := slashed_isString isString
    have old := @List.length_replicate _ path.length (0 : UInt8)
    have appended := @strncat_eq input (slashed cwd)
      (List.replicate path.length 0)
      (List.replicate (255 - (slashed cwd).length - path.length) 0) path p
      (256 - (slashed cwd).length - 1) text holds (by omega) old
    have fill : List.replicate path.length (0 : UInt8) ++
        List.replicate (255 - (slashed cwd).length - path.length) 0 =
          List.replicate (255 - (slashed cwd).length) 0 := by
      rw [List.replicate_append_replicate]
      congr 1
      omega
    rw [List.append_assoc, List.cons_append, fill] at appended
    have found := strlen_eq (@HoldsAt.front cwd
      (List.replicate (255 - cwd.length) 0) isString)
    have both : (0 : UInt8) ∉ slashed cwd ++ path := fun member =>
      (List.mem_append.mp member).elim text holds.isString
    rw [if_neg relative, copy, Option.bind_some, stored, Option.bind_some,
      found, Option.bind_some, endWithSlash_eq short, Option.bind_some]
    simp only
    rw [appended, Option.bind_some, (HoldsAt.front both).string, joinCwd,
      if_neg absolute]
    rfl

end Joining

/-! ## What the path means -/

/-- The components that a path stands for in a directory. -/
def resolveFrom (stack : List CString) (path : CString) : List CString :=
  (path.splitOn 0x2f).foldl resolveLimited
    (if path.head? = some 0x2f then [] else stack)

section Meaning

variable {cwd path : CString} {buffer combined input : List UInt8}
  {p outSize : Nat} {stack : List CString}

theorem foldl_splitOn_append (left right : CString) (stack : List CString) :
    ((left ++ 0x2f :: right).splitOn 0x2f).foldl resolveLimited stack =
      (right.splitOn 0x2f).foldl resolveLimited
        ((left.splitOn 0x2f).foldl resolveLimited stack) := by
  rw [List.splitOn_append_cons_self, List.foldl_append]

/-- The slash behind the directory ends its last component. -/
theorem resolveWithin_slashed (cwd path : CString) :
    resolveWithin (slashed cwd ++ path) =
      (path.splitOn 0x2f).foldl resolveLimited (resolveWithin cwd) := by
  rw [slashed]
  split
  case isTrue already =>
    rcases already with empty | slash
    · rw [empty]
      rfl
    · obtain ⟨front, rfl⟩ : ∃ front, cwd = front ++ [0x2f] :=
        List.getLast?_eq_some_iff.mp slash
      rw [List.append_assoc, List.singleton_append, resolveWithin,
        resolveWithin, foldl_splitOn_append, foldl_splitOn_append]
      rfl
  case isFalse =>
    rw [List.append_assoc, List.singleton_append, resolveWithin,
      resolveWithin, foldl_splitOn_append]

theorem resolveWithin_joinCwd (cwd path : CString) :
    resolveWithin (joinCwd cwd path) =
      resolveFrom (resolveWithin cwd) path := by
  rw [joinCwd, resolveFrom]
  split
  · rfl
  · exact resolveWithin_slashed cwd path

theorem writeComponents_rooted
    (fits : (rootedPath stack).length + 3 ≤ outSize) :
    writeComponents outSize stack [0x2f] = rootedPath stack := by
  by_cases empty : stack = []
  · subst empty
    rfl
  · rw [rootedPath, List.length_cons] at fits
    rw [writeComponents_fits empty, rootedPath]
    · rfl
    · rw [List.length_singleton]
      omega

theorem CleanStack.foldl (clean : CleanStack stack)
    (isString : (0 : UInt8) ∉ path) :
    CleanStack ((path.splitOn 0x2f).foldl resolveLimited stack) := by
  rw [← stackLoop_eq]
  exact clean.loop isString

theorem CleanStack.empty : CleanStack [] :=
  ⟨fun _ member => absurd member List.not_mem_nil, Nat.zero_le _⟩

theorem CleanStack.resolveFrom (clean : CleanStack stack)
    (isString : (0 : UInt8) ∉ path) :
    CleanStack (resolveFrom stack path) := by
  rw [LoafOs.resolveFrom]
  split
  · exact CleanStack.empty.foldl isString
  · exact clean.foldl isString

/-- A path of fewer than 128 bytes means in every working directory what its
components, read from left to right, make of those of the directory, and a
result that fits is their text. -/
theorem pathResolveCwd_lexical (isString : (0 : UInt8) ∉ cwd)
    (short : cwd.length < 128) (bufferSize : buffer.length = 128)
    (size : combined.length = 256) (holds : HoldsAt input p path)
    (length : path.length < 128) :
    ∃ out, pathResolveCwd cwd buffer combined input p outSize = some out ∧
      CleanStack (resolveFrom (resolveWithin cwd) path) ∧
      ((rootedPath (resolveFrom (resolveWithin cwd) path)).length + 3 ≤
          outSize →
        out = rootedPath (resolveFrom (resolveWithin cwd) path) ∧
          resolveWithin out = resolveFrom (resolveWithin cwd) path) := by
  have clean : CleanStack (resolveFrom (resolveWithin cwd) path) :=
    (resolveWithin_clean isString).resolveFrom holds.isString
  refine ⟨_, pathResolveCwd_eq isString short bufferSize size holds length,
    clean, fun fits => ?_⟩
  have whole : pathNormalize (joinCwd cwd path) outSize =
      rootedPath (resolveFrom (resolveWithin cwd) path) := by
    rw [pathNormalize_eq, resolveWithin_joinCwd, writeComponents_rooted fits]
  exact ⟨whole, by rw [whole, clean.resolved]⟩

/-- `../etc/./x` in `/usr/bin`. -/
theorem samplePath_resolved :
    ∃ out, pathResolveCwd
        [0x2f, 0x75, 0x73, 0x72, 0x2f, 0x62, 0x69, 0x6e]
        (List.replicate 128 0) (List.replicate 256 0)
        [0x2e, 0x2e, 0x2f, 0x65, 0x74, 0x63, 0x2f, 0x2e, 0x2f, 0x78, 0]
        0 128 = some out ∧
      out = [0x2f, 0x75, 0x73, 0x72, 0x2f, 0x65, 0x74, 0x63, 0x2f, 0x78] := by
  have holds : HoldsAt [0x2e, 0x2e, 0x2f, 0x65, 0x74, 0x63, 0x2f, 0x2e,
      0x2f, 0x78, 0] 0 [0x2e, 0x2e, 0x2f, 0x65, 0x74, 0x63, 0x2f, 0x2e,
        0x2f, 0x78] := ⟨by decide, [], rfl⟩
  have meaning : resolveFrom
      (resolveWithin [0x2f, 0x75, 0x73, 0x72, 0x2f, 0x62, 0x69, 0x6e])
      [0x2e, 0x2e, 0x2f, 0x65, 0x74, 0x63, 0x2f, 0x2e, 0x2f, 0x78] =
        [[0x75, 0x73, 0x72], [0x65, 0x74, 0x63], [0x78]] := by
    decide
  obtain ⟨out, result, _, text⟩ := @pathResolveCwd_lexical
    [0x2f, 0x75, 0x73, 0x72, 0x2f, 0x62, 0x69, 0x6e] _
    (List.replicate 128 0) (List.replicate 256 0) _ 0 128 (by decide)
    (by decide) List.length_replicate List.length_replicate holds (by decide)
  rw [meaning] at text
  exact ⟨out, result, (text (by decide)).1⟩

end Meaning

end LoafOs
