import LoafOs.Userspace.Shell

/-!
# Typing commands

Over every sequence of keys the shell keeps to its arrays, and does exactly
what the lines, edited and cut into words, ask for.
-/

namespace LoafOs

open CStrings

/-! ## The words of a line -/

section Words

variable {chars chars' text rest : List UInt8} {p room : Nat}

theorem isSeparator_nul : isSeparator 0 = false := rfl

theorem parseArgs_nul (load : chars[p]? = some 0) :
    parseArgs room chars p = some (chars, []) := by
  cases room with
  | zero =>
      rw [parseArgs, load]
      rfl
  | succ room =>
      rw [parseArgs, load]
      rfl

theorem take_of_take {k : Nat} (small : p ≤ k)
    (same : chars'.take k = chars.take k) : chars'.take p = chars.take p := by
  have cut := congrArg (List.take p) same
  rwa [List.take_take, List.take_take, Nat.min_eq_left small] at cut

/-- The separators in front of a word. -/
theorem scan_word (present : chars.drop p = text ++ 0 :: rest) :
    ∃ word, scanFor (fun c => !isSeparator c) chars p = some word ∧ p ≤ word ∧
      chars.drop word = text.dropWhile isSeparator ++ 0 :: rest := by
  have split : text.takeWhile isSeparator ++ text.dropWhile isSeparator =
      text := List.takeWhile_append_dropWhile
  have skipped : ∀ byte ∈ text.takeWhile isSeparator,
      (!isSeparator byte) = false := by
    intro byte member
    rw [List.mem_takeWhile_imp member]
    rfl
  have present' : chars.drop p = text.takeWhile isSeparator ++
      (text.dropWhile isSeparator ++ 0 :: rest) := by
    rw [present, ← List.append_assoc, split]
  refine ⟨p + (text.takeWhile isSeparator).length, ?_, Nat.le_add_right _ _,
    drop_add present'⟩
  cases shape : text.dropWhile isSeparator with
  | nil =>
      rw [shape] at present'
      exact scanFor_eq skipped rfl present'
  | cons first body =>
      have solid : isSeparator first = false := by
        have head := List.head_dropWhile_not isSeparator
          (by rw [shape]; exact List.cons_ne_nil _ _)
        simpa only [shape, List.head_cons, Bool.not_eq_true] using head
      rw [shape] at present'
      exact scanFor_eq skipped (by rw [solid]; rfl) present'

/-- The end of a word. -/
theorem scan_end (isString : (0 : UInt8) ∉ text)
    (present : chars.drop p = text ++ 0 :: rest) :
    scanFor (fun c => c == 0 || isSeparator c) chars p =
        some (p + (text.takeWhile (!isSeparator ·)).length) ∧
      chars.drop (p + (text.takeWhile (!isSeparator ·)).length) =
        text.dropWhile (!isSeparator ·) ++ 0 :: rest := by
  have split : text.takeWhile (!isSeparator ·) ++
      text.dropWhile (!isSeparator ·) = text :=
    List.takeWhile_append_dropWhile
  have skipped : ∀ byte ∈ text.takeWhile (!isSeparator ·),
      (byte == 0 || isSeparator byte) = false := by
    intro byte member
    have solid : isSeparator byte = false := by
      simpa using List.mem_takeWhile_imp member
    have inside : byte ≠ 0 := fun zero =>
      isString (zero ▸ (List.takeWhile_prefix _).subset member)
    rw [solid, beq_false_of_ne inside]
    rfl
  have present' : chars.drop p = text.takeWhile (!isSeparator ·) ++
      (text.dropWhile (!isSeparator ·) ++ 0 :: rest) := by
    rw [present, ← List.append_assoc, split]
  refine ⟨?_, drop_add present'⟩
  cases shape : text.dropWhile (!isSeparator ·) with
  | nil =>
      rw [shape] at present'
      exact scanFor_eq skipped rfl present'
  | cons first after =>
      have separator : isSeparator first = true := by
        have head := List.head_dropWhile_not (!isSeparator ·)
          (by rw [shape]; exact List.cons_ne_nil _ _)
        simpa [shape] using head
      rw [shape] at present'
      exact scanFor_eq skipped (by rw [separator, Bool.or_true]) present'

theorem headD_ne (isString : (0 : UInt8) ∉ text) (nonempty : text ≠ []) :
    text.headD 0 ≠ 0 := by
  intro zero
  refine isString ?_
  rw [← zero, List.headD_eq_head?_getD, List.head?_eq_some_head nonempty,
    Option.getD_some]
  exact List.head_mem nonempty

/-- `parse_args` finds the first words, and each pointer of `argv` shows
its word in the line that it leaves. -/
theorem parseArgs_eq (isString : (0 : UInt8) ∉ text)
    (present : chars.drop p = text ++ 0 :: rest) :
    ∃ chars' argv, parseArgs room chars p = some (chars', argv) ∧
      chars'.length = chars.length ∧ chars'.take p = chars.take p ∧
      List.Forall₂ (HoldsAt chars') argv
        ((fields isSeparator text).take room) := by
  induction room generalizing chars p text rest with
  | zero =>
      have load := HoldsAt.load ⟨isString, rest, present⟩
      refine ⟨chars, [], ?_, rfl, rfl, .nil⟩
      rw [parseArgs, load]
      rfl
  | succ room inductionHypothesis =>
      by_cases empty : text = []
      · subst empty
        exact ⟨chars, [], parseArgs_nul (load_eq present), rfl, rfl, .nil⟩
      have load := HoldsAt.load ⟨isString, rest, present⟩
      obtain ⟨word, toWord, reached, atWord⟩ := scan_word present
      rw [← fields_dropWhile, parseArgs, load]
      simp only [Option.bind_eq_bind, Option.bind_some]
      rw [if_neg (headD_ne isString empty), toWord, Option.bind_some]
      have inside : (0 : UInt8) ∉ text.dropWhile isSeparator :=
        fun member => isString ((List.dropWhile_suffix _).subset member)
      have starts (more : text.dropWhile isSeparator ≠ []) :=
        List.head_dropWhile_not isSeparator more
      generalize text.dropWhile isSeparator = body at *
      have wordLoad := HoldsAt.load ⟨inside, rest, atWord⟩
      rw [wordLoad, Option.bind_some]
      by_cases ended : body = []
      · subst ended
        exact ⟨chars, [], rfl, rfl, rfl, .nil⟩
      obtain ⟨toEnd, atEnd⟩ := scan_end inside atWord
      rw [if_neg (headD_ne inside ended), toEnd, Option.bind_some]
      have nonempty : body.takeWhile (!isSeparator ·) ≠ [] := by
        cases body with
        | nil => exact absurd rfl ended
        | cons first body =>
            have solid := starts ended
            rw [List.head_cons] at solid
            rw [List.takeWhile_cons_of_pos (by rw [solid]; rfl)]
            exact List.cons_ne_nil _ _
      have solid : ∀ byte ∈ body.takeWhile (!isSeparator ·),
          isSeparator byte = false := by
        intro byte member
        simpa using List.mem_takeWhile_imp member
      have split : body.takeWhile (!isSeparator ·) ++
          body.dropWhile (!isSeparator ·) = body :=
        List.takeWhile_append_dropWhile
      have next (more : body.dropWhile (!isSeparator ·) ≠ []) :=
        List.head_dropWhile_not (!isSeparator ·) more
      have wordInside : (0 : UInt8) ∉ body.takeWhile (!isSeparator ·) :=
        fun member => inside ((List.takeWhile_prefix _).subset member)
      have restInside : (0 : UInt8) ∉ body.dropWhile (!isSeparator ·) :=
        fun member => inside ((List.dropWhile_suffix _).subset member)
      generalize body.takeWhile (!isSeparator ·) = field at *
      generalize body.dropWhile (!isSeparator ·) = after at *
      subst split
      cases after with
      | nil =>
          -- The word ends the line.
          rw [List.append_nil] at atWord ⊢
          rw [load_eq atEnd, Option.bind_some, if_pos rfl,
            parseArgs_nul (load_eq atEnd), Option.bind_some,
            fields_single nonempty solid, List.take_succ_cons,
            List.take_nil]
          exact ⟨chars, _, rfl, rfl, rfl,
            .cons ⟨wordInside, rest, atWord⟩ .nil⟩
      | cons separator after =>
          have found : isSeparator separator = true := by
            simpa using next (List.cons_ne_nil _ _)
          have other : separator ≠ 0 := fun zero =>
            restInside (zero ▸ List.mem_cons_self)
          rw [List.append_assoc, List.cons_append] at atWord
          obtain ⟨cut, stored, cutLength, cutTake, cutDrop⟩ :=
            @store_eq chars field (after ++ 0 :: rest) word separator 0 atWord
          have behind : cut.drop (word + field.length + 1) =
              after ++ 0 :: rest := by
            rw [← List.drop_drop, drop_add cutDrop]
            rfl
          obtain ⟨chars', argv, result, length, take, shown⟩ :=
            @inductionHypothesis cut after rest (word + field.length + 1)
              (fun member => restInside (List.mem_cons_of_mem _ member))
              behind
          rw [load_eq atEnd, Option.bind_some, if_neg other, stored,
            Option.bind_some, result, Option.bind_some,
            fields_cons nonempty solid found]
          refine ⟨chars', _, rfl, length.trans cutLength, ?_, .cons ?_ shown⟩
          · rw [take_of_take (by omega) take, take_of_take (by omega) cutTake]
          · exact HoldsAt.of_take ⟨wordInside, _, cutDrop⟩ take

end Words

/-! ## The commands -/

/-- The working directory is the string in the field `cwd` of the process. -/
def ShellCalls.HasCwd {World : Type} (calls : ShellCalls World) : Prop :=
  ∀ world, (0 : UInt8) ∉ calls.cwd world ∧ (calls.cwd world).length < 128

section Commands

variable {World : Type} {calls : ShellCalls World} {world : World}
  {chars pathBuf : List UInt8} {p : Nat} {text : CString}
  {argv : List Nat} {args : List CString}

theorem holdsAt_short (holds : HoldsAt chars p text)
    (size : chars.length = 128) : text.length < 128 := by
  obtain ⟨rest, present⟩ := holds.present
  have inside := length_of_drop present
  omega

theorem length_local (world : World) (size : Nat) :
    (calls.local world size).length = size := by
  rw [ShellCalls.local, List.length_map, List.length_range]

/-- A path of a line is resolved in the working directory. -/
theorem resolveCwd_eq (running : calls.HasCwd)
    (holds : HoldsAt chars p text) (short : text.length < 128) :
    resolveCwd calls world chars p =
      some (shellPath (calls.cwd world) text) :=
  pathResolveCwd_eq (running world).1 (running world).2
    (length_local world 128) (length_local world 256) holds short

/-- `path_buf` has room for every name of a line. -/
theorem resolveBinPath_eq (holds : HoldsAt chars p text)
    (short : text.length < 128) (plain : (0x2f : UInt8) ∉ text)
    (size : pathBuf.length = 134) :
    ∃ pathBuf', resolveBinPath pathBuf chars p =
        some (pathBuf', binPrefix ++ text) ∧ pathBuf'.length = 134 := by
  obtain ⟨later, present⟩ := holds.present
  have relative : text.headD 0 ≠ 0x2f := by
    cases text with
    | nil => decide
    | cons first text => exact fun slash => plain (slash ▸ List.mem_cons_self)
  obtain ⟨front, middle, last, rest, rfl, frontLength, middleLength⟩ :
      ∃ front middle last rest, pathBuf = front ++ middle ++ last :: rest ∧
        front.length = 5 ∧ middle.length = text.length := by
    have behind : (pathBuf.drop 5).drop text.length ≠ [] := by
      intro none
      have length := congrArg List.length none
      rw [List.length_drop, List.length_drop, List.length_nil] at length
      omega
    refine ⟨pathBuf.take 5, (pathBuf.drop 5).take text.length,
      ((pathBuf.drop 5).drop text.length).head behind,
      ((pathBuf.drop 5).drop text.length).tail, ?_, ?_, ?_⟩
    · rw [List.append_assoc, List.cons_head_tail, List.take_append_drop,
        List.take_append_drop]
    · rw [List.length_take]
      omega
    · rw [List.length_take, List.length_drop]
      omega
  have slash : ([] : List UInt8).length = 0 := rfl
  have five : binPrefix.length = 5 := rfl
  have first := @memcpy_eq [0] (binPrefix ++ [0]) [] front
    (middle ++ last :: rest) binPrefix 0 5 rfl rfl frontLength
  have second := @memcpy_eq (0 :: later) chars binPrefix middle (last :: rest)
    text p text.length present rfl middleLength
  have third := @store_append rest last 0 (binPrefix ++ text)
  have isString : (0 : UInt8) ∉ binPrefix ++ text := fun member =>
    (List.mem_append.mp member).elim (by decide) holds.isString
  have whole := (@HoldsAt.front (binPrefix ++ text) rest isString).string
  simp only [List.nil_append, slash] at first
  rw [five, List.append_assoc] at second
  rw [List.length_append, five, List.append_assoc] at third
  refine ⟨binPrefix ++ text ++ 0 :: rest, ?_, ?_⟩
  · rw [resolveBinPath, holds.load]
    simp only [Option.bind_eq_bind, Option.bind_some]
    rw [if_neg relative, strlen_eq holds, Option.bind_some,
      if_neg (by omega), List.append_assoc, first, Option.bind_some,
      second, Option.bind_some, List.append_assoc, third, Option.bind_some,
      whole]
    rfl
  · simp only [List.length_append, List.length_cons] at size ⊢
    omega

/-- What `resolve_exec_path` finds. -/
theorem resolveExecPath_eq (running : calls.HasCwd)
    (holds : HoldsAt chars p text) (short : text.length < 128)
    (size : pathBuf.length = 134) :
    ∃ pathBuf', resolveExecPath calls world pathBuf chars p =
        some (pathBuf', if 0x2f ∈ text then
            shellPath (calls.cwd world) text
          else
            binPrefix ++ text) ∧ pathBuf'.length = 134 := by
  obtain ⟨found, search, meaning⟩ :=
    strchr_eq holds (by decide : (0x2f : UInt8) ≠ 0)
  rw [resolveExecPath, search]
  simp only [Option.bind_eq_bind, Option.bind_some]
  by_cases slash : (0x2f : UInt8) ∈ text
  · rw [if_pos (meaning.mpr slash), resolveCwd_eq running holds short,
      if_pos slash]
    exact ⟨pathBuf, rfl, size⟩
  · obtain ⟨pathBuf', result, size'⟩ :=
      resolveBinPath_eq holds short slash size
    rw [if_neg (meaning.not.mpr slash), result, if_neg slash]
    exact ⟨pathBuf', rfl, size'⟩

theorem mapM_stringAt (shown : List.Forall₂ (HoldsAt chars) argv args) :
    argv.mapM (stringAt chars) = some args := by
  induction shown with
  | nil => rfl
  | cons holds _ inductionHypothesis =>
      rw [List.mapM_cons, holds.string, inductionHypothesis]
      rfl

theorem forall₂_getLastD {name : Nat} (shown : HoldsAt chars name text)
    (others : List.Forall₂ (HoldsAt chars) argv args) :
    HoldsAt chars (argv.getLastD name) (args.getLastD text) := by
  induction others generalizing name text with
  | nil => exact shown
  | cons holds _ inductionHypothesis =>
      rw [List.getLastD_cons, List.getLastD_cons]
      exact inductionHypothesis holds

/-- `cd` does what its command says. -/
theorem changeDirectory_eq (running : calls.HasCwd)
    (size : chars.length = 128)
    (shown : List.Forall₂ (HoldsAt chars) argv args) :
    changeDirectory calls world chars argv =
      some (perform calls world
        (.cd (shellPath (calls.cwd world) (args.headD rootName)))) := by
  have resolved : cdTarget calls world chars argv =
      some (shellPath (calls.cwd world) (args.headD rootName)) := by
    cases shown with
    | nil =>
        exact resolveCwd_eq running ⟨by decide, [], rfl⟩ (by decide)
    | cons holds _ =>
        exact resolveCwd_eq running holds (holdsAt_short holds size)
  rw [changeDirectory, resolved, perform]
  simp only [Option.bind_eq_bind, Option.bind_some]
  cases calls.stat world
    (shellPath (calls.cwd world) (args.headD rootName)) with
  | none => rfl
  | some attr => exact (apply_ite some _ _ _).symm

/-- Every other command does what it says. -/
theorem runCommand_eq (running : calls.HasCwd) (size : chars.length = 128)
    {name : Nat} (first : HoldsAt chars name text)
    (shown : List.Forall₂ (HoldsAt chars) argv args)
    (bufSize : pathBuf.length = 134) :
    ∃ pathBuf', runCommand calls world pathBuf chars name (name :: argv)
        (argv.getLastD name) =
      some (pathBuf', perform calls world
        (.exec (if 0x2f ∈ text then shellPath (calls.cwd world) text
            else binPrefix ++ text) (text :: args)
          ((text :: args).getLast? == some ampersand))) ∧
      pathBuf'.length = 134 := by
  obtain ⟨pathBuf', path, bufSize'⟩ :=
    @resolveExecPath_eq World calls world chars pathBuf name text running
      first (holdsAt_short first size) bufSize
  have texts := mapM_stringAt (.cons first shown)
  have isAmpersand : HoldsAt (ampersand ++ [0]) 0 ampersand :=
    ⟨by decide, [], rfl⟩
  obtain ⟨order, compared, meaning⟩ :=
    strcmp_eq (forall₂_getLastD first shown) isAmpersand
  have last : ((text :: args).getLast? == some ampersand) =
      decide (order = 0) := by
    rw [List.getLast?_cons, Bool.eq_iff_iff, decide_eq_true_iff, meaning,
      beq_iff_eq, Option.some.injEq, List.getLastD_eq_getLast?]
  refine ⟨pathBuf', ?_, bufSize'⟩
  rw [runCommand, path, perform, last]
  generalize (if 0x2f ∈ text then shellPath (calls.cwd world) text
    else binPrefix ++ text) = command
  simp only [Option.bind_eq_bind, Option.bind_some, texts]
  by_cases failed : (calls.spawn world command (text :: args)).2 < 0
  · rw [if_pos failed, if_pos failed]
    rfl
  · rw [if_neg failed, if_neg failed, compared, Option.bind_some]
    by_cases background : order = 0
    · rw [if_neg (not_not.mpr background), if_pos (by simpa using background)]
      rfl
    · rw [if_pos background, if_neg (by simpa using background)]
      rfl

/-! ## The line editor -/

/-- The array holds the line that has been typed. -/
structure ShowsTyped (shell : Shell) (typed : List UInt8) : Prop where
  buffer : shell.buffer =
    typed ++ List.replicate (128 - typed.length) 0
  index : shell.bufIndex = typed.length
  short : typed.length < 128
  pathBuf : shell.pathBuf.length = 134
  cwdDisplay : shell.cwdDisplay.length = 128

variable {shell : Shell} {typed : List UInt8}

theorem prompt_eq (running : calls.HasCwd)
    (pathSize : shell.pathBuf.length = 134)
    (cwdSize : shell.cwdDisplay.length = 128) :
    ∃ shell', prompt calls shell world =
        some (shell', showPrompt calls world) ∧ ShowsTyped shell' [] := by
  obtain ⟨cwdDisplay, got, holds, length⟩ :=
    getcwd_eq (running world).1 (running world).2 cwdSize
  rw [prompt, got]
  simp only [Option.bind_eq_bind, Option.bind_some, holds.string]
  exact ⟨_, rfl, rfl, rfl, by decide, pathSize, length⟩

/-- The words of the line are its first words. -/
theorem ShowsTyped.words (shows : ShowsTyped shell typed) :
    ∃ chars argv, parseArgs 16 shell.buffer 0 = some (chars, argv) ∧
      chars.length = 128 ∧
      List.Forall₂ (HoldsAt chars) argv (lineWords typed) := by
  have short := shows.short
  have isString : (0 : UInt8) ∉ typed.takeWhile (· ≠ 0) := by
    intro member
    simpa using List.mem_takeWhile_imp member
  obtain ⟨rest, present⟩ : ∃ rest, shell.buffer.drop 0 =
      typed.takeWhile (· ≠ 0) ++ 0 :: rest := by
    have room : 128 - typed.length = (127 - typed.length) + 1 := by omega
    rw [List.drop_zero, shows.buffer, room, List.replicate_succ]
    by_cases member : (0 : UInt8) ∈ typed
    · obtain ⟨earlier, later, rfl, first⟩ := List.eq_append_cons_of_mem member
      have whole : (earlier ++ 0 :: later).takeWhile (· ≠ 0) = earlier := by
        have solid : ∀ byte ∈ earlier, decide (byte ≠ 0) = true := by
          intro byte inside
          have other : byte ≠ 0 := fun zero => first (zero ▸ inside)
          simpa using other
        rw [List.takeWhile_append_of_pos solid,
          List.takeWhile_cons_of_neg (by simp), List.append_nil]
      refine ⟨later ++ 0 :: List.replicate
        (127 - (earlier ++ 0 :: later).length) 0, ?_⟩
      rw [whole, List.append_assoc, List.cons_append]
    · have whole : typed.takeWhile (· ≠ 0) = typed := by
        rw [List.takeWhile_eq_self_iff]
        intro byte inside
        have other : byte ≠ 0 := fun zero => member (zero ▸ inside)
        simpa using other
      exact ⟨_, by rw [whole]⟩
  obtain ⟨chars, argv, result, length, _, shown⟩ :=
    @parseArgs_eq shell.buffer _ rest 0 16 isString present
  refine ⟨chars, argv, result, ?_, shown⟩
  rw [length, shows.buffer, List.length_append, List.length_replicate]
  omega

/-- At the end of a line the shell does what the line asks for. -/
theorem enterLine_eq (running : calls.HasCwd)
    (shows : ShowsTyped shell typed) :
    ∃ shell', enterLine calls shell world = some (shell',
        showPrompt calls (perform calls world
          (commandOf (calls.cwd world) typed))) ∧
      ShowsTyped shell' [] := by
  obtain ⟨chars, argv, parsed, size, shown⟩ := shows.words
  rw [enterLine, parsed, commandOf]
  simp only [Option.bind_eq_bind, Option.bind_some]
  generalize lineWords typed = words at shown
  cases shown with
  | nil => exact prompt_eq running shows.pathBuf shows.cwdDisplay
  | @cons name text args texts first others =>
      have isCd : HoldsAt (cdName ++ [0]) 0 cdName := ⟨by decide, [], rfl⟩
      obtain ⟨order, compared, meaning⟩ := strcmp_eq first isCd
      simp only [compared, Option.bind_some]
      by_cases cd : order = 0
      · rw [if_pos cd, if_pos (meaning.mp cd),
          changeDirectory_eq running size others, Option.bind_some]
        exact prompt_eq running shows.pathBuf shows.cwdDisplay
      · obtain ⟨pathBuf', result, pathSize⟩ :=
          @runCommand_eq World calls world chars shell.pathBuf text args texts
            running size name first others shows.pathBuf
        rw [if_neg cd, if_neg (meaning.not.mp cd), result, Option.bind_some]
        exact prompt_eq running pathSize shows.cwdDisplay

/-! ## The keys -/

variable {c : Int32} {keys : List Int32}

/-- A character that is stored behind the line. -/
theorem ShowsTyped.push (shows : ShowsTyped shell typed)
    (room : typed.length < 127) (byte : UInt8) :
    ∃ buffer, store shell.buffer shell.bufIndex byte = some buffer ∧
      ShowsTyped { shell with buffer, bufIndex := shell.bufIndex + 1 }
        (typed ++ [byte]) := by
  have zeros : 128 - typed.length = (127 - typed.length) + 1 := by omega
  have length : (typed ++ [byte]).length = typed.length + 1 := by
    rw [List.length_append, List.length_singleton]
  have rest : 128 - (typed.length + 1) = 127 - typed.length := by omega
  have stored := @store_append (List.replicate (127 - typed.length) 0) 0 byte
    typed
  rw [shows.buffer, shows.index, zeros, List.replicate_succ]
  refine ⟨_, stored, ?_, ?_, ?_, shows.pathBuf, shows.cwdDisplay⟩
  · rw [length, rest, List.append_assoc, List.singleton_append]
  · rw [length]
  · rw [length]
    omega

/-- A character that is taken back. -/
theorem ShowsTyped.pop (shows : ShowsTyped shell typed)
    (nonempty : typed ≠ []) :
    ∃ buffer, store shell.buffer (shell.bufIndex - 1) 0 = some buffer ∧
      ShowsTyped { shell with buffer, bufIndex := shell.bufIndex - 1 }
        typed.dropLast := by
  have short := shows.short
  have positive := List.length_pos_of_ne_nil nonempty
  have length : typed.dropLast.length = typed.length - 1 :=
    List.length_dropLast
  have split : typed.dropLast ++ [typed.getLast nonempty] = typed :=
    List.dropLast_concat_getLast nonempty
  have zeros : 128 - (typed.length - 1) = (128 - typed.length) + 1 := by
    omega
  have stored := @store_append (List.replicate (128 - typed.length) 0)
    (typed.getLast nonempty) 0 typed.dropLast
  have whole : shell.buffer = typed.dropLast ++ typed.getLast nonempty ::
      List.replicate (128 - typed.length) 0 := by
    rw [shows.buffer, ← List.singleton_append, ← List.append_assoc, split]
  rw [length, ← whole] at stored
  rw [shows.index]
  refine ⟨_, stored, ?_, ?_, ?_, shows.pathBuf, shows.cwdDisplay⟩
  · rw [length, zeros, List.replicate_succ]
  · rw [length]
  · rw [length]
    omega

/-- A key does to the arrays what it does to the line. -/
theorem shellKey_eq (running : calls.HasCwd)
    (shows : ShowsTyped shell typed) :
    ∃ shell', shellKey calls c shell world =
        some (shell', (typeKey calls c typed world).2) ∧
      ShowsTyped shell' (typeKey calls c typed world).1 := by
  rw [shellKey, typeKey]
  by_cases none : ¬ -1 < c
  · rw [if_pos none, if_pos none]
    exact ⟨shell, rfl, shows⟩
  rw [if_neg none, if_neg none]
  simp only
  by_cases enter : c = 0x0a
  · rw [if_pos enter, if_pos enter]
    exact enterLine_eq running shows
  rw [if_neg enter, if_neg enter]
  by_cases back : c = 0x08
  · rw [if_pos back, if_pos back]
    by_cases empty : typed = []
    · have zero : ¬ 0 < shell.bufIndex := by
        rw [shows.index, empty]
        exact Nat.lt_irrefl 0
      rw [if_neg zero, if_pos empty]
      exact ⟨shell, rfl, shows⟩
    · have positive : 0 < shell.bufIndex := by
        rw [shows.index]
        exact List.length_pos_of_ne_nil empty
      obtain ⟨buffer, stored, shows'⟩ := shows.pop empty
      rw [if_pos positive, if_neg empty, stored]
      exact ⟨_, rfl, shows'⟩
  rw [if_neg back, if_neg back, shows.index]
  by_cases room : typed.length < 127
  · obtain ⟨buffer, stored, shows'⟩ := shows.push room c.toUInt32.toUInt8
    rw [if_pos room, if_pos room, ← shows.index, stored]
    exact ⟨_, rfl, shows'⟩
  · rw [if_neg room, if_neg room]
    exact ⟨shell, rfl, shows⟩

theorem shellRun_shows (running : calls.HasCwd)
    (shows : ShowsTyped shell typed) :
    ∃ shell', shellRun calls keys shell world =
        some (shell', (typeKeys calls keys typed world).2) ∧
      ShowsTyped shell' (typeKeys calls keys typed world).1 := by
  induction keys generalizing shell typed world with
  | nil => exact ⟨shell, rfl, shows⟩
  | cons c keys inductionHypothesis =>
      obtain ⟨shell', result, shows'⟩ :=
        @shellKey_eq World calls world shell typed c running shows
      rw [shellRun, result]
      exact inductionHypothesis shows'

/-- Whatever is typed, the shell never leaves its arrays, and what it asks
of the system, key by key, is what the lines say: the words of each line as
the keys have edited it, up to 127 bytes and 16 words, read as `cd`, as a
path, or as a name in `/bin`. -/
theorem shellRun_typed (running : calls.HasCwd)
    (pathSize : shell.pathBuf.length = 134)
    (cwdSize : shell.cwdDisplay.length = 128) :
    ∃ shell', ((prompt calls shell world).bind fun start =>
        shellRun calls keys start.1 start.2) =
      some (shell', (typeKeys calls keys [] (showPrompt calls world)).2) ∧
      shell'.buffer.take shell'.bufIndex =
        (typeKeys calls keys [] (showPrompt calls world)).1 := by
  obtain ⟨start, prompted, shows⟩ :=
    @prompt_eq World calls world shell running pathSize cwdSize
  obtain ⟨shell', result, shows'⟩ :=
    @shellRun_shows World calls (showPrompt calls world) start [] keys running
      shows
  rw [prompted, Option.bind_some, result]
  refine ⟨shell', rfl, ?_⟩
  rw [shows'.buffer, shows'.index, List.take_left]

end Commands

/-- A system that starts every program and keeps a list of them. -/
def sampleCalls : ShellCalls (List (CString × List CString)) where
  cwd := fun _ => [0x2f]
  stat := fun _ _ => none
  chdir := fun world _ => world
  spawn := fun world path argv => (world ++ [(path, argv)], 1)
  wait := fun world _ => world
  printf := fun world _ _ => world
  stack := fun _ _ => 0xcc

def sampleShell : Shell where
  buffer := List.replicate 128 0
  bufIndex := 0
  pathBuf := List.replicate 134 0
  cwdDisplay := List.replicate 128 0

/-- `lx`, a backspace and `s -l`. -/
def sampleKeys : List Int32 :=
  [0x6c, 0x78, 0x08, 0x73, 0x20, 0x20, 0x2d, 0x6c, 0x0a]

theorem sampleKeys_typed :
    ∃ shell', ((prompt sampleCalls sampleShell []).bind fun start =>
        shellRun sampleCalls sampleKeys start.1 start.2) =
      some (shell', [([0x2f, 0x62, 0x69, 0x6e, 0x2f, 0x6c, 0x73],
        [[0x6c, 0x73], [0x2d, 0x6c]])]) ∧
      shell'.buffer.take shell'.bufIndex = [] := by
  have root : (0 : UInt8) ∉ rootName ∧ rootName.length < 128 := by decide
  have running : sampleCalls.HasCwd := fun _ => root
  have typed : typeKeys sampleCalls sampleKeys []
      (showPrompt sampleCalls []) =
        ([], [([0x2f, 0x62, 0x69, 0x6e, 0x2f, 0x6c, 0x73],
          [[0x6c, 0x73], [0x2d, 0x6c]])]) := by
    decide +kernel
  obtain ⟨shell', result, shown⟩ :=
    @shellRun_typed _ sampleCalls [] sampleShell sampleKeys running rfl rfl
  rw [typed] at result shown
  exact ⟨shell', result, shown⟩

end LoafOs
