import LoafOs.Fs.File

/-!
# The table of open files

What opening, closing, reading and writing do to the entries of
`open_files`.
-/

namespace LoafOs

variable {fs fs' : FileSystem} {idx : Int} {slot : Nat} {len : UInt32}

/-- The offset of an entry lies in the file. -/
def OpenFile.InFile (f : OpenFile) : Prop := f.offset ≤ f.size

/-- An entry behind an index that the calls accept. -/
theorem handle_some {f : OpenFile} (found : fs.handle idx = some f) :
    ∃ slot, slot < maxOpenFiles ∧ idx = slot ∧ f = fs.openFiles slot ∧
      (fs.openFiles slot).inUse = true := by
  rw [FileSystem.handle] at found
  split at found
  case isTrue => simp at found
  case isFalse bounds =>
    split at found
    case isTrue inUse =>
      refine ⟨idx.toNat, by omega, by omega, ?_, inUse⟩
      exact (Option.some.inj found).symm
    case isFalse => simp at found

theorem fileClose_openFiles (slot : Nat) :
    (fileClose fs idx).openFiles slot =
      if idx = slot ∧ slot < maxOpenFiles then
        { fs.openFiles slot with inUse := false }
      else fs.openFiles slot := by
  rw [fileClose]
  split
  case isTrue outside =>
    have other : ¬ (idx = slot ∧ slot < maxOpenFiles) := by omega
    rw [if_neg other]
  case isFalse inside =>
    by_cases same : idx = slot
    · have index : idx.toNat = slot := by omega
      rw [FileSystem.setFile, index, if_pos ⟨same, by omega⟩]
      exact Function.update_self ..
    · have other : slot ≠ idx.toNat := by omega
      rw [if_neg fun both => same both.1, FileSystem.setFile]
      exact Function.update_of_ne other ..

/-- Entries are closed one after the other. -/
theorem foldl_fileClose_openFiles (used : List Int) (fs : FileSystem)
    (slot : Nat) :
    (used.foldl fileClose fs).openFiles slot =
      if (slot : Int) ∈ used ∧ slot < maxOpenFiles then
        { fs.openFiles slot with inUse := false }
      else fs.openFiles slot := by
  induction used generalizing fs with
  | nil => simp
  | cons idx rest inductionHypothesis =>
      rw [List.foldl_cons, inductionHypothesis, fileClose_openFiles]
      by_cases inside : slot < maxOpenFiles
      · by_cases later : (slot : Int) ∈ rest <;>
          by_cases here : idx = (slot : Int) <;>
          simp [inside, later, here, eq_comm]
      · simp [inside]

theorem freeHandle_some {openFiles : Nat → OpenFile}
    (found : freeHandle openFiles = some slot) :
    slot < maxOpenFiles ∧ (openFiles slot).inUse = false := by
  have member := List.mem_of_find?_eq_some found
  have unused := List.find?_some found
  exact ⟨List.mem_range.mp member, by simpa using unused⟩

/-- Opening fails or takes an unused entry. -/
theorem fileOpen_entry {stack : DirSlot} {path : CString} {writable : Bool}
    (done : fileOpen fs stack path writable = some (idx, fs')) :
    (idx = -1 ∧ fs'.openFiles = fs.openFiles) ∨
      ∃ slot file, slot < maxOpenFiles ∧ idx = slot ∧
        (fs.openFiles slot).inUse = false ∧ file.inUse = true ∧
        file.InFile ∧
        fs'.openFiles = Function.update fs.openFiles slot file := by
  rw [fileOpen] at done
  simp only [Option.bind_eq_bind, Option.pure_def] at done
  obtain ⟨stat, _, done⟩ := Option.bind_eq_some_iff.mp done
  split at done
  case isTrue =>
    injection done with done
    injection done with code same
    exact .inl ⟨code.symm, by rw [same]⟩
  case isFalse =>
    split at done
    case h_1 =>
      injection done with done
      injection done with code same
      exact .inl ⟨code.symm, by rw [same]⟩
    case h_2 slot free =>
      obtain ⟨bounded, unused⟩ := freeHandle_some free
      obtain ⟨⟨code, volume⟩, _, done⟩ := Option.bind_eq_some_iff.mp done
      split at done
      case isTrue =>
        injection done with done
        injection done with code same
        refine .inl ⟨code.symm, ?_⟩
        rw [← same]
      case isFalse =>
        injection done with done
        injection done with index same
        refine .inr ⟨slot, _, bounded, index.symm, unused, ?_, ?_,
          by rw [← same]; rfl⟩
        · rfl
        · exact UInt32.zero_le ..

/-- The entry after a read lies in the file when it did before. -/
theorem readEntry_inFile {f : OpenFile} (inFile : f.InFile)
    (toCopy : UInt32) (copied : toCopy ≤ f.size - f.offset) :
    ({ f with offset := f.offset + toCopy } : OpenFile).InFile := by
  rw [OpenFile.InFile, UInt32.le_iff_toNat_le] at inFile ⊢
  rw [UInt32.le_iff_toNat_le, UInt32.toNat_sub_of_le _ _ inFile] at copied
  have bound := f.size.toNat_lt
  change (f.offset + toCopy).toNat ≤ f.size.toNat
  rw [UInt32.toNat_add]
  omega

theorem fileRead_entry {heap : Option Bytes} {read : StreamRead}
    (done : fileRead fs heap idx len = some read) :
    read.fs.openFiles = fs.openFiles ∨
      ∃ slot file, slot < maxOpenFiles ∧ idx = slot ∧
        (fs.openFiles slot).inUse = true ∧ file.inUse = true ∧
        ((fs.openFiles slot).InFile → file.InFile) ∧
        read.fs.openFiles = Function.update fs.openFiles slot file := by
  rw [fileRead] at done
  simp only [Option.bind_eq_bind, Option.pure_def] at done
  split at done
  case h_1 =>
    rw [← Option.some.inj done]
    exact .inl rfl
  case h_2 f found =>
    obtain ⟨slot, bounded, index, isFile, inUse⟩ := handle_some found
    split at done
    case h_1 =>
      rw [← Option.some.inj done]
      exact .inl rfl
    case h_2 heap =>
      obtain ⟨content, _, done⟩ := Option.bind_eq_some_iff.mp done
      split at done
      case isTrue =>
        rw [← Option.some.inj done]
        exact .inl rfl
      case isFalse =>
        rw [← Option.some.inj done]
        have natural : idx.toNat = slot := by omega
        refine .inr ⟨slot, _, bounded, index, inUse, ?_, fun inFile => ?_,
          by simp only [FileSystem.setFile, natural]; rfl⟩
        · simpa [isFile] using inUse
        · refine readEntry_inFile (isFile ▸ inFile) _ ?_
          split
          case isTrue less => exact UInt32.le_of_lt less
          case isFalse => exact UInt32.le_refl _

theorem fileWrite_entry {stack : DirSlot} {data : Bytes} {code : Int}
    (done : fileWrite fs stack idx data len = some (code, fs')) :
    fs'.openFiles = fs.openFiles ∨
      ∃ slot file, slot < maxOpenFiles ∧ idx = slot ∧
        (fs.openFiles slot).inUse = true ∧ file.inUse = true ∧ file.InFile ∧
        fs'.openFiles = Function.update fs.openFiles slot file := by
  rw [fileWrite] at done
  simp only [Option.bind_eq_bind, Option.pure_def] at done
  split at done
  case h_1 =>
    injection done with done
    injection done with code same
    exact .inl (by rw [same])
  case h_2 f found =>
    obtain ⟨slot, bounded, index, isFile, inUse⟩ := handle_some found
    split at done
    case isTrue =>
      injection done with done
      injection done with code same
      exact .inl (by rw [same])
    case isFalse =>
      obtain ⟨⟨code, volume⟩, _, done⟩ := Option.bind_eq_some_iff.mp done
      split at done
      case isTrue =>
        injection done with done
        injection done with code same
        exact .inl (by rw [← same])
      case isFalse =>
        injection done with done
        injection done with code same
        have natural : idx.toNat = slot := by omega
        refine .inr ⟨slot, _, bounded, index, inUse, ?_, ?_,
          by rw [← same]; simp only [FileSystem.setFile, natural]; rfl⟩
        · simpa [isFile] using inUse
        · rw [OpenFile.InFile]
          split
          case isTrue => exact UInt32.le_refl _
          case isFalse notLess => exact UInt32.not_lt.mp notLess

end LoafOs
