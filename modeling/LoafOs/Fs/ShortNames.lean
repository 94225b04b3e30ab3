import LoafOs.Fs.FatDirectory

/-!
# Short names

The two conversions of 8.3 names undo each other: on the text side up to
the case of the letters, on the raw side exactly.
-/

namespace LoafOs

/-- A byte that may stand in a short name. -/
def NameByte (byte : UInt8) : Prop :=
  byte < 0x80 ∧ byte ≠ 0 ∧ byte ≠ 0x20 ∧ byte ≠ 0x2f

instance (byte : UInt8) : Decidable (NameByte byte) := by
  unfold NameByte
  infer_instance

/-- The part of a short name before its dot. -/
structure ShortBase (base : CString) : Prop where
  nonempty : 1 ≤ base.length
  fits : base.length ≤ 8
  bytes : ∀ byte ∈ base, NameByte byte
  noDot : ∀ byte ∈ base, byte ≠ 0x2e

/-- The part of a short name after its dot; it may hold further dots. -/
structure ShortExt (ext : CString) : Prop where
  nonempty : 1 ≤ ext.length
  fits : ext.length ≤ 3
  bytes : ∀ byte ∈ ext, NameByte byte

/-- A name of the form `base` or `base.ext`. -/
inductive ShortName : CString → Prop where
  | plain {base : CString} (isBase : ShortBase base) : ShortName base
  | dotted {base ext : CString} (isBase : ShortBase base)
      (isExt : ShortExt ext) : ShortName (base ++ 0x2e :: ext)

/-- An upper-case name without its padding. -/
def UpperCase (name : CString) : Prop :=
  ∀ byte ∈ name, toUpper byte = byte

/-- The raw names that short names in upper case stand for. -/
inductive ShortRaw : List UInt8 → Prop where
  | plain {base : CString} (isBase : ShortBase base)
      (upper : UpperCase base) : ShortRaw (padName 8 base ++ padName 3 [])
  | dotted {base ext : CString} (isBase : ShortBase base)
      (isExt : ShortExt ext) (upper : UpperCase base)
      (upperExt : UpperCase ext) :
      ShortRaw (padName 8 base ++ padName 3 ext)

/-! ## Upper case -/

theorem toUpper_idem (byte : UInt8) :
    toUpper (toUpper byte) = toUpper byte := by
  unfold toUpper
  grind

theorem toUpper_eq_dot {byte : UInt8} :
    toUpper byte = 0x2e ↔ byte = 0x2e := by
  unfold toUpper
  grind

theorem NameByte.toUpper {byte : UInt8} (legal : NameByte byte) :
    NameByte (toUpper byte) := by
  unfold NameByte LoafOs.toUpper at *
  grind

theorem upperCase_map (name : CString) : UpperCase (name.map toUpper) := by
  intro byte member
  obtain ⟨original, _, rfl⟩ := List.mem_map.mp member
  exact toUpper_idem original

theorem UpperCase.map {name : CString} (upper : UpperCase name) :
    name.map toUpper = name := by
  calc name.map toUpper
      = name.map id := List.map_congr_left upper
    _ = name := List.map_id name

theorem ShortBase.map {base : CString} (isBase : ShortBase base) :
    ShortBase (base.map toUpper) where
  nonempty := by simpa using isBase.nonempty
  fits := by simpa using isBase.fits
  bytes := by
    intro byte member
    obtain ⟨original, inside, rfl⟩ := List.mem_map.mp member
    exact (isBase.bytes original inside).toUpper
  noDot := by
    intro byte member
    obtain ⟨original, inside, rfl⟩ := List.mem_map.mp member
    intro dot
    exact isBase.noDot original inside (toUpper_eq_dot.mp dot)

theorem ShortExt.map {ext : CString} (isExt : ShortExt ext) :
    ShortExt (ext.map toUpper) where
  nonempty := by simpa using isExt.nonempty
  fits := by simpa using isExt.fits
  bytes := by
    intro byte member
    obtain ⟨original, inside, rfl⟩ := List.mem_map.mp member
    exact (isExt.bytes original inside).toUpper

/-! ## The encoder -/

theorem takeWhile_dot {base : CString}
    (noDot : ∀ byte ∈ base, byte ≠ 0x2e) (rest : CString) :
    (base ++ 0x2e :: rest).takeWhile (· ≠ 0x2e) = base := by
  rw [List.takeWhile_append_of_pos]
  · simp
  · simpa using noDot

theorem toFatName_plain {base : CString} (isBase : ShortBase base) :
    toFatName base = padName 8 (base.map toUpper) ++ padName 3 [] := by
  have whole : base.takeWhile (· ≠ 0x2e) = base := by
    have taken : (base ++ []).takeWhile (· ≠ 0x2e) =
        base ++ [].takeWhile (· ≠ 0x2e) :=
      List.takeWhile_append_of_pos (by simpa using isBase.noDot)
    simpa using taken
  have short : base.take 8 = base := List.take_of_length_le isBase.fits
  simp only [toFatName, whole, short, List.drop_length, List.map_nil]

theorem toFatName_dotted {base ext : CString} (isBase : ShortBase base)
    (isExt : ShortExt ext) :
    toFatName (base ++ 0x2e :: ext) =
      padName 8 (base.map toUpper) ++ padName 3 (ext.map toUpper) := by
  have short : base.take 8 = base := List.take_of_length_le isBase.fits
  have shortExt : ext.take 3 = ext := List.take_of_length_le isExt.fits
  unfold toFatName
  rw [takeWhile_dot isBase.noDot, short]
  simp [shortExt]

/-- The encoder does not look at the case of its input. -/
theorem toFatName_map (name : CString) :
    toFatName (name.map toUpper) = toFatName name := by
  have sameDot : (fun byte : UInt8 => decide (byte ≠ 0x2e)) ∘ toUpper =
      fun byte => decide (byte ≠ 0x2e) := by
    funext byte
    simp [toUpper_eq_dot]
  have sameUpper : toUpper ∘ toUpper = toUpper := by
    funext byte
    exact toUpper_idem byte
  simp only [toFatName, List.takeWhile_map, sameDot, ← List.map_take,
    List.length_map, ← List.map_drop, List.map_map, sameUpper]
  congr 2
  cases rest : name.drop ((name.takeWhile (· ≠ 0x2e)).take 8).length with
  | nil => simp
  | cons first others =>
      by_cases dot : first = 0x2e
      · subst dot
        have upperDot : toUpper 0x2e = 0x2e := toUpper_eq_dot.mpr rfl
        simp [upperDot, ← List.map_take, sameUpper]
      · have upperDot : toUpper first ≠ 0x2e := by
          intro same
          exact dot (toUpper_eq_dot.mp same)
        simp only [List.map_cons]
        grind

/-! ## The decoder -/

theorem takeWhile_padName {name : CString}
    (noSpace : ∀ byte ∈ name, byte ≠ 0x20) (width : Nat) :
    (padName width name).takeWhile (· ≠ 0x20) = name := by
  unfold padName
  rw [List.takeWhile_append_of_pos]
  · simp
  · simpa using noSpace

theorem padName_length {name : CString} {width : Nat}
    (fits : name.length ≤ width) : (padName width name).length = width := by
  unfold padName
  rw [List.length_append, List.length_replicate]
  omega

theorem fromFatName_padName {base ext : CString}
    (fits : base.length ≤ 8) (fitsExt : ext.length ≤ 3)
    (noSpace : ∀ byte ∈ base, byte ≠ 0x20)
    (noSpaceExt : ∀ byte ∈ ext, byte ≠ 0x20) :
    fromFatName (padName 8 base ++ padName 3 ext) =
      base ++ if ext = [] then [] else 0x2e :: ext := by
  have front : (padName 8 base ++ padName 3 ext).take 8 =
      padName 8 base := by
    apply List.take_left'
    exact padName_length fits
  have back : ((padName 8 base ++ padName 3 ext).drop 8).take 3 =
      padName 3 ext := by
    rw [List.drop_left' (padName_length fits)]
    apply List.take_of_length_le
    exact Nat.le_of_eq (padName_length fitsExt)
  have ninth : (padName 8 base ++ padName 3 ext).getD 8 0 =
      (padName 3 ext).getD 0 0 := by
    have length := padName_length fits
    rw [List.getD_eq_getElem?_getD,
      List.getElem?_append_right (Nat.le_of_eq length), length,
      List.getD_eq_getElem?_getD]
  unfold fromFatName
  rw [front, back, ninth, takeWhile_padName noSpace,
    takeWhile_padName noSpaceExt]
  cases ext with
  | nil => simp [padName]
  | cons first rest =>
      have solid : first ≠ 0x20 := noSpaceExt first List.mem_cons_self
      simp [padName, solid]

theorem ShortBase.noSpace {base : CString} (isBase : ShortBase base) :
    ∀ byte ∈ base, byte ≠ 0x20 := by
  intro byte member
  exact (isBase.bytes byte member).2.2.1

theorem ShortExt.noSpace {ext : CString} (isExt : ShortExt ext) :
    ∀ byte ∈ ext, byte ≠ 0x20 := by
  intro byte member
  exact (isExt.bytes byte member).2.2.1

theorem fromFatName_plain {base : CString} (isBase : ShortBase base) :
    fromFatName (padName 8 base ++ padName 3 []) = base := by
  have noBytes : ∀ byte ∈ ([] : CString), byte ≠ 0x20 := by
    intro byte member
    cases member
  have noneFits : ([] : CString).length ≤ 3 := Nat.zero_le 3
  rw [fromFatName_padName isBase.fits noneFits isBase.noSpace noBytes,
    if_pos rfl, List.append_nil]

theorem fromFatName_dotted {base ext : CString} (isBase : ShortBase base)
    (isExt : ShortExt ext) :
    fromFatName (padName 8 base ++ padName 3 ext) = base ++ 0x2e :: ext := by
  have solid : ext ≠ [] := by
    have nonempty := isExt.nonempty
    exact List.ne_nil_of_length_pos nonempty
  rw [fromFatName_padName isBase.fits isExt.fits isBase.noSpace
    isExt.noSpace, if_neg solid]

/-! ## The round trips -/

theorem ShortName.decoded {name : CString} (short : ShortName name) :
    fromFatName (toFatName name) = name.map toUpper := by
  cases short with
  | plain isBase =>
      rw [toFatName_plain isBase]
      exact fromFatName_plain isBase.map
  | dotted isBase isExt =>
      have upperDot : toUpper 0x2e = 0x2e := toUpper_eq_dot.mpr rfl
      rw [toFatName_dotted isBase isExt,
        fromFatName_dotted isBase.map isExt.map]
      simp [upperDot]

theorem ShortRaw.encoded {raw : List UInt8} (short : ShortRaw raw) :
    toFatName (fromFatName raw) = raw := by
  cases short with
  | plain isBase upper =>
      rw [fromFatName_plain isBase, toFatName_plain isBase, upper.map]
  | dotted isBase isExt upper upperExt =>
      rw [fromFatName_dotted isBase isExt, toFatName_dotted isBase isExt,
        upper.map, upperExt.map]

theorem ShortName.sameRaw {name other : CString} (short : ShortName name)
    (shortOther : ShortName other) :
    toFatName name = toFatName other ↔
      name.map toUpper = other.map toUpper := by
  constructor
  · intro same
    rw [← short.decoded, same, shortOther.decoded]
  · intro same
    rw [← toFatName_map name, same, toFatName_map other]

/-- Short names survive the two conversions, and two of them share a raw
name exactly when they differ at most in case. -/
theorem shortNames_roundTrip :
    (∀ name, ShortName name →
      fromFatName (toFatName name) = name.map toUpper) ∧
    (∀ raw, ShortRaw raw → toFatName (fromFatName raw) = raw) ∧
    (∀ name other, ShortName name → ShortName other →
      (toFatName name = toFatName other ↔
        name.map toUpper = other.map toUpper)) := by
  refine ⟨?_, ?_, ?_⟩
  · intro name short
    exact short.decoded
  · intro raw short
    exact short.encoded
  · intro name other short shortOther
    exact short.sameRaw shortOther

/-- `boot.c.c`, whose extension holds a dot. -/
theorem sampleName_roundTrip :
    fromFatName (toFatName
      [0x62, 0x6f, 0x6f, 0x74, 0x2e, 0x63, 0x2e, 0x63]) =
        [0x42, 0x4f, 0x4f, 0x54, 0x2e, 0x43, 0x2e, 0x43] := by
  have isBase : ShortBase [0x62, 0x6f, 0x6f, 0x74] :=
    ⟨by decide, by decide, by decide +kernel, by decide +kernel⟩
  have isExt : ShortExt [0x63, 0x2e, 0x63] :=
    ⟨by decide, by decide, by decide +kernel⟩
  exact shortNames_roundTrip.1 _ (.dotted isBase isExt)

end LoafOs
