import LoafOs.Fs.FatRead

/-!
# Fresh directory entries

The fields of an entry that the driver has just written, and when such an
entry is live.
-/

namespace LoafOs

/-- An entry with these fields lies at the address. -/
structure EntryIs (mem : Bytes) (entry : Nat) (name : List UInt8)
    (attr : UInt8) (first size : Nat) : Prop where
  name : direntName mem entry = name
  attr : direntAttr mem entry = attr
  first : direntFirst mem entry = first
  size : direntSize mem entry = size

section Fields

variable {mem mem' buffer : Bytes} {entry off first size : Nat}
  {name : List UInt8} {attr : UInt8}

theorem EntryIs.congr (same : SameEntry mem' entry mem off)
    (entryIs : EntryIs mem off name attr first size) :
    EntryIs mem' entry name attr first size where
  name := same.name.trans entryIs.name
  attr := same.attr.trans entryIs.attr
  first := same.first.trans entryIs.first
  size := same.size.trans entryIs.size

/-- `putDirent` writes 32 bytes. -/
theorem putDirent_other {index : Nat}
    (outside : index < off ∨ off + 32 ≤ index) :
    putDirent buffer off name attr first size index = buffer index := by
  rw [putDirent, Bytes.putWord32_other (by omega),
    Bytes.putWord16_other (by omega), Bytes.put_other (by omega),
    Bytes.copy_outside (by omega)]
  exact if_neg (by omega)

/-- The name bytes of a fresh entry. -/
theorem putDirent_name {index : Nat} (small : index < 11) :
    putDirent buffer off name attr first size (off + index) =
      name.getD index 0 := by
  rw [putDirent, Bytes.putWord32_other (by omega),
    Bytes.putWord16_other (by omega), Bytes.put_other (by omega),
    Bytes.copy_inside (by omega) (by omega), Nat.add_sub_cancel_left]

theorem putDirent_direntName (width : name.length = 11) :
    direntName (putDirent buffer off name attr first size) off = name := by
  refine List.ext_getElem (by simp [direntName, width]) ?_
  intro index bound bound'
  have small : index < 11 := width ▸ bound'
  simp only [direntName, Bytes.slice, List.getElem_map, List.getElem_range]
  rw [putDirent_name small]
  simp [List.getD_eq_getElem?_getD, bound']

theorem putDirent_entryIs (width : name.length = 11)
    (firstBound : first < 65536) (sizeBound : size < 2 ^ 32) :
    EntryIs (putDirent buffer off name attr first size) off name attr
      first size where
  name := putDirent_direntName width
  attr := by
    rw [direntAttr, putDirent, Bytes.putWord32_other (by omega),
      Bytes.putWord16_other (by omega), Bytes.put_same]
  first := by
    have same : direntFirst
          (putDirent buffer off name attr first size) off =
        ((((buffer.fill off 0 32).copy off
          (fun index => name.getD index 0) 11).put (off + 11)
            attr).putWord16 (off + 26) first).word16 (off + 26) :=
      Bytes.word16_congr fun index small => by
        rw [putDirent, Bytes.putWord32_other (by omega)]
    rw [same, Bytes.word16_putWord16 firstBound]
  size := Bytes.word32_putWord32 sizeBound

/-! ## Names -/

/-- A raw name under which an entry reads as live, not as an end mark or a
deleted entry. -/
def Storable (name : List UInt8) : Prop :=
  name.head? ≠ some 0x00 ∧ name.head? ≠ some 0xe5

instance (name : List UInt8) : Decidable (Storable name) :=
  inferInstanceAs (Decidable (_ ∧ _))

/-- The bytes of the string are ASCII characters. -/
def Ascii (string : CString) : Prop :=
  ∀ byte ∈ string, byte ≠ 0 ∧ byte < 0x80

instance (string : CString) : Decidable (Ascii string) :=
  inferInstanceAs (Decidable (∀ byte ∈ string, _))

theorem length_toFatName (name : CString) :
    (toFatName name).length = 11 := by
  have padded (width : Nat) (piece : List UInt8)
      (short : piece.length ≤ width) :
      (padName width piece).length = width := by
    rw [padName, List.length_append, List.length_replicate]
    omega
  rw [toFatName, List.length_append, padded 8, padded 3]
  · rw [List.length_map]
    split
    · exact List.length_take_le _ _
    · exact Nat.zero_le _
  · rw [List.length_map]
    exact List.length_take_le _ _

theorem toUpper_ascii {byte : UInt8} (nonzero : byte ≠ 0)
    (small : byte < 0x80) : toUpper byte ≠ 0 ∧ toUpper byte ≠ 0xe5 := by
  have positive : byte.toNat ≠ 0 := fun zero =>
    nonzero (UInt8.toNat.inj zero)
  simp only [UInt8.lt_iff_toNat_lt, UInt8.reduceToNat] at small
  rw [toUpper]
  split
  case isTrue lower =>
    simp only [UInt8.le_iff_toNat_le, UInt8.reduceToNat] at lower
    constructor <;>
    · intro same
      have value := congrArg UInt8.toNat same
      simp only [UInt8.toNat_sub, UInt8.reduceToNat] at value
      omega
  case isFalse =>
    refine ⟨nonzero, fun same => ?_⟩
    rw [same] at small
    simp at small

theorem Ascii.storable {name : CString} (ascii : Ascii name) :
    Storable (toFatName name) := by
  rw [Storable, toFatName]
  cases name with
  | nil => simp [padName]
  | cons first others =>
      obtain ⟨nonzero, small⟩ := ascii first List.mem_cons_self
      have upper := toUpper_ascii nonzero small
      by_cases dot : first = 0x2e
      · simp [dot, padName]
      · simpa [dot, padName] using upper

theorem toFatName_nonzero {name : CString}
    (nonzero : ∀ byte ∈ name, byte ≠ 0) :
    (toFatName name).head? ≠ some 0x00 := by
  rw [toFatName]
  cases name with
  | nil => simp [padName]
  | cons first rest =>
      have here := nonzero first List.mem_cons_self
      have upper : toUpper first ≠ 0 := by
        rw [toUpper]
        split
        case isTrue lower =>
          intro same
          have value := congrArg UInt8.toNat same
          simp only [UInt8.le_iff_toNat_le, UInt8.reduceToNat] at lower
          simp only [UInt8.toNat_sub, UInt8.reduceToNat] at value
          omega
        case isFalse => exact here
      by_cases dot : first = 0x2e
      · simp [dot, padName]
      · simpa [dot, padName] using upper

theorem direntName_head (mem : Bytes) (entry : Nat) :
    (direntName mem entry).head? = some (mem entry) := rfl

theorem EntryIs.live (entryIs : EntryIs mem entry name attr first size)
    (storable : Storable name) (notDot : name.head? ≠ some 0x2e)
    (short : attr ≠ attrLongName) (label : attr &&& attrVolumeId = 0) :
    Live mem entry := by
  have head := direntName_head mem entry
  rw [entryIs.name] at head
  rw [head] at notDot
  rw [Storable, head] at storable
  have first_ : mem entry ≠ 0x2e := fun same => notDot (by rw [same])
  refine ⟨⟨fun same => storable.1 (by rw [same]),
    fun same => storable.2 (by rw [same]), ?_, ?_⟩, ?_⟩
  · rwa [entryIs.attr]
  · rwa [entryIs.attr]
  · rintro (⟨dot, _⟩ | ⟨dot, _, _⟩) <;> exact first_ dot

/-- An entry with a name that cannot be stored is never listed. -/
theorem EntryIs.not_listed
    (entryIs : EntryIs mem entry name attr first size)
    (unstorable : ¬ Storable name) : ¬ Listed mem entry := by
  have head := direntName_head mem entry
  rw [entryIs.name] at head
  rintro ⟨nonzero, notDeleted, _⟩
  refine unstorable ⟨fun zero => ?_, fun deleted => ?_⟩
  · exact nonzero (Option.some.inj (head.symm.trans zero))
  · exact notDeleted (Option.some.inj (head.symm.trans deleted))

theorem Matches.storable {target : List UInt8} {slot : Nat}
    (matched : Matches mem target slot) : Storable target := by
  rw [Storable, matched.head]
  refine ⟨fun zero => ?_, fun deleted => ?_⟩
  · exact matched.1.1 (Option.some.inj zero)
  · exact matched.1.2.1 (Option.some.inj deleted)

end Fields

end LoafOs
