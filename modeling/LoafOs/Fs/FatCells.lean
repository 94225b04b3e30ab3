import LoafOs.Fs.FatTable
import LoafOs.Lib.Cells

/-!
# The table as an array of 12-bit numbers

Two neighbouring entries of `fat_buf` share a byte, and still every call of
`fat_set_entry` acts on its own entry alone.  So a sequence of calls acts
like the same updates of an array, and `fat_free_chain` ends on every table
whose entries stay inside it, cyclic or not.
-/

namespace LoafOs

open Links Cells

/-- Both bytes of the entry lie in a buffer of the given size. -/
def InTable (size cluster : Nat) : Prop := cluster + cluster / 2 + 1 < size

instance (size cluster : Nat) : Decidable (InTable size cluster) :=
  inferInstanceAs (Decidable (_ < _))

/-- `fat_buf` as an array of 12-bit numbers. -/
def fatCells (fatBuf : Bytes) (cluster : Nat) : BitVec 12 :=
  BitVec.ofNat 12 (fatNext fatBuf cluster)

/-- The calls `fat_set_entry(cluster, value)` of a list, in order. -/
def fatSetEntries (fatBuf : Bytes) (calls : List (Nat × UInt16)) : Bytes :=
  calls.foldl
    (fun fatBuf call => fatSetEntry fatBuf call.1 call.2.toNat) fatBuf

section Table

variable {fatBuf : Bytes} {size : Nat}

/-- The bytes addressed by an entry of the buffer lie in it. -/
theorem fatSetEntry_outside {cluster value index : Nat}
    (inside : InTable size cluster) (outside : size ≤ index) :
    fatSetEntry fatBuf cluster value index = fatBuf index := by
  rw [InTable] at inside
  exact fatSetEntry_other fatBuf (by omega)

theorem fatCells_independent :
    Independent fatCells
      (fun fatBuf cluster (value : UInt16) =>
        fatSetEntry fatBuf cluster value.toNat)
      (fun value => value.toBitVec.setWidth 12) := by
  intro fatBuf cluster value other
  simp only [fatCells, fatNext_fatSetEntry]
  split
  · apply BitVec.eq_of_toNat_eq
    simp
  · rfl

/-! ## Writing entries -/

/-- A call of `fat_set_entry` sets its own entry to the low twelve bits of
the value, leaves every other entry, and changes only the two bytes that it
addresses; a sequence of calls is a sequence of updates of the array. -/
theorem fatEntries_independent (size : Nat) (fatBuf : Bytes) :
    (∀ (cluster : Nat) (value : UInt16), InTable size cluster →
      let written := fatSetEntry fatBuf cluster value.toNat
      fatNext written cluster = value.toNat % 4096 ∧
        (∀ other, InTable size other → other ≠ cluster →
          fatNext written other = fatNext fatBuf other) ∧
        ∀ index, index ≠ cluster + cluster / 2 →
          index ≠ cluster + cluster / 2 + 1 →
            written index = fatBuf index) ∧
      ∀ calls : List (Nat × UInt16),
        (∀ call ∈ calls, InTable size call.1) →
          (∀ cluster, InTable size cluster →
            fatCells (fatSetEntries fatBuf calls) cluster =
              calls.foldl
                (fun cells call => Function.update cells call.1
                  (call.2.toBitVec.setWidth 12))
                (fatCells fatBuf) cluster) ∧
            ∀ index, size ≤ index →
              fatSetEntries fatBuf calls index = fatBuf index := by
  refine ⟨fun cluster value _ => ⟨?_, fun other _ different => ?_, ?_⟩,
    fun calls inside => ⟨fun cluster _ => ?_, fun index outside => ?_⟩⟩
  · rw [fatNext_fatSetEntry, if_pos rfl]
  · rw [fatNext_fatSetEntry, if_neg different]
  · intro index notLow notHigh
    exact fatSetEntry_other fatBuf (by omega)
  · exact congrFun (fatCells_independent.get_writes calls fatBuf) cluster
  · induction calls generalizing fatBuf with
    | nil => rfl
    | cons call calls inductionHypothesis =>
        rw [List.forall_mem_cons] at inside
        rw [fatSetEntries, List.foldl_cons]
        exact (inductionHypothesis _ inside.2).trans
          (fatSetEntry_outside inside.1 outside)

/-- An entry of a full table, written over its neighbour's nibble. -/
theorem sampleEntry_independent :
    fatNext (fatSetEntry (fun _ => 0xff) 3 0xf123) 3 = 0x123 ∧
      fatNext (fatSetEntry (fun _ => 0xff) 3 0xf123) 2 = 0xfff := by
  obtain ⟨own, others, _⟩ :=
    (fatEntries_independent 4608 fun _ => 0xff).1 3 0xf123 (by decide)
  exact ⟨own, (others 2 (by decide) (by decide)).trans (by decide +kernel)⟩

/-! ## Freeing any chain -/

/-- Every chain link in the table leads to a cluster in the table. -/
def LinksInTable (size : Nat) (next : Nat → Nat) : Prop :=
  ∀ cluster, InTable size cluster →
    ChainStop (next cluster) ∨ InTable size (next cluster)

theorem LinksInTable.reached {next : Nat → Nat} {start : Nat}
    (links : LinksInTable size next)
    (begins : ChainStop start ∨ InTable size start) {cluster : Nat}
    (reached : Reached next ChainStop start cluster) :
    InTable size cluster := by
  induction reached with
  | start going => exact begins.resolve_left going
  | next _ going inductionHypothesis =>
      exact (links _ inductionHypothesis).resolve_left going

/-- `fat_free_chain` ends on every table, also on chains that meet
themselves or others; it clears the entries that it reaches and no
others. -/
theorem fatFreeChain_exact {start : Nat}
    (links : LinksInTable size (fatNext fatBuf))
    (begins : ChainStop start ∨ InTable size start) :
    ∃ freed, fatFreeChain fatBuf start = some freed ∧
      (∀ cluster, Reached (fatNext fatBuf) ChainStop start cluster →
        InTable size cluster ∧ fatNext freed cluster = 0) ∧
      (∀ cluster, ¬ Reached (fatNext fatBuf) ChainStop start cluster →
        fatNext freed cluster = fatNext fatBuf cluster) ∧
      ∀ index, size ≤ index → freed index = fatBuf index := by
  obtain ⟨freed, done, spec⟩ := fatFreeChain_clears fatBuf start
  refine ⟨freed, done,
    fun cluster reached =>
      ⟨links.reached begins reached, (spec cluster).1 reached⟩,
    fun cluster => (spec cluster).2, fun index outside => ?_⟩
  -- No entry of the table has a part in a byte outside it.
  refine byte_eq_of_entries fun cluster covers => (spec cluster).2 ?_
  intro reached
  have inside := links.reached begins reached
  rw [InTable] at inside
  omega

end Table

/-- Two clusters that follow each other in a ring. -/
def sampleRing : Bytes := fatSetEntries (fun _ => 0) [(2, 3), (3, 2)]

theorem sampleRing_next (cluster : Nat) :
    fatNext sampleRing cluster =
      if cluster = 3 then 2 else if cluster = 2 then 3 else 0 := by
  have blank : fatNext (fun _ => 0) cluster = 0 := by
    rw [fatNext_eq]
    split <;> rfl
  rw [sampleRing, fatSetEntries, List.foldl_cons, List.foldl_cons,
    List.foldl_nil, fatNext_fatSetEntry, fatNext_fatSetEntry, blank]
  rfl

theorem sampleRing_exact :
    ∃ freed, fatFreeChain sampleRing 2 = some freed ∧
      fatNext freed 2 = 0 ∧ fatNext freed 3 = 0 := by
  have links : LinksInTable 4608 (fatNext sampleRing) := by
    intro cluster _
    rw [sampleRing_next]
    split
    · exact .inr (by decide)
    · split
      · exact .inr (by decide)
      · exact .inl (.inl (by decide))
  obtain ⟨freed, done, cleared, _⟩ :=
    fatFreeChain_exact links (.inr (by decide : InTable 4608 2))
  have first : Reached (fatNext sampleRing) ChainStop 2 2 :=
    .start (by decide)
  have second : Reached (fatNext sampleRing) ChainStop 2 3 := by
    have following : fatNext sampleRing 2 = 3 := sampleRing_next 2
    have reached := first.next (by rw [following]; decide)
    rwa [following] at reached
  exact ⟨freed, done, (cleared 2 first).2, (cleared 3 second).2⟩

end LoafOs
