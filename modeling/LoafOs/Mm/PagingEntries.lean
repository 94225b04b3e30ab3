import LoafOs.Mm.Paging

/-!
# Frames and table entries

Frames below the end of the direct map do not overlap, so a store into an
entry or the clearing of a frame changes exactly the entries it names.
-/

namespace LoafOs

/-- The address of a frame that the direct map covers. -/
structure IsFrame (addr : Nat) : Prop where
  aligned : addr % 4096 = 0
  bound : addr < 2 ^ 30

theorem isFrame_mul {frame : Nat} (bound : frame < 2 ^ 18) :
    IsFrame (frame * 4096) :=
  ⟨by omega, by omega⟩

theorem IsFrame.virt {addr : Nat} (frame : IsFrame addr) :
    physToVirt addr = 3221225472 + addr := by
  have bound := frame.bound
  rw [physToVirt, kernelVirtBase, u32]
  omega

/-- Two frames are the same or lie apart. -/
theorem IsFrame.apart {addr addr' : Nat} (frame : IsFrame addr)
    (frame' : IsFrame addr') (different : addr ≠ addr') :
    physToVirt addr + 4096 ≤ physToVirt addr' ∨
      physToVirt addr' + 4096 ≤ physToVirt addr := by
  have aligned := frame.aligned
  have aligned' := frame'.aligned
  rw [frame.virt, frame'.virt]
  omega

/-! ## Bits of an entry -/

theorem frameOf_or (entry flags : Nat) (small : flags < 4096) :
    frameOf (entry ||| flags) = frameOf entry := by
  have quotient : (entry ||| flags) / 2 ^ 12 = entry / 2 ^ 12 := by
    rw [← Nat.shiftRight_eq_div_pow, Nat.shiftRight_or_distrib,
      Nat.shiftRight_eq_div_pow, Nat.shiftRight_eq_div_pow,
      Nat.div_eq_of_lt small, Nat.or_zero]
  rw [frameOf, frameOf]
  exact congrArg (· * 4096) quotient

theorem frameOf_frame {addr : Nat} (frame : IsFrame addr) :
    frameOf addr = addr := by
  have aligned := frame.aligned
  rw [frameOf]
  omega

@[simp]
theorem frameOf_frameOf (entry : Nat) :
    frameOf (frameOf entry) = frameOf entry := by
  simp only [frameOf]
  omega

theorem frameOf_aligned (entry : Nat) : frameOf entry % 4096 = 0 := by
  rw [frameOf]
  omega

theorem frameOf_add_offset {addr offset : Nat} (frame : IsFrame addr)
    (small : offset < 4096) : frameOf (addr + offset) = addr := by
  have aligned := frame.aligned
  rw [frameOf]
  omega

theorem isPresent_or_left (entry flags : Nat)
    (present : isPresent entry = true) :
    isPresent (entry ||| flags) = true := by
  rw [isPresent] at present ⊢
  rw [Nat.testBit_or, present, Bool.true_or]

theorem isPresent_or_right (entry flags : Nat)
    (present : isPresent flags = true) :
    isPresent (entry ||| flags) = true := by
  rw [isPresent] at present ⊢
  rw [Nat.testBit_or, present, Bool.or_true]

@[simp]
theorem isPresent_zero : isPresent 0 = false := rfl

/-- The entry that `paging_map_page` stores for a page. -/
def pageEntry (paddr flags : Nat) : Nat :=
  frameOf paddr ||| flags % 4096 ||| pagePresent

theorem isPresent_pageEntry (paddr flags : Nat) :
    isPresent (pageEntry paddr flags) = true :=
  isPresent_or_right _ _ rfl

theorem frameOf_pageEntry {paddr flags : Nat} :
    frameOf (pageEntry paddr flags) = frameOf paddr := by
  rw [pageEntry, frameOf_or _ _ (by decide),
    frameOf_or _ _ (Nat.mod_lt _ (by decide)), frameOf_frameOf]

theorem pageEntry_lt {paddr flags : Nat} (bound : frameOf paddr < 2 ^ 32) :
    pageEntry paddr flags < 2 ^ 32 := by
  have small : flags % 4096 < 2 ^ 32 := by omega
  exact Nat.or_lt_two_pow (Nat.or_lt_two_pow bound small) (by decide)

/-- The entry that `paging_map_page` stores for a new table. -/
def tableEntry (pt flags : Nat) : Nat :=
  pt ||| pagePresent ||| pageRw ||| flags &&& pageUser

theorem isPresent_tableEntry (pt flags : Nat) :
    isPresent (tableEntry pt flags) = true :=
  isPresent_or_left _ _ (isPresent_or_left _ _
    (isPresent_or_right _ _ rfl))

theorem flags_and_user_lt (flags : Nat) : flags &&& pageUser < 4096 :=
  Nat.lt_of_le_of_lt Nat.and_le_right (by decide)

theorem frameOf_tableEntry {pt flags : Nat} (frame : IsFrame pt) :
    frameOf (tableEntry pt flags) = pt := by
  rw [tableEntry, frameOf_or _ _ (flags_and_user_lt flags),
    frameOf_or _ _ (by decide), frameOf_or _ _ (by decide),
    frameOf_frame frame]

theorem tableEntry_lt {pt flags : Nat} (frame : IsFrame pt) :
    tableEntry pt flags < 2 ^ 32 := by
  have bound := frame.bound
  have small : flags &&& pageUser < 2 ^ 32 :=
    Nat.lt_trans (flags_and_user_lt flags) (by decide)
  exact Nat.or_lt_two_pow
    (Nat.or_lt_two_pow (Nat.or_lt_two_pow (by omega) (by decide))
      (by decide)) small

/-! ## Entries after a store -/

namespace Memory

variable {memory : Memory} {table table' index index' value frame : Nat}

theorem entry_lt : memory.entry table index < 2 ^ 32 :=
  Bytes.word32_lt _ _

theorem entry_congr {memory' : Memory}
    (bound : index < 1024)
    (same : ∀ offset < 4096, memory'.mem (physToVirt table + offset) =
      memory.mem (physToVirt table + offset)) :
    memory'.entry table index = memory.entry table index := by
  refine Bytes.word32_congr fun offset small => ?_
  rw [entryAddr, Nat.add_assoc]
  exact same _ (by omega)

theorem putEntry_self :
    memory.putEntry table index (memory.entry table index) = memory := by
  rw [putEntry, entry, Bytes.putWord32_self]

theorem entry_putEntry_same (bound : value < 2 ^ 32) :
    (memory.putEntry table index value).entry table index = value :=
  Bytes.word32_putWord32 bound

/-- Bytes outside an entry keep their value. -/
theorem putEntry_other {addr : Nat}
    (outside : addr < entryAddr table index ∨
      entryAddr table index + 4 ≤ addr) :
    (memory.putEntry table index value).mem addr = memory.mem addr :=
  Bytes.putWord32_other outside

theorem entry_putEntry_index (different : index' ≠ index) :
    (memory.putEntry table index value).entry table index' =
      memory.entry table index' := by
  refine Bytes.word32_congr fun offset small => putEntry_other ?_
  simp only [entryAddr]
  omega

theorem clearPage_inside {offset : Nat} (small : offset < 4096) :
    (memory.clearPage table).mem (physToVirt table + offset) = 0 := by
  refine if_pos ?_
  rw [pageSize]
  omega

theorem entry_clearPage_same (bound : index < 1024) :
    (memory.clearPage table).entry table index = 0 := by
  have zero : ∀ offset < 4,
      (memory.clearPage table).mem (entryAddr table index + offset) =
        0 := fun offset small => by
    rw [entryAddr, Nat.add_assoc]
    exact clearPage_inside (by omega)
  have first := zero 0 (by decide)
  have second := zero 1 (by decide)
  have third := zero 2 (by decide)
  have fourth := zero 3 (by decide)
  rw [Nat.add_zero] at first
  simp only [entry, Bytes.word32, Bytes.word16, Nat.add_assoc,
    Nat.reduceAdd, first, second, third, fourth]
  rfl

/-- A frame keeps its bytes. -/
def FrameKept (memory memory' : Memory) (frame : Nat) : Prop :=
  ∀ offset < 4096, memory'.mem (physToVirt frame + offset) =
    memory.mem (physToVirt frame + offset)

theorem FrameKept.trans {memory' memory'' : Memory}
    (first : FrameKept memory memory' frame)
    (second : FrameKept memory' memory'' frame) :
    FrameKept memory memory'' frame := fun offset small =>
  (second offset small).trans (first offset small)

theorem FrameKept.entry {memory' : Memory}
    (kept : FrameKept memory memory' table) (bound : index < 1024) :
    memory'.entry table index = memory.entry table index :=
  entry_congr bound kept

theorem FrameKept.of_mem {memory' : Memory}
    (same : memory'.mem = memory.mem) : FrameKept memory memory' frame :=
  fun _ _ => by rw [same]

theorem putEntry_kept (isTable : IsFrame table) (isFrame : IsFrame frame)
    (bound : index < 1024) (different : frame ≠ table) :
    FrameKept memory (memory.putEntry table index value) frame := by
  intro offset small
  have apart := isFrame.apart isTable different
  refine putEntry_other ?_
  simp only [entryAddr]
  omega

theorem clearPage_kept (isTable : IsFrame table)
    (isFrame : IsFrame frame) (different : frame ≠ table) :
    FrameKept memory (memory.clearPage table) frame := by
  intro offset small
  have apart := isFrame.apart isTable different
  refine if_neg ?_
  rw [pageSize]
  omega

/-! ## The frame allocator -/

theorem allocFrame_mem {memory' : Memory} {addr : Nat}
    (done : memory.allocFrame = some (memory', addr)) :
    memory'.mem = memory.mem ∧
      memory'.kernelDirectory = memory.kernelDirectory ∧
      memory.pmm.allocFrame = some (memory'.pmm, addr) := by
  obtain ⟨⟨pmm, addr'⟩, result, same⟩ := Option.map_eq_some_iff.mp done
  simp only [Prod.mk.injEq] at same
  obtain ⟨memoryEq, addrEq⟩ := same
  subst memoryEq addrEq
  exact ⟨rfl, rfl, result⟩

/-- What `pmm_alloc_frame` returns and what it does to the bitmap. -/
theorem allocFrame_spec {memory' : Memory} {addr : Nat}
    (small : memory.pmm.totalFrames ≤ 2 ^ 18)
    (done : memory.allocFrame = some (memory', addr)) :
    ∃ found, addr = found * 4096 ∧ found < memory.pmm.totalFrames ∧
      memory.pmm.used found = false ∧
      (∀ earlier < found, memory.pmm.used earlier = true) ∧
      memory'.pmm.totalFrames = memory.pmm.totalFrames ∧
      ∀ frame, memory'.pmm.used frame =
        (memory.pmm.used frame || decide (frame = found)) := by
  obtain ⟨_, _, result⟩ := allocFrame_mem done
  rcases memory.pmm.allocFrame_cases (by omega) with
    ⟨found, inside, free, first, result'⟩ | ⟨_, result'⟩
  · rw [result'] at result
    simp only [Option.some.injEq, Prod.mk.injEq] at result
    obtain ⟨pmmEq, addrEq⟩ := result
    refine ⟨found, ?_, inside, free, first, ?_, fun frame => ?_⟩
    · rw [← addrEq, Pmm.frameToAddr_eq (by omega)]
    · rw [← pmmEq]
      rfl
    · rw [← pmmEq, Pmm.used_setFrame,
        Pmm.addrToFrame_frameToAddr (by omega)]
  · rw [result'] at result
    simp at result

end Memory

end LoafOs
