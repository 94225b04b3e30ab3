import LoafOs.Mm.SpaceMap

/-!
# Mapping and walking agree

Several directories stand in one memory and share only the tables of the
kernel.  Mapping or unmapping a page sets one page entry; every other page,
in every directory, keeps its entry.
-/

namespace LoafOs

open Memory

/-- Each directory and each table that a directory names has a frame of its
own, and a frame that would be allocated is none of them. -/
structure DirectoriesOk (memory : Memory) (dirs : Nat → Prop) : Prop where
  directory : ∀ pd, dirs pd → IsFrame pd
  table : ∀ pd index, dirs pd → index < 1024 →
    isPresent (memory.entry pd index) = true →
    IsFrame (frameOf (memory.entry pd index)) ∧
      ¬ dirs (frameOf (memory.entry pd index))
  apart : ∀ pd pd' index index', dirs pd → dirs pd' → index < 1024 →
    index' < 1024 → isPresent (memory.entry pd index) = true →
    isPresent (memory.entry pd' index') = true →
    frameOf (memory.entry pd index) = frameOf (memory.entry pd' index') →
    index = index' ∧ (pd = pd' ∨ kernelPdeStart ≤ index)
  fresh : ∀ taken frame, memory.allocFrame = some (taken, frame) →
    IsFrame frame ∧ ¬ dirs frame ∧ ∀ pd index, dirs pd → index < 1024 →
      isPresent (memory.entry pd index) = true →
      frameOf (memory.entry pd index) ≠ frame

variable {memory memory' : Memory} {dirs : Nat → Prop}
  {pd owner table vaddr paddr flags pde pte page : Nat}

/-- A store through the directory entry of an address, with what the other
directories have to do with its table. -/
structure EntryStored (memory memory' : Memory) (dirs : Nat → Prop)
    (pd table vaddr pde pte : Nat) : Prop where
  mapped : Mapped memory memory' pd table vaddr pde pte
  target : frameOf pde = table
  present : isPresent pde = true
  notDirectory : ¬ dirs table
  others : ∀ page, pdIndex page = pdIndex vaddr →
    ptIndex page ≠ ptIndex vaddr →
    memory'.entry table (ptIndex page) = pteAt memory pd page
  shared : ∀ owner index, dirs owner → index < 1024 →
    isPresent (memory.entry owner index) = true →
    frameOf (memory.entry owner index) = table →
    index = pdIndex vaddr ∧ (owner = pd ∨ kernelPdeStart ≤ index) ∧
      ∀ other < 1024, other ≠ ptIndex vaddr →
        memory'.entry table other = memory.entry table other

theorem pdIndex_lt_word (word : page < 2 ^ 32) : pdIndex page < 1024 := by
  rw [pdIndex]
  omega

/-- Pages with the same indices are the same page. -/
theorem page_eq_of_index (same : pdIndex page = pdIndex vaddr)
    (same' : ptIndex page = ptIndex vaddr) : page / 4096 = vaddr / 4096 := by
  simp only [pdIndex, ptIndex] at same same'
  omega

theorem EntryStored.here
    (stored : EntryStored memory memory' dirs pd table vaddr pde pte)
    (same : page / 4096 = vaddr / 4096) :
    pteAt memory' pd page = pte := by
  have indexes : pdIndex page = pdIndex vaddr ∧
      ptIndex page = ptIndex vaddr := by
    simp only [pdIndex, ptIndex]
    omega
  rw [pteAt, indexes.1, indexes.2, stored.mapped.directory, stored.present,
    if_pos rfl, stored.target, stored.mapped.page]

/-- A directory entry changes only in the one place. -/
theorem EntryStored.directory (ok : DirectoriesOk memory dirs)
    (stored : EntryStored memory memory' dirs pd table vaddr pde pte)
    (member : dirs owner) {index : Nat} (bound : index < 1024)
    (other : owner ≠ pd ∨ index ≠ pdIndex vaddr) :
    memory'.entry owner index = memory.entry owner index := by
  by_cases same : owner = pd
  · rw [same]
    exact stored.mapped.directories index bound (other.resolve_left (by
      simp [same]))
  · have notTable : owner ≠ table := fun equal =>
      stored.notDirectory (equal ▸ member)
    exact (stored.mapped.kept owner (ok.directory owner member) same
      notTable).entry bound

/-- A page entry behind a directory entry that stays changes only in a
shared table. -/
theorem EntryStored.pteAt_kept (ok : DirectoriesOk memory dirs)
    (stored : EntryStored memory memory' dirs pd table vaddr pde pte)
    (pdDir : dirs pd) (member : dirs owner) (word : page < 2 ^ 32)
    (other : owner ≠ pd ∨ pdIndex page ≠ pdIndex vaddr)
    (apart : page / 4096 ≠ vaddr / 4096 ∨
      pdIndex vaddr < kernelPdeStart) :
    pteAt memory' owner page = pteAt memory owner page := by
  have bound := pdIndex_lt_word word
  have entry := stored.directory ok member bound other
  cases present : isPresent (memory.entry owner (pdIndex page)) with
  | false =>
      rw [pteAt_absent present, pteAt_absent (by rw [entry, present])]
  | true =>
      rw [pteAt_present present, pteAt_present (by rw [entry, present]),
        entry]
      obtain ⟨isTable, notDir⟩ := ok.table owner _ member bound present
      by_cases same : frameOf (memory.entry owner (pdIndex page)) = table
      · obtain ⟨index, place, rest⟩ :=
          stored.shared owner _ member bound present same
        rw [same]
        refine rest _ ptIndex_lt fun equal => ?_
        have equalPage := page_eq_of_index index equal
        rcases apart with different | user
        · exact different equalPage
        · rcases place with isPd | kernel
          · exact (other.resolve_left (by simp [isPd])) index
          · omega
      · have notPd : frameOf (memory.entry owner (pdIndex page)) ≠ pd :=
          fun equal => notDir (by rw [equal]; exact pdDir)
        exact (stored.mapped.kept _ isTable notPd same).entry ptIndex_lt

/-- Every other page, in every directory, keeps its entry. -/
theorem EntryStored.elsewhere (ok : DirectoriesOk memory dirs)
    (stored : EntryStored memory memory' dirs pd table vaddr pde pte)
    (pdDir : dirs pd) (member : dirs owner) (word : page < 2 ^ 32)
    (apart : page / 4096 ≠ vaddr / 4096) :
    pteAt memory' owner page = pteAt memory owner page := by
  by_cases here : owner = pd ∧ pdIndex page = pdIndex vaddr
  · obtain ⟨isPd, index⟩ := here
    have different : ptIndex page ≠ ptIndex vaddr := fun equal =>
      apart (page_eq_of_index index equal)
    rw [isPd, ← stored.others page index different, pteAt, index,
      stored.mapped.directory, stored.present, if_pos rfl, stored.target]
  · exact stored.pteAt_kept ok pdDir member word (by
      by_cases isPd : owner = pd
      · exact .inr fun index => here ⟨isPd, index⟩
      · exact .inl isPd) (.inl apart)

/-! ## The three functions -/

/-- What a store through a table that exists has to do with the other
directories. -/
theorem Mapped.stored_present (ok : DirectoriesOk memory dirs)
    (pdDir : dirs pd) (word : vaddr < 2 ^ 32)
    (present : isPresent (memory.entry pd (pdIndex vaddr)) = true)
    (isTable : frameOf (memory.entry pd (pdIndex vaddr)) = table)
    (mapped : Mapped memory memory' pd table vaddr pde pte)
    (target : frameOf pde = table) (still : isPresent pde = true)
    (others : ∀ index < 1024, index ≠ ptIndex vaddr →
      memory'.entry table index = memory.entry table index) :
    EntryStored memory memory' dirs pd table vaddr pde pte := by
  have bound := pdIndex_lt_word word
  obtain ⟨_, notDir⟩ := ok.table pd _ pdDir bound present
  refine ⟨mapped, target, still, isTable ▸ notDir,
    fun page same different => ?_, fun owner index member inside there same =>
      ?_⟩
  · rw [others _ ptIndex_lt different, pteAt, same, if_pos present, isTable]
  · obtain ⟨index', place⟩ := ok.apart owner pd index (pdIndex vaddr) member
      pdDir inside bound there present (same.trans isTable.symm)
    exact ⟨index', place, others⟩

/-- What `paging_map_page` stores when it returns zero. -/
theorem DirectoriesOk.map_stored (ok : DirectoriesOk memory dirs)
    (pdDir : dirs pd) (word : vaddr < 2 ^ 32) (frame : paddr < 2 ^ 32)
    (done : pagingMapPage memory pd vaddr paddr flags = some (memory', 0)) :
    ∃ table pde,
      EntryStored memory memory' dirs pd table vaddr pde
        (pageEntry paddr flags) ∧
      (isPresent (memory.entry pd (pdIndex vaddr)) = true →
        pde = if isUser flags then
          memory.entry pd (pdIndex vaddr) ||| pageUser
        else memory.entry pd (pdIndex vaddr)) := by
  have bound := pdIndex_lt_word word
  have isPd := ok.directory pd pdDir
  have pageFrame : frameOf paddr < 2 ^ 32 := by
    rw [frameOf]
    omega
  cases present : isPresent (memory.entry pd (pdIndex vaddr)) with
  | true =>
      obtain ⟨isTable, notDir⟩ := ok.table pd _ pdDir bound present
      have different : frameOf (memory.entry pd (pdIndex vaddr)) ≠ pd :=
        fun equal => notDir (by rw [equal]; exact pdDir)
      obtain ⟨memory'', done', _, mapped, others⟩ :=
        pagingMapPage_present flags isPd isTable different bound rfl rfl
          present pageFrame
      rw [done] at done'
      simp only [Option.some.injEq, Prod.mk.injEq, and_true] at done'
      subst done'
      refine ⟨_, _, mapped.stored_present ok pdDir word present rfl ?_ ?_
        others, fun _ => rfl⟩
      · split
        · exact frameOf_or _ _ (by decide)
        · rfl
      · split
        · exact isPresent_or_left _ _ present
        · exact present
  | false =>
      obtain ⟨taken, pt, alloc, nonzero⟩ := pagingMapPage_alloc present done
      obtain ⟨isTable, notDir, apart⟩ := ok.fresh taken pt alloc
      have different : pt ≠ pd := fun equal => notDir (equal ▸ pdDir)
      obtain ⟨memory'', done', _, mapped, zeros⟩ := pagingMapPage_taken
        flags isPd isTable different (nonzero rfl) bound present pageFrame
        alloc
      rw [done] at done'
      simp only [Option.some.injEq, Prod.mk.injEq, and_true] at done'
      subst done'
      refine ⟨pt, _, ⟨mapped, frameOf_tableEntry isTable,
        isPresent_tableEntry _ _, notDir, fun page same different => ?_,
        fun owner index member inside there same =>
          absurd same (apart owner index member inside there)⟩,
        fun impossible => absurd impossible (by simp)⟩
      rw [zeros _ ptIndex_lt different, pteAt, same, present,
        if_neg Bool.false_ne_true]

/-- Clearing a page entry leaves the directory as it is. -/
theorem DirectoriesOk.unmap_stored (ok : DirectoriesOk memory dirs)
    (pdDir : dirs pd) (word : vaddr < 2 ^ 32)
    (present : isPresent (memory.entry pd (pdIndex vaddr)) = true) :
    EntryStored memory (pagingUnmapPage memory pd vaddr) dirs pd
      (frameOf (memory.entry pd (pdIndex vaddr))) vaddr
      (memory.entry pd (pdIndex vaddr)) 0 := by
  have bound := pdIndex_lt_word word
  have isPd := ok.directory pd pdDir
  obtain ⟨isTable, notDir⟩ := ok.table pd _ pdDir bound present
  have different : pd ≠ frameOf (memory.entry pd (pdIndex vaddr)) :=
    fun equal => notDir (by rw [← equal]; exact pdDir)
  have shape : pagingUnmapPage memory pd vaddr = memory.putEntry
      (frameOf (memory.entry pd (pdIndex vaddr))) (ptIndex vaddr) 0 := by
    rw [pagingUnmapPage]
    simp only [present, not_true_eq_false, if_false]
  have kept : ∀ frame, IsFrame frame →
      frame ≠ frameOf (memory.entry pd (pdIndex vaddr)) →
      FrameKept memory (pagingUnmapPage memory pd vaddr) frame := by
    intro frame isFrame other
    rw [shape]
    exact putEntry_kept isTable isFrame ptIndex_lt other
  refine Mapped.stored_present ok pdDir word present rfl
    ⟨(kept pd isPd different).entry bound,
      fun index inside _ => (kept pd isPd different).entry inside, ?_, ?_,
      fun frame isFrame _ notTable => kept frame isFrame notTable⟩ rfl
    present fun index inside other => ?_
  · rw [shape]
    exact entry_putEntry_same (by decide)
  · rw [shape]
    rfl
  · rw [shape]
    exact entry_putEntry_index other

/-- What walks find after the page of an address has been given a frame or
has lost it. -/
structure WalksAgree (memory memory' : Memory) (dirs : Nat → Prop)
    (pd vaddr : Nat) (frame : Option Nat) : Prop where
  here : ∀ page, page / 4096 = vaddr / 4096 →
    pagingWalk memory' pd page = frame.map fun addr => addr + page % 4096
  elsewhere : ∀ page < 2 ^ 32, page / 4096 ≠ vaddr / 4096 →
    pagingWalk memory' pd page = pagingWalk memory pd page
  others : vaddr < kernelVirtBase → ∀ owner, dirs owner → owner ≠ pd →
    ∀ page < 2 ^ 32,
      pagingWalk memory' owner page = pagingWalk memory owner page

/-- The entries behind the flags of all other pages: a page entry stays,
and a directory entry may gain `PAGE_USER` where the call asks for it. -/
structure FlagsAgree (memory memory' : Memory) (dirs : Nat → Prop)
    (pd vaddr : Nat) (user : Prop) : Prop where
  page : ∀ owner, dirs owner → ∀ page < 2 ^ 32,
    page / 4096 ≠ vaddr / 4096 →
    pteAt memory' owner page = pteAt memory owner page
  directory : ∀ owner, dirs owner → ∀ page < 2 ^ 32,
    page / 4096 ≠ vaddr / 4096 →
    (pagingWalk memory owner page).isSome = true →
    memory'.entry owner (pdIndex page) = memory.entry owner (pdIndex page) ∨
      (user ∧ owner = pd ∧ pdIndex page = pdIndex vaddr ∧
        memory'.entry owner (pdIndex page) =
          memory.entry owner (pdIndex page) ||| pageUser)

theorem EntryStored.walksAgree (ok : DirectoriesOk memory dirs)
    (stored : EntryStored memory memory' dirs pd table vaddr pde pte)
    (pdDir : dirs pd) :
    WalksAgree memory memory' dirs pd vaddr
      (if isPresent pte then some (frameOf pte) else none) := by
  refine ⟨fun page same => ?_, fun page word apart => ?_,
    fun user owner member other page word => ?_⟩
  · rw [walk_eq, stored.here same]
    cases isPresent pte with
    | true => rfl
    | false => rfl
  · rw [walk_eq, walk_eq, stored.elsewhere ok pdDir pdDir word apart]
  · rw [walk_eq, walk_eq, stored.pteAt_kept ok pdDir member word
      (.inl other) (.inr (pdIndex_lt user))]

theorem EntryStored.flagsAgree {user : Prop} (ok : DirectoriesOk memory dirs)
    (stored : EntryStored memory memory' dirs pd table vaddr pde pte)
    (pdDir : dirs pd)
    (gains : isPresent (memory.entry pd (pdIndex vaddr)) = true →
      pde = memory.entry pd (pdIndex vaddr) ∨
        (user ∧ pde = memory.entry pd (pdIndex vaddr) ||| pageUser)) :
    FlagsAgree memory memory' dirs pd vaddr user := by
  refine ⟨fun owner member page word apart =>
    stored.elsewhere ok pdDir member word apart,
    fun owner member page word apart walks => ?_⟩
  by_cases here : owner = pd ∧ pdIndex page = pdIndex vaddr
  · obtain ⟨isPd, index⟩ := here
    have present : isPresent (memory.entry pd (pdIndex vaddr)) = true := by
      by_contra absent
      rw [walk_eq, isPd, pteAt_absent (by rw [index]; simpa using absent)]
        at walks
      simp at walks
    rw [isPd, index, stored.mapped.directory]
    rcases gains present with same | ⟨asks, gained⟩
    · exact .inl same
    · exact .inr ⟨asks, rfl, rfl, gained⟩
  · exact .inl (stored.directory ok member (pdIndex_lt_word word) (by
      by_cases isPd : owner = pd
      · exact .inr fun index => here ⟨isPd, index⟩
      · exact .inl isPd))

/-- Mapping, walking and unmapping agree on every page of every
directory. -/
theorem paging_agrees (ok : DirectoriesOk memory dirs) (pdDir : dirs pd)
    (word : vaddr < 2 ^ 32) :
    (∀ paddr < 2 ^ 32, ∀ flags memory',
      pagingMapPage memory pd vaddr paddr flags = some (memory', 0) →
      WalksAgree memory memory' dirs pd vaddr (some (frameOf paddr)) ∧
        FlagsAgree memory memory' dirs pd vaddr (isUser flags = true)) ∧
    WalksAgree memory (pagingUnmapPage memory pd vaddr) dirs pd vaddr none ∧
    FlagsAgree memory (pagingUnmapPage memory pd vaddr) dirs pd vaddr
      False := by
  refine ⟨fun paddr frame flags memory' done => ?_, ?_⟩
  · obtain ⟨table, pde, stored, isPde⟩ :=
      ok.map_stored pdDir word frame done
    have walks := stored.walksAgree ok pdDir
    rw [isPresent_pageEntry, if_pos rfl, frameOf_pageEntry] at walks
    refine ⟨walks, stored.flagsAgree ok pdDir fun present => ?_⟩
    rw [isPde present]
    split
    case isTrue user => exact .inr ⟨user, rfl⟩
    case isFalse => exact .inl rfl
  · cases present : isPresent (memory.entry pd (pdIndex vaddr)) with
    | true =>
        have stored := ok.unmap_stored pdDir word present
        exact ⟨stored.walksAgree ok pdDir,
          stored.flagsAgree ok pdDir fun _ => .inl rfl⟩
    | false =>
        have same : pagingUnmapPage memory pd vaddr = memory := by
          rw [pagingUnmapPage]
          simp only [present, Bool.false_eq_true, not_false_iff, if_true]
        rw [same]
        refine ⟨⟨fun page equal => ?_, fun _ _ _ => rfl,
          fun _ _ _ _ _ _ => rfl⟩, fun _ _ _ _ _ => rfl,
          fun _ _ _ _ _ _ => .inl rfl⟩
        have index : pdIndex page = pdIndex vaddr := by
          simp only [pdIndex]
          omega
        rw [walk_eq, pteAt_absent (by rw [index, present])]
        rfl

/-- Two empty directories in frames 1 and 2 of an empty memory. -/
def twoDirectories : Memory := ⟨fun _ => 0, ⟨fun _ => 7, 1⟩, 4096⟩

theorem twoDirectories_ok :
    DirectoriesOk twoDirectories fun pd => pd = 4096 ∨ pd = 8192 := by
  have absent : ∀ pd index,
      isPresent (twoDirectories.entry pd index) = false := fun pd index => by
    have zero : twoDirectories.entry pd index = 0 := by
      simp [Memory.entry, Bytes.word32, Bytes.word16, twoDirectories]
    rw [zero, isPresent_zero]
  refine ⟨fun pd member => ?_, fun pd index _ _ present => ?_,
    fun pd _ index _ _ _ _ _ present => ?_, fun taken frame alloc => ?_⟩
  · rcases member with rfl | rfl
    · exact isFrame_mul (by decide : 1 < 2 ^ 18)
    · exact isFrame_mul (by decide : 2 < 2 ^ 18)
  · rw [absent] at present
    simp at present
  · rw [absent] at present
    simp at present
  · obtain ⟨found, place, inside, free, _⟩ :=
      allocFrame_spec (by decide) alloc
    have small : found < 32 := inside
    have one : found ≠ 1 := fun same => by
      rw [same] at free
      exact absurd free (by decide)
    have two : found ≠ 2 := fun same => by
      rw [same] at free
      exact absurd free (by decide)
    refine ⟨place ▸ isFrame_mul (by omega), by omega,
      fun pd index _ _ present => ?_⟩
    rw [absent] at present
    simp at present

/-- A page is mapped in one of the two. -/
theorem paging_agrees_sample : ∃ memory',
    pagingMapPage twoDirectories 4096 0x400000 0x9000 6 =
        some (memory', 0) ∧
      pagingWalk memory' 4096 0x400123 = some 0x9123 ∧
      pagingWalk memory' 4096 0x401000 = none ∧
      pagingWalk memory' 8192 0x400123 = none := by
  have mapped : (pagingMapPage twoDirectories 4096 0x400000 0x9000 6).map
      Prod.snd = some 0 := by
    decide +kernel
  obtain ⟨⟨memory', code⟩, done, zero⟩ := Option.map_eq_some_iff.mp mapped
  have isZero : code = 0 := zero
  subst isZero
  obtain ⟨walks, _⟩ := (paging_agrees twoDirectories_ok (.inl rfl)
    (by decide : 0x400000 < 2 ^ 32)).1 0x9000 (by decide) 6 memory' done
  refine ⟨memory', done, walks.here _ rfl, ?_, ?_⟩
  · rw [walks.elsewhere 0x401000 (by decide) (by decide)]
    rfl
  · rw [walks.others (by decide) 8192 (.inr rfl) (by decide) 0x400123
      (by decide)]
    rfl

end LoafOs
