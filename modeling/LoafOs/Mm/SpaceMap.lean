import LoafOs.Mm.PagingMap

/-!
# Mapping keeps the roles

The invariant of an address space that is being built, and the two ways in
which `paging_map_page` is called on it: with a frame fresh from the
allocator, and with the frame that the page already has.
-/

namespace LoafOs

open Memory

/-- The invariant: the frames taken since `start` are those with a role,
and no frame that was marked then has changed. -/
structure SpaceOk (start : Memory) (pd : Nat) (memory : Memory) : Prop where
  owned : Owned start.pmm memory.pmm (roleFrame memory pd)
  zero : start.pmm.used 0 = true ∨ pd = 0
  kept : ∀ frame, IsFrame frame →
    start.pmm.used (frame / 4096) = true → FrameKept start memory frame
  kernel : memory.kernelDirectory = start.kernelDirectory

variable {start memory memory' taken : Memory}
  {pd vaddr frame flags index entry paddr code : Nat}

section Facts

theorem SpaceOk.isPd (ok : SpaceOk start pd memory) : IsFrame pd :=
  (ok.owned.frame .directory pd rfl).1

theorem SpaceOk.pdMarked (ok : SpaceOk start pd memory) :
    memory.pmm.used (pd / 4096) = true :=
  ok.owned.marked (show roleFrame memory pd .directory = some pd from rfl)

theorem SpaceOk.zeroMarked (ok : SpaceOk start pd memory) :
    memory.pmm.used 0 = true := by
  rcases ok.zero with marked | first
  · exact (ok.owned.used 0).mpr (.inl marked)
  · refine (ok.owned.used 0).mpr (.inr ⟨.directory, ?_⟩)
    rw [first]
    rfl

theorem SpaceOk.total (ok : SpaceOk start pd memory) :
    memory.pmm.totalFrames ≤ 2 ^ 18 := by
  rw [ok.owned.total]
  exact ok.owned.small

/-- A table is a frame of its own. -/
theorem SpaceOk.table (ok : SpaceOk start pd memory)
    (low : index < kernelPdeStart)
    (present : isPresent (memory.entry pd index) = true) :
    IsFrame (frameOf (memory.entry pd index)) ∧
      frameOf (memory.entry pd index) ≠ pd ∧
      memory.pmm.used (frameOf (memory.entry pd index) / 4096) = true := by
  have holds := roleFrame_table low present
  refine ⟨(ok.owned.frame _ _ holds).1, fun same => ?_,
    ok.owned.marked holds⟩
  have clash := ok.owned.single _ .directory _ holds (by rw [same]; rfl)
  simp at clash

theorem SpaceOk.tables_apart (ok : SpaceOk start pd memory) {other : Nat}
    (low : index < kernelPdeStart) (low' : other < kernelPdeStart)
    (present : isPresent (memory.entry pd index) = true)
    (present' : isPresent (memory.entry pd other) = true)
    (different : index ≠ other) :
    frameOf (memory.entry pd index) ≠ frameOf (memory.entry pd other) := by
  intro same
  have holds := roleFrame_table low present
  have holds' := roleFrame_table low' present'
  have clash := ok.owned.single _ _ _ holds (by rw [same]; exact holds')
  simp only [Role.table.injEq] at clash
  exact different clash

/-- A frame that was marked at the start has no role. -/
theorem SpaceOk.foreign (ok : SpaceOk start pd memory) {role : Role}
    {addr : Nat} (holds : roleFrame memory pd role = some addr)
    (marked : start.pmm.used (frame / 4096) = true) : frame ≠ addr := by
  intro same
  have unmarked := (ok.owned.frame role addr holds).2
  rw [← same, marked] at unmarked
  simp at unmarked

theorem walk_none (unmapped : pagingWalk memory pd vaddr = none) :
    roleFrame memory pd (.page (pdIndex vaddr) (ptIndex vaddr)) = none := by
  rw [pagingWalk] at unmapped
  refine if_neg fun all => ?_
  obtain ⟨_, _, present, page⟩ := all
  simp only [present, page, not_true_eq_false, if_false] at unmapped
  simp at unmapped

theorem walk_some (mapped : pagingWalk memory pd vaddr = some paddr) :
    isPresent (memory.entry pd (pdIndex vaddr)) = true ∧
      isPresent (memory.entry (frameOf (memory.entry pd (pdIndex vaddr)))
        (ptIndex vaddr)) = true ∧
      paddr = frameOf (memory.entry
        (frameOf (memory.entry pd (pdIndex vaddr))) (ptIndex vaddr)) +
          vaddr % 4096 := by
  rw [pagingWalk] at mapped
  cases present : isPresent (memory.entry pd (pdIndex vaddr)) with
  | false => simp [present] at mapped
  | true =>
      cases page : isPresent (memory.entry
          (frameOf (memory.entry pd (pdIndex vaddr)))
          (ptIndex vaddr)) with
      | false => simp [present, page] at mapped
      | true =>
          simp only [present, page, not_true_eq_false, if_false,
            Option.some.injEq] at mapped
          exact ⟨rfl, rfl, mapped.symm⟩

theorem walk_frame (mapped : pagingWalk memory pd vaddr = some paddr) :
    frameOf paddr = frameOf (memory.entry
      (frameOf (memory.entry pd (pdIndex vaddr))) (ptIndex vaddr)) := by
  rw [(walk_some mapped).2.2]
  simp only [frameOf]
  omega

theorem walk_role (user : vaddr < kernelVirtBase)
    (mapped : pagingWalk memory pd vaddr = some paddr) :
    roleFrame memory pd (.page (pdIndex vaddr) (ptIndex vaddr)) =
      some (frameOf paddr) := by
  rw [walk_frame mapped]
  obtain ⟨present, page, _⟩ := walk_some mapped
  exact roleFrame_page (pdIndex_lt user) ptIndex_lt present page

end Facts

/-- Storing a page entry in a table that exists. -/
theorem SpaceOk.mapped_roles (ok : SpaceOk start pd memory)
    (low : pdIndex vaddr < kernelPdeStart)
    (present : isPresent (memory.entry pd (pdIndex vaddr)) = true)
    {pde pte : Nat}
    (mapped : Mapped memory memory' pd
      (frameOf (memory.entry pd (pdIndex vaddr))) vaddr pde pte)
    (same : SameFrame (memory.entry pd (pdIndex vaddr)) pde)
    (others : ∀ index < 1024, index ≠ ptIndex vaddr →
      memory'.entry (frameOf (memory.entry pd (pdIndex vaddr))) index =
        memory.entry (frameOf (memory.entry pd (pdIndex vaddr))) index) :
    roleFrame memory' pd =
      setRole (roleFrame memory pd) (.page (pdIndex vaddr) (ptIndex vaddr))
        (if isPresent pte then some (frameOf pte) else none) := by
  have kernelLow : kernelPdeStart = 768 := rfl
  have directory : ∀ index < kernelPdeStart,
      SameFrame (memory.entry pd index) (memory'.entry pd index) := by
    intro index below
    by_cases here : index = pdIndex vaddr
    · rw [here, mapped.directory]
      exact same
    · rw [mapped.directories index (by omega) here]
      exact sameFrame_refl
  funext role
  cases role with
  | directory => rw [setRole_other (by simp)]; rfl
  | table index =>
      rw [setRole_other (by simp)]
      exact roleFrame_table_congr (directory index)
  | page index entry =>
      by_cases here : index = pdIndex vaddr
      · by_cases target : entry = ptIndex vaddr
        · subst here target
          rw [setRole_same]
          have after := directory _ low
          simp only [roleFrame, after.1, after.2, present, mapped.page,
            low, ptIndex_lt, true_and]
        · rw [setRole_other (by simp [target])]
          refine roleFrame_page_congr (directory index)
            fun _ small _ => ?_
          rw [here, others entry small target]
          exact sameFrame_refl
      · rw [setRole_other (by simp [here])]
        refine roleFrame_page_congr (directory index)
          fun low' small present' => ?_
        obtain ⟨isTable, notPd, _⟩ := ok.table low' present'
        have apart := ok.tables_apart low' low present' present here
        rw [(mapped.kept _ isTable notPd apart).entry small]
        exact sameFrame_refl

/-- The entry of the page of an address, 0 where there is no table. -/
def pteAt (memory : Memory) (pd vaddr : Nat) : Nat :=
  if isPresent (memory.entry pd (pdIndex vaddr)) then
    memory.entry (frameOf (memory.entry pd (pdIndex vaddr)))
      (ptIndex vaddr)
  else 0

theorem pteAt_present
    (present : isPresent (memory.entry pd (pdIndex vaddr)) = true) :
    pteAt memory pd vaddr =
      memory.entry (frameOf (memory.entry pd (pdIndex vaddr)))
        (ptIndex vaddr) :=
  if_pos present

theorem pteAt_absent
    (absent : isPresent (memory.entry pd (pdIndex vaddr)) = false) :
    pteAt memory pd vaddr = 0 :=
  if_neg (by simp [absent])

theorem walk_eq :
    pagingWalk memory pd vaddr =
      if isPresent (pteAt memory pd vaddr) then
        some (frameOf (pteAt memory pd vaddr) + vaddr % 4096)
      else none := by
  rw [pagingWalk]
  cases present : isPresent (memory.entry pd (pdIndex vaddr)) with
  | false =>
      rw [pteAt_absent present]
      simp
  | true =>
      rw [pteAt_present present]
      cases page : isPresent (memory.entry
          (frameOf (memory.entry pd (pdIndex vaddr))) (ptIndex vaddr)) with
      | false => simp [page]
      | true => simp [page]

/-- The directory entries that lead to tables are user entries. -/
def UserTables (memory : Memory) (pd : Nat) : Prop :=
  ∀ index < kernelPdeStart, isPresent (memory.entry pd index) = true →
    isUser (memory.entry pd index) = true

/-- The directory entries that lead to tables are writable. -/
def RwTables (memory : Memory) (pd : Nat) : Prop :=
  ∀ index < kernelPdeStart, isPresent (memory.entry pd index) = true →
    isRw (memory.entry pd index) = true

/-- One page entry of an address space has been set. -/
structure PageSet (memory memory' : Memory) (pd vaddr flags pte : Nat) :
    Prop where
  here : pteAt memory' pd vaddr = pte
  elsewhere : ∀ other < kernelVirtBase, other / 4096 ≠ vaddr / 4096 →
    pteAt memory' pd other = pteAt memory pd other
  users : isUser flags = true → UserTables memory pd →
    UserTables memory' pd
  rws : RwTables memory pd → RwTables memory' pd
  directories : ∀ index < 1024, index ≠ pdIndex vaddr →
    memory'.entry pd index = memory.entry pd index
  pages : ∀ index entry addr,
    roleFrame memory pd (.page index entry) = some addr →
    FrameKept memory memory' addr
  kept : ∀ frame, IsFrame frame →
    (∀ role, roleFrame memory' pd role ≠ some frame) →
    FrameKept memory memory' frame

theorem Mapped.of_mem {table pde pte : Nat}
    (mapped : Mapped taken memory' pd table vaddr pde pte)
    (mem : taken.mem = memory.mem)
    (kernel : taken.kernelDirectory = memory.kernelDirectory) :
    Mapped memory memory' pd table vaddr pde pte := by
  refine ⟨mapped.directory, fun index below other => ?_, mapped.page,
    mapped.kernel.trans kernel, fun frame isFrame notPd notTable => ?_⟩
  · rw [mapped.directories index below other]
    simp only [Memory.entry, mem]
  · exact (FrameKept.of_mem mem).trans
      (mapped.kept frame isFrame notPd notTable)

/-- The page entries after a store through a present directory entry. -/
theorem Mapped.pageSet (ok : SpaceOk start pd memory) {table pde pte : Nat}
    (mapped : Mapped memory memory' pd table vaddr pde pte)
    (low : pdIndex vaddr < kernelPdeStart)
    (target : frameOf pde = table) (present : isPresent pde = true)
    (others : ∀ other, pdIndex other = pdIndex vaddr →
      ptIndex other ≠ ptIndex vaddr →
      memory'.entry table (ptIndex other) = pteAt memory pd other)
    (foreign : ∀ index < kernelPdeStart, index ≠ pdIndex vaddr →
      isPresent (memory.entry pd index) = true →
      frameOf (memory.entry pd index) ≠ table)
    (pages : ∀ index entry, roleFrame memory pd (.page index entry) ≠
      some table)
    (user : isUser flags = true → isUser pde = true)
    (writable : (isPresent (memory.entry pd (pdIndex vaddr)) = true →
      isRw (memory.entry pd (pdIndex vaddr)) = true) → isRw pde = true) :
    PageSet memory memory' pd vaddr flags pte := by
  have kernelLow : kernelPdeStart = 768 := rfl
  refine ⟨?_, fun other otherUser different => ?_,
    fun userFlags userTables index below isPresent' => ?_,
    fun rwTables index below isPresent' => ?_, mapped.directories,
    fun index entry addr holds => ?_,
    fun frame isFrame foreign => mapped.kept frame isFrame
      (fun same => foreign .directory (by rw [same]; rfl))
      fun same => foreign (.table (pdIndex vaddr)) ?_⟩
  · rw [pteAt, mapped.directory, present, if_pos rfl, target, mapped.page]
  · have otherLow := pdIndex_lt otherUser
    by_cases same : pdIndex other = pdIndex vaddr
    · have apart : ptIndex other ≠ ptIndex vaddr := by
        intro equal
        simp only [pdIndex, ptIndex] at same equal
        omega
      rw [← others other same apart, pteAt, same, mapped.directory,
        present, if_pos rfl, target]
    · have entryEq := mapped.directories (pdIndex other) (by omega) same
      cases there : isPresent (memory.entry pd (pdIndex other)) with
      | false =>
          rw [pteAt_absent there, pteAt_absent (by rw [entryEq, there])]
      | true =>
          obtain ⟨isTable, notPd, _⟩ := ok.table otherLow there
          have apart := foreign _ otherLow same there
          rw [pteAt_present there, pteAt_present (by rw [entryEq, there]),
            entryEq]
          exact (mapped.kept _ isTable notPd apart).entry ptIndex_lt
  · by_cases here : index = pdIndex vaddr
    · rw [here, mapped.directory]
      exact user userFlags
    · have entryEq := mapped.directories index (by omega) here
      rw [entryEq] at isPresent' ⊢
      exact userTables index below isPresent'
  · by_cases here : index = pdIndex vaddr
    · rw [here, mapped.directory]
      exact writable (rwTables _ low)
    · have entryEq := mapped.directories index (by omega) here
      rw [entryEq] at isPresent' ⊢
      exact rwTables index below isPresent'
  · refine mapped.kept addr (ok.owned.frame _ _ holds).1 (fun same => ?_)
      fun same => pages index entry (same ▸ holds)
    have clash := ok.owned.single _ .directory _ holds (by rw [same]; rfl)
    simp at clash
  · have there : isPresent (memory'.entry pd (pdIndex vaddr)) = true := by
      rw [mapped.directory, present]
    rw [roleFrame_table low there, mapped.directory, target, same]

theorem isUser_or (entry : Nat) : isUser (entry ||| pageUser) = true := by
  have bit : Nat.testBit pageUser 2 = true := rfl
  rw [isUser, Nat.testBit_or, bit, Bool.or_true]

theorem sameFrame_or {entry : Nat} (present : isPresent entry = true) :
    SameFrame entry (entry ||| pageUser) :=
  ⟨(isPresent_or_left _ _ present).trans present.symm,
    frameOf_or _ _ (by decide)⟩

/-- The directory entry that a mapping leaves. -/
def userPde (pde flags : Nat) : Nat :=
  if isUser flags then pde ||| pageUser else pde

theorem sameFrame_userPde {pde : Nat} (present : isPresent pde = true) :
    SameFrame pde (userPde pde flags) := by
  rw [userPde]
  split
  · exact sameFrame_or present
  · exact sameFrame_refl

theorem isUser_userPde {pde : Nat} (user : isUser flags = true) :
    isUser (userPde pde flags) = true := by
  rw [userPde, if_pos user]
  exact isUser_or pde

theorem isRw_or_left {entry flags : Nat} (writable : isRw entry = true) :
    isRw (entry ||| flags) = true := by
  rw [isRw] at writable ⊢
  rw [Nat.testBit_or, writable, Bool.true_or]

theorem isRw_userPde {pde : Nat} (writable : isRw pde = true) :
    isRw (userPde pde flags) = true := by
  rw [userPde]
  split
  · exact isRw_or_left writable
  · exact writable

theorem isRw_tableEntry (pt flags : Nat) :
    isRw (tableEntry pt flags) = true := by
  rw [tableEntry]
  refine isRw_or_left ?_
  have bit : Nat.testBit pageRw 1 = true := rfl
  rw [isRw, Nat.testBit_or, bit, Bool.or_true]

theorem isUser_tableEntry {pt : Nat} (user : isUser flags = true) :
    isUser (tableEntry pt flags) = true := by
  rw [isUser] at user ⊢
  have bit : Nat.testBit pageUser 2 = true := rfl
  rw [tableEntry, Nat.testBit_or, Nat.testBit_and, user, bit,
    Bool.and_true, Bool.or_true]

/-- The invariant after changes to frames with a role or to new ones. -/
theorem SpaceOk.change (ok : SpaceOk start pd memory)
    (owned : Owned start.pmm memory'.pmm (roleFrame memory' pd))
    (kernel : memory'.kernelDirectory = memory.kernelDirectory)
    (kept : ∀ frame, IsFrame frame →
      start.pmm.used (frame / 4096) = true →
      FrameKept memory memory' frame) :
    SpaceOk start pd memory' :=
  ⟨owned, ok.zero, fun frame isFrame marked =>
    (ok.kept frame isFrame marked).trans (kept frame isFrame marked),
    kernel.trans ok.kernel⟩

/-- A fresh page in a table that exists. -/
theorem SpaceOk.map_present (ok : SpaceOk start pd memory)
    (user : vaddr < kernelVirtBase)
    (unmapped : pagingWalk memory pd vaddr = none)
    (alloc : memory.allocFrame = some (taken, frame))
    (present : isPresent (memory.entry pd (pdIndex vaddr)) = true)
    (done : pagingMapPage taken pd vaddr frame flags =
      some (memory', code)) :
    code = 0 ∧ SpaceOk start pd memory' ∧
      PageSet memory memory' pd vaddr flags (pageEntry frame flags) := by
  have low := pdIndex_lt user
  have kernelLow : kernelPdeStart = 768 := rfl
  obtain ⟨found, place, inside, free, _, total, used⟩ :=
    allocFrame_spec ok.total alloc
  obtain ⟨mem, kernel, _⟩ := allocFrame_mem alloc
  have bound := ok.total
  have isFrame : IsFrame frame := by
    rw [place]
    exact isFrame_mul (by omega)
  have entries : taken.entry pd (pdIndex vaddr) =
      memory.entry pd (pdIndex vaddr) := by
    simp only [Memory.entry, mem]
  obtain ⟨isTable, notPd, _⟩ := ok.table low present
  have page : frameOf frame < 2 ^ 32 := by
    have small := isFrame.bound
    rw [frameOf_frame isFrame]
    omega
  obtain ⟨after, result, pmmEq, mapped', others'⟩ :=
    pagingMapPage_present flags ok.isPd isTable notPd (by omega)
      entries rfl present page
  rw [result] at done
  simp only [Option.some.injEq, Prod.mk.injEq] at done
  obtain ⟨memoryEq, codeEq⟩ := done
  subst memoryEq
  have mapped := mapped'.of_mem mem kernel
  have others : ∀ index < 1024, index ≠ ptIndex vaddr →
      after.entry (frameOf (memory.entry pd (pdIndex vaddr))) index =
        memory.entry (frameOf (memory.entry pd (pdIndex vaddr))) index := by
    intro index below other
    rw [others' index below other]
    simp only [Memory.entry, mem]
  have same : SameFrame (memory.entry pd (pdIndex vaddr))
      (userPde (memory.entry pd (pdIndex vaddr)) flags) :=
    sameFrame_userPde present
  have roles := ok.mapped_roles low present mapped same others
  rw [isPresent_pageEntry, if_pos rfl, frameOf_pageEntry,
    frameOf_frame isFrame, place] at roles
  refine ⟨codeEq.symm, ok.change ?_ mapped.kernel
    fun other isOther marked => ?_, ?_⟩
  · rw [roles]
    refine ok.owned.insert (walk_none unmapped) inside free ?_ fun other => ?_
    · rw [Pmm.totalFrames, pmmEq]
      exact total
    · rw [pmmEq]
      exact used other
  · exact mapped.kept other isOther
      (ok.foreign (show roleFrame memory pd .directory = some pd from rfl)
        marked)
      (ok.foreign (roleFrame_table low present) marked)
  · refine mapped.pageSet ok low same.2 (same.1.trans present)
      (fun other sameTable apart => ?_)
      (fun index below different isPresent' => ?_)
      (fun index entry holds => ?_) isUser_userPde
      fun writable => isRw_userPde (writable present)
    · rw [others _ ptIndex_lt apart, pteAt, sameTable, present, if_pos rfl]
    · exact ok.tables_apart below low isPresent' present different
    · have clash := ok.owned.single _ _ _ holds
        (roleFrame_table low present)
      simp at clash

/-- A fresh page that needs a new table. -/
theorem SpaceOk.map_absent (ok : SpaceOk start pd memory)
    (user : vaddr < kernelVirtBase)
    (alloc : memory.allocFrame = some (taken, frame))
    (absent : isPresent (memory.entry pd (pdIndex vaddr)) = false)
    (done : pagingMapPage taken pd vaddr frame flags =
      some (memory', code)) :
    code = 0 ∧ SpaceOk start pd memory' ∧
      PageSet memory memory' pd vaddr flags (pageEntry frame flags) := by
  have low := pdIndex_lt user
  have kernelLow : kernelPdeStart = 768 := rfl
  obtain ⟨found, place, inside, free, _, total, used⟩ :=
    allocFrame_spec ok.total alloc
  obtain ⟨mem, kernel, _⟩ := allocFrame_mem alloc
  have bound := ok.total
  have isFrame : IsFrame frame := by
    rw [place]
    exact isFrame_mul (by omega)
  have entries : taken.entry pd (pdIndex vaddr) =
      memory.entry pd (pdIndex vaddr) := by
    simp only [Memory.entry, mem]
  have page : frameOf frame < 2 ^ 32 := by
    have small := isFrame.bound
    rw [frameOf_frame isFrame]
    omega
  have stays : ∀ frame, memory.pmm.used frame = true →
      taken.pmm.used frame = true := fun frame marked => by
    rw [used, marked, Bool.true_or]
  obtain ⟨codeEq, table, inside', free', total', used', mapped', others'⟩ :=
    pagingMapPage_absent ok.isPd (by omega) (stays _ ok.pdMarked)
      (stays _ ok.zeroMarked) (by omega) (by rw [entries, absent]) page done
  have mapped := mapped'.of_mem mem kernel
  have isTable : IsFrame (table * 4096) := isFrame_mul (by omega)
  have tableEq : table * 4096 / 4096 = table := by omega
  have present := isPresent_tableEntry (table * 4096) flags
  have target : frameOf (tableEntry (table * 4096) flags) = table * 4096 :=
    frameOf_tableEntry isTable
  have unowned : ∀ role, roleFrame memory pd role ≠ some (table * 4096) := by
    intro role holds
    have marked := stays _ (ok.owned.marked holds)
    rw [tableEq, free'] at marked
    simp at marked
  have noTable : roleFrame memory pd (.table (pdIndex vaddr)) = none :=
    if_neg fun all => by simp [absent] at all
  have noPage : ∀ entry,
      roleFrame memory pd (.page (pdIndex vaddr) entry) = none :=
    fun entry => if_neg fun all => by simp [absent] at all
  have foreign : ∀ index < kernelPdeStart, index ≠ pdIndex vaddr →
      isPresent (memory.entry pd index) = true →
      frameOf (memory.entry pd index) ≠ table * 4096 := by
    intro index below _ isPresent' same
    exact unowned _ (same ▸ roleFrame_table below isPresent')
  have roles : roleFrame memory' pd =
      setRole (setRole (roleFrame memory pd)
          (.page (pdIndex vaddr) (ptIndex vaddr)) (some (found * 4096)))
        (.table (pdIndex vaddr)) (some (table * 4096)) := by
    have directory : ∀ index < kernelPdeStart, index ≠ pdIndex vaddr →
        memory'.entry pd index = memory.entry pd index :=
      fun index below other =>
        mapped.directories index (by omega) other
    funext role
    cases role with
    | directory =>
        rw [setRole_other (by simp), setRole_other (by simp)]
        rfl
    | table index =>
        by_cases here : index = pdIndex vaddr
        · subst here
          rw [setRole_same, roleFrame_table low
            (by rw [mapped.directory, present]), mapped.directory, target]
        · rw [setRole_other (by simp [here]), setRole_other (by simp)]
          refine roleFrame_table_congr fun below => ?_
          rw [directory index below here]
          exact sameFrame_refl
    | page index entry =>
        rw [setRole_other (by simp)]
        by_cases here : index = pdIndex vaddr
        · subst here
          by_cases this : entry = ptIndex vaddr
          · subst this
            have tablePresent : isPresent
                (memory'.entry pd (pdIndex vaddr)) = true := by
              rw [mapped.directory, present]
            have pageEq : memory'.entry
                (frameOf (memory'.entry pd (pdIndex vaddr)))
                (ptIndex vaddr) = pageEntry frame flags := by
              rw [mapped.directory, target, mapped.page]
            rw [setRole_same, roleFrame_page low ptIndex_lt tablePresent
              (by rw [pageEq, isPresent_pageEntry]), pageEq,
              frameOf_pageEntry, frameOf_frame isFrame, place]
          · rw [setRole_other (by simp [this]), noPage]
            refine if_neg fun all => ?_
            obtain ⟨_, small, _, page⟩ := all
            rw [mapped.directory, target, others' entry small this] at page
            simp at page
        · rw [setRole_other (by simp [here])]
          refine roleFrame_page_congr (fun below => ?_)
            fun below small isPresent' => ?_
          · rw [directory index below here]
            exact sameFrame_refl
          · obtain ⟨isTable', notPd, _⟩ := ok.table below isPresent'
            rw [(mapped.kept _ isTable' notPd
              (foreign index below here isPresent')).entry small]
            exact sameFrame_refl
  refine ⟨codeEq, ok.change ?_ mapped.kernel
    fun other isOther marked => ?_, ?_⟩
  · rw [roles]
    have first := ok.owned.insert
      (noPage (ptIndex vaddr)) inside free total used
    refine first.insert ?_ inside' free' total' used'
    rw [setRole_other (by simp)]
    exact noTable
  · refine mapped.kept other isOther
      (ok.foreign (show roleFrame memory pd .directory = some pd from rfl)
        marked) fun same => ?_
    have still := stays _ ((ok.owned.used _).mpr (.inl marked))
    rw [same, tableEq, free'] at still
    simp at still
  · refine mapped.pageSet ok low target present
      (fun other sameTable apart => ?_) foreign
      (fun index entry => unowned _) isUser_tableEntry
      fun _ => isRw_tableEntry _ _
    rw [others' _ ptIndex_lt apart, pteAt, sameTable, absent]
    simp

/-- Mapping a fresh frame at an address that is not mapped. -/
theorem SpaceOk.map (ok : SpaceOk start pd memory)
    (user : vaddr < kernelVirtBase)
    (unmapped : pagingWalk memory pd vaddr = none)
    (alloc : memory.allocFrame = some (taken, frame))
    (done : pagingMapPage taken pd vaddr frame flags =
      some (memory', code)) :
    code = 0 ∧ SpaceOk start pd memory' ∧
      PageSet memory memory' pd vaddr flags (pageEntry frame flags) := by
  cases present : isPresent (memory.entry pd (pdIndex vaddr)) with
  | true => exact ok.map_present user unmapped alloc present done
  | false => exact ok.map_absent user alloc present done

/-- Mapping a page to the frame that it already has. -/
theorem SpaceOk.remap (ok : SpaceOk start pd memory) (flags : Nat)
    (user : vaddr < kernelVirtBase)
    (mapped : pagingWalk memory pd vaddr = some paddr)
    (target : frameOf frame = frameOf paddr) :
    ∃ memory', pagingMapPage memory pd vaddr frame flags =
        some (memory', 0) ∧ memory'.pmm = memory.pmm ∧
      SpaceOk start pd memory' ∧
      PageSet memory memory' pd vaddr flags (pageEntry frame flags) := by
  have low := pdIndex_lt user
  have kernelLow : kernelPdeStart = 768 := rfl
  obtain ⟨present, pagePresent', _⟩ := walk_some mapped
  have role := walk_role user mapped
  have isPage := (ok.owned.frame _ _ role).1
  obtain ⟨isTable, notPd, _⟩ := ok.table low present
  have page : frameOf frame < 2 ^ 32 := by
    have small := isPage.bound
    rw [target]
    omega
  obtain ⟨after, result, pmmEq, changed, others⟩ :=
    pagingMapPage_present flags ok.isPd isTable notPd (by omega)
      rfl rfl present page
  have same : SameFrame (memory.entry pd (pdIndex vaddr))
      (userPde (memory.entry pd (pdIndex vaddr)) flags) :=
    sameFrame_userPde present
  have roles := ok.mapped_roles low present changed same others
  rw [isPresent_pageEntry, if_pos rfl, frameOf_pageEntry, target] at roles
  have unchanged : roleFrame after pd = roleFrame memory pd := by
    rw [roles]
    funext other
    by_cases here : other = .page (pdIndex vaddr) (ptIndex vaddr)
    · rw [here, setRole_same, role]
    · rw [setRole_other here]
  refine ⟨after, result, pmmEq, ok.change ?_ changed.kernel
    fun other isOther marked => ?_, ?_⟩
  · rw [unchanged, pmmEq]
    exact ok.owned
  · exact changed.kept other isOther
      (ok.foreign (show roleFrame memory pd .directory = some pd from rfl)
        marked)
      (ok.foreign (roleFrame_table low present) marked)
  · refine changed.pageSet ok low same.2 (same.1.trans present)
      (fun other sameTable apart => ?_)
      (fun index below different isPresent' => ?_)
      (fun index entry holds => ?_) isUser_userPde
      fun writable => isRw_userPde (writable present)
    · rw [others _ ptIndex_lt apart, pteAt, sameTable, present, if_pos rfl]
    · exact ok.tables_apart below low isPresent' present different
    · have clash := ok.owned.single _ _ _ holds
        (roleFrame_table low present)
      simp at clash

end LoafOs
