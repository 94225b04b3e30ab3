import LoafOs.Multi.InterruptFrames

/-!
# Interrupts that have not returned

The frames of the interrupts on the stack of each thread, and what every
step of a program or of the kernel leaves of them: further interrupts, the
results of system calls, prepared threads, switches and returns.
-/

namespace LoafOs

open I386 Runs

universe u

/-- An interrupt that has not returned yet. -/
structure Trap where
  regs : Nat
  num : UInt32
  context : Context

/-- `regs->eax = value`. -/
def Trap.answer (trap : Trap) (value : UInt32) : Trap :=
  { trap with
    context := { trap.context with
      reg := fun reg =>
        if reg = .eax then value else trap.context.reg reg } }

/-- The program that `init_fake_stack` seems to have interrupted. -/
def Context.ofImage (image : Image) : Context where
  reg := fun reg =>
    if reg = .esp then UInt32.ofNat image.userStackTop else 0
  seg := fun seg => if seg = .cs then 0x1b else 0x23
  eip := UInt32.ofNat image.entryPoint
  eflags := 0x202

def freshTrap (kstack : Nat) (image : Image) : Trap where
  regs := freshEsp kstack + 20
  num := 0
  context := .ofImage image

/-- The processor, `tss.esp0` and the threads with their traps, the
innermost trap first. -/
structure TrapState (Thread : Type u) extends Threads Thread where
  esp0 : UInt32
  traps : Thread → List Trap

/-- Where the frames of a thread begin. -/
def lowest (top : Nat) : List Trap → Nat
  | [] => top
  | trap :: _ => trap.regs

def setTraps {Thread : Type u} [DecidableEq Thread]
    (traps : Thread → List Trap) (thread : Thread) (value : List Trap) :
    Thread → List Trap :=
  fun other => if other = thread then value else traps other

def Layout.top {Thread : Type u} (layout : Layout Thread) (thread : Thread) :
    Nat :=
  layout.base thread + layout.size thread

/-- The address belongs to the stack of a thread or to its `saved_esp`. -/
def Layout.Owned {Thread : Type u} (layout : Layout Thread) (thread : Thread)
    (addr : Nat) : Prop :=
  (layout.base thread ≤ addr ∧ addr < layout.top thread) ∨
    ((layout.slot thread).toNat ≤ addr ∧
      addr < (layout.slot thread).toNat + 4)

/-- The stack of the running thread is free below this address. -/
def TrapState.free {Thread : Type u} (layout : Layout Thread)
    (state : TrapState Thread) : Nat :=
  lowest (layout.top state.current) (state.traps state.current)

inductive TrapEvent (Thread : Type u) where
  | user
  | work
  | interrupt (num : Nat) (errorCode : UInt32)
  | answer (value : UInt32)
  | prepare (thread : Thread) (image : Image)
  | switch (next : Thread)
  | leave

/-- What can happen next.  A user program does not reach the stacks of the
kernel; the kernel keeps to the free part of the stack of its thread, stores
the result of a system call in the innermost frame, prepares a thread, or
switches to one, for which `schedule` has set `tss.esp0`.  At `isr_return`
with the stack pointer at a frame, the interrupt returns. -/
inductive TrapStep {Thread : Type u} [DecidableEq Thread] (code : IsrCode)
    (layout : Layout Thread) (isrReturnAddr : Nat) :
    TrapState Thread → TrapEvent Thread → TrapState Thread → Prop
  | user {state : TrapState Thread} {cpu : Cpu}
      (outside : state.cpu.privilege ≠ 0)
      (level : cpu.privilege = state.cpu.privilege)
      (selectors : ∀ seg, cpu.seg seg < 65536)
      (confined : ∀ thread addr, layout.Owned thread addr →
        cpu.mem addr = state.cpu.mem addr) :
      TrapStep code layout isrReturnAddr state .user
        { state with cpu := cpu }
  | work {state : TrapState Thread} {cpu : Cpu}
      (kernel : state.cpu.privilege = 0)
      (level : cpu.privilege = 0)
      (selectors : ∀ seg, cpu.seg seg < 65536)
      (stack : cpu.seg .ss = state.cpu.seg .ss)
      (below : (cpu.reg .esp).toNat ≤ state.free layout)
      (others : ∀ thread addr, thread ≠ state.current →
        layout.Owned thread addr → cpu.mem addr = state.cpu.mem addr)
      (frames : ∀ addr, state.free layout ≤ addr →
        addr < layout.top state.current →
        cpu.mem addr = state.cpu.mem addr) :
      TrapStep code layout isrReturnAddr state .work
        { state with cpu := cpu }
  | interrupt {state : TrapState Thread} {cpu : Cpu} {num : Nat}
      {errorCode : UInt32}
      (taken : takeInterrupt code state.cpu state.esp0 num errorCode =
        some cpu)
      (room : layout.base state.current +
          ((Context.ofCpu state.cpu).size + 8) ≤
        ((entryStack state.cpu 0x10 state.esp0).reg .esp).toNat) :
      TrapStep code layout isrReturnAddr state (.interrupt num errorCode)
        { state with
          cpu := cpu
          traps := setTraps state.traps state.current
            (⟨((entryStack state.cpu 0x10 state.esp0).reg .esp).toNat -
                (Context.ofCpu state.cpu).size,
              UInt32.ofNat num, .ofCpu state.cpu⟩ ::
              state.traps state.current) }
  | answer {state : TrapState Thread} {trap : Trap} {rest : List Trap}
      {value : UInt32}
      (kernel : state.cpu.privilege = 0)
      (innermost : state.traps state.current = trap :: rest)
      (call : trap.num = 128) :
      TrapStep code layout isrReturnAddr state (.answer value)
        { state with
          cpu := { state.cpu with
            mem := writeWord state.cpu.mem
              (UInt32.ofNat (trap.regs + 44)) value }
          traps := setTraps state.traps state.current
            (trap.answer value :: rest) }
  | prepare {state : TrapState Thread} {thread : Thread} {image : Image}
      (other : thread ≠ state.current)
      (size : layout.size thread = kernelStackSize)
      (field : (layout.slot thread).toNat + 4 ≤ layout.base thread ∨
        layout.base thread + layout.size thread ≤
          (layout.slot thread).toNat) :
      TrapStep code layout isrReturnAddr state (.prepare thread image)
        { state with
          cpu := { state.cpu with
            mem := initFakeStack state.cpu.mem isrReturnAddr
              (layout.base thread) (layout.slot thread) image }
          status := setStatus state.status thread (.fresh image)
          traps := setTraps state.traps thread
            [freshTrap (layout.base thread) image] }
  | switch {state : TrapState Thread} {next : Thread}
      (ready : (state.status next).isWaiting = true)
      (entered : AtSwitch layout state.toThreads next)
      (call : (state.cpu.reg .esp).toNat + 12 ≤ state.free layout)
      (field : (layout.slot state.current).toNat + 4 ≤ state.free layout ∨
        layout.top state.current ≤ (layout.slot state.current).toNat) :
      TrapStep code layout isrReturnAddr state (.switch next)
        { cpu := run contextSwitch state.cpu
          current := next
          status := setStatus
            (setStatus state.status state.current
              (.suspended (.ofCpu state.cpu))) next .running
          esp0 := UInt32.ofNat (layout.top next)
          traps := state.traps }
  | leave {state : TrapState Thread} {trap : Trap} {rest : List Trap}
      (kernel : state.cpu.privilege = 0)
      (innermost : state.traps state.current = trap :: rest)
      (tail : state.cpu.eip = UInt32.ofNat isrReturnAddr)
      (stack : (state.cpu.reg .esp).toNat = trap.regs) :
      TrapStep code layout isrReturnAddr state .leave
        { state with
          cpu := run isrReturn state.cpu
          traps := setTraps state.traps state.current rest }

/-! ## The frames of a thread -/

/-- The frame of a trap lies below those of the traps that it has
interrupted. -/
structure TrapAt (mem : Bytes) (base top : Nat) (trap : Trap)
    (rest : List Trap) : Prop where
  low : base ≤ trap.regs
  high : trap.regs + trap.context.size ≤ lowest top rest
  frame : ∃ espOrig errCode, WordsAt mem trap.regs
    (trap.context.words espOrig trap.num errCode)
  selectors : ∀ seg, trap.context.seg seg < 65536
  outer : trap.context.outer = true → rest = []
  inner : trap.context.outer = false →
    trap.context.reg .esp = UInt32.ofNat (trap.regs + 68) ∧
      trap.context.seg .ss = 0x10

def TrapsAt (mem : Bytes) (base top : Nat) : List Trap → Prop
  | [] => True
  | trap :: rest =>
      TrapAt mem base top trap rest ∧ TrapsAt mem base top rest

section Frames

variable {mem mem' : Bytes} {base top : Nat} {trap : Trap}
  {traps rest : List Trap} {value : UInt32} {image : Image}
  {isrReturnAddr : Nat}

theorem TrapsAt.lowest_le (present : TrapsAt mem base top traps) :
    lowest top traps ≤ top := by
  induction traps with
  | nil => exact le_rfl
  | cons trap rest inductionHypothesis =>
      have high := present.1.high
      have above := inductionHypothesis present.2
      exact Nat.le_trans (Nat.le_add_right _ _) (Nat.le_trans high above)

/-- The frames only depend on the bytes from the lowest one on. -/
theorem TrapsAt.congr (present : TrapsAt mem base top traps)
    (agree : ∀ addr, lowest top traps ≤ addr → addr < top →
      mem' addr = mem addr) : TrapsAt mem' base top traps := by
  induction traps with
  | nil => trivial
  | cons trap rest inductionHypothesis =>
      obtain ⟨first, later⟩ := present
      have above := later.lowest_le
      have high := first.high
      refine ⟨{ first with frame := ?_ }, inductionHypothesis later
        fun addr lower upper => agree addr ?_ upper⟩
      · obtain ⟨espOrig, errCode, words⟩ := first.frame
        refine ⟨espOrig, errCode, words.congr fun addr lower upper => ?_⟩
        rw [Context.words_length] at upper
        exact agree addr lower (by omega)
      · exact Nat.le_trans (Nat.le_add_right _ _) (Nat.le_trans high lower)

/-- A word in the middle of others is written. -/
theorem wordsAt_write {start : Nat} {earlier later : List UInt32}
    {old value : UInt32}
    (present : WordsAt mem start (earlier ++ old :: later))
    (room : start + 4 * earlier.length < 2 ^ 32) :
    WordsAt (writeWord mem (UInt32.ofNat (start + 4 * earlier.length)) value)
      start (earlier ++ value :: later) := by
  rw [wordsAt_append, WordsAt] at present ⊢
  obtain ⟨place, isPlace⟩ : ∃ place : UInt32,
      place.toNat = start + 4 * earlier.length :=
    ⟨UInt32.ofNat (start + 4 * earlier.length), by
      rw [UInt32.toNat_ofNat']
      exact Nat.mod_eq_of_lt room⟩
  rw [← isPlace] at present ⊢
  rw [UInt32.ofNat_toNat]
  obtain ⟨before, _, after⟩ := present
  refine ⟨?_, readWord_writeWord, ?_⟩
  · exact before.congr fun addr lower upper => writeWord_other (by omega)
  · exact after.congr fun addr lower upper => writeWord_other (by omega)

theorem Context.size_le (context : Context) : 68 ≤ context.size := by
  rw [Context.size]
  split <;> omega

/-- The result of a system call lies in its frame. -/
theorem TrapAt.answer (present : TrapAt mem base top trap rest)
    (room : trap.regs + trap.context.size ≤ 2 ^ 32) :
    TrapAt (writeWord mem (UInt32.ofNat (trap.regs + 44)) value) base top
      (trap.answer value) rest := by
  obtain ⟨espOrig, errCode, words⟩ := present.frame
  have size := trap.context.size_le
  refine
    { low := present.low
      high := present.high
      frame := ⟨espOrig, errCode, ?_⟩
      selectors := present.selectors
      outer := present.outer
      inner := fun isInner => present.inner isInner }
  have written := @wordsAt_write mem trap.regs
    [trap.context.seg .gs, trap.context.seg .fs, trap.context.seg .es,
      trap.context.seg .ds, trap.context.reg .edi, trap.context.reg .esi,
      trap.context.reg .ebp, espOrig, trap.context.reg .ebx,
      trap.context.reg .edx, trap.context.reg .ecx] _ _ value words
    (by simp only [List.length_cons, List.length_nil]; omega)
  exact written

theorem Context.ofImage_outer : (Context.ofImage image).outer = true := by
  have code : (Context.ofImage image).seg .cs = 0x1b := by
    simp only [Context.ofImage, if_true]
  rw [Context.outer, code]
  decide

theorem Context.ofImage_words :
    (Context.ofImage image).words 0 0 0 =
      freshGeneral ++ [UInt32.ofNat image.entryPoint, 0x1b, 0x202,
        UInt32.ofNat image.userStackTop, 0x23] := by
  rw [Context.words, Context.ofImage_outer]
  simp only [Context.ofImage, if_pos, reduceCtorEq, if_false]
  rfl

theorem Context.ofImage_seg (seg : Seg) :
    (Context.ofImage image).seg seg < 65536 := by
  rw [Context.ofImage]
  cases seg <;> simp

/-- The prepared stack holds the frame of a program. -/
theorem freshTrap_at
    (words : WordsAt mem (freshEsp base) (freshWords isrReturnAddr image))
    (room : base + kernelStackSize ≤ top) :
    TrapAt mem base top (freshTrap base image) [] := by
  have stack : kernelStackSize = 8192 := rfl
  have size : (Context.ofImage image).size = 76 := by
    rw [Context.size, Context.ofImage_outer, if_pos rfl]
  have place : freshEsp base = base + 8096 := by
    rw [freshEsp]
    omega
  rw [freshWords_eq 0, ← Context.ofImage_words] at words
  exact
    { low := by
        rw [freshTrap]
        exact Nat.le_trans (by omega) (Nat.le_add_right _ 20)
      high := by
        simp only [freshTrap, size, place, lowest]
        omega
      frame := ⟨0, 0, (wordsAt_append.mp words).2⟩
      selectors := Context.ofImage_seg
      outer := fun _ => rfl
      inner := fun isInner => by
        rw [freshTrap, Context.ofImage_outer] at isInner
        exact absurd isInner (by decide) }

end Frames

/-! ## The invariant -/

/-- What holds between two steps of a run. -/
structure TrapsOk {Thread : Type u} (layout : Layout Thread)
    (isrReturnAddr : Nat) (state : TrapState Thread) : Prop where
  frames : ∀ thread, TrapsAt state.cpu.mem (layout.base thread)
    (layout.top thread) (state.traps thread)
  waiting : ∀ thread esp words,
    (state.status thread).parked isrReturnAddr (layout.base thread) =
      some (esp, words) →
    Parked layout state.cpu.mem thread esp words ∧
      esp.toNat + 20 ≤ lowest (layout.top thread) (state.traps thread)
  running : (state.status state.current).parked isrReturnAddr
    (layout.base state.current) = none
  kernel : state.cpu.privilege = 0 →
    (state.cpu.reg .esp).toNat ≤ state.free layout ∧
      state.cpu.seg .ss = 0x10
  user : state.cpu.privilege ≠ 0 → state.traps state.current = []
  entry : state.esp0.toNat = layout.top state.current ∨
    (state.cpu.privilege = 0 ∧
      ∀ trap ∈ state.traps state.current, trap.context.outer = false)
  selectors : ∀ seg, state.cpu.seg seg < 65536

section Steps

variable {Thread : Type u} {code : IsrCode} {layout : Layout Thread}
  {isrReturnAddr : Nat} {state state' : TrapState Thread}
  {event : TrapEvent Thread} {mem mem' : Bytes} {thread other : Thread}
  {cpu : Cpu} {traps : Thread → List Trap} {value : List Trap}

theorem setTraps_same [DecidableEq Thread] :
    setTraps traps thread value thread = value :=
  if_pos rfl

theorem setTraps_other [DecidableEq Thread] (different : other ≠ thread) :
    setTraps traps thread value other = traps other :=
  if_neg different

/-- The stacks and fields of two threads have no address in common. -/
theorem Layout.not_owned (different : thread ≠ other) {addr : Nat}
    (inside : layout.Owned thread addr) : ¬ layout.Owned other addr := by
  have apart := layout.apart thread other different
  have field := layout.slots other thread different.symm
  have field' := layout.slots thread other different
  have fields := layout.slotsApart thread other different
  rw [Layout.Owned, Layout.top] at inside ⊢
  omega

theorem TrapsAt.base_le {base top : Nat} {list : List Trap}
    (present : TrapsAt mem base top list) (nonempty : base ≤ top) :
    base ≤ lowest top list := by
  cases list with
  | nil => exact nonempty
  | cons trap rest => exact present.1.low

/-- What a thread keeps while nobody writes to its stack and its field. -/
theorem TrapsAt.owned {list : List Trap}
    (present : TrapsAt mem (layout.base thread) (layout.top thread) list)
    (agree : ∀ addr, layout.Owned thread addr → mem' addr = mem addr) :
    TrapsAt mem' (layout.base thread) (layout.top thread) list := by
  have base := present.base_le (Nat.le_add_right _ _)
  exact present.congr fun addr lower upper =>
    agree addr (.inl ⟨Nat.le_trans base lower, upper⟩)

theorem Parked.owned {esp : UInt32} {words : List UInt32}
    (parked : Parked layout mem thread esp words)
    (agree : ∀ addr, layout.Owned thread addr → mem' addr = mem addr) :
    Parked layout mem' thread esp words :=
  parked.congr (fun addr lower upper => agree addr (.inl ⟨lower, upper⟩))
    fun addr lower upper => agree addr (.inr ⟨lower, upper⟩)

theorem free_setTraps [DecidableEq Thread] :
    TrapState.free layout { state with
        cpu := cpu
        traps := setTraps state.traps state.current value } =
      lowest (layout.top state.current) value := by
  rw [TrapState.free]
  exact congrArg _ setTraps_same

theorem Context.outer_eq_true :
    (Context.ofCpu cpu).outer = true ↔ cpu.privilege ≠ 0 := by
  rw [Context.outer, Context.ofCpu, Cpu.privilege]
  exact bne_iff_ne

theorem Context.outer_eq_false :
    (Context.ofCpu cpu).outer = false ↔ cpu.privilege = 0 := by
  rw [← Bool.not_eq_true, Context.outer_eq_true, not_not]

/-- The stack pointer at which an interrupt begins to push. -/
theorem TrapsOk.entry_le (ok : TrapsOk layout isrReturnAddr state) :
    ((entryStack state.cpu 0x10 state.esp0).reg .esp).toNat ≤
        state.free layout ∧
      (entryStack state.cpu 0x10 state.esp0).seg .ss = 0x10 := by
  rw [entryStack]
  by_cases level : state.cpu.privilege = 0
  · rw [if_neg (not_not.mpr level)]
    exact ok.kernel level
  · rw [if_pos level]
    have none := ok.user level
    have stack : state.esp0.toNat = layout.top state.current := by
      rcases ok.entry with stack | ⟨kernel, _⟩
      · exact stack
      · exact absurd kernel level
    rw [TrapState.free, none, lowest, ← stack]
    exact ⟨le_rfl, rfl⟩

theorem takeInterrupt_known {esp0 errorCode : UInt32} {num : Nat}
    {cpu' : Cpu}
    (taken : takeInterrupt code cpu esp0 num errorCode = some cpu') :
    num ∈ isrNoErr ++ isrErr := by
  by_contra unknown
  rw [takeInterrupt, gateOf_idtInit, if_neg unknown] at taken
  exact absurd taken (by simp)

theorem isrReturn_mem : (run isrReturn cpu).mem = cpu.mem := by
  obtain ⟨general, same, popped⟩ := isrReturn_popped cpu
  rw [same, ← popped.mem]
  simp only [step]
  split <;> rfl

/-- A thread keeps its frames and what it waits with. -/
structure Untouched (layout : Layout Thread) (isrReturnAddr : Nat)
    (mem : Bytes) (status : Status) (list : List Trap) (thread : Thread) :
    Prop where
  frames : TrapsAt mem (layout.base thread) (layout.top thread) list
  waiting : ∀ esp words, status.parked isrReturnAddr (layout.base thread) =
      some (esp, words) →
    Parked layout mem thread esp words ∧
      esp.toNat + 20 ≤ lowest (layout.top thread) list

theorem TrapsOk.untouched (ok : TrapsOk layout isrReturnAddr state)
    (agree : ∀ addr, layout.Owned thread addr →
      mem addr = state.cpu.mem addr) :
    Untouched layout isrReturnAddr mem (state.status thread)
      (state.traps thread) thread where
  frames := (ok.frames thread).owned agree
  waiting := fun esp words isParked =>
    have waiting := ok.waiting thread esp words isParked
    ⟨waiting.1.owned agree, waiting.2⟩

/-- The thread that runs does not wait. -/
theorem TrapsOk.running_untouched (ok : TrapsOk layout isrReturnAddr state)
    (frames : TrapsAt mem (layout.base state.current)
      (layout.top state.current) value) :
    Untouched layout isrReturnAddr mem (state.status state.current) value
      state.current where
  frames := frames
  waiting := fun esp words isParked => by
    rw [ok.running] at isParked
    exact absurd isParked (by simp)

theorem user_ok (ok : TrapsOk layout isrReturnAddr state)
    (outside : state.cpu.privilege ≠ 0)
    (level : cpu.privilege = state.cpu.privilege)
    (selectors : ∀ seg, cpu.seg seg < 65536)
    (confined : ∀ thread addr, layout.Owned thread addr →
      cpu.mem addr = state.cpu.mem addr) :
    TrapsOk layout isrReturnAddr { state with cpu := cpu } where
  frames := fun thread => (ok.untouched (confined thread)).frames
  waiting := fun thread => (ok.untouched (confined thread)).waiting
  running := ok.running
  kernel := fun kernel => absurd (level.symm.trans kernel) outside
  user := fun _ => ok.user outside
  entry := by
    rcases ok.entry with stack | ⟨kernel, _⟩
    · exact .inl stack
    · exact absurd kernel outside
  selectors := selectors

theorem work_ok (ok : TrapsOk layout isrReturnAddr state)
    (kernel : state.cpu.privilege = 0) (level : cpu.privilege = 0)
    (selectors : ∀ seg, cpu.seg seg < 65536)
    (stack : cpu.seg .ss = state.cpu.seg .ss)
    (below : (cpu.reg .esp).toNat ≤ state.free layout)
    (others : ∀ thread addr, thread ≠ state.current →
      layout.Owned thread addr → cpu.mem addr = state.cpu.mem addr)
    (frames : ∀ addr, state.free layout ≤ addr →
      addr < layout.top state.current →
      cpu.mem addr = state.cpu.mem addr) :
    TrapsOk layout isrReturnAddr { state with cpu := cpu } := by
  have untouched (thread : Thread) : Untouched layout isrReturnAddr cpu.mem
      (state.status thread) (state.traps thread) thread := by
    by_cases same : thread = state.current
    · rw [same]
      exact ok.running_untouched ((ok.frames state.current).congr frames)
    · exact ok.untouched fun addr inside => others thread addr same inside
  exact
    { frames := fun thread => (untouched thread).frames
      waiting := fun thread => (untouched thread).waiting
      running := ok.running
      kernel := fun _ => ⟨below, stack.trans (ok.kernel kernel).2⟩
      user := fun outside => absurd level outside
      entry := ok.entry.imp_right fun inner => ⟨level, inner.2⟩
      selectors := selectors }

theorem interrupt_ok [DecidableEq Thread]
    (ok : TrapsOk layout isrReturnAddr state) {num : Nat}
    {errorCode : UInt32}
    (taken : takeInterrupt code state.cpu state.esp0 num errorCode =
      some cpu)
    (room : layout.base state.current +
        ((Context.ofCpu state.cpu).size + 8) ≤
      ((entryStack state.cpu 0x10 state.esp0).reg .esp).toNat) :
    TrapsOk layout isrReturnAddr
      { state with
        cpu := cpu
        traps := setTraps state.traps state.current
          (⟨((entryStack state.cpu 0x10 state.esp0).reg .esp).toNat -
              (Context.ofCpu state.cpu).size,
            UInt32.ofNat num, .ofCpu state.cpu⟩ ::
            state.traps state.current) } := by
  obtain ⟨cpu', regs, taken', entered⟩ :=
    @takeInterrupt_entered code state.cpu state.esp0 errorCode num
      (takeInterrupt_known taken)
      (Nat.le_trans (Nat.le_add_left _ _) room)
  obtain rfl : cpu = cpu' := Option.some.inj (taken.symm.trans taken')
  obtain ⟨upper, stack⟩ := ok.entry_le
  have place := entered.place
  have top := (ok.frames state.current).lowest_le
  have size := (Context.ofCpu state.cpu).size_le
  have isRegs : ((entryStack state.cpu 0x10 state.esp0).reg .esp).toNat -
      (Context.ofCpu state.cpu).size = regs := by omega
  rw [isRegs]
  have below : regs + (Context.ofCpu state.cpu).size ≤ state.free layout := by
    omega
  have lower : layout.base state.current ≤ regs := by
    omega
  have level : cpu.privilege = 0 := by
    rw [Cpu.privilege, entered.kernel]
    rfl
  have trap : TrapAt cpu.mem (layout.base state.current)
      (layout.top state.current)
      ⟨regs, UInt32.ofNat num, .ofCpu state.cpu⟩
      (state.traps state.current) :=
    { low := lower
      high := below
      frame := by
        obtain ⟨espOrig, words⟩ := entered.frame
        exact ⟨espOrig, _, words⟩
      selectors := ok.selectors
      outer := fun outer => ok.user (Context.outer_eq_true.mp outer)
      inner := fun isInner => by
        have inside := Context.outer_eq_false.mp isInner
        have same : entryStack state.cpu 0x10 state.esp0 = state.cpu :=
          if_neg (not_not.mpr inside)
        rw [same, Context.size, isInner, if_neg (by decide)] at place
        refine ⟨?_, (ok.kernel inside).2⟩
        rw [place]
        exact (UInt32.ofNat_toNat).symm }
  have untouched (thread : Thread) : Untouched layout isrReturnAddr cpu.mem
      (state.status thread)
      (setTraps state.traps state.current
        (⟨regs, UInt32.ofNat num, .ofCpu state.cpu⟩ ::
          state.traps state.current) thread) thread := by
    by_cases same : thread = state.current
    · rw [same, setTraps_same]
      refine ok.running_untouched ⟨trap,
        (ok.frames state.current).congr fun addr lower _ => ?_⟩
      exact entered.others addr (.inr (Nat.le_trans below lower))
    · rw [setTraps_other same]
      refine ok.untouched fun addr inside => entered.others addr ?_
      by_contra written
      refine layout.not_owned same inside (.inl ⟨?_, ?_⟩)
      · omega
      · exact Nat.lt_of_lt_of_le (by omega) (Nat.le_trans below top)
  refine
    { frames := fun thread => (untouched thread).frames
      waiting := fun thread => (untouched thread).waiting
      running := ok.running
      kernel := fun _ => ⟨?_, entered.stack.trans stack⟩
      user := fun outside => absurd level outside
      entry := ?_
      selectors := fun seg => ?_ }
  · rw [free_setTraps, lowest, ← entered.esp]
    exact Nat.le_add_right _ _
  · rcases ok.entry with entry | ⟨inside, inner⟩
    · exact .inl entry
    · refine .inr ⟨level, ?_⟩
      simp only [setTraps_same, List.forall_mem_cons]
      exact ⟨Context.outer_eq_false.mpr inside, inner⟩
  · have kernel := entered.kernel
    have data := entered.data seg
    cases seg with
    | cs => rw [kernel]; decide
    | ss => rw [entered.stack, stack]; decide
    | ds | es | fs | gs => rw [data (by decide) (by decide)]; decide

theorem answer_ok [DecidableEq Thread]
    (tops : ∀ thread, layout.top thread < 2 ^ 32)
    (ok : TrapsOk layout isrReturnAddr state) {trap : Trap}
    {rest : List Trap} {word : UInt32} (kernel : state.cpu.privilege = 0)
    (innermost : state.traps state.current = trap :: rest) :
    TrapsOk layout isrReturnAddr
      { state with
        cpu := { state.cpu with
          mem := writeWord state.cpu.mem
            (UInt32.ofNat (trap.regs + 44)) word }
        traps := setTraps state.traps state.current
          (trap.answer word :: rest) } := by
  have frames := ok.frames state.current
  rw [innermost] at frames
  obtain ⟨first, later⟩ := frames
  have below := tops state.current
  have above := later.lowest_le
  have high := first.high
  have low := first.low
  have size := trap.context.size_le
  have place : (UInt32.ofNat (trap.regs + 44)).toNat = trap.regs + 44 := by
    rw [UInt32.toNat_ofNat']
    omega
  have other (addr : Nat) (outside : addr < trap.regs + 44 ∨
      trap.regs + 48 ≤ addr) :
      writeWord state.cpu.mem (UInt32.ofNat (trap.regs + 44)) word addr =
        state.cpu.mem addr := writeWord_other (by omega)
  have untouched (thread : Thread) : Untouched layout isrReturnAddr
      (writeWord state.cpu.mem (UInt32.ofNat (trap.regs + 44)) word)
      (state.status thread)
      (setTraps state.traps state.current (trap.answer word :: rest) thread)
      thread := by
    by_cases same : thread = state.current
    · rw [same, setTraps_same]
      refine ok.running_untouched ⟨first.answer (by omega),
        later.congr fun addr lower _ => other addr (.inr (by omega))⟩
    · rw [setTraps_other same]
      refine ok.untouched fun addr inside => other addr ?_
      by_contra written
      exact layout.not_owned same inside (.inl (by omega))
  refine
    { frames := fun thread => (untouched thread).frames
      waiting := fun thread => (untouched thread).waiting
      running := ok.running
      kernel := fun _ => ?_
      user := fun outside => absurd kernel outside
      entry := ok.entry.imp_right fun inner => ⟨kernel, ?_⟩
      selectors := ok.selectors }
  · have inside := ok.kernel kernel
    rw [TrapState.free, innermost] at inside
    rw [free_setTraps]
    exact inside
  · have inner := inner.2
    rw [innermost, List.forall_mem_cons] at inner
    simp only [setTraps_same, List.forall_mem_cons]
    exact inner

theorem prepare_ok [DecidableEq Thread]
    (ok : TrapsOk layout isrReturnAddr state) {image : Image}
    (different : thread ≠ state.current)
    (size : layout.size thread = kernelStackSize)
    (field : (layout.slot thread).toNat + 4 ≤ layout.base thread ∨
      layout.base thread + layout.size thread ≤
        (layout.slot thread).toNat) :
    TrapsOk layout isrReturnAddr
      { state with
        cpu := { state.cpu with
          mem := initFakeStack state.cpu.mem isrReturnAddr
            (layout.base thread) (layout.slot thread) image }
        status := setStatus state.status thread (.fresh image)
        traps := setTraps state.traps thread
          [freshTrap (layout.base thread) image] } := by
  have stack : kernelStackSize = 8192 := rfl
  have word := layout.word thread
  have parked := @initFakeStack_parked Thread layout isrReturnAddr
    state.cpu.mem thread image size field
  have place : freshEsp (layout.base thread) =
      layout.base thread + 8096 := by
    rw [freshEsp]
    omega
  have small : (UInt32.ofNat (freshEsp (layout.base thread))).toNat =
      freshEsp (layout.base thread) := by
    rw [UInt32.toNat_ofNat']
    omega
  have untouched (other : Thread) : Untouched layout isrReturnAddr
      (initFakeStack state.cpu.mem isrReturnAddr (layout.base thread)
        (layout.slot thread) image)
      (setStatus state.status thread (.fresh image) other)
      (setTraps state.traps thread
        [freshTrap (layout.base thread) image] other) other := by
    by_cases same : other = thread
    · rw [same, setTraps_same, setStatus_same]
      have words := parked.words
      rw [small] at words
      refine ⟨⟨freshTrap_at words (by rw [Layout.top, size]), trivial⟩, ?_⟩
      intro esp words isParked
      rw [Status.parked, Option.some.injEq, Prod.mk.injEq] at isParked
      obtain ⟨rfl, rfl⟩ := isParked
      exact ⟨parked, by rw [small, lowest, freshTrap]⟩
    · rw [setTraps_other same, setStatus_other same]
      refine ok.untouched fun addr inside => ?_
      have apart := layout.not_owned same inside
      rw [Layout.Owned, Layout.top] at apart
      exact initFakeStack_other size (by omega) (by omega)
  have kept : setTraps state.traps thread
      [freshTrap (layout.base thread) image] state.current =
        state.traps state.current := setTraps_other different.symm
  refine
    { frames := fun thread => (untouched thread).frames
      waiting := fun thread => (untouched thread).waiting
      running := ?_
      kernel := fun kernel => ?_
      user := fun outside => kept.trans (ok.user outside)
      entry := ok.entry.imp_right fun inner => ⟨inner.1, ?_⟩
      selectors := ok.selectors }
  · simp only [setStatus_other different.symm]
    exact ok.running
  · have inside := ok.kernel kernel
    rw [TrapState.free] at inside ⊢
    simp only [kept]
    exact inside
  · simp only [kept]
    exact inner.2

theorem leave_ok [DecidableEq Thread]
    (tops : ∀ thread, layout.top thread < 2 ^ 32)
    (ok : TrapsOk layout isrReturnAddr state) {trap : Trap}
    {rest : List Trap} (kernel : state.cpu.privilege = 0)
    (innermost : state.traps state.current = trap :: rest)
    (stack : (state.cpu.reg .esp).toNat = trap.regs) :
    Context.ofCpu (run isrReturn state.cpu) = trap.context ∧
      TrapsOk layout isrReturnAddr
        { state with
          cpu := run isrReturn state.cpu
          traps := setTraps state.traps state.current rest } := by
  have frames := ok.frames state.current
  rw [innermost] at frames
  obtain ⟨first, later⟩ := frames
  have below := tops state.current
  have above := later.lowest_le
  have high := first.high
  have size := trap.context.size_le
  obtain ⟨espOrig, errCode, words⟩ := first.frame
  rw [← stack] at words
  have restored : Context.ofCpu (run isrReturn state.cpu) = trap.context := by
    refine isrReturn_context words (by omega) first.selectors kernel
      fun isInner => ?_
    obtain ⟨esp, ss⟩ := first.inner isInner
    refine ⟨?_, ss.trans (ok.kernel kernel).2.symm⟩
    rw [esp, ← stack, UInt32.ofNat_add, UInt32.ofNat_toNat]
  refine ⟨restored, ?_⟩
  have reg (place : Reg) : (run isrReturn state.cpu).reg place =
      trap.context.reg place := congrArg (fun context => context.reg place)
    restored
  have seg (place : Seg) : (run isrReturn state.cpu).seg place =
      trap.context.seg place := congrArg (fun context => context.seg place)
    restored
  have untouched (thread : Thread) : Untouched layout isrReturnAddr
      (run isrReturn state.cpu).mem (state.status thread)
      (setTraps state.traps state.current rest thread) thread := by
    rw [isrReturn_mem]
    by_cases same : thread = state.current
    · rw [same, setTraps_same]
      exact ok.running_untouched later
    · rw [setTraps_other same]
      exact ok.untouched fun _ _ => rfl
  refine
    { frames := fun thread => (untouched thread).frames
      waiting := fun thread => (untouched thread).waiting
      running := ok.running
      kernel := fun inside => ?_
      user := fun outside => ?_
      entry := ok.entry.imp_right fun inner => ?_
      selectors := fun place => (seg place).symm ▸ first.selectors place }
  · have isInner : trap.context.outer = false := by
      rw [← restored]
      exact Context.outer_eq_false.mpr inside
    obtain ⟨esp, ss⟩ := first.inner isInner
    refine ⟨?_, (seg .ss).trans ss⟩
    have whole : trap.context.size = 68 := by
      rw [Context.size, isInner, if_neg (by decide)]
    rw [free_setTraps]
    refine Nat.le_trans (Nat.le_of_eq ?_) high
    rw [whole]
    exact (congrArg UInt32.toNat ((reg .esp).trans esp)).trans (by
      rw [UInt32.toNat_ofNat']
      omega)
  · refine setTraps_same.trans (first.outer ?_)
    rw [← restored]
    exact Context.outer_eq_true.mpr outside
  · have inner := inner.2
    rw [innermost, List.forall_mem_cons] at inner
    refine ⟨?_, ?_⟩
    · rw [← restored] at inner
      exact Context.outer_eq_false.mp inner.1
    · simp only [setTraps_same]
      exact inner.2

theorem contextSwitch_esp :
    (run contextSwitch cpu).reg .esp = newEsp cpu + UInt32.ofNat 20 := by
  have esp : (run contextSwitch cpu).reg .esp =
      newEsp cpu + UInt32.ofNat 4 + UInt32.ofNat 4 + UInt32.ofNat 4 +
        UInt32.ofNat 4 + UInt32.ofNat 4 := rfl
  simp only [add_ofNat] at esp
  exact esp

theorem Status.parked_of_isWaiting {status : Status} (base : Nat)
    (waiting : status.isWaiting = true) :
    ∃ esp words, status.parked isrReturnAddr base = some (esp, words) := by
  cases status with
  | unused => simp [Status.isWaiting] at waiting
  | running => simp [Status.isWaiting] at waiting
  | fresh image => exact ⟨_, _, rfl⟩
  | suspended frame => exact ⟨_, _, rfl⟩

theorem switch_ok [DecidableEq Thread]
    (tops : ∀ thread, layout.top thread < 2 ^ 32)
    (ok : TrapsOk layout isrReturnAddr state)
    (ready : (state.status other).isWaiting = true)
    (entered : AtSwitch layout state.toThreads other)
    (call : (state.cpu.reg .esp).toNat + 12 ≤ state.free layout)
    (field : (layout.slot state.current).toNat + 4 ≤ state.free layout ∨
      layout.top state.current ≤ (layout.slot state.current).toNat) :
    TrapsOk layout isrReturnAddr
      { cpu := run contextSwitch state.cpu
        current := other
        status := setStatus
          (setStatus state.status state.current
            (.suspended (.ofCpu state.cpu))) other .running
        esp0 := UInt32.ofNat (layout.top other)
        traps := state.traps } := by
  have low := entered.low
  have kernel := entered.kernel
  obtain ⟨esp, words, isParked⟩ :=
    @Status.parked_of_isWaiting isrReturnAddr _ (layout.base other) ready
  obtain ⟨parked, below⟩ := ok.waiting other esp words isParked
  have top := (ok.frames other).lowest_le
  have bound := tops other
  have agree (thread : Thread) (different : thread ≠ state.current)
      (addr : Nat) (inside : layout.Owned thread addr) :
      switchedMem state.cpu addr = state.cpu.mem addr := by
    have apart := layout.not_owned different inside
    rw [Layout.Owned, Layout.top] at apart
    exact entered.confined (by omega) (by omega)
  have untouched (thread : Thread) (different : thread ≠ other) :
      Untouched layout isrReturnAddr (switchedMem state.cpu)
        (setStatus state.status state.current
          (.suspended (.ofCpu state.cpu)) thread)
        (state.traps thread) thread := by
    by_cases same : thread = state.current
    · rw [same, setStatus_same]
      refine ⟨(ok.frames state.current).congr fun addr lower upper => ?_, ?_⟩
      · have lower' : state.free layout ≤ addr := lower
        rw [switchedMem, entered.store, writeWord_other (by omega)]
        exact pushedMem_other (by omega) (.inr (by omega))
      · intro esp words isParked
        rw [Status.parked, Option.some.injEq, Prod.mk.injEq] at isParked
        obtain ⟨rfl, rfl⟩ := isParked
        refine ⟨entered.parked, ?_⟩
        have esp : (Frame.ofCpu state.cpu).esp - 16 =
            state.cpu.reg .esp - UInt32.ofNat 16 := rfl
        have place : (state.cpu.reg .esp - UInt32.ofNat 16).toNat =
            (state.cpu.reg .esp).toNat - 16 := toNat_sub (by omega)
        have room : (state.cpu.reg .esp).toNat - 16 + 20 ≤
            state.free layout := by omega
        rw [esp, place]
        exact room
    · rw [setStatus_other same]
      exact ok.untouched (agree thread same)
  refine
    { frames := fun thread => ?_
      waiting := fun thread esp words isParked => ?_
      running := ?_
      kernel := fun _ => ⟨?_, ?_⟩
      user := fun outside => absurd kernel outside
      entry := .inl ?_
      selectors := fun seg => ok.selectors seg }
  · by_cases same : thread = other
    · rw [same]
      exact (ok.untouched (agree other entered.other)).frames
    · exact (untouched thread same).frames
  · by_cases same : thread = other
    · rw [same] at isParked
      simp only [setStatus_same, Status.parked] at isParked
      exact absurd isParked (by simp)
    · simp only [setStatus_other same] at isParked
      exact (untouched thread same).waiting esp words isParked
  · simp only [setStatus_same]
    rfl
  · rw [TrapState.free]
    simp only
    rw [contextSwitch_esp, entered.load, parked.slot, toNat_add (by omega)]
    exact below
  · exact (ok.kernel kernel).2
  · rw [UInt32.toNat_ofNat']
    exact Nat.mod_eq_of_lt bound

theorem TrapStep.ok [DecidableEq Thread]
    (tops : ∀ thread, layout.top thread < 2 ^ 32)
    (ok : TrapsOk layout isrReturnAddr state)
    (step : TrapStep code layout isrReturnAddr state event state') :
    TrapsOk layout isrReturnAddr state' := by
  cases step with
  | user outside level selectors confined =>
      exact user_ok ok outside level selectors confined
  | work kernel level selectors stack below others frames =>
      exact work_ok ok kernel level selectors stack below others frames
  | interrupt taken room => exact interrupt_ok ok taken room
  | answer kernel innermost call => exact answer_ok tops ok kernel innermost
  | prepare other size field => exact prepare_ok ok other size field
  | switch ready entered call field =>
      exact switch_ok tops ok ready entered call field
  | leave kernel innermost tail stack =>
      exact (leave_ok tops ok kernel innermost stack).2

end Steps

end LoafOs
