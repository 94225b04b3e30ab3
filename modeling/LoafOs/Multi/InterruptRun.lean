import LoafOs.Multi.Traps

/-!
# Interrupts over a run of the kernel

User programs, their interrupts, the interrupts of the kernel itself and the
switches between threads.  However they nest, the return from an interrupt
brings back the registers of what it has stopped.
-/

namespace LoafOs

open I386 Runs

universe u

/-! ## The return -/

/-- No thread has been prepared or interrupted. -/
structure Untrapped {Thread : Type u} (layout : Layout Thread)
    (state : TrapState Thread) : Prop where
  idle : ∀ thread, (state.status thread).isWaiting = false
  calm : ∀ thread, state.traps thread = []
  kernel : state.cpu.privilege = 0 →
    (state.cpu.reg .esp).toNat ≤ layout.top state.current ∧
      state.cpu.seg .ss = 0x10
  user : state.cpu.privilege ≠ 0 →
    state.esp0.toNat = layout.top state.current
  selectors : ∀ seg, state.cpu.seg seg < 65536

/-- A step in which a thread, which has been interrupted, does not return
to this depth and is not prepared anew. -/
def Handling {Thread : Type u} [DecidableEq Thread] (code : IsrCode)
    (layout : Layout Thread) (isrReturnAddr : Nat) (thread : Thread)
    (depth : Nat) (state : TrapState Thread) (event : TrapEvent Thread)
    (state' : TrapState Thread) : Prop :=
  TrapStep code layout isrReturnAddr state event state' ∧
    depth < (state'.traps thread).length ∧
    ∀ image, event ≠ .prepare thread image

/-- The trap, apart from the result of a system call. -/
structure Answered (trap trap' : Trap) : Prop where
  num : trap'.num = trap.num
  reg : ∀ reg, reg ≠ .eax ∨ trap.num ≠ 128 →
    trap'.context.reg reg = trap.context.reg reg
  seg : trap'.context.seg = trap.context.seg
  eip : trap'.context.eip = trap.context.eip
  eflags : trap'.context.eflags = trap.context.eflags

section Returns

variable {Thread : Type u} {code : IsrCode} {layout : Layout Thread}
  {isrReturnAddr : Nat}
  {first before entered state state' after : TrapState Thread}
  {event : TrapEvent Thread} {events events' : List (TrapEvent Thread)}
  {thread : Thread} {trap trap' : Trap} {rest : List Trap}

theorem Untrapped.ok (start : Untrapped layout state) :
    TrapsOk layout isrReturnAddr state := by
  have none (thread : Thread) : (state.status thread).parked isrReturnAddr
      (layout.base thread) = none := by
    have idle := start.idle thread
    cases status : state.status thread with
    | unused => rfl
    | running => rfl
    | fresh image =>
        rw [status] at idle
        simp [Status.isWaiting] at idle
    | suspended frame =>
        rw [status] at idle
        simp [Status.isWaiting] at idle
  exact
    { frames := fun thread => by
        rw [start.calm thread]
        trivial
      waiting := fun thread esp words isParked => by
        rw [none thread] at isParked
        exact absurd isParked (by simp)
      running := none state.current
      kernel := fun kernel => by
        rw [TrapState.free, start.calm]
        exact start.kernel kernel
      user := fun _ => start.calm state.current
      entry := by
        by_cases kernel : state.cpu.privilege = 0
        · exact .inr ⟨kernel, by simp [start.calm state.current]⟩
        · exact .inl (start.user kernel)
      selectors := start.selectors }

theorem TrapStep.run_ok [DecidableEq Thread]
    (tops : ∀ thread, layout.top thread < 2 ^ 32)
    (start : Untrapped layout first)
    (run : Run (TrapStep code layout isrReturnAddr) first events state) :
    TrapsOk layout isrReturnAddr state :=
  run.invariant (TrapsOk layout isrReturnAddr)
    (fun _ _ _ ok step => step.ok tops ok) start.ok

theorem Answered.answer {value : UInt32} (answered : Answered trap trap')
    (call : trap'.num = 128) : Answered trap (trap'.answer value) where
  num := answered.num
  reg := fun reg other => by
    have different : reg ≠ .eax := by
      rcases other with different | different
      · exact different
      · exact absurd (answered.num.symm.trans call) different
    exact (if_neg different).trans (answered.reg reg other)
  seg := answered.seg
  eip := answered.eip
  eflags := answered.eflags

/-- While an interrupt is handled its frame only takes the result of the
system call, and those below it stay. -/
theorem Handling.kept [DecidableEq Thread] {newer : List Trap}
    (step : Handling code layout isrReturnAddr thread rest.length state event
      state')
    (present : state.traps thread = newer ++ trap' :: rest)
    (answered : Answered trap trap') :
    ∃ newer trap', state'.traps thread = newer ++ trap' :: rest ∧
      Answered trap trap' := by
  obtain ⟨step, deep, unprepared⟩ := step
  cases step with
  | user | work | switch => exact ⟨newer, trap', present, answered⟩
  | interrupt =>
      by_cases same : thread = state.current
      · rw [← same] at deep ⊢
        simp only [setTraps_same, present]
        exact ⟨_ :: newer, trap', rfl, answered⟩
      · simp only [setTraps_other same]
        exact ⟨newer, trap', present, answered⟩
  | answer kernel innermost call =>
      by_cases same : thread = state.current
      · rw [← same, present] at innermost
        rw [← same]
        simp only [setTraps_same]
        cases newer with
        | nil =>
            obtain ⟨rfl, rfl⟩ := List.cons.inj innermost
            exact ⟨[], _, rfl, answered.answer call⟩
        | cons top newer =>
            obtain ⟨rfl, rfl⟩ := List.cons.inj innermost
            exact ⟨_ :: newer, trap', rfl, answered⟩
      · simp only [setTraps_other same]
        exact ⟨newer, trap', present, answered⟩
  | @prepare other image =>
      have different : thread ≠ other := fun same =>
        unprepared image (by rw [same])
      simp only [setTraps_other different]
      exact ⟨newer, trap', present, answered⟩
  | leave kernel innermost =>
      by_cases same : thread = state.current
      · rw [← same, present] at innermost
        rw [← same] at deep ⊢
        simp only [setTraps_same] at deep ⊢
        cases newer with
        | nil =>
            obtain ⟨_, rfl⟩ := List.cons.inj innermost
            exact absurd deep (Nat.lt_irrefl _)
        | cons top newer =>
            obtain ⟨_, rfl⟩ := List.cons.inj innermost
            exact ⟨newer, trap', rfl, answered⟩
      · simp only [setTraps_other same]
        exact ⟨newer, trap', present, answered⟩

/-- The numbers of the stubs are told apart as words. -/
theorem ofNat_ne_call : ∀ num ∈ isrNoErr ++ isrErr, num ≠ 128 →
    UInt32.ofNat num ≠ 128 := by
  decide

/-- In every run, whatever happens between an interrupt and its return,
interrupts of the handler and switches to other threads included, the
return brings back all registers; only a system call changes `eax`. -/
theorem interrupt_returns [DecidableEq Thread] {num : Nat} {errorCode : UInt32}
    (tops : ∀ thread, layout.top thread < 2 ^ 32)
    (start : Untrapped layout first)
    (earlier : Run (TrapStep code layout isrReturnAddr) first events before)
    (interrupt : TrapStep code layout isrReturnAddr before
      (.interrupt num errorCode) entered)
    (handled : Run (Handling code layout isrReturnAddr before.current
      (before.traps before.current).length) entered events' state)
    (leave : TrapStep code layout isrReturnAddr state .leave after)
    (same : after.current = before.current)
    (closed : (after.traps before.current).length =
      (before.traps before.current).length) :
    (∀ reg, reg ≠ .eax ∨ num ≠ 128 →
        after.cpu.reg reg = before.cpu.reg reg) ∧
      after.cpu.seg = before.cpu.seg ∧ after.cpu.eip = before.cpu.eip ∧
      after.cpu.eflags = before.cpu.eflags := by
  have ok : TrapsOk layout isrReturnAddr state :=
    TrapStep.run_ok tops start (earlier.append (.cons interrupt
      (handled.mono fun _ _ _ step => step.1)))
  generalize isRest : before.traps before.current = rest at handled closed
  -- The frame of the interrupt is still there when it returns.
  obtain ⟨regs, known, opened⟩ : ∃ regs, num ∈ isrNoErr ++ isrErr ∧
      entered.traps before.current =
        ⟨regs, UInt32.ofNat num, .ofCpu before.cpu⟩ :: rest := by
    cases interrupt with
    | interrupt taken room =>
        rw [← isRest]
        exact ⟨_, takeInterrupt_known taken, setTraps_same⟩
  obtain ⟨newer, trap', present, answered⟩ := handled.invariant
    (fun state => ∃ newer trap', state.traps before.current =
      newer ++ trap' :: rest ∧
        Answered ⟨regs, UInt32.ofNat num, .ofCpu before.cpu⟩ trap')
    (fun _ _ _ holds step => by
      obtain ⟨newer, trap', present, answered⟩ := holds
      exact step.kept present answered)
    ⟨[], _, opened, ⟨rfl, fun _ _ => rfl, rfl, rfl, rfl⟩⟩
  cases leave with
  | leave kernel innermost tail stack =>
      obtain ⟨restored, _⟩ := leave_ok tops ok kernel innermost stack
      rw [← same] at present closed
      simp only [setTraps_same] at present closed
      rw [present] at innermost
      have none : newer = [] := by
        have lengths := congrArg List.length innermost
        rw [List.length_append, List.length_cons, List.length_cons,
          closed] at lengths
        exact List.eq_nil_of_length_eq_zero (by omega)
      rw [none] at innermost
      obtain ⟨rfl, _⟩ := List.cons.inj innermost
      refine ⟨fun reg other => ?_, ?_, ?_, ?_⟩
      · exact (congrArg (fun context => context.reg reg) restored).trans
          (answered.reg reg (other.imp_right (ofNat_ne_call num known)))
      · exact (congrArg Context.seg restored).trans answered.seg
      · exact (congrArg Context.eip restored).trans answered.eip
      · exact (congrArg Context.eflags restored).trans answered.eflags

end Returns

/-! ## Two threads -/

def sampleIsr : IsrCode where
  isr := fun num => UInt32.ofNat (0x1000 + 16 * num)
  isrHandler := 0x3000
  behindCall := 0x2040

/-- A user program on the first thread; the second one does not exist. -/
def sampleUser : TrapState Bool where
  cpu :=
    { reg := fun reg => if reg = .esp then 0xbfff0000 else 7
      seg := fun seg => if seg = .cs then 0x1b else 0x23
      eip := 0x400010
      eflags := 0x202
      mem := fun _ => 0 }
  current := false
  status := fun thread => if thread then .unused else .running
  esp0 := 0x22000
  traps := fun _ => []

/-- The state after an interrupt. -/
def trapEntered (code : IsrCode) (state : TrapState Bool) (num : Nat) :
    TrapState Bool :=
  { state with
    cpu := (takeInterrupt code state.cpu state.esp0 num 0).getD state.cpu
    traps := setTraps state.traps state.current
      (⟨((entryStack state.cpu 0x10 state.esp0).reg .esp).toNat -
          (Context.ofCpu state.cpu).size,
        UInt32.ofNat num, .ofCpu state.cpu⟩ ::
        state.traps state.current) }

/-- The kernel is about to call `context_switch`. -/
def trapCalling (state : TrapState Bool) (esp slot saved : UInt32) :
    TrapState Bool :=
  { state with cpu := sampleCpu state.cpu.mem esp slot saved }

def trapSwitched (state : TrapState Bool) (next : Bool) : TrapState Bool where
  cpu := run contextSwitch state.cpu
  current := next
  status := setStatus
    (setStatus state.status state.current
      (.suspended (.ofCpu state.cpu))) next .running
  esp0 := UInt32.ofNat (sampleLayout.top next)
  traps := state.traps

def trapReturned (state : TrapState Bool) : TrapState Bool :=
  { state with
    cpu := run isrReturn state.cpu
    traps := setTraps state.traps state.current
      (state.traps state.current).tail }

/-- The timer interrupts the program, and the kernel prepares the second
thread. -/
def samplePreparing : TrapState Bool :=
  let state := trapEntered sampleIsr sampleUser 32
  { state with
    cpu := { state.cpu with
      mem := initFakeStack state.cpu.mem 0x5678 0x10000 0x100
        sampleProgram }
    status := setStatus state.status true (.fresh sampleProgram)
    traps := setTraps state.traps true
      [freshTrap 0x10000 sampleProgram] }

def sampleLeaving : TrapState Bool :=
  trapSwitched (trapCalling samplePreparing 0x21000 0x104 0x11fa0) true

/-- The second thread runs its program, which makes a system call. -/
def sampleSecond : TrapState Bool := trapReturned sampleLeaving

def sampleCalled : TrapState Bool := trapEntered sampleIsr sampleSecond 128

def sampleAnswered : TrapState Bool :=
  { sampleCalled with
    cpu := { sampleCalled.cpu with
      mem := writeWord sampleCalled.cpu.mem
        (UInt32.ofNat (0x11fb4 + 44)) 5 }
    traps := setTraps sampleCalled.traps true
      ((sampleCalled.traps true).map (Trap.answer · 5)) }

/-- The kernel switches back and reaches `isr_return`. -/
def sampleBack : TrapState Bool :=
  trapSwitched (trapCalling sampleAnswered 0x11000 0x100 0x20ff0) false

def sampleAtReturn : TrapState Bool :=
  { sampleBack with
    cpu := { sampleBack.cpu.setReg .esp 0x21fb4 with eip := 0x5678 } }

theorem trapEntered_step {state : TrapState Bool} {num : Nat}
    (taken : (takeInterrupt sampleIsr state.cpu state.esp0 num 0).isSome)
    (room : sampleLayout.base state.current +
        ((Context.ofCpu state.cpu).size + 8) ≤
      ((entryStack state.cpu 0x10 state.esp0).reg .esp).toNat) :
    TrapStep sampleIsr sampleLayout 0x5678 state (.interrupt num 0)
      (trapEntered sampleIsr state num) := by
  obtain ⟨cpu, isCpu⟩ := Option.isSome_iff_exists.mp taken
  refine .interrupt ?_ room
  rw [isCpu, Option.getD_some]

theorem trapCalling_step {state : TrapState Bool} {esp slot saved : UInt32}
    (kernel : state.cpu.privilege = 0) (stack : state.cpu.seg .ss = 0x10)
    (low : sampleLayout.base state.current ≤ esp.toNat)
    (high : esp.toNat + 12 ≤ state.free sampleLayout)
    (top : state.free sampleLayout ≤ sampleLayout.top state.current) :
    TrapStep sampleIsr sampleLayout 0x5678 state .work
      (trapCalling state esp slot saved) := by
  have bound := sampleLayout.word state.current
  rw [Layout.top] at top
  have second : (esp + 4).toNat = esp.toNat + 4 := @toNat_add esp 4 (by omega)
  have third : (esp + 8).toNat = esp.toNat + 8 := @toNat_add esp 8 (by omega)
  have other (addr : Nat) (outside : addr < esp.toNat ∨
      esp.toNat + 12 ≤ addr) :
      (sampleCpu state.cpu.mem esp slot saved).mem addr =
        state.cpu.mem addr := by
    simp only [sampleCpu]
    rw [writeWord_other (by omega), writeWord_other (by omega),
      writeWord_other (by omega)]
  have level : (sampleCpu state.cpu.mem esp slot saved).privilege = 0 :=
    (by decide : (8 : UInt32) % 4 = 0)
  have selectors (seg : Seg) :
      (sampleCpu state.cpu.mem esp slot saved).seg seg < 65536 := by
    cases seg with
    | cs => exact (by decide : (8 : UInt32) < 65536)
    | ss | ds | es | fs | gs => exact (by decide : (16 : UInt32) < 65536)
  refine .work kernel level selectors stack.symm ?_ (fun thread addr different inside => other addr ?_)
    fun addr lower _ => other addr (.inr (Nat.le_trans high lower))
  · exact Nat.le_trans (Nat.le_add_right _ _) high
  · have apart := sampleLayout.not_owned different inside
    rw [Layout.Owned, Layout.top] at apart
    omega

/-- The whole way: the timer, a new thread with its system call, and back. -/
theorem sampleInterrupt_handled :
    Run (Handling sampleIsr sampleLayout 0x5678 false 0)
      (trapEntered sampleIsr sampleUser 32)
      [.prepare true sampleProgram, .work, .switch true, .leave,
        .interrupt 128 0, .answer 5, .work, .switch false, .work]
      sampleAtReturn := by
  have prepare : TrapStep sampleIsr sampleLayout 0x5678
      (trapEntered sampleIsr sampleUser 32) (.prepare true sampleProgram)
      samplePreparing := .prepare (by decide) rfl (by decide)
  have call : TrapStep sampleIsr sampleLayout 0x5678 samplePreparing .work
      (trapCalling samplePreparing 0x21000 0x104 0x11fa0) :=
    trapCalling_step (by decide +kernel) (by decide +kernel)
      (by decide +kernel) (by decide +kernel) (by decide +kernel)
  have switch : TrapStep sampleIsr sampleLayout 0x5678
      (trapCalling samplePreparing 0x21000 0x104 0x11fa0) (.switch true)
      sampleLeaving := by
    refine .switch rfl ?_ (by decide +kernel) (by decide +kernel)
    constructor <;> decide +kernel
  have begin : TrapStep sampleIsr sampleLayout 0x5678 sampleLeaving .leave
      sampleSecond := by
    have innermost : sampleLeaving.traps sampleLeaving.current =
        [freshTrap 0x10000 sampleProgram] := rfl
    refine .leave (by decide +kernel) innermost (by decide +kernel)
      (by decide +kernel)
  have callKernel : TrapStep sampleIsr sampleLayout 0x5678 sampleSecond
      (.interrupt 128 0) sampleCalled :=
    trapEntered_step (by decide +kernel) (by decide +kernel)
  have answer : TrapStep sampleIsr sampleLayout 0x5678 sampleCalled
      (.answer 5) sampleAnswered := by
    have innermost : sampleCalled.traps sampleCalled.current =
        [⟨0x11fb4, 128, .ofCpu sampleSecond.cpu⟩] := rfl
    exact .answer (by decide +kernel) innermost rfl
  have callBack : TrapStep sampleIsr sampleLayout 0x5678 sampleAnswered
      .work (trapCalling sampleAnswered 0x11000 0x100 0x20ff0) :=
    trapCalling_step (by decide +kernel) (by decide +kernel)
      (by decide +kernel) (by decide +kernel) (by decide +kernel)
  have switchBack : TrapStep sampleIsr sampleLayout 0x5678
      (trapCalling sampleAnswered 0x11000 0x100 0x20ff0) (.switch false)
      sampleBack := by
    refine .switch rfl ?_ (by decide +kernel) (by decide +kernel)
    constructor <;> decide +kernel
  have unwind : TrapStep sampleIsr sampleLayout 0x5678 sampleBack .work
      sampleAtReturn := by
    refine .work (by decide +kernel) (by decide +kernel) ?_ rfl
      (by decide +kernel) (fun _ _ _ _ => rfl) fun _ _ _ => rfl
    intro seg
    cases seg <;> decide +kernel
  have handling {state state' : TrapState Bool} {event : TrapEvent Bool}
      (step : TrapStep sampleIsr sampleLayout 0x5678 state event state')
      (deep : 0 < (state'.traps false).length)
      (other : ∀ image, event ≠ .prepare false image) :
      Handling sampleIsr sampleLayout 0x5678 false 0 state event state' :=
    ⟨step, deep, other⟩
  exact .cons (handling prepare (by decide +kernel) (by simp))
    (.cons (handling call (by decide +kernel) (by simp))
    (.cons (handling switch (by decide +kernel) (by simp))
    (.cons (handling begin (by decide +kernel) (by simp))
    (.cons (handling callKernel (by decide +kernel) (by simp))
    (.cons (handling answer (by decide +kernel) (by simp))
    (.cons (handling callBack (by decide +kernel) (by simp))
    (.cons (handling switchBack (by decide +kernel) (by simp))
    (.cons (handling unwind (by decide +kernel) (by simp)) .nil))))))))

theorem sampleUser_untrapped : Untrapped sampleLayout sampleUser where
  idle := by decide
  calm := fun _ => rfl
  kernel := fun kernel => absurd kernel (by decide)
  user := fun _ => by decide
  selectors := by
    intro seg
    cases seg <;> decide

/-- The timer has stopped the first program and later returns to it. -/
theorem sampleInterrupt_returns :
    let after := trapReturned sampleAtReturn
    (∀ reg, reg ≠ .eax ∨ 32 ≠ 128 →
        after.cpu.reg reg = sampleUser.cpu.reg reg) ∧
      after.cpu.seg = sampleUser.cpu.seg ∧
      after.cpu.eip = sampleUser.cpu.eip ∧
      after.cpu.eflags = sampleUser.cpu.eflags := by
  have taken : TrapStep sampleIsr sampleLayout 0x5678 sampleUser
      (.interrupt 32 0) (trapEntered sampleIsr sampleUser 32) :=
    trapEntered_step (by decide +kernel) (by decide +kernel)
  have innermost : sampleAtReturn.traps sampleAtReturn.current =
      [⟨0x21fb4, 32, .ofCpu sampleUser.cpu⟩] := rfl
  have leave : TrapStep sampleIsr sampleLayout 0x5678 sampleAtReturn .leave
      (trapReturned sampleAtReturn) :=
    .leave (by decide +kernel) innermost (by decide +kernel)
      (by decide +kernel)
  exact interrupt_returns (by decide) sampleUser_untrapped .nil taken
    sampleInterrupt_handled leave rfl rfl

end LoafOs
