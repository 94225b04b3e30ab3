import LoafOs.Lib.Runs
import LoafOs.Multi.ContextSwitch

/-!
# Threads over a run of switches

Threads with stacks of their own take turns.  A thread that waits, prepared
or suspended, keeps its words and its stored stack pointer until it is
switched to.
-/

namespace LoafOs

open I386 Runs

universe u

/-- Where the stacks of the threads and their `saved_esp` fields lie. -/
structure Layout (Thread : Type u) where
  base : Thread → Nat
  size : Thread → Nat
  slot : Thread → UInt32
  word : ∀ thread, base thread + size thread ≤ 2 ^ 32
  apart : ∀ thread other, thread ≠ other →
    base thread + size thread ≤ base other ∨
      base other + size other ≤ base thread
  slots : ∀ thread other, thread ≠ other →
    (slot thread).toNat + 4 ≤ base other ∨
      base other + size other ≤ (slot thread).toNat
  slotsApart : ∀ thread other, thread ≠ other →
    (slot thread).toNat + 4 ≤ (slot other).toNat ∨
      (slot other).toNat + 4 ≤ (slot thread).toNat

/-- What a thread waits with. -/
inductive Status where
  | unused
  | running
  | fresh (image : Image)
  | suspended (frame : Frame)

/-- The thread has stopped and may be switched to. -/
def Status.isWaiting : Status → Bool
  | .unused => false
  | .running => false
  | .fresh _ => true
  | .suspended _ => true

/-- The processor and the threads; `status` keeps what each thread had when
it stopped. -/
structure Threads (Thread : Type u) where
  cpu : Cpu
  current : Thread
  status : Thread → Status

variable {Thread : Type u}

/-- One status changes. -/
def setStatus [DecidableEq Thread] (status : Thread → Status) (thread : Thread)
    (value : Status) : Thread → Status :=
  fun other => if other = thread then value else status other

/-- `init_fake_stack`. -/
def initFakeStack (mem : Bytes) (isrReturnAddr kstack : Nat)
    (slot : UInt32) (image : Image) : Bytes :=
  writeWord
    (putWords mem (freshEsp kstack) (fakeStack isrReturnAddr image))
    slot (UInt32.ofNat (freshEsp kstack))

/-- The running thread has called
`context_switch(&prev->saved_esp, next->saved_esp)`. -/
structure AtSwitch (layout : Layout Thread) (state : Threads Thread)
    (next : Thread) : Prop where
  other : next ≠ state.current
  low : layout.base state.current + 16 ≤ (state.cpu.reg .esp).toNat
  high : (state.cpu.reg .esp).toNat + 12 ≤
    layout.base state.current + layout.size state.current
  store : oldEspStore state.cpu = layout.slot state.current
  load : newEsp state.cpu = readWord state.cpu.mem (layout.slot next)
  apart : (layout.slot state.current).toNat + 4 + 16 ≤
      (state.cpu.reg .esp).toNat ∨
    (state.cpu.reg .esp).toNat + 4 ≤ (layout.slot state.current).toNat
  kernel : state.cpu.privilege = 0

inductive ThreadEvent (Thread : Type u) where
  | prepare (thread : Thread) (image : Image)
  | work
  | switch (next : Thread)

/-- A thread is prepared, the running thread computes and writes to its own
stack, or it switches to one that waits. -/
inductive ThreadStep [DecidableEq Thread] (layout : Layout Thread) (isrReturnAddr : Nat) :
    Threads Thread → ThreadEvent Thread → Threads Thread → Prop
  | prepare {state : Threads Thread} {thread : Thread} {image : Image}
      (other : thread ≠ state.current)
      (size : layout.size thread = kernelStackSize)
      (field : (layout.slot thread).toNat + 4 ≤ layout.base thread ∨
        layout.base thread + layout.size thread ≤
          (layout.slot thread).toNat) :
      ThreadStep layout isrReturnAddr state (.prepare thread image)
        { state with
          cpu := { state.cpu with
            mem := initFakeStack state.cpu.mem isrReturnAddr
              (layout.base thread) (layout.slot thread) image }
          status := setStatus state.status thread (.fresh image) }
  | work {state : Threads Thread} {cpu : Cpu}
      (confined : ∀ addr, addr < layout.base state.current ∨
        layout.base state.current + layout.size state.current ≤ addr →
        cpu.mem addr = state.cpu.mem addr) :
      ThreadStep layout isrReturnAddr state .work { state with cpu }
  | switch {state : Threads Thread} {next : Thread}
      (ready : (state.status next).isWaiting = true)
      (entered : AtSwitch layout state next) :
      ThreadStep layout isrReturnAddr state (.switch next)
        { cpu := run contextSwitch state.cpu
          current := next
          status := setStatus
            (setStatus state.status state.current
              (.suspended (.ofCpu state.cpu))) next .running }

/-! ## What a waiting thread keeps -/

/-- The words and the stack pointer of a thread that waits. -/
def Status.parked (isrReturnAddr base : Nat) :
    Status → Option (UInt32 × List UInt32)
  | .unused => none
  | .running => none
  | .fresh image => some (UInt32.ofNat (freshEsp base),
      freshWords isrReturnAddr image)
  | .suspended frame => some (frame.esp - 16, frame.words)

/-- The words lie on the stack of the thread, and the field points to
them. -/
structure Parked (layout : Layout Thread) (mem : Bytes) (thread : Thread)
    (esp : UInt32) (words : List UInt32) : Prop where
  low : layout.base thread ≤ esp.toNat
  high : esp.toNat + 4 * words.length ≤
    layout.base thread + layout.size thread
  slot : readWord mem (layout.slot thread) = esp
  words : WordsAt mem esp.toNat words

variable {layout : Layout Thread} {isrReturnAddr : Nat}
  {state state' : Threads Thread} {event : ThreadEvent Thread}
  {events : List (ThreadEvent Thread)} {mem mem' : Bytes}
  {thread next : Thread} {esp : UInt32} {words : List UInt32}
  {image : Image} {frame : Frame}

theorem setStatus_same [DecidableEq Thread] {status : Thread → Status} {value : Status} :
    setStatus status thread value thread = value :=
  if_pos rfl

theorem setStatus_other [DecidableEq Thread] {status : Thread → Status} {value : Status}
    (different : next ≠ thread) :
    setStatus status thread value next = status next :=
  if_neg different

/-- A thread keeps what it waits with while its stack and its field do. -/
theorem Parked.congr (parked : Parked layout mem thread esp words)
    (stack : ∀ addr, layout.base thread ≤ addr →
      addr < layout.base thread + layout.size thread → mem' addr = mem addr)
    (field : ∀ addr, (layout.slot thread).toNat ≤ addr →
      addr < (layout.slot thread).toNat + 4 → mem' addr = mem addr) :
    Parked layout mem' thread esp words := by
  have low := parked.low
  have high := parked.high
  refine ⟨low, high, ?_, parked.words.congr fun addr lower upper =>
    stack addr (by omega) (by omega)⟩
  rw [← parked.slot, readWord, readWord]
  exact congrArg UInt32.ofNat (Bytes.word32_congr fun index small =>
    field _ (by omega) (by omega))

/-- Writes to one stack and to the field of its thread do not reach another
thread. -/
theorem Parked.other (parked : Parked layout mem next esp words)
    (different : thread ≠ next)
    (confined : ∀ addr,
      (addr < layout.base thread ∨
        layout.base thread + layout.size thread ≤ addr) →
      (addr < (layout.slot thread).toNat ∨
        (layout.slot thread).toNat + 4 ≤ addr) → mem' addr = mem addr) :
    Parked layout mem' next esp words := by
  have apart := layout.apart thread next different
  have field := layout.slots thread next different
  have field' := layout.slots next thread different.symm
  have fields := layout.slotsApart thread next different
  refine parked.congr (fun addr lower upper => ?_)
    fun addr lower upper => ?_
  · exact confined addr (by omega) (by omega)
  · exact confined addr (by omega) (by omega)

/-- Every waiting thread has what its status says. -/
def ThreadsOk (layout : Layout Thread) (isrReturnAddr : Nat)
    (state : Threads Thread) : Prop :=
  (∀ thread esp words,
    (state.status thread).parked isrReturnAddr (layout.base thread) =
      some (esp, words) →
    Parked layout state.cpu.mem thread esp words) ∧
  (state.status state.current).parked isrReturnAddr
    (layout.base state.current) = none

/-! ## The three steps -/

theorem sub_four (cpu : Cpu) :
    cpu.reg .esp - 4 - 4 - 4 - 4 = cpu.reg .esp - UInt32.ofNat 16 := by
  have steps : cpu.reg .esp - UInt32.ofNat 4 - UInt32.ofNat 4 -
      UInt32.ofNat 4 - UInt32.ofNat 4 = cpu.reg .esp - UInt32.ofNat 16 := by
    simp only [sub_ofNat]
  exact steps

/-- Where the four pushes go. -/
theorem pushedMem_eq (cpu : Cpu) :
    pushedMem cpu = writeWord (writeWord (writeWord (writeWord cpu.mem
      (cpu.reg .esp - UInt32.ofNat 4) (cpu.reg .ebx))
      (cpu.reg .esp - UInt32.ofNat 8) (cpu.reg .esi))
      (cpu.reg .esp - UInt32.ofNat 12) (cpu.reg .edi))
      (cpu.reg .esp - UInt32.ofNat 16) (cpu.reg .ebp) := by
  have shape : pushedMem cpu = writeWord (writeWord (writeWord (writeWord
      cpu.mem (cpu.reg .esp - UInt32.ofNat 4) (cpu.reg .ebx))
      (cpu.reg .esp - UInt32.ofNat 4 - UInt32.ofNat 4) (cpu.reg .esi))
      (cpu.reg .esp - UInt32.ofNat 4 - UInt32.ofNat 4 - UInt32.ofNat 4)
        (cpu.reg .edi))
      (cpu.reg .esp - UInt32.ofNat 4 - UInt32.ofNat 4 - UInt32.ofNat 4 -
        UInt32.ofNat 4) (cpu.reg .ebp) := rfl
  rw [shape]
  simp only [sub_ofNat]

theorem pushedMem_other {cpu : Cpu} {addr : Nat}
    (large : 16 ≤ (cpu.reg .esp).toNat)
    (outside : addr + 16 < (cpu.reg .esp).toNat ∨
      (cpu.reg .esp).toNat ≤ addr) :
    pushedMem cpu addr = cpu.mem addr := by
  have first : (cpu.reg .esp - UInt32.ofNat 4).toNat = _ :=
    toNat_sub (by omega)
  have second : (cpu.reg .esp - UInt32.ofNat 8).toNat = _ :=
    toNat_sub (by omega)
  have third : (cpu.reg .esp - UInt32.ofNat 12).toNat = _ :=
    toNat_sub (by omega)
  have fourth : (cpu.reg .esp - UInt32.ofNat 16).toNat = _ :=
    toNat_sub (by omega)
  rw [pushedMem_eq, writeWord_other (by omega), writeWord_other (by omega),
    writeWord_other (by omega), writeWord_other (by omega)]

/-- The pushes leave the frame on the stack. -/
theorem pushedMem_words {cpu : Cpu} (large : 16 ≤ (cpu.reg .esp).toNat) :
    WordsAt (pushedMem cpu) (cpu.reg .esp - UInt32.ofNat 16).toNat
      (Frame.ofCpu cpu).words := by
  have first : (cpu.reg .esp - UInt32.ofNat 4).toNat = _ :=
    toNat_sub (by omega)
  have second : (cpu.reg .esp - UInt32.ofNat 8).toNat = _ :=
    toNat_sub (by omega)
  have third : (cpu.reg .esp - UInt32.ofNat 12).toNat = _ :=
    toNat_sub (by omega)
  have fourth : (cpu.reg .esp - UInt32.ofNat 16).toNat = _ :=
    toNat_sub (by omega)
  rw [pushedMem_eq]
  refine ⟨readWord_writeWord, ?_, ?_, ?_, ?_, trivial⟩
  · have place : (cpu.reg .esp - UInt32.ofNat 16).toNat + 4 =
        (cpu.reg .esp - UInt32.ofNat 12).toNat := by omega
    rw [place, word32_writeWord_other (by omega)]
    exact readWord_writeWord
  · have place : (cpu.reg .esp - UInt32.ofNat 16).toNat + 4 + 4 =
        (cpu.reg .esp - UInt32.ofNat 8).toNat := by omega
    rw [place, word32_writeWord_other (by omega),
      word32_writeWord_other (by omega)]
    exact readWord_writeWord
  · have place : (cpu.reg .esp - UInt32.ofNat 16).toNat + 4 + 4 + 4 =
        (cpu.reg .esp - UInt32.ofNat 4).toNat := by omega
    rw [place, word32_writeWord_other (by omega),
      word32_writeWord_other (by omega), word32_writeWord_other (by omega)]
    exact readWord_writeWord
  · have place : (cpu.reg .esp - UInt32.ofNat 16).toNat + 4 + 4 + 4 + 4 =
        (cpu.reg .esp).toNat := by omega
    rw [place, word32_writeWord_other (by omega),
      word32_writeWord_other (by omega), word32_writeWord_other (by omega),
      word32_writeWord_other (by omega)]
    rfl

/-- A switch only writes to the stack and the field of the thread that it
leaves. -/
theorem AtSwitch.confined (entered : AtSwitch layout state next) {addr : Nat}
    (stack : addr < layout.base state.current ∨
      layout.base state.current + layout.size state.current ≤ addr)
    (field : addr < (layout.slot state.current).toNat ∨
      (layout.slot state.current).toNat + 4 ≤ addr) :
    switchedMem state.cpu addr = state.cpu.mem addr := by
  have low := entered.low
  have high := entered.high
  rw [switchedMem, entered.store, writeWord_other field]
  exact pushedMem_other (by omega) (by omega)

/-- The thread that a switch leaves waits with its frame. -/
theorem AtSwitch.parked (entered : AtSwitch layout state next) :
    Parked layout (switchedMem state.cpu) state.current
      ((Frame.ofCpu state.cpu).esp - 16) (Frame.ofCpu state.cpu).words := by
  have low := entered.low
  have high := entered.high
  have apart := entered.apart
  have esp : (Frame.ofCpu state.cpu).esp - 16 =
      state.cpu.reg .esp - UInt32.ofNat 16 := rfl
  have place : (state.cpu.reg .esp - UInt32.ofNat 16).toNat = _ :=
    toNat_sub (by omega)
  have length : (Frame.ofCpu state.cpu).words.length = 5 := rfl
  rw [esp]
  refine ⟨by omega, by omega, ?_, ?_⟩
  · rw [switchedMem, entered.store, readWord_writeWord, sub_four]
  · refine (pushedMem_words (by omega)).congr fun addr lower upper => ?_
    rw [switchedMem, entered.store]
    exact writeWord_other (by omega)

/-- `init_fake_stack` prepares a thread. -/
theorem initFakeStack_parked (size : layout.size thread = kernelStackSize)
    (field : (layout.slot thread).toNat + 4 ≤ layout.base thread ∨
      layout.base thread + layout.size thread ≤
        (layout.slot thread).toNat) :
    Parked layout
      (initFakeStack mem isrReturnAddr (layout.base thread)
        (layout.slot thread) image) thread
      (UInt32.ofNat (freshEsp (layout.base thread)))
      (freshWords isrReturnAddr image) := by
  have word := layout.word thread
  have length : (freshWords isrReturnAddr image).length = 24 := rfl
  have stack : kernelStackSize = 8192 := rfl
  have place : (UInt32.ofNat (freshEsp (layout.base thread))).toNat =
      layout.base thread + 8096 := by
    rw [freshEsp, UInt32.toNat_ofNat']
    omega
  have place' : freshEsp (layout.base thread) =
      layout.base thread + 8096 := by
    rw [freshEsp]
    omega
  refine ⟨by omega, by omega, readWord_writeWord, ?_⟩
  rw [place, ← place']
  have present : WordsAt (putWords mem (freshEsp (layout.base thread))
      (fakeStack isrReturnAddr image)) (freshEsp (layout.base thread))
      (freshWords isrReturnAddr image) := putWords_wordsAt
  refine present.congr fun addr lower upper => ?_
  exact writeWord_other (by omega)

theorem initFakeStack_other {addr : Nat}
    (size : layout.size thread = kernelStackSize)
    (stack : addr < layout.base thread ∨
      layout.base thread + layout.size thread ≤ addr)
    (field : addr < (layout.slot thread).toNat ∨
      (layout.slot thread).toNat + 4 ≤ addr) :
    initFakeStack mem isrReturnAddr (layout.base thread)
      (layout.slot thread) image addr = mem addr := by
  have count : (fakeStack isrReturnAddr image).length = 24 := rfl
  have stackSize : kernelStackSize = 8192 := rfl
  rw [initFakeStack, writeWord_other field]
  refine putWords_other ?_
  rw [freshEsp]
  omega

/-- Every step keeps what the waiting threads have. -/
theorem ThreadStep.ok [DecidableEq Thread]
    (ok : ThreadsOk layout isrReturnAddr state)
    (step : ThreadStep layout isrReturnAddr state event state') :
    ThreadsOk layout isrReturnAddr state' := by
  obtain ⟨waiting, running⟩ := ok
  cases step with
  | @prepare thread image other size field =>
      refine ⟨fun other' esp words parked => ?_, ?_⟩
      · by_cases same : other' = thread
        · subst same
          simp only [setStatus_same, Status.parked, Option.some.injEq,
            Prod.mk.injEq] at parked
          obtain ⟨espEq, wordsEq⟩ := parked
          rw [← espEq, ← wordsEq]
          exact initFakeStack_parked size field
        · simp only [setStatus_other same] at parked
          exact (waiting other' esp words parked).other (Ne.symm same)
            fun addr stack slot => initFakeStack_other size stack slot
      · simp only [setStatus_other other.symm]
        exact running
  | work confined =>
      refine ⟨fun other esp words parked => ?_, running⟩
      have different : state.current ≠ other := by
        intro same
        simp only at parked
        rw [← same, running] at parked
        simp at parked
      exact (waiting other esp words parked).other different
        fun addr stack _ => confined addr stack
  | @switch next ready entered =>
      refine ⟨fun other esp words parked => ?_, ?_⟩
      · have notNext : other ≠ next := by
          intro same
          simp only [same, setStatus_same, Status.parked] at parked
          simp at parked
        simp only [setStatus_other notNext] at parked
        by_cases same : other = state.current
        · subst same
          simp only [setStatus_same, Status.parked, Option.some.injEq,
            Prod.mk.injEq] at parked
          obtain ⟨espEq, wordsEq⟩ := parked
          rw [← espEq, ← wordsEq]
          exact entered.parked
        · simp only [setStatus_other same] at parked
          exact (waiting other esp words parked).other (Ne.symm same)
            fun addr stack slot => entered.confined stack slot
      · simp only [setStatus_same]
        rfl

/-! ## What a thread finds -/

/-- The call of `context_switch` returns to a suspended thread. -/
structure Resumes (cpu : Cpu) (frame : Frame) : Prop where
  ebx : cpu.reg .ebx = frame.ebx
  esi : cpu.reg .esi = frame.esi
  edi : cpu.reg .edi = frame.edi
  ebp : cpu.reg .ebp = frame.ebp
  esp : cpu.reg .esp = frame.esp + 4
  ret : cpu.eip = frame.ret

/-- A prepared thread runs `isr_return`, which enters the program. -/
structure Starts (cpu : Cpu) (isrReturnAddr : Nat) (image : Image) :
    Prop where
  first : cpu.eip = UInt32.ofNat isrReturnAddr
  eip : (run isrReturn cpu).eip = UInt32.ofNat image.entryPoint
  cs : (run isrReturn cpu).seg .cs = 0x1b
  ss : (run isrReturn cpu).seg .ss = 0x23
  esp : (run isrReturn cpu).reg .esp = UInt32.ofNat image.userStackTop
  interrupts : (run isrReturn cpu).eflags.toNat.testBit 9 = true

/-- The words of the next thread are still there after the pushes. -/
theorem AtSwitch.found (entered : AtSwitch layout state next)
    (parked : Parked layout state.cpu.mem next esp words) :
    newEsp state.cpu = esp ∧
      WordsAt (switchedMem state.cpu) esp.toNat words := by
  refine ⟨entered.load.trans parked.slot, ?_⟩
  exact (parked.other entered.other.symm
    fun addr stack slot => entered.confined stack slot).words

theorem AtSwitch.resumes (entered : AtSwitch layout state next)
    (parked : Parked layout state.cpu.mem next (frame.esp - 16)
      frame.words) :
    Resumes (run contextSwitch state.cpu) frame := by
  obtain ⟨load, present⟩ := entered.found parked
  have word := layout.word next
  have high := parked.high
  have whole : frame.words ++ [] = frame.words := List.append_nil _
  rw [← load, ← whole] at present
  obtain ⟨ebp, edi, esi, ebx, eip, esp⟩ := contextSwitch_regs present
    (by rw [load, whole]; omega)
  refine ⟨ebx, esi, edi, ebp, ?_, eip⟩
  rw [esp, load]
  have sum : frame.esp - 16 + (16 + 4) = frame.esp + 4 := by
    rw [← UInt32.add_assoc, UInt32.sub_add_cancel]
  exact sum

theorem AtSwitch.starts (entered : AtSwitch layout state next)
    (parked : Parked layout state.cpu.mem next esp
      (freshWords isrReturnAddr image)) :
    Starts (run contextSwitch state.cpu) isrReturnAddr image := by
  obtain ⟨load, present⟩ := entered.found parked
  have word := layout.word next
  have high := parked.high
  have count : (freshWords isrReturnAddr image).length = 24 := rfl
  rw [← load, freshWords_eq esp] at present
  have bound : (newEsp state.cpu).toNat + 96 ≤ 2 ^ 32 := by
    rw [load]
    omega
  obtain ⟨_, _, _, _, eip, esp'⟩ := contextSwitch_regs present bound
  have place : ((run contextSwitch state.cpu).reg .esp).toNat =
      (newEsp state.cpu).toNat + 20 := by
    have sum : (newEsp state.cpu + UInt32.ofNat 20).toNat =
        (newEsp state.cpu).toNat + 20 := toNat_add (by omega)
    rw [esp']
    exact sum
  have rest := (wordsAt_append.mp present).2
  have below : (newEsp state.cpu).toNat +
      4 * (freshFrame isrReturnAddr esp).words.length =
        ((run contextSwitch state.cpu).reg .esp).toNat := place.symm
  rw [below] at rest
  have user : (0x1b : UInt32) % 65536 % 4 = 3 := rfl
  have outer : (run contextSwitch state.cpu).seg .cs % 4 <
      (0x1b : UInt32) % 65536 % 4 := by
    have kernel : (run contextSwitch state.cpu).seg .cs % 4 = 0 :=
      entered.kernel
    rw [kernel, user]
    decide
  obtain ⟨eipEq, csEq, flagsEq, espEq, ssEq⟩ :=
    isrReturn_user rest rfl (by omega) outer
  refine ⟨eip, eipEq, csEq, ssEq, espEq, ?_⟩
  rw [flagsEq]
  rfl

/-- In every run each switch brings back exactly what the thread had when
it stopped, and starts a prepared thread in its program. -/
theorem threads_resume [DecidableEq Thread] {start : Threads Thread}
    (unstarted : ∀ thread,
      (start.status thread).isWaiting = false)
    (run : Run (ThreadStep layout isrReturnAddr) start events state)
    (step : ThreadStep layout isrReturnAddr state (.switch next) state') :
    (∃ frame, state.status next = .suspended frame ∧
        Resumes state'.cpu frame) ∨
      ∃ image, state.status next = .fresh image ∧
        Starts state'.cpu isrReturnAddr image := by
  have none : ∀ status : Status, status.isWaiting = false → ∀ base,
      status.parked isrReturnAddr base = none := by
    intro status idle base
    cases status with
    | unused => rfl
    | running => rfl
    | fresh image => simp [Status.isWaiting] at idle
    | suspended frame => simp [Status.isWaiting] at idle
  have first : ThreadsOk layout isrReturnAddr start := by
    refine ⟨fun thread esp words parked => ?_, none _ (unstarted _) _⟩
    rw [none _ (unstarted thread)] at parked
    simp at parked
  have ok : ThreadsOk layout isrReturnAddr state :=
    run.invariant (ThreadsOk layout isrReturnAddr)
      (fun _ _ _ before step => step.ok before) first
  cases step with
  | switch ready entered =>
      cases waiting : state.status next with
      | unused =>
          rw [waiting] at ready
          simp [Status.isWaiting] at ready
      | running =>
          rw [waiting] at ready
          simp [Status.isWaiting] at ready
      | fresh image =>
          have parked : (state.status next).parked isrReturnAddr
              (layout.base next) =
                some (UInt32.ofNat (freshEsp (layout.base next)),
                  freshWords isrReturnAddr image) := by
            rw [waiting]
            rfl
          exact .inr ⟨image, rfl, entered.starts (ok.1 _ _ _ parked)⟩
      | suspended frame =>
          have parked : (state.status next).parked isrReturnAddr
              (layout.base next) =
                some (frame.esp - 16, frame.words) := by
            rw [waiting]
            rfl
          exact .inl ⟨frame, rfl, entered.resumes (ok.1 _ _ _ parked)⟩

/-- Two threads with stacks of 8 kB. -/
def sampleLayout : Layout Bool where
  base := fun thread => if thread then 0x10000 else 0x20000
  size := fun _ => kernelStackSize
  slot := fun thread => if thread then 0x100 else 0x104
  word := by decide
  apart := by decide
  slots := by decide
  slotsApart := by decide

/-- A thread in front of its call of `context_switch`. -/
def sampleCpu (mem : Bytes) (esp slot saved : UInt32) : Cpu where
  reg := fun reg =>
    match reg with
    | .esp => esp
    | .ebx => 11
    | .esi => 12
    | .edi => 13
    | .ebp => 14
    | _ => 0
  seg := fun seg =>
    match seg with
    | .cs => 8
    | _ => 16
  eip := 0
  eflags := 2
  mem := writeWord (writeWord (writeWord mem esp 0x1234) (esp + 4) slot)
    (esp + 8) saved

def sampleProgram : Image where
  pdPhys := 0
  entryPoint := 0x400000
  userStackTop := 0xbfffff00
  heapStart := 0
  heapBreak := 0
  heapMax := 0

/-- The first thread runs and the second one does not exist yet. -/
def sampleThreads : Threads Bool where
  cpu := sampleCpu (fun _ => 0) 0x21000 0x104 0x11fa0
  current := false
  status := fun thread => if thread then .unused else .running

def samplePrepared : Threads Bool :=
  { sampleThreads with
    cpu := { sampleThreads.cpu with
      mem := initFakeStack sampleThreads.cpu.mem 0x5678 0x10000 0x100
        sampleProgram }
    status := setStatus sampleThreads.status true (.fresh sampleProgram) }

def sampleSwitched : Threads Bool where
  cpu := run contextSwitch samplePrepared.cpu
  current := true
  status := setStatus (setStatus samplePrepared.status false
    (.suspended (.ofCpu samplePrepared.cpu))) true .running

def sampleReturning : Threads Bool :=
  { sampleSwitched with
    cpu := sampleCpu sampleSwitched.cpu.mem 0x11000 0x100 0x20ff0 }

theorem samplePrepared_switches :
    AtSwitch sampleLayout samplePrepared true := by
  refine ⟨?_, ?_, ?_, ?_, ?_, ?_, ?_⟩ <;> decide +kernel

theorem sampleReturning_switches :
    AtSwitch sampleLayout sampleReturning false := by
  refine ⟨?_, ?_, ?_, ?_, ?_, ?_, ?_⟩ <;> decide +kernel

/-- The second thread is prepared, runs and switches back to the first
one. -/
theorem sampleThreads_resume : ∃ state' : Threads Bool,
    Run (ThreadStep sampleLayout 0x5678) sampleThreads
      [.prepare true sampleProgram, .switch true, .work] sampleReturning ∧
    ((∃ frame, sampleReturning.status false = .suspended frame ∧
        Resumes state'.cpu frame) ∨
      ∃ image, sampleReturning.status false = .fresh image ∧
        Starts state'.cpu 0x5678 image) := by
  have first : ThreadStep sampleLayout 0x5678 sampleThreads
      (.prepare true sampleProgram) samplePrepared :=
    .prepare (by decide) rfl (by decide)
  have second : ThreadStep sampleLayout 0x5678 samplePrepared
      (.switch true) sampleSwitched := .switch rfl samplePrepared_switches
  have third : ThreadStep sampleLayout 0x5678 sampleSwitched .work
      sampleReturning := by
    refine .work fun addr outside => ?_
    have outside' : addr < 0x10000 ∨ 0x10000 + 8192 ≤ addr := outside
    have word : ((0x11000 : UInt32).toNat = 0x11000 ∧
        (0x11000 + 4 : UInt32).toNat = 0x11004) ∧
        (0x11000 + 8 : UInt32).toNat = 0x11008 := by decide
    simp only [sampleCpu]
    rw [writeWord_other (by omega), writeWord_other (by omega),
      writeWord_other (by omega)]
  have run : Run (ThreadStep sampleLayout 0x5678) sampleThreads
      [.prepare true sampleProgram, .switch true, .work] sampleReturning :=
    .cons first (.cons second (.cons third .nil))
  exact ⟨_, run, threads_resume (by decide) run
    (.switch rfl sampleReturning_switches)⟩

end LoafOs
