import LoafOs.Multi.Process
import LoafOs.Userspace.ExeLoad
import LoafOs.Userspace.SbrkRun
import LoafOs.Userspace.UserBytes

/-!
# The arguments on a new stack

`setup_user_argv` lays out a count, a block of pointers and the strings in
a kernel buffer, with the pointers already those of the user stack, and
copies the buffer there.  A program that follows the pointers, as `_start`
and `main` do, finds the strings it was given.
-/

namespace LoafOs

open Arena Memory

/-! ## What a program reads -/

/-- A byte that user mode may read. -/
def userRead (view : UserView) (addr : Nat) : Option UInt8 :=
  match view addr with
  | some cell => if cell.user then some cell.byte else none
  | none => none

/-- A word on the stack. -/
def userWord (view : UserView) (addr : Nat) : Option Nat := do
  let first ← userRead view addr
  let second ← userRead view (addr + 1)
  let third ← userRead view (addr + 2)
  let fourth ← userRead view (addr + 3)
  return first.toNat + 256 * second.toNat +
    65536 * (third.toNat + 256 * fourth.toNat)

/-- A string up to its terminator; `none` when it runs out of fuel. -/
def userString (view : UserView) : Nat → Nat → Option CString
  | 0, _ => none
  | fuel + 1, addr => do
      let byte ← userRead view addr
      if byte = 0 then
        return []
      let rest ← userString view fuel (addr + 1)
      return byte :: rest

/-- The strings behind `count` pointers and the null pointer after them. -/
def userArgs (view : UserView) : Nat → Nat → Option (List CString)
  | argv, 0 => do
      let last ← userWord view argv
      if last = 0 then some [] else none
  | argv, count + 1 => do
      let ptr ← userWord view argv
      let arg ← userString view (2 ^ 32) ptr
      let rest ← userArgs view (argv + 4) count
      return arg :: rest

/-- `argc` at `esp` and `argv` at `esp + 4`. -/
def decodeStack (view : UserView) (esp : Nat) : Option (List CString) := do
  let argc ← userWord view esp
  userArgs view (esp + 4) argc

/-! ## The contents of the block -/

/-- The pointers from `slot` on lead to the strings that stand from `off`
on, and a null pointer ends them. -/
def LaidOut (block : Bytes) (esp : Nat) :
    Nat → Nat → List CString → Prop
  | slot, _, [] => block.word32 slot = 0
  | slot, off, arg :: args =>
      block.word32 slot = esp + off ∧
        (∀ index (inside : index < arg.length),
          block (off + index) = arg[index]) ∧
        block (off + arg.length) = 0 ∧
        LaidOut block esp (slot + 4) (off + arg.length + 1) args

variable {mem block : Bytes} {addr esp slot off index : Nat}
  {words : List Nat} {arg : CString} {args argv : List CString}

theorem putWords_word (inside : index < words.length)
    (bound : words[index] < 2 ^ 32) :
    (putWords mem addr words).word32 (addr + 4 * index) = words[index] := by
  induction words generalizing mem addr index with
  | nil => simp at inside
  | cons word words inductionHypothesis =>
      rw [putWords]
      cases index with
      | zero =>
          have kept : (putWords (mem.putWord32 addr word) (addr + 4)
              words).word32 addr = (mem.putWord32 addr word).word32 addr :=
            Bytes.word32_congr fun offset small =>
              putWords_other (by omega)
          exact kept.trans (Bytes.word32_putWord32 bound)
      | succ index =>
          have place : addr + 4 * (index + 1) = addr + 4 + 4 * index := by
            omega
          rw [place]
          exact inductionHypothesis (by simpa using inside) bound

theorem argvOffsets_length : (argvOffsets off args).length = args.length := by
  induction args generalizing off with
  | nil => rfl
  | cons arg args inductionHypothesis =>
      rw [argvOffsets, List.length_cons, inductionHypothesis,
        List.length_cons]

theorem argvBytes_cons :
    argvBytes (arg :: args) = arg ++ 0 :: argvBytes args := by
  rw [argvBytes, List.flatMap_cons, List.append_assoc]
  rfl

/-- The offsets stay inside the strings. -/
theorem argvOffsets_lt (member : index ∈ argvOffsets off args) :
    index < off + (argvBytes args).length := by
  induction args generalizing off with
  | nil => simp [argvOffsets] at member
  | cons arg args inductionHypothesis =>
      rw [argvBytes_cons, List.length_append, List.length_cons]
      rcases List.mem_cons.mp member with rfl | later
      · omega
      · have bound := inductionHypothesis later
        omega

/-- Pointers and strings that stand where they should are laid out. -/
theorem laidOut_of
    (pointers : ∀ index (inside : index < (argvOffsets off args).length),
      block.word32 (slot + 4 * index) =
        esp + (argvOffsets off args)[index])
    (null : block.word32 (slot + 4 * args.length) = 0)
    (strings : ∀ index (inside : index < (argvBytes args).length),
      block (off + index) = (argvBytes args)[index]) :
    LaidOut block esp slot off args := by
  induction args generalizing slot off with
  | nil => exact null
  | cons arg args inductionHypothesis =>
      have size : (argvBytes (arg :: args)).length =
          arg.length + 1 + (argvBytes args).length := by
        rw [argvBytes_cons, List.length_append, List.length_cons]
        omega
      refine ⟨?_, fun index inside => ?_, ?_, inductionHypothesis ?_ ?_ ?_⟩
      · exact pointers 0 (by rw [argvOffsets_length]; simp)
      · rw [strings index (by omega)]
        simp only [argvBytes_cons]
        exact List.getElem_append_left inside
      · rw [strings arg.length (by omega)]
        simp only [argvBytes_cons]
        rw [List.getElem_append_right (Nat.le_refl _)]
        simp
      · intro index inside
        have next := pointers (index + 1) (by
          rw [argvOffsets, List.length_cons]
          omega)
        rw [show slot + 4 + 4 * index = slot + 4 * (index + 1) by omega,
          next]
        rfl
      · rw [List.length_cons] at null
        rw [show slot + 4 + 4 * args.length = slot + 4 * (args.length + 1)
          by omega]
        exact null
      · intro index inside
        have next := strings (arg.length + 1 + index) (by omega)
        rw [show off + arg.length + 1 + index =
          off + (arg.length + 1 + index) by omega, next]
        simp only [argvBytes_cons]
        rw [List.getElem_append_right (by omega)]
        simp only [show arg.length + 1 + index - arg.length = index + 1
          by omega, List.getElem_cons_succ]

/-- The block fits without a wrap, and is as large as its parts. -/
theorem argvBlockSize_eq (few : argv.length ≤ 16)
    (short : ∀ arg ∈ argv, arg.length < 64) :
    4 + (argv.length + 1) * 4 + (argvBytes argv).length ≤
        argvBlockSize argv ∧
      argvBlockSize argv ≤ 1120 ∧ argvBlockSize argv % 16 = 0 := by
  have total : (argvBytes argv).length ≤ 64 * argv.length := by
    clear few
    induction argv with
    | nil => simp [argvBytes]
    | cons arg argv inductionHypothesis =>
        have first := short arg (List.mem_cons_self ..)
        have rest := inductionHypothesis fun other member =>
          short other (List.mem_cons_of_mem _ member)
        rw [argvBytes_cons, List.length_append, List.length_cons,
          List.length_cons]
        omega
  rw [argvBlockSize, u32]
  omega

/-- The block holds the count, the pointers and the strings, and nothing
else in memory has changed. -/
theorem argvBlock_spec (mem : Bytes) (kbuf esp : Nat)
    (few : argv.length ≤ 16) (short : ∀ arg ∈ argv, arg.length < 64)
    (below : esp + argvBlockSize argv < 2 ^ 32) :
    ((argvBlock mem argv kbuf esp).shift kbuf).word32 0 = argv.length ∧
      LaidOut ((argvBlock mem argv kbuf esp).shift kbuf) esp 4
        (4 + (argv.length + 1) * 4) argv ∧
      ∀ index, index < kbuf ∨ kbuf + argvBlockSize argv ≤ index →
        argvBlock mem argv kbuf esp index = mem index := by
  obtain ⟨fits, _, _⟩ := argvBlockSize_eq few short
  generalize offsEq : 4 + (argv.length + 1) * 4 = strOff at fits ⊢
  generalize wordsEq : argv.length ::
    (argvOffsets strOff argv).map (fun offset => u32 (esp + offset)) ++
      [0] = words
  have length : words.length = argv.length + 2 := by
    rw [← wordsEq]
    simp [argvOffsets_length]
  have shape : argvBlock mem argv kbuf esp = putWords
      ((mem.fill kbuf 0 (argvBlockSize argv)).copy (kbuf + strOff)
        (fun index => (argvBytes argv).getD index 0)
        (argvBytes argv).length) kbuf words := by
    rw [← wordsEq, ← offsEq]
    rfl
  have bounds : ∀ word ∈ words, word < 2 ^ 32 := by
    intro word member
    rw [← wordsEq] at member
    simp only [List.cons_append, List.mem_cons, List.mem_append,
      List.mem_map, List.not_mem_nil, or_false] at member
    rcases member with rfl | ⟨offset, _, rfl⟩ | rfl
    · omega
    · exact Nat.mod_lt _ (by decide)
    · decide
  have wordAt : ∀ index (inside : index < words.length),
      ((argvBlock mem argv kbuf esp).shift kbuf).word32 (4 * index) =
        words[index] := by
    intro index inside
    rw [← putWords_word inside (bounds _ (List.getElem_mem inside)), shape]
    exact Bytes.word32_congr fun offset small => by
      rw [Bytes.shift, Nat.add_assoc]
  refine ⟨?_, laidOut_of (fun index inside => ?_) ?_
    fun index inside => ?_, fun index outside => ?_⟩
  · have first := wordAt 0 (by omega)
    rw [Nat.mul_zero] at first
    rw [first]
    simp only [← wordsEq]
    rfl
  · have pointer := wordAt (index + 1) (by
      rw [argvOffsets_length] at inside
      omega)
    rw [show 4 + 4 * index = 4 * (index + 1) by omega, pointer]
    have target := argvOffsets_lt (List.getElem_mem inside)
    simp only [← wordsEq, List.cons_append, List.getElem_cons_succ]
    rw [List.getElem_append_left (by simpa using inside), List.getElem_map,
      u32, Nat.mod_eq_of_lt (by omega)]
  · have last := wordAt (argv.length + 1) (by omega)
    rw [show 4 + 4 * argv.length = 4 * (argv.length + 1) by omega, last]
    simp only [← wordsEq, List.cons_append, List.getElem_cons_succ]
    rw [List.getElem_append_right (by simp [argvOffsets_length])]
    simp [argvOffsets_length]
  · rw [Bytes.shift, shape, putWords_other (by omega),
      Bytes.copy_inside (by omega) (by omega)]
    rw [show kbuf + (strOff + index) - (kbuf + strOff) = index by omega]
    exact List.getD_eq_getElem _ _ inside
  · rw [shape, putWords_other (by omega), Bytes.copy_outside (by omega)]
    exact if_neg (by omega)

/-! ## Following the pointers -/

section Decode

variable {view : UserView} {size fuel : Nat}

/-- The block is what user mode reads from `esp` on. -/
def ShowsBlock (view : UserView) (block : Bytes) (esp size : Nat) : Prop :=
  ∀ index < size, userRead view (esp + index) = some (block index)

theorem ShowsBlock.userWord_eq (shows : ShowsBlock view block esp size)
    (inside : index + 4 ≤ size) :
    userWord view (esp + index) = some (block.word32 index) := by
  have first := shows index (by omega)
  have second := shows (index + 1) (by omega)
  have third := shows (index + 2) (by omega)
  have fourth := shows (index + 3) (by omega)
  simp only [← Nat.add_assoc] at second third fourth
  simp only [userWord, first, second, third, fourth, Option.bind_eq_bind,
    Option.bind_some, Option.pure_def]
  rfl

theorem ShowsBlock.userString_eq (shows : ShowsBlock view block esp size)
    (bytes : ∀ index (inside : index < arg.length),
      block (off + index) = arg[index])
    (ends : block (off + arg.length) = 0) (clean : 0 ∉ arg)
    (inside : off + arg.length < size) (enough : arg.length < fuel) :
    userString view fuel (esp + off) = some arg := by
  induction arg generalizing off fuel with
  | nil =>
      obtain ⟨fuel, rfl⟩ := Nat.exists_eq_add_one_of_ne_zero
        (Nat.ne_of_gt enough)
      have byte := shows off inside
      have zero : block off = 0 := ends
      simp only [userString, byte, zero, Option.bind_eq_bind,
        Option.bind_some, Option.pure_def, if_true]
  | cons first rest inductionHypothesis =>
      rw [List.length_cons] at inside enough ends
      obtain ⟨fuel, rfl⟩ := Nat.exists_eq_add_one_of_ne_zero
        (Nat.ne_of_gt (Nat.lt_of_le_of_lt (Nat.zero_le _) enough))
      have byte := shows off (by omega)
      have head : block off = first := bytes 0 (by simp)
      have nonzero : first ≠ 0 := fun zero => clean (by simp [zero])
      have later := @inductionHypothesis (off + 1) fuel
        (fun index inside => by
          have next := bytes (index + 1) (by
            rw [List.length_cons]
            omega)
          rw [show off + 1 + index = off + (index + 1) by omega, next]
          rfl)
        (by
          rw [show off + 1 + rest.length = off + (rest.length + 1) by omega]
          exact ends)
        (fun member => clean (List.mem_cons_of_mem _ member)) (by omega)
        (by omega)
      rw [← Nat.add_assoc] at later
      simp only [userString, byte, head, nonzero, later,
        Option.bind_eq_bind, Option.bind_some, Option.pure_def, if_false]

theorem ShowsBlock.userArgs_eq (shows : ShowsBlock view block esp size)
    (laid : LaidOut block esp slot off args)
    (clean : ∀ arg ∈ args, 0 ∉ arg) (slots : slot + 4 * args.length + 4 ≤ size)
    (strings : off + (argvBytes args).length ≤ size)
    (word : size < 2 ^ 32) :
    userArgs view (esp + slot) args.length = some args := by
  induction args generalizing slot off with
  | nil =>
      rw [List.length_nil] at slots
      have last := shows.userWord_eq (show slot + 4 ≤ size by omega)
      have null : block.word32 slot = 0 := laid
      simp only [List.length_nil, userArgs, last, null, Option.bind_eq_bind,
        Option.bind_some, if_true]
  | cons arg args inductionHypothesis =>
      obtain ⟨pointer, bytes, ends, rest⟩ := laid
      rw [argvBytes_cons, List.length_append, List.length_cons] at strings
      rw [List.length_cons] at slots
      have ptr := shows.userWord_eq (show slot + 4 ≤ size by omega)
      have string := @ShowsBlock.userString_eq block esp off arg view size (2 ^ 32) shows
        bytes ends (clean arg (List.mem_cons_self ..)) (by omega) (by omega)
      have later := inductionHypothesis rest
        (fun other member => clean other (List.mem_cons_of_mem _ member))
        (by omega) (by omega)
      rw [← Nat.add_assoc] at later
      simp only [List.length_cons, userArgs, ptr, pointer, string, later,
        Option.bind_eq_bind, Option.bind_some, Option.pure_def]

end Decode

/-! ## Copying to the stack -/

section Copy

variable {start memory : Memory} {pd va paddr dest count : Nat}
  {byte : UInt8} {src : Bytes}

/-- A byte that is written through a mapped address. -/
def putByte (memory : Memory) (paddr : Nat) (byte : UInt8) : Memory :=
  { memory with mem := memory.mem.put (physToVirt paddr) byte }

/-- It is the byte at that address, and no other byte has changed. -/
theorem SpaceOk.putByte (ok : SpaceOk start pd memory)
    (user : va < kernelVirtBase)
    (mapped : pagingWalk memory pd va = some paddr) :
    SpaceOk start pd (LoafOs.putByte memory paddr byte) ∧
      ∀ addr < kernelVirtBase,
        userView (LoafOs.putByte memory paddr byte) pd addr =
          if addr = va then
            (userView memory pd addr).map fun cell =>
              { cell with byte := byte }
          else userView memory pd addr := by
  have role := walk_role user mapped
  have isFrame := (ok.owned.frame _ _ role).1
  have place : physToVirt paddr =
      physToVirt (frameOf paddr) + va % 4096 := by
    have present : isPresent (pteAt memory pd va) = true := by
      rw [← walk_isSome, mapped]
      rfl
    rw [walk_eq, if_pos present, Option.some.injEq] at mapped
    have bound := isFrame.bound
    have small := Nat.mod_lt va (by decide : 0 < 4096)
    have whole : frameOf paddr + va % 4096 = paddr := by
      rw [← mapped, frameOf, frameOf]
      omega
    have aligned := isFrame.aligned
    have virt : physToVirt paddr = 3221225472 + paddr := by
      rw [physToVirt, kernelVirtBase, u32]
      omega
    rw [isFrame.virt, virt]
    omega
  have kept : ∀ frame, IsFrame frame → frame ≠ frameOf paddr →
      FrameKept memory (LoafOs.putByte memory paddr byte) frame := by
    intro frame isOther different offset small
    have apart := isOther.apart isFrame different
    exact Bytes.put_other (by omega)
  obtain ⟨ok', _, directory, entries⟩ := ok.pageWrite role kept rfl rfl
  refine ⟨ok', fun addr addrUser => ?_⟩
  have low := pdIndex_lt addrUser
  have kernelLow : kernelPdeStart = 768 := rfl
  rw [userView, entries addr addrUser, directory _ (by omega), userView]
  cases present : isPresent (pteAt memory pd addr) with
  | false => simp
  | true =>
      simp only [if_true]
      by_cases here : addr = va
      · have walk := mapped
        rw [← here, walk_eq, if_pos present, Option.some.injEq] at walk
        have target : frameOf (pteAt memory pd addr) = frameOf paddr := by
          rw [← walk, frameOf, frameOf]
          omega
        rw [if_pos here, target, here, ← place]
        simp only [LoafOs.putByte, Bytes.put_same, Option.map_some]
      · have addrRole := pteAt_role addrUser present
        have isOther := (ok.owned.frame _ _ addrRole).1
        rw [if_neg here]
        have byteKept : (LoafOs.putByte memory paddr byte).mem
            (physToVirt (frameOf (pteAt memory pd addr)) + addr % 4096) =
            memory.mem (physToVirt (frameOf (pteAt memory pd addr)) +
              addr % 4096) := by
          refine Bytes.put_other ?_
          rw [place]
          by_cases same : frameOf (pteAt memory pd addr) = frameOf paddr
          · have walk : pagingWalk memory pd addr = some
                (frameOf (pteAt memory pd addr) + addr % 4096) := by
              rw [walk_eq, if_pos present]
            have page := ok.walk_single addrUser user walk mapped (by
              rw [← same, frameOf, frameOf]
              omega)
            rw [same]
            omega
          · have apart := isOther.apart isFrame same
            omega
        rw [byteKept]

/-- What `copy_to_user` leaves of the address space. -/
structure Copied (start memory memory' : Memory) (pd dest : Nat)
    (src : Bytes) (count : Nat) : Prop where
  ok : SpaceOk start pd memory'
  pmm : memory'.pmm = memory.pmm
  kernel : memory'.kernelDirectory = memory.kernelDirectory
  view : ∀ addr < kernelVirtBase, userView memory' pd addr =
    if dest ≤ addr ∧ addr < dest + count then
      (userView memory pd addr).map fun cell =>
        { cell with byte := src (addr - dest) }
    else userView memory pd addr

/-- A copy to mapped pages arrives there. -/
theorem SpaceOk.copyToUser (ok : SpaceOk start pd memory)
    (user : dest + count ≤ kernelVirtBase)
    (mapped : ∀ addr, dest ≤ addr → addr < dest + count →
      (userView memory pd addr).isSome = true) :
    ∃ memory', copyToUser memory pd dest src count = some memory' ∧
      Copied start memory memory' pd dest src count := by
  induction count generalizing memory dest src with
  | zero =>
      refine ⟨memory, rfl, ok, rfl, rfl, fun addr _ => ?_⟩
      rw [if_neg (by omega)]
  | succ count inductionHypothesis =>
      have base : kernelVirtBase = 3221225472 := rfl
      have here := mapped dest (Nat.le_refl _) (by omega)
      rw [userView_isSome] at here
      obtain ⟨paddr, walk⟩ := Option.isSome_iff_exists.mp here
      obtain ⟨ok', view⟩ := @SpaceOk.putByte start memory pd dest paddr
        (src 0) ok (by omega) walk
      have next : u32 (dest + 1) = dest + 1 := by
        rw [u32, Nat.mod_eq_of_lt (by omega)]
      obtain ⟨memory', done, copied⟩ := @inductionHypothesis _ (dest + 1)
        (src.shift 1) ok' (show dest + 1 + count ≤ kernelVirtBase by omega)
        (fun addr lower upper => by
          rw [view addr (by omega), if_neg (by omega)]
          exact mapped addr (by omega) (by omega))
      refine ⟨memory', ?_, copied.ok, copied.pmm, copied.kernel,
        fun addr addrUser => ?_⟩
      · rw [LoafOs.copyToUser, walk, next]
        exact done
      · rw [copied.view addr addrUser, view addr addrUser]
        by_cases first : addr = dest
        · rw [if_neg (by omega), if_pos first, if_pos (by omega), first,
            Nat.sub_self]
        · by_cases later : dest + 1 ≤ addr ∧ addr < dest + 1 + count
          · rw [if_pos later, if_neg first, if_pos (by omega)]
            simp only [Bytes.shift]
            rw [show 1 + (addr - (dest + 1)) = addr - dest by omega]
          · rw [if_neg later, if_neg first, if_neg (by omega)]

end Copy

/-! ## The round trip -/

/-- A change to other frames, seen as one that came before the address space
was made. -/
theorem SpaceOk.rebase {start memory memory' : Memory} {pd : Nat}
    (ok : SpaceOk start pd memory)
    (kept : ∀ role frame, roleFrame memory pd role = some frame →
      FrameKept memory memory' frame)
    (pmm : memory'.pmm = memory.pmm)
    (kernel : memory'.kernelDirectory = memory.kernelDirectory) :
    SpaceOk { start with mem := memory'.mem } pd memory' := by
  have kernelLow : kernelPdeStart = 768 := rfl
  have directory : ∀ index < kernelPdeStart,
      memory'.entry pd index = memory.entry pd index :=
    fun index low => (kept .directory pd rfl).entry (by omega)
  have tables : ∀ index < kernelPdeStart, ∀ entry < 1024,
      isPresent (memory.entry pd index) = true →
      memory'.entry (frameOf (memory.entry pd index)) entry =
        memory.entry (frameOf (memory.entry pd index)) entry :=
    fun index low entry below present =>
      (kept _ _ (roleFrame_table low present)).entry below
  refine ⟨?_, ok.zero, fun _ _ _ _ _ => rfl, kernel.trans ok.kernel⟩
  rw [roleFrame_congr directory tables, pmm]
  exact ok.owned

/-- The stack below `top` is there for a block of a size. -/
structure StackMapped (memory : Memory) (pd top size : Nat) : Prop where
  room : size ≤ top
  user : top ≤ kernelVirtBase
  mapped : ∀ addr, top - size ≤ addr → addr < top →
    UserReadable memory pd addr

/-- What `setup_user_argv` hands to a program. -/
structure ArgsPassed (kernel : Kernel) (pd top esp : Nat)
    (argv : List CString) : Prop where
  decoded : decodeStack (userView kernel.memory pd) esp = some argv
  aligned : esp % 16 = 0
  within : esp + argvBlockSize argv = top
  covers : 4 + (argv.length + 1) * 4 + (argvBytes argv).length ≤
    argvBlockSize argv

section RoundTrip

variable {kernel : Kernel} {start : Memory} {pd top stop : Nat}
  {blocks : List Block}

/-- A heap whose frames the address space does not own. -/
structure HeapApart (start : Memory) (kernel : Kernel) (pd stop : Nat)
    (blocks : List Block) : Prop where
  heap : HeapOk kernel.heap stop blocks
  space : SpaceOk start pd kernel.memory
  backed : ∀ addr, kernel.heap.freeList ≤ addr → addr < stop →
    Backed start addr

/-- A change to the arena is none to the address space. -/
theorem HeapApart.kept (apart : HeapApart start kernel pd stop blocks)
    {memory' : Memory}
    (outside : ∀ index, index < kernel.heap.freeList ∨ stop ≤ index →
      memory'.mem index = kernel.heap.mem index) :
    ∀ role frame, roleFrame kernel.memory pd role = some frame →
      FrameKept kernel.memory memory' frame := by
  intro role frame holds offset small
  refine outside _ ?_
  by_contra within
  exact apart.space.apart holds small
    (apart.backed (physToVirt frame + offset) (by omega) (by omega)) rfl

/-- What the program finds on its stack is the block in the buffer. -/
theorem Copied.showsBlock {memory memory' : Memory} {src : Bytes}
    (copied : Copied start memory memory' pd esp src (top - esp))
    (below : esp ≤ top) (user : top ≤ kernelVirtBase)
    (mapped : ∀ addr, esp ≤ addr → addr < top →
      UserReadable memory pd addr) :
    ShowsBlock (userView memory' pd) src esp (top - esp) := by
  intro index inside
  obtain ⟨cell, there, readable⟩ := mapped (esp + index) (by omega)
    (by omega)
  have view := copied.view (esp + index) (by omega)
  rw [if_pos (by omega), there, Nat.add_sub_cancel_left] at view
  simp only [userRead, view, Option.map_some, readable, if_true]

/-- The program reads back the strings that it was given. -/
theorem setupUserArgv_passes (few : argv.length ≤ 16)
    (short : ∀ arg ∈ argv, 0 ∉ arg ∧ arg.length < 64)
    (aligned : top % 16 = 0)
    (apart : HeapApart start kernel pd stop blocks)
    (room : ∃ block ∈ blocks, block.free = true ∧
      roundRequest (argvBlockSize argv) ≤ block.size)
    (stack : StackMapped kernel.memory pd top (argvBlockSize argv)) :
    ∃ kernel' esp, setupUserArgv kernel pd top argv = some (kernel', esp) ∧
      ArgsPassed kernel' pd top esp argv := by
  have base : kernelVirtBase = 3221225472 := rfl
  have header : blockHeaderSize = 12 := rfl
  obtain ⟨fits, small, whole⟩ := argvBlockSize_eq few fun arg member =>
    (short arg member).2
  have below := stack.room
  have user := stack.user
  obtain ⟨heap', block, blocks', alloc, ok', member, inUse, large, list,
    outside⟩ := apart.heap.kmalloc_block _ room
  have request : argvBlockSize argv ≤ block.size := by
    rw [roundRequest, u32] at large
    omega
  have inside := ok'.tiled.inside member
  rw [list] at inside
  -- The buffer is filled in; the address space has not changed.
  obtain ⟨count, laid, others⟩ := argvBlock_spec heap'.mem
    (block.addr + blockHeaderSize) (top - argvBlockSize argv) few
    (fun arg member => (short arg member).2) (by omega)
  generalize filledEq : argvBlock heap'.mem argv
    (block.addr + blockHeaderSize) (top - argvBlockSize argv) = filled
    at count laid others
  have arena : ∀ index, index < kernel.heap.freeList ∨ stop ≤ index →
      filled index = kernel.heap.mem index := fun index away => by
    rw [others index (by omega), outside index away]
  have filledKept := @HeapApart.kept kernel start pd stop blocks apart
    ⟨filled, kernel.pmm, kernel.kernelDirectory⟩ arena
  have space := apart.space.rebase filledKept rfl rfl
  have mapped : ∀ addr, top - argvBlockSize argv ≤ addr → addr < top →
      UserReadable ⟨filled, kernel.pmm, kernel.kernelDirectory⟩ pd addr := by
    intro addr lower upper
    obtain ⟨cell, there, readable⟩ := stack.mapped addr lower upper
    exact ⟨cell, (userView_congr filledKept (by omega)).trans there,
      readable⟩
  -- The block is copied to the stack; the arena has not changed.
  obtain ⟨after, copying, copied⟩ :=
    @SpaceOk.copyToUser _ _ pd (top - argvBlockSize argv)
      (argvBlockSize argv) (filled.shift (block.addr + blockHeaderSize))
      space (by omega) fun addr lower upper => by
        obtain ⟨cell, there, _⟩ := mapped addr lower (by omega)
        rw [there]
        rfl
  have backed : ∀ addr, kernel.heap.freeList ≤ addr → addr < stop →
      after.mem addr = filled addr := fun addr lower upper =>
    copied.ok.backed (apart.backed addr lower upper)
  have heapOk : HeapOk { heap' with mem := after.mem } stop blocks' := by
    refine ok'.write rfl rfl fun other otherMember index lower upper => ?_
    have otherInside := ok'.tiled.inside otherMember
    rw [list] at otherInside
    have away : index < block.addr + blockHeaderSize ∨
        block.addr + blockHeaderSize + argvBlockSize argv ≤ index := by
      by_cases same : other = block
      · rw [same] at upper
        omega
      · have distance := ok'.tiled.apart otherMember member same
        omega
    exact (backed index (by omega) (by omega)).trans (others index away)
  -- The buffer is given back; the address space has not changed.
  obtain ⟨freed, blocks'', freeing, _, _, _, _, outside'⟩ :=
    heapOk.kfree member inUse
  have kept : ∀ role frame, roleFrame after pd role = some frame →
      FrameKept after ⟨freed.mem, after.pmm, kernel.kernelDirectory⟩
        frame := by
    intro role frame holds offset bound
    refine outside' _ ?_
    change _ < heap'.freeList ∨ stop ≤ _
    rw [list]
    by_contra within
    exact copied.ok.apart holds bound
      (apart.backed (physToVirt frame + offset) (by omega) (by omega)) rfl
  have shows : ShowsBlock
      (userView ⟨freed.mem, after.pmm, kernel.kernelDirectory⟩ pd)
      (filled.shift (block.addr + blockHeaderSize))
      (top - argvBlockSize argv) (argvBlockSize argv) := by
    have size : top - (top - argvBlockSize argv) = argvBlockSize argv := by
      omega
    have onStack := @Copied.showsBlock (top - argvBlockSize argv) _ pd top
      _ after (filled.shift (block.addr + blockHeaderSize))
      (by rw [size]; exact copied) (Nat.sub_le _ _) user mapped
    rw [size] at onStack
    intro index bound
    have same := userView_congr kept
      (show top - argvBlockSize argv + index < kernelVirtBase by omega)
    rw [userRead, same]
    exact onStack index bound
  have esp : u32 (top + 2 ^ 32 - argvBlockSize argv) =
      top - argvBlockSize argv := by
    rw [u32]
    omega
  have nonzero : block.addr + blockHeaderSize ≠ 0 := by omega
  refine ⟨{ kernel with
      heap := freed
      pmm := after.pmm
      live := ((block.addr + blockHeaderSize) :: kernel.live).erase
        (block.addr + blockHeaderSize) },
    top - argvBlockSize argv, ?_, ?_, by omega, by omega, fits⟩
  · rw [setupUserArgv]
    simp only [Kernel.kmalloc, alloc, Option.bind_eq_bind, Option.bind_some,
      Option.pure_def, esp, Kernel.memory, filledEq, copying,
      Kernel.setMemory, Kernel.kfree, freeing, nonzero, if_false]
  · have argc := shows.userWord_eq (show 0 + 4 ≤ argvBlockSize argv by omega)
    rw [Nat.add_zero, count] at argc
    have strings := shows.userArgs_eq laid
      (fun arg member => (short arg member).1) (by omega) (by omega)
      (by omega)
    change decodeStack
      (userView ⟨freed.mem, after.pmm, kernel.kernelDirectory⟩ pd) _ = _
    rw [decodeStack]
    simp only [argc, Option.bind_eq_bind, Option.bind_some]
    exact strings

/-- The kernel directory stays, so the memory that is set is the memory. -/
theorem setMemory_memory {memory : Memory}
    (space : SpaceOk kernel.memory pd memory) :
    (kernel.setMemory memory).memory = memory := by
  have directory := space.kernel
  change memory.kernelDirectory = kernel.kernelDirectory at directory
  rw [Kernel.memory, Kernel.setMemory, ← directory]

/-- An address space made after the heap owns no frame of the heap. -/
theorem KernelOk.apart (ok : KernelOk kernel stop blocks) {memory : Memory}
    (space : SpaceOk kernel.memory pd memory) :
    HeapApart kernel.memory (kernel.setMemory memory) pd stop blocks := by
  have same := setMemory_memory space
  refine ⟨?_, same ▸ space, ok.backed⟩
  refine ok.heap.write rfl rfl fun block member index lower upper => ?_
  have header : blockHeaderSize = 12 := rfl
  have inside := ok.heap.tiled.inside member
  exact space.backed (ok.backed index (by omega) (by omega))

end RoundTrip

/-- Two strings, one of them empty, on a stack of one page. -/
theorem sampleArgs_passed : ∃ kernel kernel' pd esp,
    setupUserArgv kernel pd 0xbffff000 [[0x61, 0x62], []] =
        some (kernel', esp) ∧
      decodeStack (userView kernel'.memory pd) esp =
        some [[0x61, 0x62], []] := by
  have chain : (do
      let made ← pagingCreateAddressSpace sampleKernel.memory
      let taken ← made.1.allocFrame
      let mapped ← pagingMapPage taken.1 made.2 0xbfffe000 taken.2 7
      return (pagingWalk made.1 made.2 0xbfffe000).isNone &&
        validateUserPage mapped.1 made.2 0xbfffe000 false &&
        mapped.2 == 0) =
      some true := by
    decide +kernel
  simp only [Option.bind_eq_bind, Option.bind_eq_some_iff, Option.pure_def,
    Option.some.injEq, Bool.and_eq_true] at chain
  obtain ⟨⟨memory, pd⟩, created, ⟨taken, frame⟩, alloc, ⟨memory', code⟩,
    mapping, ⟨unmapped, valid⟩, _⟩ := chain
  have space := pagingCreate_ok (by decide) created
  obtain ⟨_, space', _⟩ := space.map (by decide)
    (Option.isNone_iff_eq_none.mp unmapped) alloc mapping
  have apart := sampleKernel_ok.apart space'
  have size : argvBlockSize [[0x61, 0x62], []] = 32 := by decide
  have stack : StackMapped (sampleKernel.setMemory memory').memory pd
      0xbffff000 (argvBlockSize [[0x61, 0x62], []]) := by
    rw [size, setMemory_memory space']
    refine ⟨by decide, by decide, fun addr lower upper => ?_⟩
    rw [← validateUserPage_iff, ← validateUserPage_page,
      show addr / 4096 * 4096 = 0xbfffe000 by omega]
    exact valid
  obtain ⟨kernel', esp, done, passed⟩ := setupUserArgv_passes (by decide)
    (by decide) (by decide) apart
    ⟨_, List.mem_singleton_self _, rfl, by rw [size]; decide⟩ stack
  exact ⟨_, kernel', pd, esp, done, passed.decoded⟩

end LoafOs
