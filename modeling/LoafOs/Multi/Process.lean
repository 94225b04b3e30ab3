import LoafOs.Userspace.Exe

/-!
# Creating a process

`process_create` of `src/multi/process.c`.  The blocks of a `process_t` and
of its kernel stack come from the kernel heap; the fields of the structure
are kept as a record.
-/

namespace LoafOs

/-- `proc_state_t`. -/
inductive ProcState where
  | ready
  | running
  | blocked
  | dead
  deriving DecidableEq, Repr

/-- `proc_block_t`. -/
inductive ProcBlock where
  | pid
  | input
  | sleep
  | none
  deriving DecidableEq, Repr

/-- `MAX_FDS_PER_PROC` and `MAX_DIRS_PER_PROC`. -/
def maxFdsPerProc : Nat := 16
def maxDirsPerProc : Nat := 8

def maxProcName : Nat := 32
def maxBuf : Nat := 128

/-- `sizeof(process_t)`. -/
def processSize : Nat := 392

/-- `KERNEL_STACK_SIZE`. -/
def kernelStackSize : Nat := 8192

/-- `process_t`, with the address of its block; `next` is the order of the
process list. -/
structure Process where
  addr : Nat
  pid : Nat
  ppid : Nat
  targetPid : Nat
  image : Image
  esp0 : Nat
  kstack : Nat
  savedEsp : Nat
  resumeTick : Nat
  fds : List Int
  dirsInUse : List Bool
  exitCode : Int
  state : ProcState
  block : ProcBlock
  name : CString
  cwd : CString
  cleanedUp : Bool
  deriving DecidableEq, Repr

/-- `(uint32_t)-1`. -/
def noPid : Nat := 2 ^ 32 - 1

/-- The words that `init_fake_stack` pushes, the last one first. -/
def fakeStack (isrReturn : Nat) (image : Image) : List Nat :=
  [0, 0, 0, 0, isrReturn, 0x23, 0x23, 0x23, 0x23,
    0, 0, 0, 0, 0, 0, 0, 0, 0, 0,
    image.entryPoint, 0x1b, 0x202, image.userStackTop, 0x23]

/-- Consecutive words of memory. -/
def putWords (mem : Bytes) (addr : Nat) : List Nat → Bytes
  | [] => mem
  | word :: words => putWords (mem.putWord32 addr word) (addr + 4) words

theorem putWords_other {mem : Bytes} {words : List Nat}
    {addr index : Nat}
    (outside : index < addr ∨ addr + 4 * words.length ≤ index) :
    putWords mem addr words index = mem index := by
  induction words generalizing mem addr with
  | nil => rfl
  | cons word words inductionHypothesis =>
      rw [List.length_cons] at outside
      rw [putWords, inductionHypothesis (by omega)]
      exact Bytes.putWord32_other (by omega)

/-- `copy_to_user`: the bytes go through the pages of the directory; a page
that is not mapped is a fault in the kernel. -/
def copyToUser (memory : Memory) (pd dest : Nat) (src : Bytes) :
    Nat → Option Memory
  | 0 => some memory
  | count + 1 => do
      let paddr ← pagingWalk memory pd dest
      copyToUser
        { memory with mem := memory.mem.put (physToVirt paddr) (src 0) }
        pd (u32 (dest + 1)) (src.shift 1) count

/-- The bytes of `argv` one after the other, with their terminators. -/
def argvBytes (argv : List CString) : List UInt8 :=
  argv.flatMap fun arg => arg ++ [0]

/-- The offsets of the strings in that block. -/
def argvOffsets (offset : Nat) : List CString → List Nat
  | [] => []
  | arg :: argv => offset :: argvOffsets (offset + arg.length + 1) argv

/-- `(4 + ptr_block + str_len + 15) & ~15`. -/
def argvBlockSize (argv : List CString) : Nat :=
  u32 (4 + (argv.length + 1) * 4 + (argvBytes argv).length + 15) / 16 * 16

/-- The contents of the block that `setup_user_argv` builds. -/
def argvBlock (mem : Bytes) (argv : List CString) (kbuf esp : Nat) : Bytes :=
  let strOff := 4 + (argv.length + 1) * 4
  let cleared := mem.fill kbuf 0 (argvBlockSize argv)
  let strings := cleared.copy (kbuf + strOff)
    (fun index => (argvBytes argv).getD index 0) (argvBytes argv).length
  putWords strings kbuf
    (argv.length ::
      (argvOffsets strOff argv).map (fun offset => u32 (esp + offset)) ++ [0])

/-- `setup_user_argv`. -/
def setupUserArgv (kernel : Kernel) (pd stackTop : Nat)
    (argv : List CString) : Option (Kernel × Nat) := do
  let (kernel, kbuf) ← kernel.kmalloc (argvBlockSize argv)
  let esp := u32 (stackTop + 2 ^ 32 - argvBlockSize argv)
  let memory := { kernel.memory with
    mem := argvBlock kernel.heap.mem argv kbuf esp }
  let memory ← copyToUser memory pd esp (memory.mem.shift kbuf)
    (argvBlockSize argv)
  let kernel ← (kernel.setMemory memory).kfree kbuf
  return (kernel, esp)

/-- `set_proc_name`: the part after the last slash, cut to the field. -/
def procName (path : CString) : CString :=
  (path.reverse.takeWhile (· ≠ 0x2f)).reverse.take (maxProcName - 1)

/-- The kernel with the process table. -/
structure System where
  kernel : Kernel
  nextPid : Nat
  procList : List Process

/-- `process_create`; the error is what it stores in `*err_out` before it
returns `NULL`.  `isrReturn` is the address of the label of that name. -/
def processCreate (system : System) (isrReturn : Nat) (path : CString)
    (argv : List CString) : Option (System × Except Int Process) := do
  let (kernel, proc) ← system.kernel.kmalloc processSize
  if proc = 0 then
    return ({ system with kernel }, .error (-1))
  match ← execLoad kernel path with
  | (kernel, .error code) =>
      return ({ system with kernel }, .error code)
  | (kernel, .ok image) =>
      let (kernel, kstack) ← kernel.kmalloc kernelStackSize
      if kstack = 0 then
        return ({ system with kernel }, .error (-2))
      let (kernel, stackTop) ←
        setupUserArgv kernel image.pdPhys image.userStackTop argv
      let image := { image with userStackTop := stackTop }
      let esp0 := u32 (kstack + kernelStackSize)
      let frame := fakeStack isrReturn image
      let savedEsp := u32 (esp0 + 2 ^ 32 - 4 * frame.length)
      let kernel := { kernel with
        heap := { kernel.heap with
          mem := putWords kernel.heap.mem savedEsp frame } }
      return ({ system with kernel, nextPid := u32 (system.nextPid + 1) },
        .ok
          { addr := proc
            pid := system.nextPid
            ppid := noPid
            targetPid := noPid
            image
            esp0
            kstack
            savedEsp
            resumeTick := noPid
            fds := List.replicate maxFdsPerProc (-1)
            dirsInUse := List.replicate maxDirsPerProc false
            exitCode := -1
            state := .ready
            block := .none
            name := procName path
            cwd := [0x2f]
            cleanedUp := false })

end LoafOs
