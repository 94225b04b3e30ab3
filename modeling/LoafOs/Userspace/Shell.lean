import LoafOs.Libc.ResolveCwd
import LoafOs.Libc.Stdio

/-!
# The shell

`src/init/shell.c` from its first prompt on: the line editor, the parser of
a line and the commands.
-/

namespace LoafOs

open CStrings

/-- What the shell calls, over the state of everything else.  `stack` is
what a local array holds before it is written. -/
structure ShellCalls (World : Type) where
  cwd : World → CString
  stat : World → CString → Option UInt8
  chdir : World → CString → World
  spawn : World → CString → List CString → World × Int32
  wait : World → Int32 → World
  printf : World → CString → List VaArg → World
  stack : World → Nat → UInt8

/-- A local array. -/
def ShellCalls.local {World : Type} (calls : ShellCalls World)
    (world : World) (size : Nat) : List UInt8 :=
  (List.range size).map (calls.stack world)

/-- The static arrays of the shell, and `buf_index`. -/
structure Shell where
  buffer : List UInt8
  bufIndex : Nat
  pathBuf : List UInt8
  cwdDisplay : List UInt8

/-! ## The texts -/

/-- `"loaf-os:%s> "`. -/
def promptFormat : CString :=
  [0x6c, 0x6f, 0x61, 0x66, 0x2d, 0x6f, 0x73, 0x3a, 0x25, 0x73, 0x3e, 0x20]

/-- `"cd: no such directory: %s\n"`. -/
def noDirectoryFormat : CString :=
  [0x63, 0x64, 0x3a, 0x20, 0x6e, 0x6f, 0x20, 0x73, 0x75, 0x63, 0x68, 0x20,
    0x64, 0x69, 0x72, 0x65, 0x63, 0x74, 0x6f, 0x72, 0x79, 0x3a, 0x20, 0x25,
    0x73, 0x0a]

/-- `"cd: not a directory: %s\n"`. -/
def notDirectoryFormat : CString :=
  [0x63, 0x64, 0x3a, 0x20, 0x6e, 0x6f, 0x74, 0x20, 0x61, 0x20, 0x64, 0x69,
    0x72, 0x65, 0x63, 0x74, 0x6f, 0x72, 0x79, 0x3a, 0x20, 0x25, 0x73, 0x0a]

/-- `"command not found..."`. -/
def notFoundText : CString :=
  [0x63, 0x6f, 0x6d, 0x6d, 0x61, 0x6e, 0x64, 0x20, 0x6e, 0x6f, 0x74, 0x20,
    0x66, 0x6f, 0x75, 0x6e, 0x64, 0x2e, 0x2e, 0x2e]

/-- `"%c"`. -/
def echoFormat : CString := [0x25, 0x63]

/-- `"cd"`, `"&"`, `"/"` and `"/bin/"`. -/
def cdName : CString := [0x63, 0x64]
def ampersand : CString := [0x26]
def rootName : CString := [0x2f]
def binPrefix : CString := [0x2f, 0x62, 0x69, 0x6e, 0x2f]

/-! ## A line -/

/-- `*p == ' ' || *p == '\t'`. -/
def isSeparator (c : UInt8) : Bool := c == 0x20 || c == 0x09

/-- `parse_args`, with room for so many more arguments: the line with its
NULs and the pointers of `argv`. -/
def parseArgs : (room : Nat) → (chars : List UInt8) → (p : Nat) →
    Option (List UInt8 × List Nat)
  | 0, chars, p => do
      let _ ← chars[p]?
      return (chars, [])
  | room + 1, chars, p => do
      let c ← chars[p]?
      if c = 0 then
        return (chars, [])
      let word ← scanFor (fun c => !isSeparator c) chars p
      let c ← chars[word]?
      if c = 0 then
        return (chars, [])
      let p ← scanFor (fun c => c == 0 || isSeparator c) chars word
      let c ← chars[p]?
      if c = 0 then
        let (chars, argv) ← parseArgs room chars p
        return (chars, word :: argv)
      let chars ← store chars p 0
      let (chars, argv) ← parseArgs room chars (p + 1)
      return (chars, word :: argv)

/-- `resolve_bin_path` of the string at a pointer: `path_buf` and the
path. -/
def resolveBinPath (pathBuf chars : List UInt8) (name : Nat) :
    Option (List UInt8 × CString) := do
  let first ← chars[name]?
  if first = 0x2f then
    return (pathBuf, ← stringAt chars name)
  let length ← strlen chars name
  let len := if 128 < length then 128 else length
  let pathBuf ← memcpy 5 pathBuf 0 (binPrefix ++ [0]) 0
  let pathBuf ← memcpy len pathBuf 5 chars name
  let pathBuf ← store pathBuf (5 + len) 0
  return (pathBuf, ← stringAt pathBuf 0)

section Commands

variable {World : Type}

/-- `path_resolve_cwd` into an array of `MAX_BUF` bytes. -/
def resolveCwd (calls : ShellCalls World) (world : World)
    (array : List UInt8) (p : Nat) : Option CString :=
  pathResolveCwd (calls.cwd world) (calls.local world 128)
    (calls.local world 256) array p 128

/-- `resolve_exec_path`. -/
def resolveExecPath (calls : ShellCalls World) (world : World)
    (pathBuf chars : List UInt8) (name : Nat) :
    Option (List UInt8 × CString) := do
  if (← strchr chars name 0x2f).isSome then
    return (pathBuf, ← resolveCwd calls world chars name)
  else
    resolveBinPath pathBuf chars name

/-- The target of `cd`, from the pointers behind `argv[0]`. -/
def cdTarget (calls : ShellCalls World) (world : World)
    (chars : List UInt8) : List Nat → Option CString
  | [] => resolveCwd calls world (rootName ++ [0]) 0
  | target :: _ => resolveCwd calls world chars target

/-- The branch of `cd`. -/
def changeDirectory (calls : ShellCalls World) (world : World)
    (chars : List UInt8) (args : List Nat) : Option World := do
  let resolved ← cdTarget calls world chars args
  match calls.stat world resolved with
  | none =>
      return calls.printf world noDirectoryFormat [.string (some resolved)]
  | some attr =>
      if attr &&& 0x10 = 0 then
        return calls.printf world notDirectoryFormat [.string (some resolved)]
      else
        return calls.chdir world resolved

/-- The branch of every other command. -/
def runCommand (calls : ShellCalls World) (world : World)
    (pathBuf chars : List UInt8) (name : Nat) (argv : List Nat)
    (lastArg : Nat) : Option (List UInt8 × World) := do
  let (pathBuf, path) ← resolveExecPath calls world pathBuf chars name
  let args ← argv.mapM (stringAt chars)
  let (world, pid) := calls.spawn world path args
  if pid < 0 then
    return (pathBuf, calls.printf world notFoundText [])
  let order ← strcmp chars lastArg (ampersand ++ [0]) 0
  if order ≠ 0 then
    return (pathBuf, calls.wait world pid)
  return (pathBuf, world)

/-- `prompt`. -/
def prompt (calls : ShellCalls World) (shell : Shell) (world : World) :
    Option (Shell × World) := do
  let cwdDisplay ← getcwd (calls.cwd world) shell.cwdDisplay 128
  let shown ← stringAt cwdDisplay 0
  let shell := { shell with
    buffer := List.replicate 128 0
    bufIndex := 0
    cwdDisplay }
  return (shell, calls.printf world promptFormat [.string (some shown)])

/-- The end of a line. -/
def enterLine (calls : ShellCalls World) (shell : Shell) (world : World) :
    Option (Shell × World) := do
  let (chars, argv) ← parseArgs 16 shell.buffer 0
  let shell := { shell with buffer := chars }
  match argv with
  | [] => prompt calls shell world
  | name :: args =>
      let order ← strcmp chars name (cdName ++ [0]) 0
      if order = 0 then
        let world ← changeDirectory calls world chars args
        prompt calls shell world
      else
        let (pathBuf, world) ← runCommand calls world shell.pathBuf chars name
          (name :: args) (args.getLastD name)
        prompt calls { shell with pathBuf } world

/-- One round of the loop of `main`, with what `getchar` has returned. -/
def shellKey (calls : ShellCalls World) (c : Int32) (shell : Shell)
    (world : World) : Option (Shell × World) := do
  if ¬ -1 < c then
    return (shell, world)
  let world := calls.printf world echoFormat [.word c.toUInt32]
  if c = 0x0a then
    enterLine calls shell world
  else if c = 0x08 then
    if 0 < shell.bufIndex then
      let buffer ← store shell.buffer (shell.bufIndex - 1) 0
      return ({ shell with buffer, bufIndex := shell.bufIndex - 1 }, world)
    else
      return (shell, calls.printf world [0x20] [])
  else if shell.bufIndex < 127 then
    let buffer ← store shell.buffer shell.bufIndex c.toUInt32.toUInt8
    return ({ shell with buffer, bufIndex := shell.bufIndex + 1 }, world)
  else
    return (shell, world)

/-- The loop of `main`, over the keys that it gets. -/
def shellRun (calls : ShellCalls World) : List Int32 → Shell → World →
    Option (Shell × World)
  | [], shell, world => some (shell, world)
  | c :: keys, shell, world => do
      let (shell, world) ← shellKey calls c shell world
      shellRun calls keys shell world

end Commands

/-! ## What a line says -/

/-- The words of a line. -/
def lineWords (typed : List UInt8) : List CString :=
  (fields isSeparator (typed.takeWhile (· ≠ 0))).take 16

inductive ShellCommand where
  | nothing
  | cd (path : CString)
  | exec (path : CString) (argv : List CString) (background : Bool)
  deriving DecidableEq

/-- A path as the shell reads it. -/
def shellPath (cwd path : CString) : CString :=
  pathNormalize (joinCwd cwd path) 128

/-- The command of a line in a working directory. -/
def commandOf (cwd : CString) (typed : List UInt8) : ShellCommand :=
  match lineWords typed with
  | [] => .nothing
  | name :: args =>
      if name = cdName then
        .cd (shellPath cwd (args.headD rootName))
      else
        .exec
          (if 0x2f ∈ name then shellPath cwd name else binPrefix ++ name)
          (name :: args) ((name :: args).getLast? == some ampersand)

section Typing

variable {World : Type}

/-- What a command does. -/
def perform (calls : ShellCalls World) (world : World) :
    ShellCommand → World
  | .nothing => world
  | .cd path =>
      match calls.stat world path with
      | none => calls.printf world noDirectoryFormat [.string (some path)]
      | some attr =>
          if attr &&& 0x10 = 0 then
            calls.printf world notDirectoryFormat [.string (some path)]
          else
            calls.chdir world path
  | .exec path argv background =>
      let (world, pid) := calls.spawn world path argv
      if pid < 0 then
        calls.printf world notFoundText []
      else if background then
        world
      else
        calls.wait world pid

/-- The prompt with the working directory. -/
def showPrompt (calls : ShellCalls World) (world : World) : World :=
  calls.printf world promptFormat [.string (some (calls.cwd world))]

/-- A key, in terms of the line that has been typed. -/
def typeKey (calls : ShellCalls World) (c : Int32) (typed : List UInt8)
    (world : World) : List UInt8 × World :=
  if ¬ -1 < c then
    (typed, world)
  else
    let world := calls.printf world echoFormat [.word c.toUInt32]
    if c = 0x0a then
      ([], showPrompt calls
        (perform calls world (commandOf (calls.cwd world) typed)))
    else if c = 0x08 then
      if typed = [] then
        (typed, calls.printf world [0x20] [])
      else
        (typed.dropLast, world)
    else if typed.length < 127 then
      (typed ++ [c.toUInt32.toUInt8], world)
    else
      (typed, world)

def typeKeys (calls : ShellCalls World) : List Int32 → List UInt8 → World →
    List UInt8 × World
  | [], typed, world => (typed, world)
  | c :: keys, typed, world =>
      let (typed, world) := typeKey calls c typed world
      typeKeys calls keys typed world

end Typing

end LoafOs
