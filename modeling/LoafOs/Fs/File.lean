import LoafOs.Fs.FatFile

/-!
# Open files

`src/fs/file.c`: the table of open files, and the stream operations on top
of the driver.  The kernel heap enters as the result of `kmalloc`, which
may fail, and as the bytes that the buffer holds at first.
-/

namespace LoafOs

/-- `MAX_OPEN_FILES`. -/
def maxOpenFiles : Nat := 128

/-- `open_file_t`. -/
structure OpenFile where
  inUse : Bool
  path : CString
  offset : UInt32
  size : UInt32
  writable : Bool
  deriving DecidableEq, Repr

/-- The mounted volume and `open_files`. -/
structure FileSystem where
  volume : Volume
  openFiles : Nat → OpenFile

namespace FileSystem

/-- The entry of an index that the calls accept. -/
def handle (fs : FileSystem) (idx : Int) : Option OpenFile :=
  if idx < 0 ∨ (maxOpenFiles : Int) ≤ idx then none
  else if (fs.openFiles idx.toNat).inUse then some (fs.openFiles idx.toNat)
  else none

/-- One entry of the table is replaced. -/
def setFile (fs : FileSystem) (slot : Nat) (file : OpenFile) : FileSystem :=
  { fs with openFiles := Function.update fs.openFiles slot file }

end FileSystem

/-- The first unused entry of `open_files`, if there is one. -/
def freeHandle (openFiles : Nat → OpenFile) : Option Nat :=
  (List.range maxOpenFiles).find? fun i => ¬ (openFiles i).inUse

/-- The number of characters that `open_file_t` keeps of a path. -/
def pathCapacity : Nat := 63

/-- `writable && fat_write_file(path, 0, 0)`. -/
def truncateFile (volume : Volume) (stack : DirSlot) (path : CString)
    (writable : Bool) : Option (Nat × Volume) :=
  if writable then fatWriteFile volume stack path scratch 0
  else some (0, volume)

/-- `file_open`; `stack` is what the slot variable of `fat_write_file`
holds. -/
def fileOpen (fs : FileSystem) (stack : DirSlot) (path : CString)
    (writable : Bool) : Option (Int × FileSystem) := do
  let stat ← fatStat fs.volume path
  if ¬ writable ∧ ¬ stat.isOk then
    return (-1, fs)
  match freeHandle fs.openFiles with
  | none => return (-1, fs)
  | some slot =>
      let (code, volume) ← truncateFile fs.volume stack path writable
      let fs := { fs with volume }
      if code ≠ 0 then
        return (-1, fs)
      let size :=
        match stat with
        | .ok st => if writable then 0 else UInt32.ofNat st.size
        | .error _ => 0
      return (slot, fs.setFile slot
        { inUse := true
          path := path.take pathCapacity
          offset := 0
          size
          writable })

/-- `file_close`. -/
def fileClose (fs : FileSystem) (idx : Int) : FileSystem :=
  if idx < 0 ∨ (maxOpenFiles : Int) ≤ idx then fs
  else
    fs.setFile idx.toNat { fs.openFiles idx.toNat with inUse := false }

/-- `fat_read_alloc_size`, with the wrapping of `uint32_t`. -/
def fatReadAllocSize (bpb : Bpb) (fileSize : UInt32) : UInt32 :=
  (fileSize + UInt32.ofNat bpb.clusterSize - 1) &&&
    ~~~ (UInt32.ofNat bpb.clusterSize - 1)

/-- The result of `file_read`: the return value, the bytes that go to the
caller and the file system. -/
structure StreamRead where
  result : Int
  bytes : List UInt8
  fs : FileSystem

/-- `file_read`; `heap` is what the temporary buffer holds at first, or
`none` when `kmalloc` fails. -/
def fileRead (fs : FileSystem) (heap : Option Bytes) (idx : Int)
    (len : UInt32) : Option StreamRead := do
  match fs.handle idx with
  | none => return ⟨-1, [], fs⟩
  | some f =>
      match heap with
      | none => return ⟨-1, [], fs⟩
      | some heap =>
          let read ← fatReadFile fs.volume f.path heap
          if read.code ≠ 0 then
            return ⟨-1, [], fs⟩
          let remaining := f.size - f.offset
          let toCopy := if len < remaining then len else remaining
          return ⟨toCopy.toInt32.toInt,
            read.dest.slice f.offset.toNat toCopy.toNat,
            fs.setFile idx.toNat { f with offset := f.offset + toCopy }⟩

/-- `file_write`; `stack` is what the slot variable of `fat_write_at`
holds. -/
def fileWrite (fs : FileSystem) (stack : DirSlot) (idx : Int)
    (data : Bytes) (len : UInt32) : Option (Int × FileSystem) := do
  match fs.handle idx with
  | none => return (-1, fs)
  | some f =>
      if ¬ f.writable then
        return (-1, fs)
      let (code, volume) ←
        fatWriteAt fs.volume stack f.path f.offset.toNat data len.toNat
      let fs := { fs with volume }
      if code ≠ 0 then
        return (-1, fs)
      let offset := f.offset + len
      let size := if f.size < offset then offset else f.size
      return (len.toInt32.toInt, fs.setFile idx.toNat
        { f with offset, size })

end LoafOs
