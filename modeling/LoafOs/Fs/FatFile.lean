import LoafOs.Fs.FatDirectory

/-!
# The file operations of the driver

`fat_read_file`, `fat_write_file`, `fat_write_at`, `fat_delete_file`,
`fat_stat`, `fat_mkdir` and `fat_rmdir`, each with its return value and the
volume it leaves.  `slot` stands for the contents of the uninitialised
`dir_slot_t` of the two write calls, which go on when `dir_lookup` returns 3
without setting it.
-/

namespace LoafOs

/-- Read the sector of a slot, change it and write it back; the return
value is 1 when a transfer fails. -/
def updateSlot (volume : Volume) (slot : DirSlot)
    (change : Bytes → Bytes) : Nat × Volume :=
  match readLba volume.disk slot.sector 1 scratch with
  | none => (1, volume)
  | some sectorBuf => volume.write slot.sector 1 (change sectorBuf)

/-! ## Reading -/

/-- The results of `fat_read_file`.  `size` is `*size_out`; `stored` is how
many bytes went to `dest`, whole clusters of them. -/
structure FileRead where
  code : Nat
  size : Nat
  stored : Nat
  dest : Bytes

/-- The copy loop of `fat_read_file`: the return value, the bytes stored and
the buffer. -/
def readChain (volume : Volume) :
    (fuel cluster stored : Nat) → Bytes → Option (Nat × Nat × Bytes)
  | 0, _, _, _ => none
  | fuel + 1, cluster, stored, dest =>
      if ChainStop cluster then
        some (0, stored, dest)
      else
        match readLba volume.disk (volume.bpb.clusterLba cluster)
            volume.bpb.perCluster (dest.shift stored) with
        | none => some (2, stored, dest)
        | some out =>
            readChain volume fuel (volume.next cluster)
              (stored + volume.bpb.clusterSize)
              (dest.copy stored out volume.bpb.clusterSize)

/-- `fat_read_file`. -/
def fatReadFile (volume : Volume) (path : CString) (dest : Bytes) :
    Option FileRead := do
  let resolved ← resolvePath volume path
  if resolved.code ≠ 0 then
    return ⟨1, 0, 0, dest⟩
  if resolved.isRoot then
    return ⟨3, 0, 0, dest⟩
  let (r, slot, _) ←
    dirLookup volume resolved.dirCluster resolved.finalName .unset false
  if r ≠ 0 ∨ ¬ slot.existing then
    return ⟨1, 0, 0, dest⟩
  match readLba volume.disk slot.sector 1 scratch with
  | none => return ⟨1, 0, 0, dest⟩
  | some sectorBuf =>
      let (code, stored, dest) ←
        readChain volume chainFuel (direntFirst sectorBuf slot.offset) 0
          dest
      return ⟨code, direntSize sectorBuf slot.offset, stored, dest⟩

/-- `fat_stat_t`. -/
structure FatStat where
  name : CString
  size : Nat
  firstCluster : Nat
  attr : UInt8
  deriving DecidableEq, Repr

/-- `fat_stat`; the error is its return value. -/
def fatStat (volume : Volume) (path : CString) :
    Option (Except Nat FatStat) := do
  let resolved ← resolvePath volume path
  if resolved.code ≠ 0 then
    return .error 1
  if resolved.isRoot then
    return .ok ⟨[0x2f], 0, 0, attrDirectory⟩
  let (r, slot, _) ←
    dirLookup volume resolved.dirCluster resolved.finalName .unset false
  if r ≠ 0 ∨ ¬ slot.existing then
    return .error 1
  match readLba volume.disk slot.sector 1 scratch with
  | none => return .error 1
  | some sectorBuf =>
      return .ok
        { name := fromFatName (direntName sectorBuf slot.offset)
          size := direntSize sectorBuf slot.offset
          firstCluster := direntFirst sectorBuf slot.offset
          attr := direntAttr sectorBuf slot.offset }

/-- The beginning of the calls that change a volume: resolve the path and
look up its last component.  The error is a return value; otherwise the
result is the raw name, the first cluster of the directory, the return
value of `dir_lookup`, the slot and the volume. -/
def openTarget (volume : Volume) (path : CString) (rootCode : Nat)
    (slot : DirSlot) (create : Bool) :
    Option (Except Nat (List UInt8 × Nat × Nat × DirSlot × Volume)) := do
  let resolved ← resolvePath volume path
  if resolved.code ≠ 0 then
    return .error 1
  if resolved.isRoot then
    return .error rootCode
  let (r, slot, volume) ←
    dirLookup volume resolved.dirCluster resolved.finalName slot create
  return .ok (resolved.finalName, resolved.dirCluster, r, slot, volume)

/-! ## Replacing a file -/

/-- `if (e->first_cluster_low >= 2) fat_free_chain(...)`. -/
def freeFrom (volume : Volume) (first : Nat) : Option Volume :=
  if 2 ≤ first then volume.freeChain first else some volume

/-- The step of `fat_write_file` that frees the chain of an existing entry,
with a return value. -/
def releaseOld (volume : Volume) (slot : DirSlot) :
    Option (Nat × Volume) :=
  if slot.existing then
    match readLba volume.disk slot.sector 1 scratch with
    | none => some (1, volume)
    | some sectorBuf => do
        let volume ←
          freeFrom volume (direntFirst sectorBuf slot.offset)
        return (0, volume)
  else
    some (0, volume)

/-- The loop of `fat_write_file`: `first` and `prev` are the first and the
last cluster taken so far, `pos` is `src - data`.  Every pass takes one
cluster, so the loop is over after `chainFuel` of them. -/
def writeChain (data : Bytes) :
    (fuel first prev pos remaining : Nat) → Volume →
      Option (Nat × Nat × Nat × Volume)
  | 0, _, _, _, _, _ => none
  | fuel + 1, first, prev, pos, remaining, volume =>
      if remaining = 0 then
        some (0, first, prev, volume)
      else do
        let (c, volume) ← fatAllocCluster volume
        if c = 0 then
          if first = 0 then
            return (3, first, prev, volume)
          let volume ← volume.freeChain first
          return (3, first, prev, volume)
        let first := if prev = 0 then c else first
        let volume := if prev = 0 then volume else volume.setEntry prev c
        let chunk := min remaining volume.bpb.clusterSize
        let clusterBuf :=
          (scratch.fill 0 0 volume.bpb.clusterSize).copy 0
            (data.shift pos) chunk
        let (failed, volume) :=
          volume.write (volume.bpb.clusterLba c) volume.bpb.perCluster
            clusterBuf
        if failed ≠ 0 then
          return (1, first, prev, volume)
        writeChain data fuel first c (pos + chunk) (remaining - chunk)
          volume

/-- `fat_write_file` after `dir_lookup`. -/
def replaceFile (volume : Volume) (slot : DirSlot) (target : List UInt8)
    (data : Bytes) (size : Nat) : Option (Nat × Volume) := do
  let (failed, volume) ← releaseOld volume slot
  if failed ≠ 0 then
    return (1, volume)
  let (code, first, prev, volume) ←
    writeChain data chainFuel 0 0 0 size volume
  if code ≠ 0 then
    return (code, volume)
  let volume :=
    if prev = 0 then volume else volume.setEntry prev fatEocMark
  let (failed, volume) := fatFlush volume
  if failed ≠ 0 then
    return (1, volume)
  return updateSlot volume slot fun sectorBuf =>
    putDirent sectorBuf slot.offset target attrArchive first size

/-- `fat_write_file`. -/
def fatWriteFile (volume : Volume) (slot : DirSlot) (path : CString)
    (data : Bytes) (size : Nat) : Option (Nat × Volume) := do
  match ← openTarget volume path 4 slot true with
  | .error code => return (code, volume)
  | .ok (target, _, r, slot, volume) =>
      if r = 1 then
        return (1, volume)
      if r = 2 then
        return (2, volume)
      replaceFile volume slot target data size

/-! ## Writing in place -/

/-- The step from a cluster to the next one in `fat_write_at`; at the end
of the chain a cluster is allocated, and the result 0 is the return value 3
of the function. -/
def nextOrAlloc (volume : Volume) (cluster : Nat) :
    Option (Nat × Volume) := do
  let next := volume.next cluster
  if next = 0 ∨ 0x0ff8 ≤ next then
    let (next, volume) ← fatAllocCluster volume
    if next = 0 then
      return (0, volume)
    return (next, volume.setEntry cluster next)
  return (next, volume)

/-- The first loop of `fat_write_at`, over the clusters before the
offset. -/
def skipClusters : (count cluster : Nat) → Volume →
    Option (Nat × Volume)
  | 0, cluster, volume => some (cluster, volume)
  | count + 1, cluster, volume => do
      let (next, volume) ← nextOrAlloc volume cluster
      if next = 0 then
        return (0, volume)
      skipClusters count next volume

/-- The second loop of `fat_write_at`, with `count` passes left; `pos` is
`src - data`. -/
def writeClusters (data : Bytes) :
    (count cluster curOff pos bytesLeft : Nat) → Volume →
      Option (Nat × Volume)
  | 0, _, _, _, _, volume => some (0, volume)
  | count + 1, cluster, curOff, pos, bytesLeft, volume => do
      let lba := volume.bpb.clusterLba cluster
      let space := volume.bpb.clusterSize - curOff
      let chunk := min bytesLeft space
      let loaded :=
        if curOff ≠ 0 ∨ chunk < volume.bpb.clusterSize then
          readLba volume.disk lba volume.bpb.perCluster scratch
        else
          some scratch
      match loaded with
      | none => return (1, volume)
      | some clusterBuf =>
          let (failed, volume) :=
            volume.write lba volume.bpb.perCluster
              (clusterBuf.copy curOff (data.shift pos) chunk)
          if failed ≠ 0 then
            return (1, volume)
          if count = 0 then
            return (0, volume)
          let (next, volume) ← nextOrAlloc volume cluster
          if next = 0 then
            return (3, volume)
          writeClusters data count next 0 (pos + chunk)
            (bytesLeft - chunk) volume

/-- The entry that `fat_write_at` starts from: the one in the slot, or a
fresh one; `none` after a read error. -/
def loadEntry (volume : Volume) (slot : DirSlot) (target : List UInt8) :
    Option Bytes :=
  if slot.existing then do
    let sectorBuf ← readLba volume.disk slot.sector 1 scratch
    return sectorBuf.shift slot.offset
  else
    some (putDirent scratch 0 target attrArchive 0 0)

/-- The cluster that `fat_write_at` starts from; 0 if none is left. -/
def firstCluster (volume : Volume) (first : Nat) :
    Option (Nat × Volume) :=
  if first < 2 then fatAllocCluster volume else some (first, volume)

/-- `fat_write_at` after `dir_lookup`. -/
def spliceFile (volume : Volume) (slot : DirSlot) (target : List UInt8)
    (offset : Nat) (data : Bytes) (len : Nat) :
    Option (Nat × Volume) := do
  match loadEntry volume slot target with
  | none => return (1, volume)
  | some ent =>
      let oldSize := ent.word32 28
      let startIdx := offset / volume.bpb.clusterSize
      let endIdx := u32 (offset + len - 1) / volume.bpb.clusterSize
      let (first, volume) ← firstCluster volume (ent.word16 26)
      if first = 0 then
        return (3, volume)
      let (cluster, volume) ← skipClusters startIdx first volume
      if cluster = 0 then
        return (3, volume)
      let (code, volume) ←
        writeClusters data (endIdx + 1 - startIdx) cluster
          (offset % volume.bpb.clusterSize) 0 len volume
      if code ≠ 0 then
        return (code, volume)
      let newSize := max (u32 (offset + len)) oldSize
      let ent := (ent.putWord16 26 first).putWord32 28 newSize
      let (failed, volume) := fatFlush volume
      if failed ≠ 0 then
        return (1, volume)
      return updateSlot volume slot fun sectorBuf =>
        sectorBuf.copy slot.offset ent 32

/-- `fat_write_at`. -/
def fatWriteAt (volume : Volume) (slot : DirSlot) (path : CString)
    (offset : Nat) (data : Bytes) (len : Nat) :
    Option (Nat × Volume) := do
  if len = 0 then
    return (0, volume)
  match ← openTarget volume path 4 slot true with
  | .error code => return (code, volume)
  | .ok (target, _, r, slot, volume) =>
      if r = 1 then
        return (1, volume)
      if r = 2 then
        return (2, volume)
      spliceFile volume slot target offset data len

/-! ## Removing files, making and removing directories -/

/-- `fat_delete_file` after `dir_lookup`. -/
def deleteEntry (volume : Volume) (slot : DirSlot) :
    Option (Nat × Volume) := do
  match readLba volume.disk slot.sector 1 scratch with
  | none => return (1, volume)
  | some sectorBuf =>
      if direntAttr sectorBuf slot.offset &&& attrDirectory ≠ 0 then
        return (3, volume)
      let volume ←
        freeFrom volume (direntFirst sectorBuf slot.offset)
      let (failed, volume) :=
        volume.write slot.sector 1 (sectorBuf.put slot.offset 0xe5)
      if failed ≠ 0 then
        return (1, volume)
      return fatFlush volume

/-- `fat_delete_file`. -/
def fatDeleteFile (volume : Volume) (path : CString) :
    Option (Nat × Volume) := do
  match ← openTarget volume path 4 .unset false with
  | .error code => return (code, volume)
  | .ok (_, _, r, slot, volume) =>
      if r = 1 then
        return (1, volume)
      if r = 2 ∨ ¬ slot.existing then
        return (2, volume)
      deleteEntry volume slot

/-- The two entries that `fat_mkdir` writes into a new directory. -/
def dotEntries (newc parentCluster : Nat) : Bytes :=
  putDirent
    (putDirent scratch 0 (padName 11 [0x2e]) attrDirectory newc 0) 32
    (padName 11 [0x2e, 0x2e]) attrDirectory parentCluster 0

/-- `fat_mkdir` after `dir_lookup`. -/
def makeDirectory (volume : Volume) (slot : DirSlot)
    (target : List UInt8) (parentCluster : Nat) :
    Option (Nat × Volume) := do
  let (newc, volume) ← fatAllocCluster volume
  if newc = 0 then
    return (4, volume)
  let volume := volume.setEntry newc fatEocMark
  let (failed, volume) :=
    volume.write (volume.bpb.clusterLba newc) volume.bpb.perCluster
      (dotEntries newc parentCluster)
  if failed ≠ 0 then
    return (1, volume)
  let (failed, volume) := fatFlush volume
  if failed ≠ 0 then
    return (1, volume)
  return updateSlot volume slot fun sectorBuf =>
    putDirent sectorBuf slot.offset target attrDirectory newc 0

/-- `fat_mkdir`. -/
def fatMkdir (volume : Volume) (path : CString) :
    Option (Nat × Volume) := do
  match ← openTarget volume path 5 .unset true with
  | .error code => return (code, volume)
  | .ok (target, parentCluster, r, slot, volume) =>
      if r = 1 then
        return (1, volume)
      if r = 2 ∨ r = 3 then
        return (2, volume)
      if slot.existing then
        return (3, volume)
      makeDirectory volume slot target parentCluster

/-- `fat_rmdir` after `dir_lookup`. -/
def removeDirectory (volume : Volume) (slot : DirSlot) :
    Option (Nat × Volume) := do
  match readLba volume.disk slot.sector 1 scratch with
  | none => return (1, volume)
  | some sectorBuf =>
      if direntAttr sectorBuf slot.offset &&& attrDirectory = 0 then
        return (3, volume)
      let targetCluster := direntFirst sectorBuf slot.offset
      if targetCluster < 2 then
        return (4, volume)
      let empty ← dirIsEmpty volume targetCluster
      if empty < 0 then
        return (1, volume)
      if empty = 0 then
        return (5, volume)
      let volume ← volume.freeChain targetCluster
      let (failed, volume) := fatFlush volume
      if failed ≠ 0 then
        return (1, volume)
      return updateSlot volume slot fun sectorBuf =>
        sectorBuf.put slot.offset 0xe5

/-- `fat_rmdir`. -/
def fatRmdir (volume : Volume) (path : CString) :
    Option (Nat × Volume) := do
  match ← openTarget volume path 6 .unset false with
  | .error code => return (code, volume)
  | .ok (_, _, r, slot, volume) =>
      if r = 1 then
        return (1, volume)
      if r = 2 ∨ r = 3 ∨ ¬ slot.existing then
        return (2, volume)
      removeDirectory volume slot

end LoafOs
