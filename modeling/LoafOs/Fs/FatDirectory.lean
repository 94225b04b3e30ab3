import LoafOs.Fs.FatVolume

/-!
# Names, directories and paths

The 8.3 name conversions, the scan of a directory for a name or a free
slot, the emptiness test and the resolution of a path.  A walk along a
cluster chain that is still going after `chainFuel` clusters has come back
to one of them and never ends; its result is `none`.
-/

namespace LoafOs

/-- The bytes of a C string before its terminating NUL. -/
abbrev CString := List UInt8

def toUpper (c : UInt8) : UInt8 :=
  if 0x61 ≤ c ∧ c ≤ 0x7a then c - 0x20 else c

/-- A name field of `width` bytes, padded with spaces. -/
def padName (width : Nat) (name : List UInt8) : List UInt8 :=
  name ++ List.replicate (width - name.length) 0x20

/-- `to_fat_name`. -/
def toFatName (name : CString) : List UInt8 :=
  let base := (name.takeWhile (· ≠ 0x2e)).take 8
  let ext :=
    match name.drop base.length with
    | 0x2e :: rest => rest.take 3
    | _ => []
  padName 8 (base.map toUpper) ++ padName 3 (ext.map toUpper)

/-- `from_fat_name`. -/
def fromFatName (raw : List UInt8) : CString :=
  (raw.take 8).takeWhile (· ≠ 0x20) ++
    if raw.getD 8 0 ≠ 0x20 then
      0x2e :: ((raw.drop 8).take 3).takeWhile (· ≠ 0x20)
    else
      []

/-- `split_next`: the next component, at most twelve bytes of it, and the
rest of the path. -/
def splitNext (path : CString) : Option (CString × CString) :=
  let p := path.dropWhile (· = 0x2f)
  if p = [] then
    none
  else
    let comp := (p.takeWhile (· ≠ 0x2f)).take 12
    some (comp, p.drop comp.length)

/-! ## Directory entries -/

/-- The fields of the `fat12_dirent_t` at offset `off` of a buffer. -/
def direntName (buffer : Bytes) (off : Nat) : List UInt8 :=
  buffer.slice off 11

def direntAttr (buffer : Bytes) (off : Nat) : UInt8 := buffer (off + 11)

def direntFirst (buffer : Bytes) (off : Nat) : Nat :=
  buffer.word16 (off + 26)

def direntSize (buffer : Bytes) (off : Nat) : Nat :=
  buffer.word32 (off + 28)

def attrLongName : UInt8 := 0x0f
def attrVolumeId : UInt8 := 0x08
def attrDirectory : UInt8 := 0x10
def attrArchive : UInt8 := 0x20

/-- Overwrite the entry at offset `off` with a cleared one that carries a
name, an attribute, a first cluster and a size. -/
def putDirent (buffer : Bytes) (off : Nat) (name : List UInt8)
    (attr : UInt8) (first size : Nat) : Bytes :=
  ((((buffer.fill off 0 32).copy off (fun index => name.getD index 0)
    11).put (off + 11) attr).putWord16 (off + 26) first).putWord32
      (off + 28) size

/-- `dir_slot_t`; `existing` is its field `exists`. -/
structure DirSlot where
  sector : Nat
  offset : Nat
  existing : Bool
  deriving DecidableEq, Repr

/-- A slot variable that is set before it is read. -/
def DirSlot.unset : DirSlot := ⟨0, 0, false⟩

/-! ## Looking up a name -/

/-- How a part of the scan of `dir_lookup` ends: with a read error, with
the slot to return, or with the first free slot met so far. -/
inductive LookupStep where
  | failed
  | done (slot : DirSlot)
  | more (freeSlot : Option DirSlot)

/-- The loop over the entries of one sector in `dir_lookup`, with `count`
entries left, at entry `i`. -/
def lookupEntries (sectorBuf : Bytes) (lba : Nat) (target : List UInt8) :
    (count i : Nat) → Option DirSlot → LookupStep
  | 0, _, freeSlot => .more freeSlot
  | count + 1, i, freeSlot =>
      let e := 32 * i
      if sectorBuf e = 0x00 then
        .done (freeSlot.getD ⟨lba, e, false⟩)
      else if sectorBuf e = 0xe5 then
        lookupEntries sectorBuf lba target count (i + 1)
          (some (freeSlot.getD ⟨lba, e, false⟩))
      else if direntAttr sectorBuf e = attrLongName then
        lookupEntries sectorBuf lba target count (i + 1) freeSlot
      else if direntAttr sectorBuf e &&& attrVolumeId ≠ 0 then
        lookupEntries sectorBuf lba target count (i + 1) freeSlot
      else if direntName sectorBuf e = target then
        .done ⟨lba, e, true⟩
      else
        lookupEntries sectorBuf lba target count (i + 1) freeSlot

/-- The loop over `count` consecutive sectors in `dir_lookup`; the root and
a cluster use the same one. -/
def lookupSectors (disk : Disk) (target : List UInt8) :
    (count lba : Nat) → Option DirSlot → LookupStep
  | 0, _, freeSlot => .more freeSlot
  | count + 1, lba, freeSlot =>
      match readLba disk lba 1 scratch with
      | none => .failed
      | some sectorBuf =>
          match lookupEntries sectorBuf lba target 16 0 freeSlot with
          | .more freeSlot =>
              lookupSectors disk target count (u32 (lba + 1)) freeSlot
          | step => step

/-- The end of `dir_lookup` when the chain of the directory, which ends in
`cluster`, has no free slot: a new cleared cluster is linked to it. -/
def dirGrow (volume : Volume) (cluster : Nat) (slot : DirSlot) :
    Option (Nat × DirSlot × Volume) := do
  let (newc, volume) ← fatAllocCluster volume
  if newc = 0 then
    return (3, slot, volume)
  let volume := volume.setEntry cluster newc
  let lba0 := volume.bpb.clusterLba newc
  let (failed, volume) :=
    volume.write lba0 volume.bpb.perCluster
      (scratch.fill 0 0 volume.bpb.clusterSize)
  if failed ≠ 0 then
    return (1, slot, volume)
  let (failed, volume) := fatFlush volume
  if failed ≠ 0 then
    return (1, slot, volume)
  return (0, ⟨lba0, 0, false⟩, volume)

/-- The loop over the clusters of a chained directory in `dir_lookup`. -/
def dirLookupChain (volume : Volume) (target : List UInt8)
    (slot : DirSlot) (create : Bool) :
    (fuel cluster : Nat) → Option DirSlot →
      Option (Nat × DirSlot × Volume)
  | 0, _, _ => none
  | fuel + 1, cluster, freeSlot =>
      match lookupSectors volume.disk target volume.bpb.perCluster
          (volume.bpb.clusterLba cluster) freeSlot with
      | .failed => some (1, slot, volume)
      | .done found => some (0, found, volume)
      | .more freeSlot =>
          let next := volume.next cluster
          if ¬ ChainStop next then
            dirLookupChain volume target slot create fuel next freeSlot
          else
            match freeSlot with
            | some free => some (0, free, volume)
            | none =>
                if create then dirGrow volume cluster slot
                else some (2, slot, volume)

/-- `dir_lookup`.  `slot` is what `*slot` holds before the call; the result
is the return value, the slot and the volume. -/
def dirLookup (volume : Volume) (dirCluster : Nat) (target : List UInt8)
    (slot : DirSlot) (create : Bool) : Option (Nat × DirSlot × Volume) :=
  if dirCluster = 0 then
    match lookupSectors volume.disk target volume.bpb.rootSectors
        volume.bpb.rootStart none with
    | .failed => some (1, slot, volume)
    | .done found => some (0, found, volume)
    | .more (some free) => some (0, free, volume)
    | .more none => some (2, slot, volume)
  else
    dirLookupChain volume target slot create chainFuel dirCluster none

/-! ## Emptiness -/

/-- The entries that `dir_is_empty` skips. -/
def skippedByEmpty (buffer : Bytes) (e : Nat) : Bool :=
  buffer e = 0x00 || buffer e = 0xe5 ||
    direntAttr buffer e = attrLongName ||
    (buffer e = 0x2e && buffer (e + 1) = 0x20) ||
    (buffer e = 0x2e && buffer (e + 1) = 0x2e && buffer (e + 2) = 0x20)

/-- The loop over the sectors of one cluster in `dir_is_empty`: whether all
entries are skipped, or `none` after a read error. -/
def sectorsEmpty (disk : Disk) : (count lba : Nat) → Option Bool
  | 0, _ => some true
  | count + 1, lba =>
      match readLba disk lba 1 scratch with
      | none => none
      | some sectorBuf =>
          if (List.range 16).all fun i =>
              skippedByEmpty sectorBuf (32 * i) then
            sectorsEmpty disk count (u32 (lba + 1))
          else
            some false

def dirIsEmptyLoop (volume : Volume) : (fuel cluster : Nat) → Option Int
  | 0, _ => none
  | fuel + 1, cluster =>
      if ChainStop cluster then
        some 1
      else
        match sectorsEmpty volume.disk volume.bpb.perCluster
            (volume.bpb.clusterLba cluster) with
        | none => some (-1)
        | some false => some 0
        | some true =>
            dirIsEmptyLoop volume fuel (volume.next cluster)

/-- `dir_is_empty`. -/
def dirIsEmpty (volume : Volume) (dirCluster : Nat) : Option Int :=
  dirIsEmptyLoop volume chainFuel dirCluster

/-! ## Resolving a path -/

/-- The results of `resolve_path`; the last three are set when `code` is 0,
`finalName` only if the path is not the root. -/
structure Resolved where
  code : Nat
  isRoot : Bool
  dirCluster : Nat
  finalName : List UInt8
  deriving DecidableEq, Repr

def Resolved.error (code : Nat) : Resolved := ⟨code, false, 0, []⟩

/-- The loop of `resolve_path`; every pass consumes at least one byte of
the path, so `fuel` is its length. -/
def resolveLoop (volume : Volume) :
    (fuel : Nat) → CString → (cur : Nat) → (pending : Option CString) →
      Option Resolved
  | 0, _, _, _ => none
  | fuel + 1, path, cur, pending =>
      match splitNext path, pending with
      | none, none => some ⟨0, true, 0, []⟩
      | none, some pending => some ⟨0, false, cur, toFatName pending⟩
      | some (comp, rest), none =>
          resolveLoop volume fuel rest cur (some comp)
      | some (comp, rest), some pending => do
          let (r, slot, _) ←
            dirLookup volume cur (toFatName pending) .unset false
          if r = 1 then
            return .error 1
          if r = 2 ∨ ¬ slot.existing then
            return .error 2
          match readLba volume.disk slot.sector 1 scratch with
          | none => return .error 1
          | some sectorBuf =>
              if direntAttr sectorBuf slot.offset &&& attrDirectory = 0 then
                return .error 3
              resolveLoop volume fuel rest
                (direntFirst sectorBuf slot.offset) (some comp)

/-- `resolve_path`. -/
def resolvePath (volume : Volume) (path : CString) : Option Resolved :=
  resolveLoop volume (path.length + 1) path 0 none

end LoafOs
