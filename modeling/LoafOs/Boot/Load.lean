import LoafOs.Fs.DriveSectors
import LoafOs.Fs.FatFile
import LoafOs.Lib.Logged

/-!
# The boot loader

`read_bpb`, `next_cluster` and the `.chain` loop of `src/load.asm`, in real
mode with 16-bit registers.  All segment registers but `es` are 0.  The
loader keeps the interrupt table, its stack, its code and its buffers in the
first 64 KB, below `KERNEL_SEG`, and loads the kernel from there on.
-/

namespace LoafOs

/-- `BPB_BASE`, where the boot sector lies. -/
def bpbBase : Nat := 0x7c00

/-- `FAT_BUF`. -/
def fatBufAddr : Nat := 0xc000

/-- `KERNEL_SEG`. -/
def kernelSeg : Nat := 0x1000

/-- The variables that `read_bpb` stores. -/
structure BootBpb where
  reservedSectors : Nat
  sectorsPerFat : Nat
  rootEntries : Nat
  fatCount : Nat
  sectorsPerCluster : Nat
  rootStart : Nat
  rootSectors : Nat
  dataStart : Nat

/-- `read_bpb`. -/
def readBpb (mem : Bytes) : BootBpb :=
  let reservedSectors := mem.word16 (bpbBase + 0x0e)
  let sectorsPerFat := mem.word16 (bpbBase + 0x16)
  let rootEntries := mem.word16 (bpbBase + 0x11)
  let fatCount := (mem (bpbBase + 0x10)).toNat
  let sectorsPerCluster := (mem (bpbBase + 0x0d)).toNat
  -- `mul bx` leaves a product in `dx:ax`; the high word is dropped.
  let rootStart := u16 (u16 (sectorsPerFat * fatCount) + reservedSectors)
  -- Here the high word is kept: `add` carries into `adc`, then `div bx`.
  let ax := u16 (rootEntries * 32)
  let dx := rootEntries * 32 / 65536
  let carry := (ax + (512 - 1)) / 65536
  let rootSectors :=
    (u16 (dx + carry) * 65536 + u16 (ax + (512 - 1))) / 512
  let dataStart := u16 (rootStart + rootSectors)
  { reservedSectors, sectorsPerFat, rootEntries, fatCount,
    sectorsPerCluster, rootStart, rootSectors, dataStart }

/-- `int 0x13` with `ah = 0x42`, as `read_sectors` calls it: `count` sectors
from number `lba` on go to an address; `none` is the carry flag. -/
def extendedRead (disk : Disk) (lba count addr : Nat) (mem : Bytes) :
    Option Bytes :=
  if disk.Readable lba count then
    some (mem.copy addr (disk.mem.shift (512 * lba)) (512 * count))
  else
    none

/-- `next_cluster`: the new value of `cur_cluster`. -/
def nextCluster (mem : Bytes) (curCluster : Nat) : Nat :=
  let bx := u16 (u16 (curCluster / 2 + curCluster) + fatBufAddr)
  let dx := mem.word16 bx
  if curCluster &&& 1 = 0 then dx &&& 0x0fff else dx >>> 4

/-- The copy loop of `fat_read_file` with its cluster reads, as pairs of a
sector number and a count. -/
def readChainLogged (volume : Volume) :
    (fuel cluster stored : Nat) → Bytes →
      Logged (Nat × Nat) (Nat × Nat × Bytes)
  | 0, _, _, _ => .ofOption none
  | fuel + 1, cluster, stored, dest =>
      if ChainStop cluster then
        pure (0, stored, dest)
      else do
        Logged.log (volume.bpb.clusterLba cluster, volume.bpb.perCluster)
        match readLba volume.disk (volume.bpb.clusterLba cluster)
            volume.bpb.perCluster (dest.shift stored) with
        | none => pure (2, stored, dest)
        | some out =>
            readChainLogged volume fuel (volume.next cluster)
              (stored + volume.bpb.clusterSize)
              (dest.copy stored out volume.bpb.clusterSize)

/-- Without the log it is the loop of `fat_read_file`. -/
theorem readChainLogged_result (volume : Volume) :
    ∀ (fuel cluster stored : Nat) (dest : Bytes),
      (readChainLogged volume fuel cluster stored dest).result =
        readChain volume fuel cluster stored dest
  | 0, _, _, _ => rfl
  | fuel + 1, cluster, stored, dest => by
      rw [readChainLogged, readChain]
      split
      · rfl
      · rw [Logged.result_bind, Logged.log, Option.bind_some]
        cases readLba volume.disk (volume.bpb.clusterLba cluster)
            volume.bpb.perCluster (dest.shift stored) with
        | none => rfl
        | some out => exact readChainLogged_result volume fuel _ _ _

end LoafOs
