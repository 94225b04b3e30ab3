import LoafOs.Fs.Disk

/-!
# The ATA ports

`ata_read_sectors` and `ata_write_sectors` of `src/devices/ata.c` as they
drive the ports: the registers of a command, the polling of the status and
the words of each sector.  The drive behind the ports is any device; the
drive of this file answers as the PIO protocol has it, and is busy for as
long as it likes whenever it has something to do.
-/

namespace LoafOs

def ataData : UInt16 := 0x1f0
def ataSeccount : UInt16 := 0x1f2
def ataSector : UInt16 := 0x1f3
def ataCylLow : UInt16 := 0x1f4
def ataCylHigh : UInt16 := 0x1f5
def ataDriveHead : UInt16 := 0x1f6
def ataCommand : UInt16 := 0x1f7
def ataStatus : UInt16 := 0x1f7
def ataControl : UInt16 := 0x3f6

def ataCmdReadSectors : UInt8 := 0x20
def ataCmdWriteSectors : UInt8 := 0x30
def ataCmdCacheFlush : UInt8 := 0xe7

def ataSrBsy : UInt8 := 0x80
def ataSrDrq : UInt8 := 0x08
def ataSrErr : UInt8 := 0x01

/-- What the port instructions do to a device. -/
structure Ports (Device : Type) where
  inb : UInt16 → Device → UInt8 × Device
  outb : UInt16 → UInt8 → Device → Device
  inw : UInt16 → Device → UInt16 × Device
  outw : UInt16 → UInt16 → Device → Device

/-! ## The driver -/

namespace Ports

variable {Device : Type} (ports : Ports Device)

/-- `ata_wait_bsy`. -/
def ataWaitBsy : (fuel : Nat) → Device → Option Device
  | 0, _ => none
  | fuel + 1, device =>
      let (status, device) := ports.inb ataStatus device
      if status &&& ataSrBsy ≠ 0 then
        ataWaitBsy fuel device
      else
        some device

/-- `ata_wait_drq`. -/
def ataWaitDrq : (fuel : Nat) → Device → Option Device
  | 0, _ => none
  | fuel + 1, device =>
      let (status, device) := ports.inb ataStatus device
      if status &&& ataSrDrq = 0 then
        ataWaitDrq fuel device
      else
        some device

/-- `ata_400ns_delay`. -/
def ata400nsDelay (device : Device) : Device :=
  let (_, device) := ports.inb ataControl device
  let (_, device) := ports.inb ataControl device
  let (_, device) := ports.inb ataControl device
  (ports.inb ataControl device).2

/-- The registers and the command, with which both calls begin. -/
def issueCommand (fuel : Nat) (cylinder : UInt16)
    (head sector count command : UInt8) (device : Device) :
    Option Device := do
  let device ← ports.ataWaitBsy fuel device
  let device := ports.outb ataDriveHead (0xa0 ||| (head &&& 0x0f)) device
  let device := ports.ata400nsDelay device
  let device ← ports.ataWaitBsy fuel device
  let device := ports.outb ataSeccount count device
  let device := ports.outb ataSector sector device
  let device := ports.outb ataCylLow (cylinder &&& 0xff).toUInt8 device
  let device :=
    ports.outb ataCylHigh ((cylinder >>> 8) &&& 0xff).toUInt8 device
  let device := ports.outb ataCommand command device
  return ports.ata400nsDelay device

/-- `buf[i] = inw(ATA_DATA)`, with `left` words to come from byte `addr` on. -/
def readWords : (left addr : Nat) → Bytes → Device → Bytes × Device
  | 0, _, buffer, device => (buffer, device)
  | left + 1, addr, buffer, device =>
      let (word, device) := ports.inw ataData device
      readWords left (addr + 2) (buffer.putWord16 addr word.toNat) device

/-- `outw(ATA_DATA, buf[i])`. -/
def writeWords (buffer : Bytes) : (left addr : Nat) → Device → Device
  | 0, _, device => device
  | left + 1, addr, device =>
      writeWords buffer left (addr + 2)
        (ports.outw ataData (UInt16.ofNat (buffer.word16 addr)) device)

/-- The loop of `ata_read_sectors`, with `left` sectors to come at pass
`s`. -/
def readSectors (fuel : Nat) :
    (left s : Nat) → Bytes → Device → Option (Nat × Bytes × Device)
  | 0, _, buffer, device => some (0, buffer, device)
  | left + 1, s, buffer, device => do
      let device ← ports.ataWaitBsy fuel device
      let (status, device) := ports.inb ataStatus device
      if status &&& ataSrErr ≠ 0 then
        return (1, buffer, device)
      let device ← ports.ataWaitDrq fuel device
      let (buffer, device) := ports.readWords 256 (512 * s) buffer device
      readSectors fuel left (s + 1) buffer device

/-- `ata_read_sectors`, with what it leaves in the buffer. -/
def ataReadSectors (fuel : Nat) (cylinder : UInt16)
    (head sector count : UInt8) (buffer : Bytes) (device : Device) :
    Option (Nat × Bytes × Device) := do
  let device ← ports.issueCommand fuel cylinder head sector count
    ataCmdReadSectors device
  ports.readSectors fuel count.toNat 0 buffer device

/-- The loop of `ata_write_sectors`. -/
def writeSectors (fuel : Nat) (buffer : Bytes) :
    (left s : Nat) → Device → Option (Nat × Device)
  | 0, _, device => do
      let device := ports.outb ataCommand ataCmdCacheFlush device
      let device ← ports.ataWaitBsy fuel device
      return (0, device)
  | left + 1, s, device => do
      let device ← ports.ataWaitBsy fuel device
      let (status, device) := ports.inb ataStatus device
      if status &&& ataSrErr ≠ 0 then
        return (1, device)
      let device ← ports.ataWaitDrq fuel device
      writeSectors fuel buffer left (s + 1)
        (ports.writeWords buffer 256 (512 * s) device)

/-- `ata_write_sectors`. -/
def ataWriteSectors (fuel : Nat) (cylinder : UInt16)
    (head sector count : UInt8) (buffer : Bytes) (device : Device) :
    Option (Nat × Device) := do
  let device ← ports.issueCommand fuel cylinder head sector count
    ataCmdWriteSectors device
  ports.writeSectors fuel buffer count.toNat 0 device

/-- `read_lba` over the ports, at pass `i`: `none` when the polling does not
end, and no buffer when it returns 1. -/
def readLba (fuel lba : Nat) :
    (count i : Nat) → Bytes → Device → Option (Option Bytes × Device)
  | 0, _, buffer, device => some (some buffer, device)
  | count + 1, i, buffer, device => do
      let chs := lbaToChs (u32 (lba + i))
      let (code, read, device) ← ports.ataReadSectors fuel
        (UInt16.ofNat chs.cylinder) (UInt8.ofNat chs.head)
        (UInt8.ofNat chs.sector) 1 (buffer.shift (512 * i)) device
      if code ≠ 0 then
        return (none, device)
      readLba fuel lba count (i + 1) (buffer.copy (512 * i) read 512) device

/-- `write_lba` over the ports, with its return value. -/
def writeLba (fuel lba : Nat) (buffer : Bytes) :
    (count i : Nat) → Device → Option (Nat × Device)
  | 0, _, device => some (0, device)
  | count + 1, i, device => do
      let chs := lbaToChs (u32 (lba + i))
      let (code, device) ← ports.ataWriteSectors fuel
        (UInt16.ofNat chs.cylinder) (UInt8.ofNat chs.head)
        (UInt8.ofNat chs.sector) 1 (buffer.shift (512 * i)) device
      if code ≠ 0 then
        return (1, device)
      writeLba fuel lba buffer count (i + 1) device

end Ports

/-! ## The drive -/

/-- The sector behind a sector on a drive with 16 heads and 63 sectors a
track. -/
def Chs.following (chs : Chs) : Chs :=
  if chs.sector < sectorsPerTrack then
    { chs with sector := chs.sector + 1 }
  else if chs.head + 1 < headsPerCylinder then
    { chs with head := chs.head + 1, sector := 1 }
  else
    ⟨chs.cylinder + 1, 0, 1⟩

/-- The disk does not take a write. -/
def Disk.refuses (disk : Disk) (chs : Chs) : Bool :=
  disk.bad chs || disk.writesLeft == some 0

/-- A write that the disk takes. -/
def Disk.store (disk : Disk) (chs : Chs) (data : Bytes) : Disk :=
  { disk with
    sectors := fun other =>
      if other = chs then fun index => data index else disk.sectors other
    writesLeft := disk.writesLeft.map Nat.pred }

/-- A sector as bytes. -/
def Disk.bytes (disk : Disk) (chs : Chs) : Bytes := fun index =>
  if bound : index < 512 then disk.sectors chs ⟨index, bound⟩ else 0

/-- What a drive is at, once it is no longer busy. -/
inductive DrivePhase where
  | ready
  /-- The last command has ended with an error. -/
  | failed
  /-- A sector is there to be read, up to its word `word`, and `left` more
  are to follow. -/
  | sending (chs : Chs) (left word : Nat)
  /-- A sector is expected, and its first words are there. -/
  | taking (chs : Chs) (left word : Nat) (data : Bytes)

/-- A drive: the disk, the registers of a command, and how many more
accesses find it busy.  Whenever it starts to work, the first of `delays`
says for how many. -/
structure AtaDrive where
  disk : Disk
  seccount : UInt8
  sector : UInt8
  cylLow : UInt8
  cylHigh : UInt8
  driveHead : UInt8
  phase : DrivePhase
  busy : Nat
  delays : List Nat

namespace AtaDrive

variable (drive : AtaDrive)

/-- The status register: ready, and whatever the phase has to say. -/
def status : UInt8 :=
  if 0 < drive.busy then
    ataSrBsy
  else
    match drive.phase with
    | .ready => 0x50
    | .failed => 0x50 ||| ataSrErr
    | .sending .. | .taking .. => 0x50 ||| ataSrDrq

/-- One access later. -/
def tick : AtaDrive := { drive with busy := drive.busy - 1 }

/-- The drive works until it is at a phase. -/
def work (phase : DrivePhase) : AtaDrive :=
  { drive with
    phase
    busy := drive.delays.headD 0
    delays := drive.delays.tail }

/-- The address in the registers. -/
def chs : Chs where
  cylinder := drive.cylLow.toNat + 256 * drive.cylHigh.toNat
  head := (drive.driveHead &&& 0x0f).toNat
  sector := drive.sector.toNat

/-- How many sectors follow the first one of a command. -/
def further : Nat :=
  if drive.seccount = 0 then 255 else drive.seccount.toNat - 1

/-- The drive looks for a sector to read. -/
def seekRead (chs : Chs) (left : Nat) : AtaDrive :=
  drive.work
    (if drive.disk.bad chs then .failed else .sending chs left 0)

/-- The drive looks for a sector to write. -/
def seekWrite (chs : Chs) (left : Nat) : AtaDrive :=
  drive.work
    (if drive.disk.refuses chs then .failed
    else .taking chs left 0 fun _ => 0)

/-- A command; every address but that of a sector of this drive is
refused, and so is every other command. -/
def execute (command : UInt8) : AtaDrive :=
  if drive.driveHead &&& 0xf0 ≠ 0xa0 then
    drive.work .failed
  else if command = ataCmdReadSectors then
    drive.seekRead drive.chs drive.further
  else if command = ataCmdWriteSectors then
    drive.seekWrite drive.chs drive.further
  else if command = ataCmdCacheFlush then
    drive.work .ready
  else
    drive.work .failed

/-- The drive expects words, or has some. -/
def transferring : Bool :=
  match drive.phase with
  | .ready | .failed => false
  | .sending .. | .taking .. => true

/-- A byte at a port; both addresses of the status give it, and no other
register is read here. -/
def inb (port : UInt16) : UInt8 × AtaDrive :=
  (if port = ataStatus ∨ port = ataControl then drive.status else 0,
    drive.tick)

/-- A byte to a register. -/
def accept (port : UInt16) (value : UInt8) : AtaDrive :=
  if port = ataSeccount then
    { drive with seccount := value }
  else if port = ataSector then
    { drive with sector := value }
  else if port = ataCylLow then
    { drive with cylLow := value }
  else if port = ataCylHigh then
    { drive with cylHigh := value }
  else if port = ataDriveHead then
    { drive with driveHead := value }
  else if port = ataCommand then
    drive.execute value
  else
    drive

/-- A byte to a port; while the drive works or transfers a sector, its
registers stay as they are. -/
def outb (port : UInt16) (value : UInt8) : AtaDrive :=
  if 0 < drive.busy ∨ drive.transferring then drive.tick
  else drive.accept port value

/-- The last word of a sector has been read. -/
def sent (chs : Chs) : (left : Nat) → AtaDrive
  | 0 => { drive with phase := .ready }
  | left + 1 => drive.seekRead chs.following left

/-- The last word of a sector is there, and the drive stores it. -/
def took (chs : Chs) (data : Bytes) : (left : Nat) → AtaDrive
  | 0 => { drive with disk := drive.disk.store chs data }.work .ready
  | left + 1 =>
      { drive with disk := drive.disk.store chs data }.seekWrite
        chs.following left

/-- A word from the data port. -/
def inw (port : UInt16) : UInt16 × AtaDrive :=
  if 0 < drive.busy ∨ port ≠ ataData then
    (0xffff, drive.tick)
  else
    match drive.phase with
    | .sending chs left word =>
        (UInt16.ofNat ((drive.disk.bytes chs).word16 (2 * word)),
          if word < 255 then
            { drive with phase := .sending chs left (word + 1) }
          else
            drive.sent chs left)
    | _ => (0xffff, drive)

/-- A word to the data port. -/
def outw (port : UInt16) (value : UInt16) : AtaDrive :=
  if 0 < drive.busy ∨ port ≠ ataData then
    drive.tick
  else
    match drive.phase with
    | .taking chs left word data =>
        let data := data.putWord16 (2 * word) value.toNat
        if word < 255 then
          { drive with phase := .taking chs left (word + 1) data }
        else
          drive.took chs data left
    | _ => drive

/-- The ports of the drive. -/
def ports : Ports AtaDrive where
  inb port drive := drive.inb port
  outb port value drive := drive.outb port value
  inw port drive := drive.inw port
  outw port value drive := drive.outw port value

end AtaDrive

end LoafOs
