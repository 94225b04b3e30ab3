import LoafOs.Devices.AtaPorts
import LoafOs.Fs.DriveSectors

/-!
# Transfers over the ports

Whatever the drive's delays are, each polling loop of the driver ends, the
words of every sector arrive where they belong, and a call leaves the drive
ready for the next one.  So over any run of calls the driver is the map from
addresses to sectors that the file system works with.
-/

namespace LoafOs

open AtaDrive

/-! ## Polling -/

section Polling

variable {drive : AtaDrive} {fuel : Nat}

/-- Between two calls a drive waits for a command. -/
def AtaDrive.Quiet (drive : AtaDrive) : Prop := drive.transferring = false

/-- The polling loops outlast the delays. -/
structure AtaDrive.Patient (drive : AtaDrive) (fuel : Nat) : Prop where
  busy : drive.busy < fuel
  delays : ∀ delay ∈ drive.delays, delay < fuel

theorem AtaDrive.Patient.positive (patient : drive.Patient fuel) : 0 < fuel :=
  Nat.zero_lt_of_lt patient.busy

theorem AtaDrive.Patient.work (patient : drive.Patient fuel)
    (phase : DrivePhase) : (drive.work phase).Patient fuel where
  busy := by
    show drive.delays.headD 0 < fuel
    cases delays : drive.delays with
    | nil => exact patient.positive
    | cons delay rest =>
        apply patient.delays
        rw [delays]
        exact List.mem_cons_self
  delays delay member := patient.delays delay (List.mem_of_mem_tail member)

theorem AtaDrive.Patient.took (patient : drive.Patient fuel) (chs : Chs)
    (data : Bytes) (left : Nat) :
    (drive.took chs data left).Patient fuel := by
  have stored :
      Patient { drive with disk := drive.disk.store chs data } fuel :=
    ⟨patient.busy, patient.delays⟩
  cases left with
  | zero => exact stored.work _
  | succ left => exact stored.work _

theorem AtaDrive.Patient.tick (patient : drive.Patient fuel) :
    drive.tick.Patient fuel where
  busy := Nat.lt_of_le_of_lt (Nat.sub_le _ _) patient.busy
  delays := patient.delays

/-- The drive once it is no longer busy. -/
def AtaDrive.idle (drive : AtaDrive) : AtaDrive := { drive with busy := 0 }

theorem AtaDrive.idle_tick : drive.tick.idle = drive.idle := rfl

/-- A drive that works no longer stays as it is. -/
theorem AtaDrive.tick_idle (idle : drive.busy = 0) : drive.tick = drive := by
  rw [tick, idle, Nat.zero_sub, ← idle]

theorem AtaDrive.Patient.idle (patient : drive.Patient fuel) :
    drive.idle.Patient fuel :=
  ⟨patient.positive, patient.delays⟩

theorem AtaDrive.status_busy (busy : 0 < drive.busy) :
    drive.status = ataSrBsy :=
  if_pos busy

/-- A drive that works no longer has the other bits right. -/
theorem AtaDrive.status_idle (idle : drive.busy = 0) :
    drive.status &&& ataSrBsy = 0 ∧
      (drive.status &&& ataSrErr ≠ 0 ↔ drive.phase = .failed) ∧
      (drive.status &&& ataSrDrq ≠ 0 ↔ drive.transferring = true) := by
  have still : ¬ 0 < drive.busy := Nat.not_lt.mpr (Nat.le_of_eq idle)
  rw [status, if_neg still, transferring]
  cases drive.phase <;> simp <;> decide

/-- `ata_wait_bsy` ends with a drive that works no longer. -/
theorem ataWaitBsy_eq (bound : drive.busy < fuel) :
    ports.ataWaitBsy fuel drive = some drive.idle := by
  induction fuel generalizing drive with
  | zero => exact absurd bound (Nat.not_lt_zero _)
  | succ fuel ih =>
      rw [Ports.ataWaitBsy]
      show (if drive.status &&& ataSrBsy ≠ 0 then
        ports.ataWaitBsy fuel drive.tick else some drive.tick) = _
      by_cases busy : 0 < drive.busy
      · rw [status_busy busy, if_pos (by decide), ih, idle_tick]
        show drive.busy - 1 < fuel
        omega
      · have idle : drive.busy = 0 := by omega
        rw [if_neg (not_not_intro (status_idle idle).1), tick_idle idle,
          AtaDrive.idle, ← idle]

/-- `ata_wait_drq` finds the drive at the transfer of a sector. -/
theorem ataWaitDrq_eq (idle : drive.busy = 0)
    (transferring : drive.transferring = true) (positive : 0 < fuel) :
    ports.ataWaitDrq fuel drive = some drive := by
  cases fuel with
  | zero => exact absurd positive (Nat.lt_irrefl 0)
  | succ fuel =>
      have ready := (status_idle idle).2.2.mpr transferring
      rw [Ports.ataWaitDrq]
      show (if drive.status &&& ataSrDrq = 0 then _ else some drive.tick) = _
      rw [if_neg ready, tick_idle idle]

theorem ata400nsDelay_eq :
    ports.ata400nsDelay drive = { drive with busy := drive.busy - 4 } := by
  show { drive with busy := drive.busy - 1 - 1 - 1 - 1 } = _
  rw [Nat.sub_sub, Nat.sub_sub, Nat.sub_sub]

theorem AtaDrive.Patient.later (patient : drive.Patient fuel) (count : Nat) :
    Patient { drive with busy := drive.busy - count } fuel :=
  ⟨Nat.lt_of_le_of_lt (Nat.sub_le _ _) patient.busy, patient.delays⟩

end Polling

/-! ## Commands -/

section Commands

variable {drive : AtaDrive} {fuel : Nat} {cylinder : UInt16}
  {head sector count : UInt8}

/-- The drive with the registers of a command. -/
def AtaDrive.load (drive : AtaDrive) (cylinder : UInt16)
    (head sector count : UInt8) : AtaDrive :=
  { drive with
    seccount := count
    sector
    cylLow := (cylinder &&& 0xff).toUInt8
    cylHigh := ((cylinder >>> 8) &&& 0xff).toUInt8
    driveHead := 0xa0 ||| (head &&& 0x0f)
    busy := 0 }

/-- A register of a drive that waits for a command takes its value. -/
theorem outb_quiet (port : UInt16) (value : UInt8)
    (idle : drive.busy = 0) (quiet : drive.Quiet) :
    ports.outb port value drive = drive.accept port value := by
  apply if_neg
  rw [idle, quiet]
  decide

theorem accept_seccount (value : UInt8) :
    drive.accept ataSeccount value = { drive with seccount := value } := rfl

theorem accept_sector (value : UInt8) :
    drive.accept ataSector value = { drive with sector := value } := rfl

theorem accept_cylLow (value : UInt8) :
    drive.accept ataCylLow value = { drive with cylLow := value } := rfl

theorem accept_cylHigh (value : UInt8) :
    drive.accept ataCylHigh value = { drive with cylHigh := value } := rfl

theorem accept_driveHead (value : UInt8) :
    drive.accept ataDriveHead value = { drive with driveHead := value } :=
  rfl

theorem accept_command (value : UInt8) :
    drive.accept ataCommand value = drive.execute value := rfl

/-- The registers and the command reach a drive that waits for one. -/
theorem issueCommand_eq (quiet : drive.Quiet) (patient : drive.Patient fuel)
    (command : UInt8) :
    ports.issueCommand fuel cylinder head sector count command drive =
      some
        (ports.ata400nsDelay
          ((drive.load cylinder head sector count).execute command)) := by
  rw [Ports.issueCommand, ataWaitBsy_eq patient.busy]
  simp only [Option.bind_eq_bind, Option.bind_some]
  rw [outb_quiet, accept_driveHead, ata400nsDelay_eq, ataWaitBsy_eq]
  · simp only [Option.bind_some]
    rw [outb_quiet ataSeccount, accept_seccount, outb_quiet ataSector,
      accept_sector, outb_quiet ataCylLow, accept_cylLow,
      outb_quiet ataCylHigh, accept_cylHigh, outb_quiet ataCommand,
      accept_command]
    · rfl
    all_goals first | rfl | exact quiet
  · exact patient.positive
  · rfl
  · exact quiet

/-- The address that a command names. -/
def commandChs (cylinder : UInt16) (head sector : UInt8) : Chs :=
  ⟨cylinder.toNat, (head &&& 0x0f).toNat, sector.toNat⟩

theorem head_lt (head : UInt8) : (head &&& 0x0f).toNat < 16 := by
  rw [UInt8.toNat_and]
  exact Nat.lt_succ_of_le Nat.and_le_right

/-- The drive register keeps the head apart from the selection bits. -/
theorem head_register (head : UInt8) :
    (0xa0 ||| (head &&& 0x0f)) &&& 0xf0 = 0xa0 ∧
      (0xa0 ||| (head &&& 0x0f)) &&& 0x0f = head &&& 0x0f := by
  have all : ∀ low < 16,
      (0xa0 ||| UInt8.ofNat low) &&& 0xf0 = 0xa0 ∧
        (0xa0 ||| UInt8.ofNat low) &&& 0x0f = UInt8.ofNat low := by
    decide
  have here := all _ (head_lt head)
  rwa [UInt8.ofNat_toNat] at here

/-- The cylinder registers hold the two bytes of the cylinder. -/
theorem cylinder_registers (cylinder : UInt16) :
    (cylinder &&& 0xff).toUInt8.toNat +
        256 * ((cylinder >>> 8) &&& 0xff).toUInt8.toNat =
      cylinder.toNat := by
  have low (word : UInt16) :
      (word &&& 0xff).toUInt8.toNat = word.toNat % 256 := by
    rw [UInt16.toNat_toUInt8, UInt16.toNat_and]
    show (word.toNat &&& (2 ^ 8 - 1)) % 2 ^ 8 = _
    rw [Nat.and_two_pow_sub_one_eq_mod, Nat.mod_mod]
  have shifted : (cylinder >>> 8).toNat = cylinder.toNat / 256 := by
    rw [UInt16.toNat_shiftRight]
    exact Nat.shiftRight_eq_div_pow _ _
  have bound := cylinder.toNat_lt
  rw [low, low, shifted]
  omega

theorem load_selects :
    (drive.load cylinder head sector count).driveHead &&& 0xf0 = 0xa0 :=
  (head_register head).1

theorem load_chs :
    (drive.load cylinder head sector count).chs =
      commandChs cylinder head sector := by
  rw [AtaDrive.chs, commandChs, AtaDrive.load]
  simp only [cylinder_registers, (head_register head).2]

theorem load_further (some : count ≠ 0) :
    (drive.load cylinder head sector count).further = count.toNat - 1 :=
  if_neg some

/-- A command for some sectors makes the drive look for the first one. -/
theorem execute_read (some : count ≠ 0) :
    (drive.load cylinder head sector count).execute ataCmdReadSectors =
      (drive.load cylinder head sector count).seekRead
        (commandChs cylinder head sector) (count.toNat - 1) := by
  rw [AtaDrive.execute, if_neg (not_not_intro load_selects),
    if_pos rfl, load_chs, load_further some]

theorem execute_write (some : count ≠ 0) :
    (drive.load cylinder head sector count).execute ataCmdWriteSectors =
      (drive.load cylinder head sector count).seekWrite
        (commandChs cylinder head sector) (count.toNat - 1) := by
  rw [AtaDrive.execute, if_neg (not_not_intro load_selects),
    if_neg (by decide), if_pos rfl, load_chs, load_further some]

end Commands

/-! ## Words -/

section Words

/-- A word that passes the data port is two bytes that are copied. -/
theorem putWord16_word16 (mem source : Bytes) (start index : Nat) :
    mem.putWord16 start
        (UInt16.ofNat (source.word16 index)).toNat =
      mem.copy start (source.shift index) 2 := by
  have low := (source index).toNat_lt
  have high := (source (index + 1)).toNat_lt
  have value : (UInt16.ofNat (source.word16 index)).toNat =
      source.word16 index :=
    UInt16.toNat_ofNat_of_lt (source.word16_lt index)
  have lowByte : UInt8.ofNat (source.word16 index) = source index := by
    apply UInt8.toNat_inj.mp
    rw [UInt8.toNat_ofNat', Bytes.word16]
    omega
  have highByte :
      UInt8.ofNat (source.word16 index / 256) = source (index + 1) := by
    apply UInt8.toNat_inj.mp
    rw [UInt8.toNat_ofNat', Bytes.word16]
    omega
  funext address
  rw [value, Bytes.putWord16, lowByte, highByte, Bytes.put, Bytes.put,
    Bytes.copy]
  by_cases second : address = start + 1
  · subst second
    rw [if_pos rfl, if_pos (by omega), Bytes.shift]
    congr 1
    omega
  · rw [if_neg second]
    by_cases first : address = start
    · subst first
      rw [if_pos rfl, if_pos (by omega), Bytes.shift, Nat.sub_self,
        Nat.add_zero]
    · rw [if_neg first, if_neg (by omega)]

/-- The words from one on are the first word and those behind it. -/
theorem copy_word (mem source : Bytes) (start index count : Nat) :
    (mem.copy start (source.shift index) 2).copy (start + 2)
        (source.shift (index + 2)) (2 * count) =
      mem.copy start (source.shift index) (2 * (count + 1)) := by
  have parts := @Bytes.copy_copy_adjacent mem (source.shift index) start 2
    (2 * count)
  rw [Nat.mul_succ, Nat.add_comm (2 * count) 2, ← parts]
  congr 1
  funext address
  rw [Bytes.shift, Bytes.shift, Bytes.shift, Nat.add_assoc]

variable {drive : AtaDrive} {chs : Chs}

theorem inw_sending (idle : drive.busy = 0) {left word : Nat}
    (phase : drive.phase = .sending chs left word) :
    ports.inw ataData drive =
      (UInt16.ofNat ((drive.disk.bytes chs).word16 (2 * word)),
        if word < 255 then
          { drive with phase := .sending chs left (word + 1) }
        else
          drive.sent chs left) := by
  show drive.inw ataData = _
  rw [inw, if_neg (by rw [idle]; decide), phase]

theorem outw_taking (idle : drive.busy = 0) {left word : Nat} {data : Bytes}
    (phase : drive.phase = .taking chs left word data) (value : UInt16) :
    ports.outw ataData value drive =
      if word < 255 then
        { drive with
          phase := .taking chs left (word + 1)
            (data.putWord16 (2 * word) value.toNat) }
      else
        drive.took chs (data.putWord16 (2 * word) value.toNat) left := by
  show drive.outw ataData value = _
  rw [outw, if_neg (by rw [idle]; decide), phase]

/-- The phase that a transfer ends does not matter to what follows. -/
theorem sent_phase (phase : DrivePhase) (left : Nat) :
    { drive with phase }.sent chs left = drive.sent chs left := by
  cases left <;> rfl

theorem took_phase (phase : DrivePhase) (data : Bytes) (left : Nat) :
    { drive with phase }.took chs data left = drive.took chs data left := by
  cases left <;> rfl

/-- The words of a sector, from one of them on, arrive in the buffer. -/
theorem readWords_eq {left : Nat} (count : Nat) :
    ∀ {drive : AtaDrive} {word addr : Nat} {buffer : Bytes}, drive.busy = 0 →
      drive.phase = .sending chs left word → word + count = 255 →
        ports.readWords (count + 1) addr buffer drive =
          (buffer.copy addr ((drive.disk.bytes chs).shift (2 * word))
            (2 * (count + 1)), drive.sent chs left) := by
  induction count with
  | zero =>
      intro drive word addr buffer idle phase last
      rw [Ports.readWords, inw_sending idle phase, if_neg (by omega)]
      show (buffer.putWord16 addr _, _) = _
      rw [putWord16_word16]
  | succ count ih =>
      intro drive word addr buffer idle phase last
      have rest := @ih { drive with phase := .sending chs left (word + 1) }
        (word + 1) (addr + 2)
        (buffer.copy addr ((drive.disk.bytes chs).shift (2 * word)) 2) idle
        rfl (by omega)
      rw [Ports.readWords, inw_sending idle phase, if_pos (by omega)]
      show ports.readWords (count + 1) (addr + 2)
        (buffer.putWord16 addr _) _ = _
      rw [putWord16_word16, rest, sent_phase, Nat.mul_succ 2 word, copy_word]

/-- The words of a sector, from one of them on, arrive in the drive. -/
theorem writeWords_eq {left : Nat} {buffer : Bytes} (count : Nat) :
    ∀ {drive : AtaDrive} {word addr : Nat} {data : Bytes}, drive.busy = 0 →
      drive.phase = .taking chs left word data → word + count = 255 →
        ports.writeWords buffer (count + 1) addr drive =
          drive.took chs
            (data.copy (2 * word) (buffer.shift addr) (2 * (count + 1)))
            left := by
  induction count with
  | zero =>
      intro drive word addr data idle phase last
      rw [Ports.writeWords, outw_taking idle phase, if_neg (by omega),
        putWord16_word16]
      rfl
  | succ count ih =>
      intro drive word addr data idle phase last
      have rest := @ih
        { drive with
          phase := .taking chs left (word + 1)
            (data.copy (2 * word) (buffer.shift addr) 2) }
        (word + 1) (addr + 2)
        (data.copy (2 * word) (buffer.shift addr) 2) idle rfl (by omega)
      rw [Ports.writeWords, outw_taking idle phase, if_pos (by omega),
        putWord16_word16, rest, took_phase, Nat.mul_succ 2 word,
        copy_word]

end Words

/-! ## Sectors -/

/-- Between two calls: the drive waits for a command, with delays that the
polling outlasts. -/
structure AtaDrive.Awaits (drive : AtaDrive) (fuel : Nat) : Prop where
  quiet : drive.Quiet
  patient : drive.Patient fuel

/-- What a command reads: one sector behind another, up to the first one
that cannot be read. -/
def readRun (disk : Disk) :
    (count : Nat) → Chs → (s : Nat) → Bytes → Nat × Bytes
  | 0, _, _, buffer => (0, buffer)
  | count + 1, chs, s, buffer =>
      match ataReadSectors disk chs (buffer.shift (512 * s)) with
      | none => (1, buffer)
      | some read =>
          readRun disk count chs.following (s + 1)
            (buffer.copy (512 * s) read 512)

/-- What a command writes. -/
def writeRun (buffer : Bytes) :
    (count : Nat) → Chs → (s : Nat) → Disk → Nat × Disk
  | 0, _, _, disk => (0, disk)
  | count + 1, chs, s, disk =>
      match ataWriteSectors disk chs (buffer.shift (512 * s)) with
      | (0, disk) => writeRun buffer count chs.following (s + 1) disk
      | (code, disk) => (code, disk)

section Sectors

variable {drive : AtaDrive} {fuel : Nat} {chs : Chs} {buffer : Bytes}

/-- A sector that is read is the bytes of the sector. -/
theorem readRun_good {disk : Disk} {count s : Nat}
    (good : disk.bad chs = false) :
    readRun disk (count + 1) chs s buffer =
      readRun disk count chs.following (s + 1)
        (buffer.copy (512 * s) ((disk.bytes chs).shift 0) 512) := by
  have found : ¬ disk.bad chs = true := by rw [good]; decide
  rw [readRun, ataReadSectors, if_neg found]
  show readRun _ _ _ _ _ = _
  congr 1
  apply Bytes.copy_congr
  intro index inside
  rw [dif_pos inside, Bytes.shift, Nat.zero_add, Disk.bytes, dif_pos inside]

theorem readRun_bad {disk : Disk} {count s : Nat}
    (bad : disk.bad chs = true) :
    readRun disk (count + 1) chs s buffer = (1, buffer) := by
  rw [readRun, ataReadSectors, if_pos bad]

/-- What `ata_read_sectors` and `ata_write_sectors` see before a sector. -/
theorem pollSector {phase : DrivePhase} (at_phase : drive.phase = phase) :
    (ports.inb ataStatus drive.idle).2 = drive.idle ∧
      ((ports.inb ataStatus drive.idle).1 &&& ataSrErr ≠ 0 ↔
        phase = .failed) := by
  have bits := (@status_idle drive.idle rfl).2.1
  exact ⟨tick_idle rfl, at_phase ▸ bits⟩

/-- A pass of the loop on a sector that cannot be read. -/
theorem readSectors_failed (patient : drive.Patient fuel)
    (failed : drive.phase = .failed) (count s : Nat) :
    ports.readSectors fuel (count + 1) s buffer drive =
      some (1, buffer, drive.idle) := by
  obtain ⟨same, failure⟩ := pollSector failed
  rw [Ports.readSectors, ataWaitBsy_eq patient.busy]
  simp only [Option.bind_eq_bind, Option.bind_some, same]
  rw [if_pos (failure.mpr rfl)]
  rfl

/-- A pass of the loop on a sector that the drive sends. -/
theorem readSectors_sending (patient : drive.Patient fuel) {left : Nat}
    (sending : drive.phase = .sending chs left 0) (count s : Nat) :
    ports.readSectors fuel (count + 1) s buffer drive =
      ports.readSectors fuel count (s + 1)
        (buffer.copy (512 * s) ((drive.disk.bytes chs).shift 0) 512)
        (drive.idle.sent chs left) := by
  obtain ⟨same, failure⟩ := pollSector sending
  have transferring : drive.idle.transferring = true := by
    rw [AtaDrive.transferring, AtaDrive.idle, sending]
  rw [Ports.readSectors, ataWaitBsy_eq patient.busy]
  simp only [Option.bind_eq_bind, Option.bind_some, same]
  rw [if_neg (mt failure.mp (by simp)),
    ataWaitDrq_eq rfl transferring patient.positive]
  simp only [Option.bind_some]
  rw [@readWords_eq chs left 255 drive.idle 0 _ _ rfl sending rfl]
  rfl

theorem AtaDrive.quiet_failed (failed : drive.phase = .failed) :
    drive.Quiet := by
  rw [Quiet, transferring, failed]

theorem readSectors_bad (patient : drive.Patient fuel)
    (bad : drive.disk.bad chs = true) (phase : drive.phase = .failed)
    (count s : Nat) :
    ∃ drive', ports.readSectors fuel (count + 1) s buffer drive =
        some ((readRun drive.disk (count + 1) chs s buffer).1,
          (readRun drive.disk (count + 1) chs s buffer).2, drive') ∧
      drive'.disk = drive.disk ∧ drive'.Awaits fuel := by
  rw [readSectors_failed patient phase, readRun_bad bad]
  exact ⟨drive.idle, rfl, rfl, quiet_failed phase, patient.idle⟩

/-- The sectors of a command arrive in the buffer. -/
theorem readSectors_eq (left : Nat) :
    ∀ {drive : AtaDrive} {chs : Chs} {s : Nat} {buffer : Bytes},
      drive.Patient fuel →
      drive.phase =
        (if drive.disk.bad chs then .failed else .sending chs left 0) →
        ∃ drive', ports.readSectors fuel (left + 1) s buffer drive =
            some ((readRun drive.disk (left + 1) chs s buffer).1,
              (readRun drive.disk (left + 1) chs s buffer).2, drive') ∧
          drive'.disk = drive.disk ∧ drive'.Awaits fuel := by
  induction left with
  | zero =>
      intro drive chs s buffer patient phase
      cases bad : drive.disk.bad chs with
      | true =>
          rw [bad, if_pos rfl] at phase
          exact readSectors_bad patient bad phase 0 s
      | false =>
          rw [bad, if_neg (by decide)] at phase
          rw [readSectors_sending patient phase, readRun_good bad]
          exact ⟨_, rfl, rfl, rfl, patient.positive, patient.delays⟩
  | succ left ih =>
      intro drive chs s buffer patient phase
      cases bad : drive.disk.bad chs with
      | true =>
          rw [bad, if_pos rfl] at phase
          exact readSectors_bad patient bad phase (left + 1) s
      | false =>
          rw [bad, if_neg (by decide)] at phase
          rw [readSectors_sending patient phase, readRun_good bad]
          exact ih (patient.idle.work _) rfl

theorem writeRun_refused {disk : Disk} {count s : Nat}
    (refused : disk.refuses chs = true) :
    writeRun buffer (count + 1) chs s disk = (1, disk) := by
  have result : ataWriteSectors disk chs (buffer.shift (512 * s)) =
      (1, disk) :=
    if_pos refused
  rw [writeRun, result]
  rfl

theorem writeRun_stored {disk : Disk} {count s : Nat}
    (taken : disk.refuses chs = false) :
    writeRun buffer (count + 1) chs s disk =
      writeRun buffer count chs.following (s + 1)
        (disk.store chs
          (Bytes.copy (fun _ => 0) 0 (buffer.shift (512 * s)) 512)) := by
  have stores : ¬ disk.refuses chs = true := by rw [taken]; decide
  have result : ataWriteSectors disk chs (buffer.shift (512 * s)) =
      (0, disk.store chs (buffer.shift (512 * s))) :=
    if_neg stores
  have same : disk.store chs (buffer.shift (512 * s)) =
      disk.store chs
        (Bytes.copy (fun _ => 0) 0 (buffer.shift (512 * s)) 512) := by
    rw [Disk.store, Disk.store]
    congr 1
    funext other
    congr 1
    funext index
    rw [Bytes.copy_inside (Nat.zero_le _) (by omega), Nat.sub_zero]
  rw [writeRun, result, ← same]
  rfl

/-- A pass of the loop on a sector that cannot be written. -/
theorem writeSectors_failed (patient : drive.Patient fuel)
    (failed : drive.phase = .failed) (count s : Nat) :
    ports.writeSectors fuel buffer (count + 1) s drive =
      some (1, drive.idle) := by
  obtain ⟨same, failure⟩ := pollSector failed
  rw [Ports.writeSectors, ataWaitBsy_eq patient.busy]
  simp only [Option.bind_eq_bind, Option.bind_some, same]
  rw [if_pos (failure.mpr rfl)]
  rfl

/-- A pass of the loop on a sector that the drive takes. -/
theorem writeSectors_taking (patient : drive.Patient fuel) {left : Nat}
    {data : Bytes} (taking : drive.phase = .taking chs left 0 data)
    (count s : Nat) :
    ports.writeSectors fuel buffer (count + 1) s drive =
      ports.writeSectors fuel buffer count (s + 1)
        (drive.idle.took chs (data.copy 0 (buffer.shift (512 * s)) 512)
          left) := by
  obtain ⟨same, failure⟩ := pollSector taking
  have transferring : drive.idle.transferring = true := by
    rw [AtaDrive.transferring, AtaDrive.idle, taking]
  rw [Ports.writeSectors, ataWaitBsy_eq patient.busy]
  simp only [Option.bind_eq_bind, Option.bind_some, same]
  rw [if_neg (mt failure.mp (by simp)),
    ataWaitDrq_eq rfl transferring patient.positive]
  simp only [Option.bind_some]
  rw [@writeWords_eq chs left buffer 255 drive.idle 0 _ data rfl taking rfl]

/-- A flush makes the drive ready or fails; either way it ends. -/
theorem execute_flush :
    ∃ phase, (phase = .ready ∨ phase = .failed) ∧
      drive.execute ataCmdCacheFlush = drive.work phase := by
  rw [AtaDrive.execute]
  by_cases selected : drive.driveHead &&& 0xf0 = 0xa0
  · rw [if_neg (not_not_intro selected), if_neg (by decide),
      if_neg (by decide), if_pos rfl]
    exact ⟨.ready, .inl rfl, rfl⟩
  · rw [if_pos selected]
    exact ⟨.failed, .inr rfl, rfl⟩

/-- The flush that ends a write: a drive that still works does not see it,
and is waited for all the same. -/
theorem writeSectors_flush (awaits : drive.Awaits fuel) (s : Nat) :
    ∃ drive', ports.writeSectors fuel buffer 0 s drive = some (0, drive') ∧
      drive'.disk = drive.disk ∧ drive'.Awaits fuel := by
  have done {next : AtaDrive} (sees :
      ports.outb ataCommand ataCmdCacheFlush drive = next)
      (disk : next.disk = drive.disk) (quiet : next.Quiet)
      (patient : next.Patient fuel) :
      ∃ drive', ports.writeSectors fuel buffer 0 s drive = some (0, drive') ∧
        drive'.disk = drive.disk ∧ drive'.Awaits fuel := by
    rw [Ports.writeSectors, sees, ataWaitBsy_eq patient.busy]
    exact ⟨next.idle, rfl, disk, quiet, patient.idle⟩
  by_cases busy : drive.busy = 0
  · obtain ⟨phase, ends, flushed⟩ := @execute_flush drive
    have quiet : (drive.work phase).Quiet := by
      rcases ends with rfl | rfl <;> rfl
    apply done _ _ quiet (awaits.patient.work phase)
    · rw [outb_quiet _ _ busy awaits.quiet, accept_command, flushed]
    · rfl
  · have ticks : ports.outb ataCommand ataCmdCacheFlush drive = drive.tick :=
      if_pos (Or.inl (Nat.pos_of_ne_zero busy))
    exact done ticks rfl awaits.quiet awaits.patient.tick

theorem writeSectors_refused (patient : drive.Patient fuel)
    (refused : drive.disk.refuses chs = true)
    (phase : drive.phase = .failed) (count s : Nat) :
    ∃ drive', ports.writeSectors fuel buffer (count + 1) s drive =
        some ((writeRun buffer (count + 1) chs s drive.disk).1, drive') ∧
      drive'.disk = (writeRun buffer (count + 1) chs s drive.disk).2 ∧
      drive'.Awaits fuel := by
  rw [writeSectors_failed patient phase, writeRun_refused refused]
  exact ⟨drive.idle, rfl, rfl, quiet_failed phase, patient.idle⟩

/-- The sectors of a command arrive on the disk. -/
theorem writeSectors_eq (left : Nat) :
    ∀ {drive : AtaDrive} {chs : Chs} {s : Nat}, drive.Patient fuel →
      drive.phase =
        (if drive.disk.refuses chs then .failed
        else .taking chs left 0 fun _ => 0) →
        ∃ drive', ports.writeSectors fuel buffer (left + 1) s drive =
            some ((writeRun buffer (left + 1) chs s drive.disk).1, drive') ∧
          drive'.disk = (writeRun buffer (left + 1) chs s drive.disk).2 ∧
          drive'.Awaits fuel := by
  induction left with
  | zero =>
      intro drive chs s patient phase
      cases refused : drive.disk.refuses chs with
      | true =>
          rw [refused, if_pos rfl] at phase
          exact writeSectors_refused patient refused phase 0 s
      | false =>
          rw [refused, if_neg (by decide)] at phase
          rw [writeSectors_taking patient phase, writeRun_stored refused]
          have awaits : AtaDrive.Awaits (drive.idle.took chs
              (Bytes.copy (fun _ => 0) 0 (buffer.shift (512 * s)) 512) 0)
              fuel :=
            ⟨rfl, patient.idle.took _ _ 0⟩
          exact writeSectors_flush awaits (s + 1)
  | succ left ih =>
      intro drive chs s patient phase
      cases refused : drive.disk.refuses chs with
      | true =>
          rw [refused, if_pos rfl] at phase
          exact writeSectors_refused patient refused phase (left + 1) s
      | false =>
          rw [refused, if_neg (by decide)] at phase
          rw [writeSectors_taking patient phase, writeRun_stored refused]
          exact ih (patient.idle.took _ _ (left + 1)) rfl

end Sectors

/-! ## Calls -/

section Calls

variable {drive : AtaDrive} {fuel : Nat} {cylinder : UInt16}
  {head sector count : UInt8}

theorem AtaDrive.Patient.load (patient : drive.Patient fuel) :
    (drive.load cylinder head sector count).Patient fuel :=
  ⟨patient.positive, patient.delays⟩

theorem count_pred (some : count ≠ 0) :
    count.toNat - 1 + 1 = count.toNat :=
  Nat.sub_add_cancel (UInt8.pos_iff_ne_zero.mpr some)

/-- `ata_read_sectors` reads the sectors from the address in its arguments
on. -/
theorem ataReadSectors_ports (awaits : drive.Awaits fuel) (some : count ≠ 0)
    (buffer : Bytes) :
    ∃ drive', ports.ataReadSectors fuel cylinder head sector count buffer
        drive =
        Option.some
          ((readRun drive.disk count.toNat
              (commandChs cylinder head sector) 0 buffer).1,
            (readRun drive.disk count.toNat
              (commandChs cylinder head sector) 0 buffer).2, drive') ∧
      drive'.disk = drive.disk ∧ drive'.Awaits fuel := by
  have loaded : (drive.load cylinder head sector count).Patient fuel :=
    awaits.patient.load
  have patient :=
    (loaded.work
      (if drive.disk.bad (commandChs cylinder head sector) then .failed
      else .sending (commandChs cylinder head sector) (count.toNat - 1)
        0)).later 4
  rw [Ports.ataReadSectors, issueCommand_eq awaits.quiet awaits.patient,
    execute_read some, ata400nsDelay_eq, ← count_pred some]
  exact readSectors_eq (count.toNat - 1) patient rfl

/-- `ata_write_sectors` writes them. -/
theorem ataWriteSectors_ports (awaits : drive.Awaits fuel)
    (some : count ≠ 0) (buffer : Bytes) :
    ∃ drive', ports.ataWriteSectors fuel cylinder head sector count buffer
        drive =
        Option.some
          ((writeRun buffer count.toNat
            (commandChs cylinder head sector) 0 drive.disk).1, drive') ∧
      drive'.disk =
        (writeRun buffer count.toNat (commandChs cylinder head sector) 0
          drive.disk).2 ∧
      drive'.Awaits fuel := by
  have loaded : (drive.load cylinder head sector count).Patient fuel :=
    awaits.patient.load
  have patient :=
    (loaded.work
      (if drive.disk.refuses (commandChs cylinder head sector) then .failed
      else .taking (commandChs cylinder head sector) (count.toNat - 1) 0
        fun _ => 0)).later 4
  rw [Ports.ataWriteSectors, issueCommand_eq awaits.quiet awaits.patient,
    execute_write some, ata400nsDelay_eq, ← count_pred some]
  exact writeSectors_eq (count.toNat - 1) patient rfl

/-- The arguments that `lba_to_chs` gives name its address. -/
theorem commandChs_lba (lba : Nat) :
    commandChs (UInt16.ofNat (lbaToChs lba).cylinder)
        (UInt8.ofNat (lbaToChs lba).head)
        (UInt8.ofNat (lbaToChs lba).sector) =
      lbaToChs lba := by
  have valid := lbaToChs_valid lba
  have head : (UInt8.ofNat (lbaToChs lba).head &&& 0x0f).toNat =
      (lbaToChs lba).head := by
    rw [UInt8.toNat_and, UInt8.toNat_ofNat']
    show (_ % 2 ^ 8) &&& (2 ^ 4 - 1) = _
    rw [Nat.and_two_pow_sub_one_eq_mod]
    have bound := valid.head_lt
    omega
  have sector : (UInt8.ofNat (lbaToChs lba).sector).toNat =
      (lbaToChs lba).sector := by
    rw [UInt8.toNat_ofNat']
    have bound := valid.sector_le
    omega
  have cylinder : (UInt16.ofNat (lbaToChs lba).cylinder).toNat =
      (lbaToChs lba).cylinder :=
    UInt16.toNat_ofNat_of_lt valid.cylinder_lt
  rw [commandChs, head, sector, cylinder]

/-- A command for one sector reads it. -/
theorem readRun_one {disk : Disk} {chs : Chs} {buffer : Bytes} :
    readRun disk 1 chs 0 buffer =
      match ataReadSectors disk chs buffer with
      | none => (1, buffer)
      | some read => (0, read) := by
  have same : buffer.shift (512 * 0) = buffer := by
    funext index
    rw [Bytes.shift, Nat.mul_zero, Nat.zero_add]
  rw [readRun, same]
  by_cases bad : disk.bad chs = true
  · rw [ataReadSectors, if_pos bad]
  · rw [ataReadSectors, if_neg bad]
    show readRun disk 0 _ _ _ = (0, _)
    rw [readRun]
    congr 1
    funext index
    by_cases inside : index < 512
    · rw [Bytes.copy_inside (by omega) (by omega), Nat.mul_zero, Nat.sub_zero]
    · rw [Bytes.copy_outside (by omega), dif_neg inside]

/-- A command for one sector writes it. -/
theorem writeRun_one {disk : Disk} {chs : Chs} {buffer : Bytes} :
    writeRun buffer 1 chs 0 disk = ataWriteSectors disk chs buffer := by
  have same : buffer.shift (512 * 0) = buffer := by
    funext index
    rw [Bytes.shift, Nat.mul_zero, Nat.zero_add]
  rw [writeRun, same]
  by_cases refused : (disk.bad chs || disk.writesLeft == some 0) = true
  · rw [ataWriteSectors, if_pos refused]
    rfl
  · rw [ataWriteSectors, if_neg refused]
    rfl

/-- `read_lba` over the ports is `read_lba` on the disk. -/
theorem readLba_ports (lba count : Nat) :
    ∀ {drive : AtaDrive} {i : Nat} {buffer : Bytes}, drive.Awaits fuel →
      ∃ drive', ports.readLba fuel lba count i buffer drive =
          some (readLbaLoop drive.disk lba count i buffer, drive') ∧
        drive'.disk = drive.disk ∧ drive'.Awaits fuel := by
  induction count with
  | zero =>
      intro drive i buffer awaits
      exact ⟨drive, rfl, rfl, awaits⟩
  | succ count ih =>
      intro drive i buffer awaits
      obtain ⟨next, read, disk, nextAwaits⟩ :=
        @ataReadSectors_ports drive fuel
          (UInt16.ofNat (lbaToChs (u32 (lba + i))).cylinder)
          (UInt8.ofNat (lbaToChs (u32 (lba + i))).head)
          (UInt8.ofNat (lbaToChs (u32 (lba + i))).sector) 1 awaits
          (by decide) (buffer.shift (512 * i))
      rw [commandChs_lba, show (1 : UInt8).toNat = 1 by rfl, readRun_one]
        at read
      rw [Ports.readLba, readLbaLoop, read]
      cases LoafOs.ataReadSectors drive.disk (lbaToChs (u32 (lba + i)))
          (buffer.shift (512 * i)) with
      | none => exact ⟨next, rfl, disk, nextAwaits⟩
      | some bytes =>
          rw [← disk]
          exact ih nextAwaits

/-- `write_lba` over the ports is `write_lba` on the disk. -/
theorem writeLba_ports (lba : Nat) (buffer : Bytes) (count : Nat) :
    ∀ {drive : AtaDrive} {i : Nat}, drive.Awaits fuel →
      ∃ drive', ports.writeLba fuel lba buffer count i drive =
          some ((writeLbaLoop lba buffer count i drive.disk).1, drive') ∧
        drive'.disk = (writeLbaLoop lba buffer count i drive.disk).2 ∧
        drive'.Awaits fuel := by
  induction count with
  | zero =>
      intro drive i awaits
      exact ⟨drive, rfl, rfl, awaits⟩
  | succ count ih =>
      intro drive i awaits
      obtain ⟨next, write, disk, nextAwaits⟩ :=
        @ataWriteSectors_ports drive fuel
          (UInt16.ofNat (lbaToChs (u32 (lba + i))).cylinder)
          (UInt8.ofNat (lbaToChs (u32 (lba + i))).head)
          (UInt8.ofNat (lbaToChs (u32 (lba + i))).sector) 1 awaits
          (by decide) (buffer.shift (512 * i))
      rw [commandChs_lba, show (1 : UInt8).toNat = 1 by rfl, writeRun_one]
        at write disk
      rw [Ports.writeLba, writeLbaLoop, write]
      generalize LoafOs.ataWriteSectors drive.disk _ _ = result
        at disk ⊢
      obtain ⟨code, after⟩ := result
      simp only [Option.bind_eq_bind, Option.bind_some]
      by_cases failed : code ≠ 0
      · rw [if_pos failed, if_pos failed]
        exact ⟨next, rfl, disk, nextAwaits⟩
      · rw [if_neg failed, if_neg failed]
        rw [← show next.disk = after from disk]
        exact ih nextAwaits

end Calls

/-! ## Runs -/

/-- A call of `read_lba` or `write_lba`. -/
inductive Transfer where
  | read (lba : UInt32) (count : UInt8) (buffer : Bytes)
  | write (lba : UInt32) (count : UInt8) (buffer : Bytes)

/-- What a call returns, and what a read has put in its buffer. -/
inductive Reply where
  | read (buffer : Option Bytes)
  | wrote (code : Nat)

namespace Transfer

/-- A call on the disk. -/
def onDisk (disk : Disk) : Transfer → Reply × Disk
  | .read lba count buffer =>
      (.read (LoafOs.readLba disk lba.toNat count.toNat buffer), disk)
  | .write lba count buffer =>
      let (code, disk) :=
        LoafOs.writeLba disk lba.toNat count.toNat buffer
      (.wrote code, disk)

/-- Calls on the disk, one after another. -/
def runDisk : List Transfer → Disk → List Reply × Disk
  | [], disk => ([], disk)
  | transfer :: rest, disk =>
      let (reply, disk) := transfer.onDisk disk
      let (replies, disk) := runDisk rest disk
      (reply :: replies, disk)

variable {Device : Type} (ports : Ports Device) (fuel : Nat)

/-- A call over the ports. -/
def onPorts (device : Device) : Transfer → Option (Reply × Device)
  | .read lba count buffer => do
      let (bytes, device) ←
        ports.readLba fuel lba.toNat count.toNat 0 buffer device
      return (.read bytes, device)
  | .write lba count buffer => do
      let (code, device) ←
        ports.writeLba fuel lba.toNat buffer count.toNat 0 device
      return (.wrote code, device)

/-- Calls over the ports, one after another. -/
def runPorts : List Transfer → Device → Option (List Reply × Device)
  | [], device => some ([], device)
  | transfer :: rest, device => do
      let (reply, device) ← transfer.onPorts ports fuel device
      let (replies, device) ← runPorts rest device
      return (reply :: replies, device)

end Transfer

section Runs

variable {drive : AtaDrive} {fuel : Nat}

/-- A call over the ports does what it does on the disk, and leaves the
drive waiting for the next one. -/
theorem onPorts_eq (awaits : drive.Awaits fuel) (transfer : Transfer) :
    ∃ drive', transfer.onPorts ports fuel drive =
        some ((transfer.onDisk drive.disk).1, drive') ∧
      drive'.disk = (transfer.onDisk drive.disk).2 ∧
      drive'.Awaits fuel := by
  cases transfer with
  | read lba count buffer =>
      obtain ⟨drive', read, disk, awaits'⟩ :=
        @readLba_ports fuel lba.toNat count.toNat drive 0 buffer awaits
      rw [Transfer.onPorts, read]
      exact ⟨drive', rfl, disk, awaits'⟩
  | write lba count buffer =>
      obtain ⟨drive', write, disk, awaits'⟩ :=
        @writeLba_ports fuel lba.toNat buffer count.toNat drive 0 awaits
      rw [Transfer.onPorts, write]
      exact ⟨drive', rfl, disk, awaits'⟩

/-- Calls over the ports do what they do on the disk. -/
theorem runPorts_eq (transfers : List Transfer)
    (awaits : drive.Awaits fuel) :
    ∃ drive', Transfer.runPorts ports fuel transfers drive =
        some ((Transfer.runDisk transfers drive.disk).1, drive') ∧
      drive'.disk = (Transfer.runDisk transfers drive.disk).2 ∧
      drive'.Awaits fuel := by
  induction transfers generalizing drive with
  | nil => exact ⟨drive, rfl, rfl, awaits⟩
  | cons transfer rest ih =>
      obtain ⟨next, done, disk, nextAwaits⟩ := onPorts_eq awaits transfer
      obtain ⟨drive', later, lastDisk, last⟩ := ih nextAwaits
      have result : Transfer.runPorts ports fuel (transfer :: rest) drive =
          some ((Transfer.runDisk (transfer :: rest) drive.disk).1,
            drive') := by
        rw [Transfer.runPorts, done]
        simp only [Option.bind_eq_bind, Option.bind_some, later]
        rw [disk]
        rfl
      rw [disk] at lastDisk
      exact ⟨drive', result, lastDisk, last⟩

/-- Some polling outlasts every delay that a drive has left. -/
theorem AtaDrive.exists_patient (drive : AtaDrive) :
    ∃ enough, ∀ fuel, enough ≤ fuel → drive.Patient fuel := by
  have bounded : ∃ bound, ∀ delay ∈ drive.delays, delay < bound := by
    induction drive.delays with
    | nil => exact ⟨0, fun _ member => absurd member List.not_mem_nil⟩
    | cons delay rest ih =>
        obtain ⟨bound, below⟩ := ih
        refine ⟨max (delay + 1) bound, fun other member => ?_⟩
        rcases List.mem_cons.mp member with rfl | member
        · exact Nat.lt_of_lt_of_le (Nat.lt_succ_self _) (Nat.le_max_left _ _)
        · exact Nat.lt_of_lt_of_le (below other member) (Nat.le_max_right _ _)
  obtain ⟨bound, below⟩ := bounded
  refine ⟨max (drive.busy + 1) bound, fun fuel enough => ⟨?_, ?_⟩⟩
  · exact Nat.lt_of_lt_of_le (Nat.le_max_left _ _) enough
  · intro delay member
    have room := Nat.le_trans (Nat.le_max_right _ _) enough
    exact Nat.lt_of_lt_of_le (below delay member) room

/-- Over every run of transfers the drive behind the ports is the disk.
Whatever the delays of the drive are, the polling of the driver ends, each
call returns what it returns on the disk, and the sectors are those of the
disk. -/
theorem ataRun_refines (quiet : drive.Quiet) (transfers : List Transfer) :
    ∃ enough, ∀ fuel, enough ≤ fuel →
      ∃ drive', Transfer.runPorts ports fuel transfers drive =
          some ((Transfer.runDisk transfers drive.disk).1, drive') ∧
        drive'.disk = (Transfer.runDisk transfers drive.disk).2 ∧
        drive'.Quiet := by
  obtain ⟨enough, patient⟩ := drive.exists_patient
  refine ⟨enough, fun fuel outlasts => ?_⟩
  obtain ⟨drive', result, disk, awaits⟩ :=
    runPorts_eq transfers ⟨quiet, patient fuel outlasts⟩
  exact ⟨drive', result, disk, awaits.quiet⟩

end Runs

/-- A drive that has just been switched on, with delays to come. -/
def newDrive (delays : List Nat) : AtaDrive where
  disk := blankDrive
  seccount := 1
  sector := 1
  cylLow := 0
  cylHigh := 0
  driveHead := 0
  phase := .ready
  busy := 7
  delays

/-- Two sectors over the end of a track, and what is there before and
afterwards. -/
def sampleTransfers : List Transfer :=
  [.read 62 2 fun _ => 1, .write 62 2 fun index => UInt8.ofNat index,
    .read 62 2 fun _ => 1]

theorem sampleTransfers_refine :
    ∃ enough, ∀ fuel, enough ≤ fuel →
      ∃ drive', Transfer.runPorts ports fuel sampleTransfers
          (newDrive [3, 0, 250, 1]) =
          some ((Transfer.runDisk sampleTransfers blankDrive).1, drive') ∧
        drive'.disk = (Transfer.runDisk sampleTransfers blankDrive).2 ∧
        drive'.Quiet :=
  @ataRun_refines (newDrive [3, 0, 250, 1]) rfl sampleTransfers

end LoafOs
