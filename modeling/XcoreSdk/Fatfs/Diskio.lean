import XcoreSdk.Lib.Machine
import XcoreSdk.QspiFlash.EraseOp
import XcoreSdk.QspiFlash.ReadOp
import XcoreSdk.QspiFlash.WriteOp
/-!
# The block device under FatFs

FatFs has one volume, on the flash from a fixed address on. Its sectors are read
and written through the flash driver, whose operations are performed in turn: a
write holds the driver's lock from its erase on.
-/

namespace Fatfs
open QspiFlash Blocks
open QspiFlash.Locking (Request)

abbrev QSPI_FLASH_FILESYSTEM_START_ADDRESS : Nat := 0x100000
abbrev QSPI_FLASH_SECTOR_SIZE : Nat := 4096

def FF_VOLUMES : Nat := 1

inductive DRESULT
  | RES_OK
  | RES_ERROR
  | RES_WRPRT
  | RES_NOTRDY
  | RES_PARERR
deriving DecidableEq

/-! ## The flash driver -/

def STA_NOINIT : UInt8 := 0x01
def STA_PROTECT : UInt8 := 0x04

/-- The drive, the flash it is on, and what the driver was asked to do with it. -/
structure Disk where
  chip : Chip
  drive_status : UInt8
  requests : List Request

def rtos_qspi_flash_size_get (ctx : Ctx) : Nat := ctx.flash_size

def rtos_qspi_flash_read (rounds : Nat) (ctx : Ctx) (d : Disk) (data : Nat → UInt8) (address len : Nat) :
    Option ((Nat → UInt8) × Disk) :=
  (read_op rounds ctx d.chip data address len).map fun data =>
    (data, { d with requests := d.requests ++ [Request.read address len] })

/-- The driver writes a copy of the data. -/
def rtos_qspi_flash_write (rounds : Nat) (ctx : Ctx) (d : Disk) (data : Nat → UInt8) (address len : Nat) : Option Disk :=
  let data := (List.range len).map data
  (write_op rounds ctx d.chip data address).map fun chip =>
    { d with chip, requests := d.requests ++ [Request.write address data] }

def rtos_qspi_flash_erase (rounds : Nat) (ctx : Ctx) (d : Disk) (address len : Nat) : Option Disk :=
  (erase_op rounds ctx d.chip address len).map fun chip =>
    { d with chip, requests := d.requests ++ [Request.erase address len] }

/-! ## The functions that FatFs calls -/

def disk_status (d : Disk) (pdrv : Nat) : UInt8 := if pdrv < FF_VOLUMES then d.drive_status else STA_NOINIT

def disk_initialize (d : Disk) (pdrv : Nat) : UInt8 × Disk :=
  if pdrv = 0 then
    let drive_status := if d.drive_status &&& STA_NOINIT = STA_NOINIT then d.drive_status &&& ~~~STA_NOINIT
      else d.drive_status
    (drive_status, { d with drive_status })
  else (STA_NOINIT, d)

/-- `QSPI_FLASH_FILESYSTEM_START_ADDRESS + (sector * QSPI_FLASH_SECTOR_SIZE)`, in 32 bits. -/
def sector_address (sector : Nat) : Nat :=
  (QSPI_FLASH_FILESYSTEM_START_ADDRESS + sector * QSPI_FLASH_SECTOR_SIZE) % 2 ^ 32

def sector_bytes (count : Nat) : Nat := count * QSPI_FLASH_SECTOR_SIZE % 2 ^ 32

def disk_read (rounds : Nat) (ctx : Ctx) (d : Disk) (pdrv : Nat) (buff : Nat → UInt8) (sector count : Nat) :
    Option (DRESULT × (Nat → UInt8) × Disk) :=
  if pdrv = 0 then
    if d.drive_status &&& ~~~STA_PROTECT = 0 then
      (rtos_qspi_flash_read rounds ctx d buff (sector_address sector) (sector_bytes count)).map fun r => (.RES_OK, r)
    else if d.drive_status &&& STA_NOINIT ≠ 0 then some (.RES_NOTRDY, buff, d)
    else some (.RES_ERROR, buff, d)
  else some (.RES_PARERR, buff, d)

def disk_write (rounds : Nat) (ctx : Ctx) (d : Disk) (pdrv : Nat) (buff : Nat → UInt8) (sector count : Nat) :
    Option (DRESULT × Disk) :=
  if pdrv = 0 then
    if d.drive_status = 0 then
      (rtos_qspi_flash_erase rounds ctx d (sector_address sector) (sector_bytes count)).bind fun d =>
        (rtos_qspi_flash_write rounds ctx d buff (sector_address sector) (sector_bytes count)).map fun d => (.RES_OK, d)
    else if d.drive_status &&& STA_NOINIT ≠ 0 then some (.RES_NOTRDY, d)
    else if d.drive_status &&& STA_PROTECT ≠ 0 then some (.RES_WRPRT, d)
    else some (.RES_ERROR, d)
  else some (.RES_PARERR, d)

inductive Ioctl
  | CTRL_SYNC
  | GET_SECTOR_COUNT
  | GET_SECTOR_SIZE
  | GET_BLOCK_SIZE
  | CTRL_TRIM
  | other

/-- With what goes into `buff`. The result of the inner `switch` is overwritten. -/
def disk_ioctl (ctx : Ctx) (d : Disk) (pdrv : Nat) (cmd : Ioctl) : DRESULT × Option Nat :=
  if pdrv = 0 then
    if d.drive_status &&& ~~~STA_PROTECT = 0 then
      match cmd with
      | .GET_SECTOR_COUNT => (.RES_OK, some (rtos_qspi_flash_size_get ctx / QSPI_FLASH_SECTOR_SIZE))
      | .GET_SECTOR_SIZE | .GET_BLOCK_SIZE => (.RES_OK, some QSPI_FLASH_SECTOR_SIZE)
      | .CTRL_SYNC | .CTRL_TRIM | .other => (.RES_OK, none)
    else if d.drive_status &&& STA_NOINIT ≠ 0 then (.RES_NOTRDY, none)
    else (.RES_ERROR, none)
  else (.RES_PARERR, none)

/-! ## Calls -/

inductive Call
  | read (buff : Nat → UInt8) (sector count : Nat)
  | write (buff : Nat → UInt8) (sector count : Nat)

structure State where
  disk : Disk
  /-- What was in the flash at first. -/
  initial : Nat → UInt8
  /-- The data last written to a sector. -/
  written : Nat → Option (Nat → UInt8)

def State.write (s : State) (buff : Nat → UInt8) (sector count : Nat) (disk : Disk) : State :=
  { s with
    disk
    written := fun j =>
      if sector ≤ j ∧ j < sector + count then some fun i => buff ((j - sector) * QSPI_FLASH_SECTOR_SIZE + i)
      else s.written j }

/-- Once the volume is initialised, any calls, each with some number of rounds for the driver's loops. -/
def machine (ctx : Ctx) : Machine State (Call × Nat) where
  init s := ∃ chip : Chip, chip.busy = 0 ∧
    s = ⟨( disk_initialize ⟨chip, STA_NOINIT, []⟩ 0).2, chip.mem, fun _ => none⟩
  step s a :=
    match a.1 with
    | .read buff sector count => (disk_read a.2 ctx s.disk 0 buff sector count).map fun r => { s with disk := r.2.2 }
    | .write buff sector count =>
      (disk_write a.2 ctx s.disk 0 buff sector count).map fun r => s.write buff sector count r.2

/-! ## What is promised -/

/-- Where byte `i` of sector `j` is in the flash. -/
def sector_byte (j i : Nat) : Nat := QSPI_FLASH_FILESYSTEM_START_ADDRESS + j * QSPI_FLASH_SECTOR_SIZE + i

/-- An address that a request has to do with. -/
def Touches (ctx : Ctx) : Request → Nat → Prop
  | .read address len, a => address ≤ a ∧ a < address + len
  | .write address data, a => address ≤ a ∧ a < address + data.length
  | .erase address len, a => Meets ctx.sector address len a

/-- The volume is an array of sectors, for the calls that are allowed. -/
structure SectorArray (ctx : Ctx) (allowed : Call → Prop) (s : State) : Prop where
  touched : ∀ r ∈ s.disk.requests, ∀ a, Touches ctx r a → QSPI_FLASH_FILESYSTEM_START_ADDRESS ≤ a ∧ a < ctx.flash_size
  stored : ∀ j f, s.written j = some f → ∀ i < QSPI_FLASH_SECTOR_SIZE,
    s.disk.chip.mem (sector_byte j i) = f i
  /-- No byte outside the sectors that were written has changed. -/
  unchanged : ∀ a < ctx.flash_size, (∀ j i, (s.written j).isSome → i < QSPI_FLASH_SECTOR_SIZE → a ≠ sector_byte j i) →
    s.disk.chip.mem a = s.initial a
  /-- The next read returns what was written last. -/
  read : ∀ buff sector count, allowed (.read buff sector count) → ∃ rounds out disk,
    disk_read rounds ctx s.disk 0 buff sector count = some (.RES_OK, out, disk) ∧
    ∀ j f, sector ≤ j → j < sector + count → s.written j = some f → ∀ i < QSPI_FLASH_SECTOR_SIZE,
      out ((j - sector) * QSPI_FLASH_SECTOR_SIZE + i) = f i
  write : ∀ buff sector count, allowed (.write buff sector count) → ∃ rounds disk,
    disk_write rounds ctx s.disk 0 buff sector count = some (.RES_OK, disk)

/-- The sectors are among those that FatFs is told there are. -/
def Call.Counted (ctx : Ctx) (d : Disk) : Call → Prop
  | .read _ sector count | .write _ sector count =>
    ∀ n ∈ (disk_ioctl ctx d 0 .GET_SECTOR_COUNT).2, sector + count ≤ n

/-- How far three bytes of address reach in the flash. -/
def reach (ctx : Ctx) : Nat := min ctx.flash_size (2 ^ 24)

/-- The sectors lie in the flash where three bytes of address reach, and what is written are whole sectors of the flash. -/
def Call.Contained (ctx : Ctx) : Call → Prop
  | .read _ sector count => sector_byte (sector + count) 0 ≤ reach ctx
  | .write _ sector count => sector_byte (sector + count) 0 ≤ reach ctx ∧
    ctx.sector ∣ sector_byte sector 0 ∧ ctx.sector ∣ sector_byte (sector + count) 0

end Fatfs
