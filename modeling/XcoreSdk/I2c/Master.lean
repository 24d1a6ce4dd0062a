import XcoreSdk.Lib.Bits
import Mathlib.Data.List.Basic
/-!
# The I2C master

What the master does to the bus bit by bit. The levels that it samples are
whatever the slaves make of SDA, so they are given as a sequence: each sample
takes the next one.
-/

namespace I2c

/-- What happens on the bus. -/
inductive Wire
  | start
  | repeated_start
  /-- The master drives a bit of data, or its acknowledgement. -/
  | drive (sda : Bool)
  | sample (sda : Bool)
  | stop
deriving DecidableEq

inductive I2cRes
  | nack
  | ack
deriving DecidableEq

structure Master where
  stopped : Bool
  /-- SDA at the samples to come. -/
  sda : Nat → Bool
  wire : List Wire

namespace Master

def high_pulse_drive (m : Master) (sda_value : Bool) : Master := { m with wire := m.wire ++ [.drive sda_value] }

/-- SDA, and the master after it. -/
def high_pulse_sample (m : Master) : Bool × Master :=
  (m.sda 0, { m with sda := fun i => m.sda (i + 1), wire := m.wire ++ [.sample (m.sda 0)] })

def start_bit (m : Master) : Master := { m with wire := m.wire ++ [if m.stopped then .start else .repeated_start] }

def stop_bit (m : Master) : Master := { m with wire := m.wire ++ [.stop] }

/-- The loop of `tx8`. -/
def drive_bits : Nat → BitVec 32 → Master → Master
  | 0, _, m => m
  | i + 1, data, m => drive_bits i (data >>> 1) (m.high_pulse_drive (data.getLsbD 0))

/-- The acknowledge bit. -/
def tx8 (m : Master) (data : BitVec 32) : Bool × Master :=
  (drive_bits 8 (data.reverse >>> 24) m).high_pulse_sample

/-- The end of a read or a write. -/
def finish (m : Master) (send_stop_bit : Bool) : Master :=
  if send_stop_bit then { m.stop_bit with stopped := true } else { m with stopped := false }

end Master

/-! ## Reading -/

/-- The bits of a byte. -/
def read_bits : Nat → UInt8 → Master → UInt8 × Master
  | 0, data, m => (data, m)
  | i + 1, data, m =>
    read_bits i ((data <<< 1) ||| if m.high_pulse_sample.1 then 1 else 0) m.high_pulse_sample.2

/-- The bytes that are left of `n`, behind those in `data`. The last one is not acknowledged. -/
def read_bytes (n : Nat) : Nat → List UInt8 → Master → List UInt8 × Master
  | 0, data, m => (data, m)
  | left + 1, data, m =>
    read_bytes n left (data ++ [(read_bits 8 0 m).1]) ((read_bits 8 0 m).2.high_pulse_drive (data.length = n - 1))

structure ReadResult where
  result : I2cRes
  buf : List UInt8
  master : Master

/-- Reads `n` bytes into the first of `buf`. -/
def i2c_master_read (m : Master) (device_addr : UInt8) (buf : List UInt8) (n : Nat) (send_stop_bit : Bool) : ReadResult :=
  let (ack, m) := m.start_bit.tx8 ((device_addr.toBitVec.setWidth 32 <<< 1) ||| 1)
  if ack then ⟨.nack, buf, m.finish send_stop_bit⟩
  else
    let (data, m) := read_bytes n n [] m
    ⟨.ack, data ++ buf.drop n, m.finish send_stop_bit⟩

/-! ## Writing -/

/-- The loop over the bytes; the number of them that were sent, and the last acknowledge bit. -/
def write_bytes : List UInt8 → Nat → Bool → Master → Nat × Bool × Master
  | [], j, ack, m => (j, ack, m)
  | b :: bs, j, ack, m =>
    if ack then (j, ack, m)
    else write_bytes bs (j + 1) (m.tx8 (b.toBitVec.setWidth 32)).1 (m.tx8 (b.toBitVec.setWidth 32)).2

structure WriteResult where
  result : I2cRes
  num_bytes_sent : Nat
  master : Master

def i2c_master_write (m : Master) (device_addr : UInt8) (buf : List UInt8) (send_stop_bit : Bool) : WriteResult :=
  let (ack, m) := m.start_bit.tx8 (device_addr.toBitVec.setWidth 32 <<< 1)
  let (j, ack, m) := write_bytes buf 0 ack m
  ⟨if ack then .nack else .ack, j, m.finish send_stop_bit⟩

def i2c_master_stop_bit_send (m : Master) : Master := { m.stop_bit with stopped := true }

/-! ## Registers -/

inductive RegopRes
  | success
  | device_nack
  | incomplete
deriving DecidableEq

/-- The body of the functions that read a register: `reg` is its address, `size`
the size of the buffer for both, of which `n` bytes are read. The buffer is
none where the function returns 0 before it reads. -/
def read_register (m : Master) (device_addr : UInt8) (reg : List UInt8) (size n : Nat) :
    RegopRes × Option (List UInt8) × Master :=
  let sent := i2c_master_write m device_addr reg false
  if sent.num_bytes_sent ≠ reg.length then (.device_nack, none, i2c_master_stop_bit_send sent.master)
  else
    let read := i2c_master_read sent.master device_addr (List.replicate size 0) n true
    (if read.result = .nack then .device_nack else .success, some read.buf, read.master)

/-- The result, the value and the master after it. -/
structure RegRead (α : Type) where
  result : RegopRes
  value : α
  master : Master

def buf0 : Option (List UInt8) → UInt8
  | none => 0
  | some buf => buf.getD 0 0

/-- `(buf[0] << 8) | buf[1]`. -/
def buf01 : Option (List UInt8) → UInt16
  | none => 0
  | some buf => ((buf.getD 0 0).toUInt16 <<< 8) ||| (buf.getD 1 0).toUInt16

/-- `{(reg >> 8) & 0xFF, reg & 0xFF}`. -/
def bytes16 (reg : UInt16) : List UInt8 := [((reg >>> 8) &&& 0xFF).toUInt8, (reg &&& 0xFF).toUInt8]

def read_reg (m : Master) (device_addr reg : UInt8) : RegRead UInt8 :=
  let (result, buf, m) := read_register m device_addr [reg] 1 1
  ⟨result, buf0 buf, m⟩

def read_reg8_addr16 (m : Master) (device_addr : UInt8) (reg : UInt16) : RegRead UInt8 :=
  let (result, buf, m) := read_register m device_addr (bytes16 reg) 2 1
  ⟨result, buf0 buf, m⟩

def read_reg16_addr8 (m : Master) (device_addr reg : UInt8) : RegRead UInt16 :=
  let (result, buf, m) := read_register m device_addr [reg] 2 2
  ⟨result, buf01 buf, m⟩

def read_reg16 (m : Master) (device_addr : UInt8) (reg : UInt16) : RegRead UInt16 :=
  let (result, buf, m) := read_register m device_addr (bytes16 reg) 2 2
  ⟨result, buf01 buf, m⟩

/-- The body of the functions that write a register; `buf` is its address and the data. -/
def write_register (m : Master) (device_addr : UInt8) (buf : List UInt8) : RegopRes × Master :=
  let sent := i2c_master_write m device_addr buf true
  (if sent.num_bytes_sent = 0 then .device_nack
    else if sent.num_bytes_sent < buf.length then .incomplete
    else .success, sent.master)

def write_reg (m : Master) (device_addr reg data : UInt8) : RegopRes × Master :=
  write_register m device_addr [reg, data]

def write_reg8_addr16 (m : Master) (device_addr : UInt8) (reg : UInt16) (data : UInt8) : RegopRes × Master :=
  write_register m device_addr (bytes16 reg ++ [data])

def write_reg16_addr8 (m : Master) (device_addr reg : UInt8) (data : UInt16) : RegopRes × Master :=
  write_register m device_addr (reg :: bytes16 data)

def write_reg16 (m : Master) (device_addr : UInt8) (reg data : UInt16) : RegopRes × Master :=
  write_register m device_addr (bytes16 reg ++ bytes16 data)

/-! ## Registers in the RTOS driver -/

def i2c_master_local_reg_write (m : Master) (device_addr reg_addr data : UInt8) : RegopRes × Master :=
  let sent := i2c_master_write m device_addr [reg_addr, data] true
  (match sent.result with
    | .ack =>
      if sent.num_bytes_sent = 0 then .device_nack else if sent.num_bytes_sent < 2 then .incomplete else .success
    | .nack => .device_nack, sent.master)

/-- `data` is a byte of the caller. -/
def i2c_master_local_reg_read (m : Master) (device_addr reg_addr data : UInt8) : RegRead UInt8 :=
  let sent := i2c_master_write m device_addr [reg_addr] false
  let result := match sent.result with
    | .ack => if sent.num_bytes_sent = 0 then RegopRes.device_nack else .success
    | .nack => .device_nack
  if result = .success then
    let read := i2c_master_read sent.master device_addr [data] 1 true
    ⟨if read.result = .ack then .success else .device_nack, buf0 (some read.buf), read.master⟩
  else ⟨result, data, sent.master⟩

end I2c
