import XcoreSdk.Lib.Bits
import XcoreSdk.Lib.Loop
/-!
# The I2C slave

`i2c_slave` waits for a level on SCL, on SDA, or on either of them, and its
variables say which. Both lines are low while anybody drives them low. The others
on the bus change them one at a time, and the slave handles all there is to
handle before the next change.
-/

namespace I2c
namespace Slave

/-- `enum i2c_slave_state` -/
inductive State
  | WAITING_FOR_START_OR_STOP
  | READING_ADDR
  | ACK_ADDR
  | ACK_WAIT_HIGH
  | ACK_WAIT_LOW
  | IGNORE_ACK
  | MASTER_WRITE
  | MASTER_READ
deriving DecidableEq

/-- `i2c_slave_ack_t` -/
inductive SlaveAck
  | I2C_SLAVE_ACK
  | I2C_SLAVE_NACK
deriving DecidableEq

/-- The calls of `i2c_callback_group_t`. -/
inductive Call
  | ack_read_request
  | ack_write_request
  | master_requires_data
  | master_sent_data (data : UInt8)
  | stop_bit
deriving DecidableEq

/-- What the application answers, by the number of calls before. -/
structure App where
  ack : Nat → SlaveAck
  data : Nat → UInt8
  /-- Whether `stop_bit` is given. -/
  has_stop_bit : Bool

/-- The variables of `i2c_slave`, its ports, the levels that the others let the lines have, the calls, and the level of
SDA at each rise of SCL. -/
structure Ctx where
  state : State
  next_state : State
  sda_val : Bool
  scl_val : Bool
  bitnum : Nat
  rw : Bool
  stop_bit_check : Bool
  ignore_stop_bit : Bool
  data : Nat
  p_scl : Bool
  p_sda : Bool
  scl : Bool
  sda : Bool
  calls : List Call
  seen : List Bool

def Ctx.scl_line (s : Ctx) : Bool := s.p_scl && s.scl

def Ctx.sda_line (s : Ctx) : Bool := s.p_sda && s.sda

/-- Input turns a port around: it is no longer driven. -/
def port_in_scl (s : Ctx) : Bool × Ctx := (s.scl, { s with p_scl := true })

def port_in_sda (s : Ctx) : Bool × Ctx := (s.sda, { s with p_sda := true })

def port_out_scl (s : Ctx) (val : Bool) : Ctx := { s with p_scl := val }

def port_out_sda (s : Ctx) (val : Bool) : Ctx := { s with p_sda := val }

def call (s : Ctx) (c : Call) : Ctx := { s with calls := s.calls ++ [c] }

/-- `data & 0x1` as a level. -/
def bit0 (data : Nat) : Bool := data &&& 1 = 1

/-- `bitrev(data) >> 24` -/
def msb_first (data : UInt8) : Nat := ((BitVec.ofNat 32 data.toNat).reverse >>> 24).toNat

variable (app : App) (device_addr : UInt8)

def reading_addr (s : Ctx) : Ctx :=
  if s.scl_val = false then { s with scl_val := true }
  else
    let (bit, s) := port_in_sda s
    if s.bitnum < 7 then
      { s with data := s.data <<< 1 ||| bit.toNat, bitnum := s.bitnum + 1, scl_val := false }
    else
      let s := if s.data ≠ device_addr.toNat then { s with state := .IGNORE_ACK }
        else { s with state := .ACK_ADDR, rw := bit }
      { s with scl_val := false }

def ack_addr (s : Ctx) : Ctx :=
  let s := port_out_scl s false
  let ack := app.ack s.calls.length
  let s := call s (if s.rw then .ack_read_request else .ack_write_request)
  let s := { s with ignore_stop_bit := false }
  let s := if ack = .I2C_SLAVE_NACK then
      { (port_in_sda s).2 with next_state := .WAITING_FOR_START_OR_STOP }
    else { port_out_sda s false with next_state := if s.rw then .MASTER_READ else .MASTER_WRITE }
  let s := { s with scl_val := true, state := .ACK_WAIT_HIGH }
  (port_in_scl s).2

def ack_wait_low (s : Ctx) : Ctx :=
  let s := (port_in_sda s).2
  let s := if s.next_state = .MASTER_READ then { s with scl_val := false }
    else if s.next_state = .MASTER_WRITE then { s with data := 0, scl_val := true }
    else { s with sda_val := false }
  { s with state := s.next_state, bitnum := 0 }

def master_read (s : Ctx) : Ctx :=
  if s.scl_val = true then
    if s.bitnum = 8 then
      let (bit, s) := port_in_sda s
      if bit then { s with state := .WAITING_FOR_START_OR_STOP, sda_val := false }
      else { s with bitnum := 0, scl_val := false }
    else { s with scl_val := false, bitnum := s.bitnum + 1 }
  else
    let s := if s.bitnum < 8 then
        let s := if s.bitnum = 0 then
            let s := port_out_scl s false
            let data := app.data s.calls.length
            let s := call s .master_requires_data
            let s := { s with data := msb_first data }
            let s := port_out_sda s (bit0 s.data)
            (port_in_scl s).2
          else port_out_sda s (bit0 s.data)
        { s with data := s.data >>> 1 }
      else (port_in_sda s).2
    { s with scl_val := true }

def master_write (s : Ctx) : Ctx :=
  if s.scl_val = true then
    let (bit, s) := port_in_sda s
    let s := { s with data := s.data <<< 1 ||| (bit.toNat &&& 1) }
    let s := if s.bitnum = 0 then { s with sda_val := !bit, stop_bit_check := true } else s
    { s with scl_val := false, bitnum := s.bitnum + 1 }
  else
    let s := { s with stop_bit_check := false }
    let s := if s.bitnum = 8 then
        let s := port_out_scl s false
        let ack := app.ack s.calls.length
        let s := call s (.master_sent_data (UInt8.ofNat s.data))
        let s := if ack = .I2C_SLAVE_NACK then (port_in_sda s).2 else port_out_sda s false
        (port_in_scl { s with state := .ACK_WAIT_HIGH }).2
      else s
    { s with scl_val := true }

/-- `none` where `xassert(0)` is reached. -/
def event_scl (s : Ctx) : Option Ctx :=
  match s.state with
  | .WAITING_FOR_START_OR_STOP => none
  | .READING_ADDR => some (reading_addr device_addr s)
  | .IGNORE_ACK =>
    some { s with next_state := .WAITING_FOR_START_OR_STOP, scl_val := true, state := .ACK_WAIT_HIGH }
  | .ACK_ADDR => some (ack_addr app s)
  | .ACK_WAIT_HIGH => some { s with state := .ACK_WAIT_LOW, scl_val := false }
  | .ACK_WAIT_LOW => some (ack_wait_low s)
  | .MASTER_READ => some (master_read app s)
  | .MASTER_WRITE => some (master_write app s)

def event_sda (s : Ctx) : Ctx :=
  let (val, s) := port_in_scl s
  if s.sda_val = true then
    let s := if val then
        let s := if !s.ignore_stop_bit && app.has_stop_bit then
            (port_in_scl (call (port_out_scl s false) .stop_bit)).2
          else s
        { s with state := .WAITING_FOR_START_OR_STOP, ignore_stop_bit := true, stop_bit_check := false }
      else s
    { s with sda_val := false }
  else if val then
    { s with state := .READING_ADDR, bitnum := 0, data := 0, scl_val := false, stop_bit_check := false }
  else { s with sda_val := true }

def sda_triggers (s : Ctx) : Bool :=
  (decide (s.state = .WAITING_FOR_START_OR_STOP) || s.stop_bit_check) && s.sda_line == s.sda_val

def scl_triggers (s : Ctx) : Bool := !decide (s.state = .WAITING_FOR_START_OR_STOP) && s.scl_line == s.scl_val

/-- A round of the loop, while no shutdown is requested: an event, or `some` state in which the slave waits. Where both
lines trigger, `sda_first` says which event comes first. -/
def round (sda_first : Bool) (s : Ctx) : Ctx ⊕ Option Ctx :=
  if sda_triggers s && (!scl_triggers s || sda_first) then .inl (event_sda app s)
  else if scl_triggers s then (event_scl app device_addr s).elim (.inr none) .inl
  else .inr (some s)

/-- The slave once SDA is high. -/
def started : Ctx where
  state := .WAITING_FOR_START_OR_STOP
  next_state := .WAITING_FOR_START_OR_STOP
  sda_val := false
  scl_val := false
  bitnum := 0
  rw := false
  stop_bit_check := false
  ignore_stop_bit := true
  data := 0
  p_scl := true
  p_sda := true
  scl := true
  sda := true
  calls := []
  seen := []

/-! ## The bus -/

/-- What the others do to the lines. -/
inductive Edge
  | scl (val : Bool)
  | sda (val : Bool)
deriving DecidableEq

def drive (s : Ctx) : Edge → Ctx
  | .scl val => { s with scl := val, seen := if val && !s.scl then s.seen ++ [s.sda_line] else s.seen }
  | .sda val => { s with sda := val }

/-- The slave's run over these changes: it is done with each before the next. -/
inductive Run (sda_first : Bool) : Ctx → List Edge → Ctx → Prop
  | nil (s : Ctx) : Run sda_first s [] s
  | cons {s s' s'' : Ctx} {e : Edge} {es : List Edge} (h : Loop.Ends (round app device_addr sda_first) (drive s e) (some s'))
      (hs : Run sda_first s' es s'') : Run sda_first s (e :: es) s''

end Slave
end I2c
