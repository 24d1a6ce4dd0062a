import XcoreSdk.DeviceControl.Transfer
/-!
# Device control: the transports

The callbacks of the I2C and the USB transport make requests and transfers for
one instance, a callback at a time. A callback that makes a transfer returns
when the transfer has. Each transaction of a host is a step of its own, so
those of the two transports come in any order.
-/

namespace DeviceControl
variable {S L σ : Type*}

def RTOS_I2C_SLAVE_BUF_LEN : Nat := 256
def CFG_TUD_ENDPOINT0_SIZE : Nat := 64

structure tusb_control_request_t where
  bmRequestType : UInt8
  wValue : UInt16
  wIndex : UInt16
  wLength : UInt16
deriving DecidableEq

/-- A vendor request to the device, from the host. -/
def REQ_TYPE_OUT : UInt8 := 0x40

/-- A vendor request to the device, to the host. -/
def REQ_TYPE_IN : UInt8 := 0xC0

inductive Stage
  | CONTROL_STAGE_SETUP
  | CONTROL_STAGE_DATA
  | CONTROL_STAGE_ACK
deriving DecidableEq

/-- Which callback waits for its transfer. -/
inductive Caller
  | i2c_rx
  | i2c_tx
  | usb_out
  | usb_in
deriving DecidableEq

/-- A read that a host has made: what it asked for, what it got, and the status
of the command that was completed last before it. -/
structure Read where
  resid : UInt8
  cmd : UInt8
  payload_len : Nat
  answer : List UInt8
  before : control_ret_t
deriving DecidableEq

structure Transports (S L σ : Type*) where
  dev : State S L σ
  caller : Option Caller
  /-- The USB write of which only the setup stage has passed. -/
  setup : Option tusb_control_request_t
  /-- What the host of each transport has asked for last: resource, command and length. -/
  i2c_asked : Option (UInt8 × UInt8 × Nat)
  usb_asked : Option (UInt8 × UInt8 × Nat)
  /-- The status of the last completed command. -/
  completed : control_ret_t
  reads : List Read

/-! ## The callbacks -/

/-- `device_control_request`, of which the transfers' results keep the parameters. -/
def State.request_made (s : State S L σ) (resid cmd : UInt8) (payload_len : Nat) : State S L σ :=
  { s with ctx := (device_control_request s.ctx resid cmd payload_len).2, request := (resid, cmd, payload_len) }

/-- A callback makes a transfer. -/
def Transports.transfer (t : Transports S L σ) (caller : Caller) (payload_buf : List UInt8)
    (direction : control_direction_t) : Option (Transports S L σ) :=
  (device_control_payload_transfer t.dev payload_buf direction).map fun dev => { t with dev, caller := some caller }

def device_control_i2c_rx_cb (t : Transports S L σ) (data : List UInt8) : Option (Transports S L σ) :=
  match data with
  | resid :: cmd :: len :: payload =>
    { t with
      dev := t.dev.request_made resid cmd len.toNat
      i2c_asked := some (resid, cmd, len.toNat) }.transfer .i2c_rx payload .CONTROL_HOST_TO_DEVICE
  | _ => some t

/-- `data` is what the driver's buffer holds. -/
def device_control_i2c_tx_start_cb (t : Transports S L σ) (data : List UInt8) : Option (Transports S L σ) :=
  t.transfer .i2c_tx data .CONTROL_DEVICE_TO_HOST

/-- `request_data` holds the data of a data stage, or anything else. -/
def device_control_usb_xfer (t : Transports S L σ) (stage : Stage) (request : tusb_control_request_t)
    (request_data : List UInt8) : Option (Transports S L σ) :=
  match stage with
  | .CONTROL_STAGE_SETUP =>
    let resid := request.wIndex.toUInt8
    let (ret, _) := device_control_request t.dev.ctx resid request.wValue.toUInt8 request.wLength.toNat
    let t := { t with
      dev := t.dev.request_made resid request.wValue.toUInt8 request.wLength.toNat
      setup := none
      usb_asked := some (resid, request.wValue.toUInt8, request.wLength.toNat) }
    if ret ≠ .CONTROL_SUCCESS then
      -- the host's command is refused
      if request.bmRequestType = REQ_TYPE_OUT ∨ request.bmRequestType = REQ_TYPE_IN then some { t with completed := ret }
      else some t
    else if request.bmRequestType = REQ_TYPE_OUT then some { t with setup := some request }
    else if request.bmRequestType = REQ_TYPE_IN then t.transfer .usb_in request_data .CONTROL_DEVICE_TO_HOST
    else some t
  | .CONTROL_STAGE_DATA =>
    { t with setup := none }.transfer .usb_out request_data .CONTROL_HOST_TO_DEVICE
  | .CONTROL_STAGE_ACK =>
    -- the host's command is acknowledged
    some { t with setup := none, completed := .CONTROL_SUCCESS }

/-! ## Their ends -/

/-- A write transaction that only says what the next read transaction is to read:
its command is not complete. -/
def announces (ctx : device_control_t S L) (e : Result S) : Prop :=
  IS_CONTROL_CMD_READ e.cmd ∧ e.given = [] ∧ (resource_table_search ctx.resource_table e.resid).1 = 0

instance (ctx : device_control_t S L) (e : Result S) : Decidable (announces ctx e) := inferInstanceAs (Decidable (_ ∧ _ ∧ _))

/-- What the host of a read gets. -/
def answer (caller : Caller) (e : Result S) : List UInt8 :=
  match caller with
  | .i2c_rx | .usb_out => []
  | .i2c_tx => if e.ret ≠ .CONTROL_SUCCESS then [e.ret.status] else e.payload_buf.take e.buf_size
  | .usb_in => if e.ret = .CONTROL_SUCCESS then e.payload_buf.take e.buf_size else []

def Transports.asked (t : Transports S L σ) : Caller → Option (UInt8 × UInt8 × Nat)
  | .i2c_rx | .i2c_tx => t.i2c_asked
  | .usb_out | .usb_in => t.usb_asked

/-- What the host has asked for with the read, and what it gets. -/
def Transports.read (t : Transports S L σ) (caller : Caller) (e : Result S) : Option Read :=
  if caller = .i2c_tx ∨ caller = .usb_in then
    (t.asked caller).map fun (resid, cmd, payload_len) => ⟨resid, cmd, payload_len, answer caller e, t.completed⟩
  else none

/-- The callback returns. -/
def callback_return (t : Transports S L σ) : Option (Transports S L σ) :=
  match t.caller, t.dev.host, t.dev.results.getLast? with
  | some caller, .idle, some e =>
    let completed := if caller = .i2c_rx ∧ announces t.dev.ctx e then t.completed else e.ret
    some { t with caller := none, completed, reads := t.reads ++ (t.read caller e).toList }
  | _, _, _ => none

/-! ## All together -/

inductive TransportAct (S L : Type*)
  | i2c_write (data : List UInt8)
  | i2c_read (data : List UInt8)
  | usb_setup (request : tusb_control_request_t) (request_data : List UInt8)
  | usb_data (data : List UInt8)
  | usb_ack
  | callback_return
  | host
  | client (l : L) (mem : List UInt8)
  | servicer (servicer : S)

variable [DecidableEq S] [DecidableEq L]

/-- The hosts of the two transports. A USB write has a data stage if it has
data, and else goes on with its status stage. -/
def transports (cb : S → Callbacks σ) (servicer_count : Nat)
    (polls : List (Option (servicer_init_data_t S × Option L))) :
    Machine (Transports S L σ) (TransportAct S L) where
  init t := (device_control cb servicer_count polls).init t.dev ∧ t.caller = none ∧ t.setup = none ∧
    t.i2c_asked = none ∧ t.usb_asked = none ∧ t.completed = .CONTROL_SUCCESS ∧ t.reads = []
  step t
    | .i2c_write data => if t.caller = none then device_control_i2c_rx_cb t data else none
    | .i2c_read data =>
      if t.caller = none ∧ data.length = RTOS_I2C_SLAVE_BUF_LEN then device_control_i2c_tx_start_cb t data else none
    | .usb_setup request request_data =>
      if t.caller = none ∧ request_data.length = CFG_TUD_ENDPOINT0_SIZE then
        device_control_usb_xfer t .CONTROL_STAGE_SETUP request request_data
      else none
    | .usb_data data => t.setup.bind fun request =>
      if t.caller = none ∧ 0 < request.wLength.toNat ∧ data.length = request.wLength.toNat then
        device_control_usb_xfer t .CONTROL_STAGE_DATA request data
      else none
    | .usb_ack => t.setup.bind fun request =>
      if t.caller = none ∧ request.wLength.toNat = 0 then device_control_usb_xfer t .CONTROL_STAGE_ACK request []
      else none
    | .callback_return => callback_return t
    | .host => (host_step t.dev).map ({ t with dev := · })
    | .client l mem => (client_step t.dev l mem).map ({ t with dev := · })
    | .servicer servicer => (servicer_step cb t.dev servicer).map ({ t with dev := · })

/-- The read of the last command's status. -/
def get_last_status : UInt8 × UInt8 × Nat := (CONTROL_SPECIAL_RESID, CONTROL_GET_LAST_COMMAND_STATUS, 1)

/-- A USB command is for a resource that is there, and a USB write has at least
one byte of data and no more than fit the endpoint's buffer. When the host of
the I2C reads the last status, no USB request for anything else has come since
it asked for it. -/
def Delivered (t : Transports S L σ) : TransportAct S L → Prop
  | .usb_setup request _ =>
    (request.bmRequestType = REQ_TYPE_OUT ∨ request.bmRequestType = REQ_TYPE_IN →
      (resource_table_search t.dev.ctx.resource_table request.wIndex.toUInt8).1 = 0) ∧
    (request.bmRequestType = REQ_TYPE_OUT → 0 < request.wLength.toNat ∧ request.wLength.toNat ≤ CFG_TUD_ENDPOINT0_SIZE)
  | .i2c_read _ => t.i2c_asked = some get_last_status → t.dev.request = get_last_status
  | _ => True

instance (t : Transports S L σ) : ∀ a, Decidable (Delivered t a)
  | .usb_setup .. => inferInstanceAs (Decidable (_ ∧ _))
  | .i2c_read _ => inferInstanceAs (Decidable (_ → _))
  | .i2c_write _ | .usb_data _ | .usb_ack | .callback_return | .host | .client .. | .servicer _ => isTrue trivial

end DeviceControl
