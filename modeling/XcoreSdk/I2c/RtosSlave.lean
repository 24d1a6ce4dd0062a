import XcoreSdk.Lib.Machine
import Mathlib.Algebra.Order.Ring.Nat
/-!
# The RTOS I2C slave driver

The low-level slave calls the driver from a core of its own. The driver notifies
its application thread over a channel with room for one word: an interrupt
routine takes the word and has an event bit set, the thread makes the call of
the application and answers over the channel. Setting an event bit from an
interrupt routine is left to the timer task.
-/

namespace I2c
namespace RtosSlave

/-- `RX_CB_CODE`, `TX_START_CB_CODE` and `TX_DONE_CB_CODE`. -/
inductive Notification
  | rx
  | tx_start
  | tx_done
deriving DecidableEq

def Notification.code : Notification → Nat
  | .rx => 0
  | .tx_start => 1
  | .tx_done => 2

abbrev Flags := Notification → Bool

/-- Where the data for the master is. -/
inductive Buffer (β : Type*)
  | null
  | data_buf
  | other (b : β)
deriving DecidableEq

/-- A callback of the low-level slave that checks for the end of a transaction. -/
inductive Callback
  | ack_read_req
  | ack_write_req
  | stop_bit
deriving DecidableEq

/-- Where the low-level slave's thread is. -/
inductive Hil
  | boot
  | idle
  /-- In `xfer_complete_check`. -/
  | check (cb : Callback)
  | completed (cb : Callback)
  | notify (cb : Callback) (n : Notification)
  | wait (cb : Callback)
  | checked (cb : Callback)
  /-- In `i2c_ack_read_req`. -/
  | tx_start
  | tx_wait
deriving DecidableEq

/-- Where the application thread is. -/
inductive App
  | boot
  | get_bits
  | check (n : Notification) (flags : Flags)
  /-- In the application's function. -/
  | inside (n : Notification) (flags : Flags)
  | answer (n : Notification) (flags : Flags)

/-- A transaction as the low-level slave sees it: what the master has written,
or whether its read was acknowledged, from which buffer, and what it has read. -/
inductive Transaction (β : Type*)
  | write (data : List UInt8)
  | read (acked : Bool) (data : Buffer β) (taken : List UInt8)
deriving DecidableEq

/-- A call of the application. -/
inductive Call (β : Type*)
  | rx (data : List UInt8)
  | tx_start
  | tx_done (data : Buffer β) (len : Nat)
deriving DecidableEq

/-- How the driver has been set up: the size of its buffer, whether there is a
`tx_done`, and the contents of the application's own buffers. -/
structure Config (β : Type*) where
  RTOS_I2C_SLAVE_BUF_LEN : Nat
  tx_done : Bool
  contents : β → Nat → UInt8

structure State (β : Type*) where
  data_buf : Nat → UInt8
  rx_data_i : Nat
  tx_data : Buffer β
  tx_data_len : UInt32
  tx_data_i : UInt32
  tx_data_sent : UInt32
  waiting_for_complete_cb : Bool
  /-- The word on its way to the interrupt routine. -/
  to_app : Option Notification
  /-- Whether an answer is on its way back. -/
  to_hil : Bool
  deferred : List Notification
  events : Flags
  hil : Hil
  app : App
  past : List (Transaction β)
  /-- The transaction that neither a stop nor a repeated start has ended. -/
  current : Option (Transaction β)
  calls : List (Call β)

variable {β : Type*} (cfg : Config β)

/-! ## The callbacks of the low-level slave -/

def tx_state_clear (s : State β) : State β :=
  { s with tx_data := .null, tx_data_len := 0, tx_data_i := 0, tx_data_sent := 0 }

def rx_state_clear (s : State β) : State β := { s with rx_data_i := 0 }

/-- One byte for the master. -/
def i2c_master_req_data (s : State β) : UInt8 × State β :=
  let answer (tx_byte : UInt8) :=
    let tx_data_i := if s.tx_data_i + 1 = s.tx_data_len then 0 else s.tx_data_i + 1
    (tx_byte, { s with tx_data_i, tx_data_sent := s.tx_data_sent + 1 })
  if 0 < s.tx_data_len then
    match s.tx_data with
    | .null => (0xFF, s)
    | .data_buf => answer (s.data_buf s.tx_data_i.toNat)
    | .other b => answer (cfg.contents b s.tx_data_i.toNat)
  else (0xFF, s)

/-- Whether the byte is acknowledged. -/
def i2c_master_sent_data (s : State β) (data : UInt8) : Bool × State β :=
  let s := if s.rx_data_i < cfg.RTOS_I2C_SLAVE_BUF_LEN then
      { s with data_buf := Function.update s.data_buf s.rx_data_i data, rx_data_i := s.rx_data_i + 1 }
    else s
  (decide (s.rx_data_i < cfg.RTOS_I2C_SLAVE_BUF_LEN), s)

/-- A step of `xfer_complete_check`, or of the callback around it. -/
def hil_step (s : State β) : Option (State β) :=
  match s.hil with
  | .boot => if s.to_hil then some { s with to_hil := false, hil := .idle } else none
  | .idle => none
  | .check cb =>
    if s.waiting_for_complete_cb then
      if s.to_hil then some { s with to_hil := false, waiting_for_complete_cb := false, hil := .completed cb } else none
    else some { s with hil := .completed cb }
  | .completed cb =>
    if 0 < s.tx_data_sent then
      if cfg.tx_done then some { s with hil := .notify cb .tx_done }
      else some { tx_state_clear s with hil := .checked cb }
    else if 0 < s.rx_data_i then some { s with hil := .notify cb .rx }
    else some { s with hil := .checked cb }
  | .notify cb n =>
    if s.to_app = none then
      match cb with
      | .stop_bit => some { s with to_app := some n, waiting_for_complete_cb := true, hil := .checked cb }
      | _ => some { s with to_app := some n, hil := .wait cb }
    else none
  | .wait cb => if s.to_hil then some { s with to_hil := false, hil := .checked cb } else none
  | .checked .stop_bit => some { s with hil := .idle }
  | .checked .ack_write_req => some { s with rx_data_i := 0, hil := .idle, current := some (.write []) }
  | .checked .ack_read_req => some { s with tx_data := .data_buf, hil := .tx_start }
  | .tx_start => if s.to_app = none then some { s with to_app := some .tx_start, hil := .tx_wait } else none
  | .tx_wait =>
    if s.to_hil then
      let acked := decide (0 < s.tx_data_len) && match s.tx_data with
        | .null => false
        | _ => true
      some { s with
        to_hil := false, tx_data_i := 0, tx_data_sent := 0, hil := .idle
        current := some (.read acked s.tx_data []) }
    else none

/-! ## The application thread -/

def rtos_i2c_slave_isr (s : State β) : Option (State β) :=
  s.to_app.map fun isr_action => { s with to_app := none, deferred := s.deferred ++ [isr_action] }

def timer_step (s : State β) : Option (State β) :=
  match s.deferred with
  | [] => none
  | n :: deferred => some { s with deferred, events := Function.update s.events n true }

/-- After the `if` for a notification comes the next one. -/
def App.next (flags : Flags) : Notification → App
  | .rx => .check .tx_start flags
  | .tx_start => .check .tx_done flags
  | .tx_done => .get_bits

def State.received (s : State β) : List UInt8 := (List.range s.rx_data_i).map s.data_buf

def State.call (s : State β) : Notification → Call β
  | .rx => .rx s.received
  | .tx_start => .tx_start
  | .tx_done => .tx_done s.tx_data s.tx_data_sent.toNat

/-- A step of `i2c_slave_app_thread` outside of the application's functions. -/
def app_step (s : State β) : Option (State β) :=
  match s.app with
  | .boot => if s.to_hil then none else some { s with to_hil := true, app := .get_bits }
  | .get_bits =>
    if s.events .rx || s.events .tx_start || s.events .tx_done then
      some { s with events := fun _ => false, app := .check .rx s.events }
    else none
  | .check n flags =>
    if flags n then some { s with app := .inside n flags, calls := s.calls ++ [s.call n] }
    else some { s with app := App.next flags n }
  | .inside .. => none
  | .answer n flags => if s.to_hil then none else some { s with to_hil := true, app := App.next flags n }

/-- The application's function returns. It may leave anything in the driver's
buffer; `tx_start` says where its data is, and how much. -/
def app_return (s : State β) (data_buf : Nat → UInt8) (tx_data : Buffer β) (tx_data_len : UInt32) : Option (State β) :=
  match s.app with
  | .inside .rx flags => some { rx_state_clear s with data_buf, app := .answer .rx flags }
  | .inside .tx_start flags => some { s with data_buf, tx_data, tx_data_len, app := .answer .tx_start flags }
  | .inside .tx_done flags => some { tx_state_clear s with data_buf, app := .answer .tx_done flags }
  | _ => none

/-! ## All together -/

inductive Act (β : Type*)
  | callback (cb : Callback)
  | sent_data (data : UInt8)
  | req_data
  | hil
  | isr
  | timer
  | app
  | app_return (data_buf : Nat → UInt8) (tx_data : Buffer β) (tx_data_len : UInt32)

/-- After a read has been acknowledged the low-level slave asks for a byte first
of all. A stop is reported only after a transaction of the slave's own. -/
def State.allows (s : State β) (cb : Callback) : Bool :=
  match s.current, cb with
  | some (.read true _ []), _ => false
  | none, .stop_bit => false
  | _, _ => true

/-- The low-level slave begins a callback: it has seen a start or a stop. -/
def callback (s : State β) (cb : Callback) : Option (State β) :=
  if s.hil = .idle ∧ s.allows cb then
    some { s with hil := .check cb, past := s.past ++ s.current.toList, current := none }
  else none

/-- A byte of a write transaction. -/
def sent_data (s : State β) (data : UInt8) : Option (State β) :=
  match s.hil, s.current with
  | .idle, some (.write sent) => some { (i2c_master_sent_data cfg s data).2 with current := some (.write (sent ++ [data])) }
  | _, _ => none

/-- The next byte of an acknowledged read transaction. -/
def req_data (s : State β) : Option (State β) :=
  match s.hil, s.current with
  | .idle, some (.read true tx_data taken) =>
    let (tx_byte, s) := i2c_master_req_data cfg s
    some { s with current := some (.read true tx_data (taken ++ [tx_byte])) }
  | _, _ => none

def driver : Machine (State β) (Act β) where
  init s := s.rx_data_i = 0 ∧ s.tx_data_sent = 0 ∧ s.waiting_for_complete_cb = false ∧ s.to_app = none ∧
    s.to_hil = false ∧ s.deferred = [] ∧ s.events = (fun _ => false) ∧ s.hil = .boot ∧ s.app = .boot ∧ s.past = [] ∧
    s.current = none ∧ s.calls = []
  step s
    | .callback cb => callback s cb
    | .sent_data data => sent_data cfg s data
    | .req_data => req_data cfg s
    | .hil => hil_step cfg s
    | .isr => rtos_i2c_slave_isr s
    | .timer => timer_step s
    | .app => app_step s
    | .app_return data_buf tx_data tx_data_len => app_return s data_buf tx_data tx_data_len

end RtosSlave
end I2c
