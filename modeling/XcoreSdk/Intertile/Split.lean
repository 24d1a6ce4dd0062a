import XcoreSdk.Intertile.RxDemux
import Mathlib.Data.List.ModifyLast
/-!
# Receiving in parts

`rtos_intertile_rx_len` waits for a port and takes the length of its message,
and `rtos_intertile_rx_data` hands out the payload, as many bytes at a time as
it is asked for. What is left of the message is kept in `rx_len`, which all
ports share. A task that has a length calls `rtos_intertile_rx_data` until it
has all bytes, and then receives the next message.
-/

namespace Intertile

/-- How far a task has got. `left` are the bytes of the message that it still
has to ask for. -/
inductive Split
  | idle
  /-- `rtos_intertile_rx_len` before its assertion. -/
  | check
  | get_bits
  /-- The wait is over without an event bit; `rx_len` is still to be returned. -/
  | timed_out
  | in_word (bs : List UInt8)
  /-- `rx_len` is set, and still to be returned. -/
  | got (len : Nat)
  /-- Between two calls. -/
  | taken (left : Nat)
  /-- `rtos_intertile_rx_data`, which has decided to take `len` bytes. -/
  | in_buf (left len : Nat) (data : List UInt8)
  /-- Before it takes them off `rx_len`. -/
  | subtract (left : Nat) (data : List UInt8)
  /-- Before it looks whether the message is complete. -/
  | enable (left : Nat) (data : List UInt8)
deriving DecidableEq

/-- A call of `rtos_intertile_rx_len`, and what `rtos_intertile_rx_data` handed out after it. -/
structure Result where
  timed_out : Bool
  len : Nat
  data : List UInt8
deriving DecidableEq

structure Splitter where
  /-- The channel, the trigger, the interrupt routine and the event bits. No task is in `rtos_intertile_rx`. -/
  link : Receiver
  rx_len : Nat
  task : UInt8 → Split
  results : UInt8 → List Result
  /-- An assertion has failed. -/
  failed : Bool

inductive SplitAct
  | isr
  | timer
  | rx_len (port : UInt8)
  | get_bits (port : UInt8)
  | timeout (port : UInt8)
  | rx_data (port : UInt8) (len : Nat)
  /-- A task goes on with its call. -/
  | task (port : UInt8)
deriving DecidableEq

def Splitter.goto (s : Splitter) (port : UInt8) (pc : Split) : Splitter :=
  { s with task := Function.update s.task port pc }

/-- A task that knows of this many bytes that are left. -/
def Split.next (left : Nat) : Split := if left = 0 then .idle else .taken left

/-- `rtos_intertile_rx_len` returns. -/
def Splitter.return_len (s : Splitter) (port : UInt8) (timed_out : Bool) : Splitter :=
  { s.goto port (.next s.rx_len) with
    results := Function.update s.results port (s.results port ++ [⟨timed_out, s.rx_len, []⟩]) }

def hand_out (data : List UInt8) (r : Result) : Result := { r with data := r.data ++ data }

/-- `rtos_intertile_rx_data` returns. -/
def Splitter.return_data (s : Splitter) (port : UInt8) (left : Nat) (data : List UInt8) : Splitter :=
  { s.goto port (.next (left - data.length)) with
    results := Function.update s.results port ((s.results port).modifyLast (hand_out data)) }

/-- The next byte of the channel. -/
def Splitter.in_byte (s : Splitter) (port : UInt8) (pc : UInt8 → Split) : Option Splitter :=
  match s.link.chan with
  | [] => none
  | b :: chan => some { s.goto port (pc b) with link := { s.link with chan } }

/-- `rtos_intertile_rx_len` but for the wait. -/
def rtos_intertile_rx_len (s : Splitter) (port : UInt8) : Option Splitter :=
  match s.task port with
  | .check => some (if s.rx_len = 0 then s.goto port .get_bits else { s with failed := true })
  | .timed_out => some (s.return_len port true)
  | .in_word bs =>
    if bs.length < 4 then s.in_byte port fun b => .in_word (bs ++ [b])
    else some { s.goto port (.got (Bytes.ofBE bs)) with rx_len := Bytes.ofBE bs }
  | .got _ => some (s.return_len port false)
  | _ => none

/-- `rtos_intertile_rx_data` after it has decided on `len`. -/
def rtos_intertile_rx_data (s : Splitter) (port : UInt8) : Option Splitter :=
  match s.task port with
  | .in_buf left len data =>
    if data.length < len then s.in_byte port fun b => .in_buf left len (data ++ [b])
    else some (s.goto port (.subtract left data))
  | .subtract left data =>
    some { s.goto port (.enable left data) with rx_len := (s.rx_len + 2 ^ 32 - data.length) % 2 ^ 32 }
  | .enable left data =>
    some ({ s with link := { s.link with trigger := s.link.trigger || s.rx_len = 0 } }.return_data port left data)
  | _ => none

/-- The receiving half of a tile's link, for the frames of `packets`. -/
def splitter (packets : List Packet) : Machine Splitter SplitAct where
  init s := s = ⟨⟨stream packets, true, .idle, [], 0, fun _ => .idle, fun _ => [], []⟩, 0, fun _ => .idle, fun _ => [], false⟩
  step s
    | .isr => (rtos_intertile_isr s.link).map fun link => { s with link }
    | .timer =>
      match s.link.deferred with
      | [] => none
      | port :: deferred =>
        some { s with link := { s.link with deferred, event_group := s.link.event_group ||| flag port } }
    | .rx_len port => if s.task port = .idle ∧ port.toNat < maxPorts then some (s.goto port .check) else none
    | .get_bits port =>
      if s.task port = .get_bits ∧ s.link.event_group &&& flag port ≠ 0 then
        some { s.goto port (.in_word []) with
          link := { s.link with event_group := s.link.event_group &&& ~~~ flag port } }
      else none
    | .timeout port =>
      if s.task port = .get_bits ∧ s.link.event_group &&& flag port = 0 then some (s.goto port .timed_out) else none
    | .rx_data port len =>
      match s.task port with
      | .taken left => some (s.goto port (.in_buf left (if len ≤ s.rx_len then len else s.rx_len) []))
      | _ => none
    | .task port => (rtos_intertile_rx_len s port).or (rtos_intertile_rx_data s port)

end Intertile
