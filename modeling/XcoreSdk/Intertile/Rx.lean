import XcoreSdk.Intertile.Frame
import XcoreSdk.Lib.Machine
/-!
# Receiving from the intertile channel

The interrupt routine takes the port number off the channel, with the trigger
disabled, and has the port's event bit set; the task that waits for the bit
takes the length and the payload and enables the trigger again. There is at
most one task for each port, so a task is named by its port. Setting event
bits from an interrupt is left to the kernel's timer task, which does it
later; the requests it has not served yet are `deferred`.
-/

namespace Intertile

/-- Event groups have 24 bits. -/
def maxPorts : Nat := 24

/-- `1 << port`. -/
def flag (port : UInt8) : BitVec 32 := BitVec.twoPow 32 port.toNat

/-- How far the interrupt routine has got. -/
inductive Isr
  | idle
  /-- The trigger is disabled, the port is still to be read. -/
  | entered
  | read (port : UInt8)
deriving DecidableEq

/-- How far `rtos_intertile_rx` has got. -/
inductive Rx
  | idle
  | get_bits
  /-- Reading the length, the bytes read so far. -/
  | in_word (bs : List UInt8)
  /-- Reading the payload into the allocated buffer. -/
  | in_buf (len : Nat) (msg : List UInt8)
  /-- The trigger is still to be enabled. -/
  | enable (msg : List UInt8)
deriving DecidableEq

structure Receiver where
  /-- What is still to be read from the channel. -/
  chan : List UInt8
  trigger : Bool
  isr : Isr
  deferred : List UInt8
  event_group : BitVec 32
  task : UInt8 → Rx
  /-- The messages each task got from its calls of `rtos_intertile_rx`. -/
  obtained : UInt8 → List (List UInt8)
  /-- The channel, its port byte first, as the interrupt routine found it each time. -/
  isr_reads : List (List UInt8)

inductive RxAct
  | isr
  /-- The timer task serves a request to set bits. -/
  | timer
  | rx (port : UInt8)
  | get_bits (port : UInt8)
  | timeout (port : UInt8)
  | recv (port : UInt8)
deriving DecidableEq

def Receiver.goto (s : Receiver) (port : UInt8) (pc : Rx) : Receiver :=
  { s with task := Function.update s.task port pc }

def rtos_intertile_isr (s : Receiver) : Option Receiver :=
  match s.isr with
  | .idle => if s.trigger ∧ s.chan ≠ [] then some { s with isr := .entered, trigger := false } else none
  | .entered =>
    match s.chan with
    | [] => none
    | port :: chan => some { s with chan, isr := .read port, isr_reads := s.isr_reads ++ [s.chan] }
  | .read port => some { s with isr := .idle, deferred := s.deferred ++ [port] }

/-- What `rtos_intertile_rx` does once the task has its event bit. -/
def rtos_intertile_rx (s : Receiver) (port : UInt8) : Option Receiver :=
  match s.task port with
  | .in_word bs =>
    if bs.length < 4 then
      match s.chan with
      | [] => none
      | b :: chan => some { s.goto port (.in_word (bs ++ [b])) with chan }
    else some (s.goto port (.in_buf (Bytes.ofBE bs) []))
  | .in_buf len msg =>
    if msg.length < len then
      match s.chan with
      | [] => none
      | b :: chan => some { s.goto port (.in_buf len (msg ++ [b])) with chan }
    else some (s.goto port (.enable msg))
  | .enable msg =>
    some { s.goto port .idle with
      trigger := true, obtained := Function.update s.obtained port (s.obtained port ++ [msg]) }
  | _ => none

/-- The receiving half of a tile's link, for the frames of `packets`. -/
def receiver (packets : List Packet) : Machine Receiver RxAct where
  init s := s = ⟨packets.flatMap Packet.frame, true, .idle, [], 0, fun _ => .idle, fun _ => [], []⟩
  step s
    | .isr => rtos_intertile_isr s
    | .timer =>
      match s.deferred with
      | [] => none
      | port :: deferred => some { s with deferred, event_group := s.event_group ||| flag port }
    | .rx port => if s.task port = .idle ∧ port.toNat < maxPorts then some (s.goto port .get_bits) else none
    | .get_bits port =>
      if s.task port = .get_bits ∧ s.event_group &&& flag port ≠ 0 then
        some { s.goto port (.in_word []) with event_group := s.event_group &&& ~~~ flag port }
      else none
    | .timeout port =>
      if s.task port = .get_bits ∧ s.event_group &&& flag port = 0 then some (s.goto port .idle) else none
    | .recv port => rtos_intertile_rx s port

end Intertile
