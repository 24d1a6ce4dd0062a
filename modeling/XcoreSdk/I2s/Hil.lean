import XcoreSdk.Lib.Machine
import XcoreSdk.Lib.Port
/-!
# I2S on the ports

`i2s_ratio_n` (the loop of `i2s_master`) and `i2s_slave` put a frame on the output lines
while they take one from the input lines. Each time they are entered, the ports start
anew, so what follows is about one pass, from any state of the application. The callbacks
may do anything with the application's state and the array that they are given.
-/

namespace I2s
namespace Hil
open Port

abbrev I2S_MAX_DATALINES : Nat := 8

abbrev I2S_CHANS_PER_FRAME : Nat := 2

inductive i2s_restart_t
  | I2S_NO_RESTART
  | I2S_RESTART
  | I2S_SHUTDOWN
deriving DecidableEq

inductive i2s_mode_t
  | I2S_MODE_I2S
  | I2S_MODE_LEFT_JUSTIFIED
deriving DecidableEq

/-- By how many bits the data comes after LRCLK. -/
def i2s_mode_t.offset : i2s_mode_t → Nat
  | .I2S_MODE_I2S => 1
  | .I2S_MODE_LEFT_JUSTIFIED => 0

/-- `in_samps` or `out_samps`. -/
abbrev Samples := Fin (I2S_CHANS_PER_FRAME * I2S_MAX_DATALINES) → Word

structure i2s_callback_group_t (σ : Type*) where
  /-- Of the configuration the mode is used below. -/
  init : σ → i2s_mode_t × σ
  restart_check : σ → i2s_restart_t × σ
  receive : σ → Nat → Samples → σ
  send : σ → Nat → Samples → Samples × σ

/-- The numbers of lines that the assertions let pass; there is at least one line. -/
structure Lines where
  num_out : Nat
  num_in : Nat
  num_out_le : num_out ≤ I2S_MAX_DATALINES
  num_in_le : num_in ≤ I2S_MAX_DATALINES
  some_line : 0 < num_out + num_in

/-- `idx`: where a line's left or right word is. -/
def idx {n : Nat} (hn : n ≤ I2S_MAX_DATALINES) (i : Fin n) (chan : Fin I2S_CHANS_PER_FRAME) :
    Fin (I2S_CHANS_PER_FRAME * I2S_MAX_DATALINES) :=
  ⟨I2S_CHANS_PER_FRAME * i + chan, by
    unfold I2S_CHANS_PER_FRAME I2S_MAX_DATALINES at *
    omega⟩

def bitrev (word : Word) : Word := word.reverse

/-! ## What the two have in common -/

structure Frames (lines : Lines) (σ : Type*) where
  now : Nat
  app : σ
  p_dout : Fin lines.num_out → OutPort
  p_din : Fin lines.num_in → InPort
  out_samps : Samples
  in_samps : Samples
  restart : i2s_restart_t
  /-- The frames of the send callbacks, -/
  sent : List Samples
  /-- and of the receive callbacks. -/
  received : List Samples
  /-- How often the loop has been gone through. -/
  handled : Nat

variable {lines : Lines} {σ : Type*} (cbg : i2s_callback_group_t σ)

/-- The send callback, if there are output lines. -/
def Frames.send (s : Frames lines σ) : Frames lines σ :=
  if 0 < lines.num_out then
    let (out_samps, app) := cbg.send s.app (lines.num_out <<< 1) s.out_samps
    { s with app, out_samps, sent := s.sent ++ [out_samps] }
  else s

/-- Outputs the left or the right words. -/
def Frames.outputs (s : Frames lines σ) (chan : Fin I2S_CHANS_PER_FRAME) : Frames lines σ :=
  let done := each (fun i now p => p.out now (bitrev (s.out_samps (idx lines.num_out_le i chan)))) s.now s.p_dout
  { s with now := done.1, p_dout := done.2 }

/-- The first outputs, which wait for the trigger time. -/
def Frames.timed_outputs (s : Frames lines σ) (time : Nat) : Frames lines σ :=
  let done := each (fun i now p => (p.set_trigger_time now time).out now
    (bitrev (s.out_samps (idx lines.num_out_le i 0)))) s.now s.p_dout
  { s with now := done.1, p_dout := done.2 }

/-- Inputs the left or the right words. -/
def Frames.inputs (din : Fin lines.num_in → Nat → Bool) (s : Frames lines σ) (chan : Fin I2S_CHANS_PER_FRAME) :
    Frames lines σ :=
  let done := each (fun i now (p : InPort × Word) => p.1.take (din i) now) s.now fun i => (s.p_din i, 0)
  { s with
    now := done.1
    p_din := fun i => (done.2 i).1
    in_samps := fun k =>
      if h : k / I2S_CHANS_PER_FRAME < lines.num_in ∧ k % I2S_CHANS_PER_FRAME = chan then
        bitrev (done.2 ⟨k / I2S_CHANS_PER_FRAME, h.1⟩).2
      else s.in_samps k }

/-- The receive callback, at the end of the loop. -/
def Frames.receive (s : Frames lines σ) : Frames lines σ :=
  { s with
    app := if 0 < lines.num_in then cbg.receive s.app (lines.num_in <<< 1) s.in_samps else s.app
    received := if 0 < lines.num_in then s.received ++ [s.in_samps] else s.received
    handled := s.handled + 1 }

def Frames.restart_check (s : Frames lines σ) : Frames lines σ :=
  let (restart, app) := cbg.restart_check s.app
  { s with app, restart }

/-- The beginning of the loop: unless it is told to restart, it sends for the next frame and outputs its
left words. -/
def Frames.evens (s : Frames lines σ) : Frames lines σ :=
  let s := s.restart_check cbg
  if s.restart = .I2S_NO_RESTART then (s.send cbg).outputs 0 else s

/-- The ports are clear; the arrays hold anything. -/
def Frames.init (app : σ) (out_samps in_samps : Samples) (now : Nat) : Frames lines σ :=
  ⟨now, app, fun _ => ⟨0, []⟩, fun _ => ⟨0, 0⟩, out_samps, in_samps, .I2S_NO_RESTART, [], [], 0⟩

/-! ## The master -/

structure Master (lines : Lines) (σ : Type*) where
  frames : Frames lines σ
  p_lrclk : OutPort
  lr_mask : Word

/-- LRCLK changes after the words before. -/
def Master.toggle (s : Master lines σ) : Master lines σ :=
  let lr_mask := ~~~s.lr_mask
  let done := s.p_lrclk.out s.frames.now lr_mask
  { s with frames := { s.frames with now := done.1 }, p_lrclk := done.2, lr_mask }

/-- `i2s_ratio_n` up to its loop. The bit clock does not run before `clock_start`, and is at 0. -/
def i2s_ratio_n_start (mode : i2s_mode_t) (app : σ) (out_samps in_samps : Samples) : Master lines σ :=
  let frames := (Frames.init app out_samps in_samps 0).send cbg
  let frames := frames.timed_outputs (1 + mode.offset)
  let lrclk := ((OutPort.mk 0 []).set_trigger_time frames.now 1).out frames.now 0
  let s : Master lines σ := ⟨frames.outputs 1, lrclk.2, 0⟩
  let s := s.toggle
  { s with frames := { s.frames with
      p_din := fun i => (s.frames.p_din i).set_trigger_time s.frames.now (32 + mode.offset) } }

/-- Without input lines the master waits for the last word before it stops the clock. -/
def Master.syncr (s : Master lines σ) : Master lines σ :=
  if h : lines.num_in = 0 then
    { s with frames := { s.frames with now :=
        (s.frames.p_dout ⟨0, by have := lines.some_line; omega⟩).sync s.frames.now } }
  else s

/-- The first half of the loop: the left words. -/
def i2s_ratio_n_evens (din : Fin lines.num_in → Nat → Bool) (s : Master lines σ) : Master lines σ :=
  let s := { s with frames := (s.frames.evens cbg).inputs din 0 }
  s.toggle

/-- The second half: the right words. -/
def i2s_ratio_n_odds (din : Fin lines.num_in → Nat → Bool) (s : Master lines σ) : Master lines σ :=
  let s := if s.frames.restart = .I2S_NO_RESTART then { s with frames := s.frames.outputs 1 }.toggle else s
  let s := { s with frames := (s.frames.inputs din 1).receive cbg }
  if s.frames.restart = .I2S_NO_RESTART then s else s.syncr

/-- `i2s_ratio_n`; it returns when it is told to restart. -/
def i2s_ratio_n (mode : i2s_mode_t) (din : Fin lines.num_in → Nat → Bool) : Machine (Master lines σ) Unit where
  init s := ∃ app out_samps in_samps, s = i2s_ratio_n_start cbg mode app out_samps in_samps
  step s _ := if s.frames.restart = .I2S_NO_RESTART then some (i2s_ratio_n_odds cbg din (i2s_ratio_n_evens cbg din s)) else none

/-! ## The slave -/

structure Slave (lines : Lines) (σ : Type*) where
  frames : Frames lines σ
  p_lrclk : InPort
  mode : i2s_mode_t
  syncerror : Nat

/-- LRCLK has been seen high, and falls at `time`. -/
def Falls (lrclk : Nat → Bool) (time : Nat) : Prop :=
  ∃ high < time, (∀ t, high ≤ t → t < time → lrclk t = true) ∧ lrclk time = false

def expected_low (mode : i2s_mode_t) : Word := if mode = .I2S_MODE_I2S then 0x80000000 else 0x00000000

def expected_high (mode : i2s_mode_t) : Word := if mode = .I2S_MODE_I2S then 0x7fffffff else 0xffffffff

/-- `i2s_slave` up to its main loop, with LRCLK falling at `port_time`. -/
def i2s_slave_start (app : σ) (out_samps in_samps : Samples) (port_time : Nat) : Slave lines σ :=
  let config := cbg.init app
  let frames := (Frames.init config.2 out_samps in_samps port_time).send cbg
  let initial_out_port_time := port_time % 65536 + config.1.offset + I2S_CHANS_PER_FRAME * 32
  let initial_in_port_time := port_time % 65536 + config.1.offset + (I2S_CHANS_PER_FRAME * 32 + 32) - 1
  let frames := frames.timed_outputs initial_out_port_time
  let frames := { frames with
    p_din := fun i => (frames.p_din i).set_trigger_time frames.now initial_in_port_time }
  ⟨frames.outputs 1, (InPort.mk 0 0).set_trigger_time frames.now initial_in_port_time, config.1, 0⟩

/-- Reads LRCLK and compares it. -/
def Slave.read_lrclk (lrclk : Nat → Bool) (s : Slave lines σ) (expected : Word) : Slave lines σ :=
  let done := s.p_lrclk.take lrclk s.frames.now
  { s with
    frames := { s.frames with now := done.1 }
    p_lrclk := done.2.1
    syncerror := s.syncerror + if done.2.2 = expected then 0 else 1 }

/-- The first half of the main loop: the left words. -/
def i2s_slave_evens (din : Fin lines.num_in → Nat → Bool) (lrclk : Nat → Bool) (s : Slave lines σ) : Slave lines σ :=
  let s := { s with frames := s.frames.evens cbg }
  let s := s.read_lrclk lrclk (expected_low s.mode)
  { s with frames := s.frames.inputs din 0 }

/-- The second half: the right words. -/
def i2s_slave_odds (din : Fin lines.num_in → Nat → Bool) (lrclk : Nat → Bool) (s : Slave lines σ) : Slave lines σ :=
  let s := s.read_lrclk lrclk (expected_high s.mode)
  let s := if s.frames.restart = .I2S_NO_RESTART then { s with frames := s.frames.outputs 1 } else s
  { s with frames := (s.frames.inputs din 1).receive cbg }

/-- `i2s_slave`, until it starts over. -/
def i2s_slave (din : Fin lines.num_in → Nat → Bool) (lrclk : Nat → Bool) : Machine (Slave lines σ) Unit where
  init s := ∃ app out_samps in_samps port_time, Falls lrclk port_time ∧
    s = i2s_slave_start cbg app out_samps in_samps port_time
  step s _ :=
    if s.syncerror = 0 ∧ s.frames.restart = .I2S_NO_RESTART then
      some (i2s_slave_odds cbg din lrclk (i2s_slave_evens cbg din lrclk s))
    else none

/-! ## What is to be on the wire -/

/-- LRCLK during bit `j` of a left or right word: low for the left one, high for the right one, and
one bit earlier in I2S mode. -/
def level (mode : i2s_mode_t) (chan : Fin I2S_CHANS_PER_FRAME) (j : Nat) : Bool :=
  decide (chan = 1) ^^ decide (32 ≤ j + mode.offset)

/-- What is put into an output port for some frames. -/
def words {n : Nat} (hn : n ≤ I2S_MAX_DATALINES) (i : Fin n) (sent : List Samples) : List Word :=
  sent.flatMap fun frame => [bitrev (frame (idx hn i 0)), bitrev (frame (idx hn i 1))]

end Hil
end I2s
