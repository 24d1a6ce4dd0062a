import XcoreSdk.FreeRtos.Osal
import XcoreSdk.Lib.Machine
import Mathlib.Algebra.Order.Ring.Nat
/-!
# The I2S driver

The I2S thread calls `i2s_receive` and `i2s_send` for every frame; one task
receives and one task transmits. They share the sample buffers, whose counters
are 32-bit words that wrap, and hand over with a required count, a flag in
`isr_cmd`, an interrupt and a semaphore. One step is one access to what they
share, and one word of a `memcpy`. There are no filter callbacks.
-/

namespace I2s
open FreeRtos
variable {w : Type*}

/-- What the application configures. The buffers, in words, fit into memory. -/
structure Config where
  num_in : Nat
  num_out : Nat
  recv_buffer_size : Nat
  send_buffer_size : Nat
  recv_fits : recv_buffer_size * (2 * num_in) < 2 ^ 32
  send_fits : send_buffer_size * (2 * num_out) < 2 ^ 32

/-- Where a call of `i2s_local_rx` or `i2s_local_tx` for this many words is. The
sample buffer is what has been received so far, or what is to be sent. -/
inductive Call (w : Type*)
  | idle
  /-- Found too few words, and is about to say how many it requires. -/
  | request (words : Nat) (sample_buf : List w)
  | wait (words : Nat) (sample_buf : List w)
  /-- The head of the loop. -/
  | copy (words : Nat) (sample_buf : List w) (words_remaining : Nat)
  /-- `memcpy`, after `k` of its words. -/
  | memcpy (words : Nat) (sample_buf : List w) (words_remaining words_to_copy k : Nat)
deriving DecidableEq

/-- The fields for one direction. -/
structure Side (w : Type*) where
  buf : Nat → w
  buf_size : Nat
  write_index : Nat
  read_index : Nat
  total_written : BitVec 32
  total_read : BitVec 32
  /-- `required_available_count` of the receive buffer, `required_free_count` of the send buffer. -/
  required : Nat
  blocked : Bool
  sem : Nat
  call : Call w
  /-- All words written to the buffer, and read from it, so far. -/
  written : List w
  read : List w

/-- `isr_cmd`: the flags `ISR_RESUME_SEND_BM` and `ISR_RESUME_RECV_BM`. -/
structure IsrCmd where
  send : Bool
  recv : Bool
deriving DecidableEq

/-- Where the I2S thread is. -/
inductive Io (w : Type*)
  | idle
  /-- The `memcpy` of `i2s_receive`, after `k` words. -/
  | receive (i2s_sample_buf : List w) (k : Nat)
  | received
  /-- The `memcpy` of `i2s_send`, after these words. -/
  | send (i2s_sample_buf : List w)
  | sent
deriving DecidableEq

structure Driver (w : Type*) where
  recv : Side w
  send : Side w
  isr_cmd : IsrCmd
  /-- What the I2S thread has sent to the interrupt handler. -/
  c_i2s_isr : List IsrCmd
  io : Io w

def Side.words_available (b : Side w) : Nat := (b.total_written - b.total_read).toNat

def Side.words_free (b : Side w) : Nat := (BitVec.ofNat 32 b.buf_size - (b.total_written - b.total_read)).toNat

/-- `frame_count * (2 * num)`, in a `size_t`. -/
def frame_words (num frame_count : Nat) : Nat := frame_count * (2 * num) % 2 ^ 32

/-! ## The I2S thread -/

/-- The end of a callback: `isr_cmd` goes to the interrupt handler. -/
def flush (s : Driver w) : Driver w :=
  if s.isr_cmd = ⟨false, false⟩ then s
  else { s with c_i2s_isr := s.c_i2s_isr ++ [s.isr_cmd], isr_cmd := ⟨false, false⟩ }

/-- `i2s_receive` up to its `memcpy`. -/
def i2s_receive (cfg : Config) (s : Driver w) (i2s_sample_buf : List w) : Option (Driver w) :=
  match s.io with
  | .idle =>
    if 0 < cfg.num_in ∧ i2s_sample_buf.length = 2 * cfg.num_in then
      some { s with io := if i2s_sample_buf.length ≤ s.recv.words_free then .receive i2s_sample_buf 0 else .received }
    else none
  | _ => none

/-- `i2s_send` up to its `memcpy`. -/
def i2s_send (cfg : Config) (s : Driver w) : Option (Driver w) :=
  match s.io with
  | .idle =>
    if 0 < cfg.num_out then some { s with io := if 2 * cfg.num_out ≤ s.send.words_available then .send [] else .sent }
    else none
  | _ => none

/-- `i2s_receive` wakes the receiving task. -/
def recv_wake (s : Driver w) : Driver w :=
  if 0 < s.recv.required ∧ s.recv.required ≤ s.recv.words_available then
    { s with recv := { s.recv with required := 0 }, isr_cmd := { s.isr_cmd with recv := true } }
  else s

/-- `i2s_send` wakes the transmitting task. -/
def send_wake (s : Driver w) : Driver w :=
  if 0 < s.send.required ∧ s.send.required ≤ s.send.words_free then
    { s with send := { s.send with required := 0 }, isr_cmd := { s.isr_cmd with send := true } }
  else s

/-- The next step of the I2S thread in a callback. -/
def io_step (cfg : Config) (s : Driver w) : Option (Driver w) :=
  match s.io with
  | .idle => none
  | .receive i2s_sample_buf k =>
    match i2s_sample_buf[k]? with
    | some x => some { s with
        recv := { s.recv with buf := Function.update s.recv.buf (s.recv.write_index + k) x }
        io := .receive i2s_sample_buf (k + 1) }
    | none => some { s with
        recv := { s.recv with
          write_index := if s.recv.buf_size ≤ s.recv.write_index + i2s_sample_buf.length then 0
            else s.recv.write_index + i2s_sample_buf.length
          total_written := s.recv.total_written + BitVec.ofNat 32 i2s_sample_buf.length
          written := s.recv.written ++ i2s_sample_buf }
        io := .received }
  | .received => some { (if cfg.num_out = 0 then flush (recv_wake s) else recv_wake s) with io := .idle }
  | .send i2s_sample_buf =>
    if i2s_sample_buf.length < 2 * cfg.num_out then
      some { s with io := .send (i2s_sample_buf ++ [s.send.buf (s.send.read_index + i2s_sample_buf.length)]) }
    else some { s with
      send := { s.send with
        read_index := if s.send.buf_size ≤ s.send.read_index + i2s_sample_buf.length then 0
          else s.send.read_index + i2s_sample_buf.length
        total_read := s.send.total_read + BitVec.ofNat 32 i2s_sample_buf.length
        read := s.send.read ++ i2s_sample_buf }
      io := .sent }
  | .sent => some { flush (send_wake s) with io := .idle }

/-- `rtos_i2s_isr`. -/
def rtos_i2s_isr (s : Driver w) : Option (Driver w) :=
  match s.c_i2s_isr with
  | [] => none
  | isr_action :: c_i2s_isr => some { s with
      c_i2s_isr
      send := { s.send with sem := if isr_action.send then rtos_osal_semaphore_put 1 s.send.sem else s.send.sem }
      recv := { s.recv with sem := if isr_action.recv then rtos_osal_semaphore_put 1 s.recv.sem else s.recv.sem } }

/-! ## The tasks -/

/-- `i2s_local_rx` up to its copying or waiting. -/
def i2s_local_rx (b : Side w) (words : Nat) : Option (Side w) :=
  match b.call with
  | .idle =>
    if b.buf_size < words then some b
    else if b.blocked then some { b with call := .wait words [] }
    else if b.words_available < words then some { b with call := .request words [] }
    else some { b with call := .copy words [] words }
  | _ => none

/-- `i2s_local_tx` up to its copying or waiting. -/
def i2s_local_tx (b : Side w) (sample_buf : List w) : Option (Side w) :=
  match b.call with
  | .idle =>
    if b.buf_size < sample_buf.length then some b
    else if b.blocked then some { b with call := .wait sample_buf.length sample_buf }
    else if b.words_free < sample_buf.length then some { b with call := .request sample_buf.length sample_buf }
    else some { b with call := .copy sample_buf.length sample_buf sample_buf.length }
  | _ => none

/-- What `i2s_local_rx` and `i2s_local_tx` have in common: the handing over. -/
def block_step (b : Side w) : Option (Side w) :=
  match b.call with
  | .request words sample_buf => some { b with required := words, blocked := true, call := .wait words sample_buf }
  | .wait words sample_buf => (rtos_osal_semaphore_get b.sem).map fun sem =>
      { b with sem, blocked := false, call := .copy words sample_buf words }
  | _ => none

/-- The next step of `i2s_local_rx`. -/
def rx_step (b : Side w) : Option (Side w) :=
  match b.call with
  | .copy words sample_buf words_remaining =>
    if 0 < words_remaining then
      some { b with call := .memcpy words sample_buf words_remaining (min words_remaining (b.buf_size - b.read_index)) 0 }
    else some { b with
      total_read := b.total_read + BitVec.ofNat 32 words, read := b.read ++ sample_buf, call := .idle }
  | .memcpy words sample_buf words_remaining words_to_copy k =>
    if k < words_to_copy then
      some { b with
        call := .memcpy words (sample_buf ++ [b.buf (b.read_index + k)]) words_remaining words_to_copy (k + 1) }
    else some { b with
      read_index := if b.buf_size ≤ b.read_index + words_to_copy then 0 else b.read_index + words_to_copy
      call := .copy words sample_buf (words_remaining - words_to_copy) }
  | _ => block_step b

/-- The next step of `i2s_local_tx`. -/
def tx_step (b : Side w) : Option (Side w) :=
  match b.call with
  | .copy words sample_buf words_remaining =>
    if 0 < words_remaining then
      some { b with call := .memcpy words sample_buf words_remaining (min words_remaining (b.buf_size - b.write_index)) 0 }
    else some { b with
      total_written := b.total_written + BitVec.ofNat 32 words, written := b.written ++ sample_buf, call := .idle }
  | .memcpy words sample_buf words_remaining words_to_copy k =>
    if k < words_to_copy then
      match sample_buf[words - words_remaining + k]? with
      | some x => some { b with
          buf := Function.update b.buf (b.write_index + k) x
          call := .memcpy words sample_buf words_remaining words_to_copy (k + 1) }
      | none => none
    else some { b with
      write_index := if b.buf_size ≤ b.write_index + words_to_copy then 0 else b.write_index + words_to_copy
      call := .copy words sample_buf (words_remaining - words_to_copy) }
  | _ => block_step b

/-- A wait for the semaphore that times out; the flag stays set. -/
def timeout (b : Side w) : Option (Side w) :=
  match b.call with
  | .wait _ _ => some { b with call := .idle }
  | _ => none

/-! ## All together -/

inductive Act (w : Type*)
  | receive (i2s_sample_buf : List w)
  | send
  | io
  | isr
  | rx (frame_count : Nat)
  | rx_step
  | rx_timeout
  | tx (frame_count : Nat) (sample_buf : List w)
  | tx_step
  | tx_timeout

/-- The buffer after `rtos_i2s_start`. -/
def Side.start (buf : Nat → w) (buf_size : Nat) : Side w := ⟨buf, buf_size, 0, 0, 0, 0, 0, false, 0, .idle, [], []⟩

def driver (cfg : Config) : Machine (Driver w) (Act w) where
  init s := ∃ recv_mem send_mem, s = ⟨.start recv_mem (cfg.recv_buffer_size * (2 * cfg.num_in)),
    .start send_mem (cfg.send_buffer_size * (2 * cfg.num_out)), ⟨false, false⟩, [], .idle⟩
  step s
    | .receive i2s_sample_buf => i2s_receive cfg s i2s_sample_buf
    | .send => i2s_send cfg s
    | .io => io_step cfg s
    | .isr => rtos_i2s_isr s
    | .rx frame_count => (i2s_local_rx s.recv (frame_words cfg.num_in frame_count)).map fun recv => { s with recv }
    | .rx_step => (rx_step s.recv).map fun recv => { s with recv }
    | .rx_timeout => (timeout s.recv).map fun recv => { s with recv }
    | .tx frame_count sample_buf =>
      if sample_buf.length = frame_words cfg.num_out frame_count then
        (i2s_local_tx s.send sample_buf).map fun send => { s with send }
      else none
    | .tx_step => (tx_step s.send).map fun send => { s with send }
    | .tx_timeout => (timeout s.send).map fun send => { s with send }

end I2s
