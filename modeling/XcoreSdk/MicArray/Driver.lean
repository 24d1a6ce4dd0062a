import XcoreSdk.I2s.Driver
/-!
# The microphone array driver

The decimator hands a block of frames to the interrupt handler, which copies it
into the sample buffer or drops it; one task receives frames. The receiving
side is that of the I2S driver: the same fields, and `mic_array_local_rx` takes
the steps of `i2s_local_rx`. The handler gives the semaphore itself, and it
copies in up to two pieces because the buffer need not be a multiple of the
block. One step is one access to what they share, and one word of a `memcpy`.
-/

namespace MicArray
open FreeRtos I2s
variable {w : Type*}

def MIC_DUAL_NUM_CHANNELS : Nat := 2

/-- The macros of `mic_array_conf.h` and the buffer size, in frames, that
`rtos_mic_array_start` is given and checks. The buffer fits into memory. -/
structure Config where
  MIC_DUAL_FRAME_SIZE : Nat := 256
  MIC_DUAL_NUM_REF_CHANNELS : Nat := 0
  buffer_size : Nat
  frame_pos : 0 < MIC_DUAL_FRAME_SIZE := by decide
  holds_block : MIC_DUAL_FRAME_SIZE ≤ buffer_size
  fits : buffer_size * (MIC_DUAL_NUM_CHANNELS + MIC_DUAL_NUM_REF_CHANNELS) < 2 ^ 32

/-- The words of a frame. -/
def Config.channels (cfg : Config) : Nat := MIC_DUAL_NUM_CHANNELS + cfg.MIC_DUAL_NUM_REF_CHANNELS

/-- The words of a block. -/
def Config.block_words (cfg : Config) : Nat := cfg.MIC_DUAL_FRAME_SIZE * cfg.channels

/-- Where the interrupt handler is. -/
inductive Isr (w : Type*)
  | idle
  /-- The head of the loop. -/
  | copy (mic_sample_block : List w) (words_remaining : Nat)
  /-- `memcpy`, after `k` of its words. -/
  | memcpy (mic_sample_block : List w) (words_remaining words_to_copy k : Nat)
  /-- About to look at the required count, -/
  | wake
  /-- which was not zero when these words were available. -/
  | compare (words_available : Nat)
deriving DecidableEq

structure Driver (w : Type*) where
  recv : Side w
  isr : Isr w
  /-- The blocks the decimator has handed over, and those put into the buffer. -/
  received : List (List w)
  accepted : List (List w)

/-- `rtos_mic_array_isr` up to its loop. -/
def rtos_mic_array_isr (cfg : Config) (s : Driver w) (mic_sample_block : List w) : Option (Driver w) :=
  match s.isr with
  | .idle =>
    if mic_sample_block.length = cfg.block_words then
      some { s with
        isr := if cfg.block_words ≤ s.recv.words_free then .copy mic_sample_block cfg.block_words else .wake,
        received := s.received ++ [mic_sample_block] }
    else none
  | _ => none

/-- The next step of the interrupt handler. -/
def isr_step (s : Driver w) : Option (Driver w) :=
  match s.isr with
  | .idle => none
  | .copy mic_sample_block words_remaining =>
    if 0 < words_remaining then
      let words_to_copy := min words_remaining (s.recv.buf_size - s.recv.write_index)
      some { s with isr := .memcpy mic_sample_block words_remaining words_to_copy 0 }
    else some { s with
      recv := { s.recv with
        total_written := s.recv.total_written + BitVec.ofNat 32 mic_sample_block.length
        written := s.recv.written ++ mic_sample_block }
      isr := .wake
      accepted := s.accepted ++ [mic_sample_block] }
  | .memcpy mic_sample_block words_remaining words_to_copy k =>
    if k < words_to_copy then
      match mic_sample_block[mic_sample_block.length - words_remaining + k]? with
      | some x => some { s with
          recv := { s.recv with buf := Function.update s.recv.buf (s.recv.write_index + k) x }
          isr := .memcpy mic_sample_block words_remaining words_to_copy (k + 1) }
      | none => none
    else some { s with
      recv := { s.recv with
        write_index := if s.recv.buf_size ≤ s.recv.write_index + words_to_copy then 0
          else s.recv.write_index + words_to_copy }
      isr := .copy mic_sample_block (words_remaining - words_to_copy) }
  | .wake => some { s with isr := if 0 < s.recv.required then .compare s.recv.words_available else .idle }
  | .compare words_available =>
    if s.recv.required ≤ words_available then
      some { s with
        recv := { s.recv with required := 0, sem := rtos_osal_semaphore_put 1 s.recv.sem }
        isr := .idle }
    else some { s with isr := .idle }

/-- `frame_count * (MIC_DUAL_NUM_CHANNELS + MIC_DUAL_NUM_REF_CHANNELS)`, in a `size_t`. -/
def frame_words (cfg : Config) (frame_count : Nat) : Nat := frame_count * cfg.channels % 2 ^ 32

def mic_array_local_rx (cfg : Config) (recv : Side w) (frame_count : Nat) : Option (Side w) :=
  i2s_local_rx recv (frame_words cfg frame_count)

inductive Act (w : Type*)
  | block (mic_sample_block : List w)
  | isr
  | rx (frame_count : Nat)
  | rx_step
  | rx_timeout

def driver (cfg : Config) : Machine (Driver w) (Act w) where
  init s := ∃ mem, s = ⟨.start mem (cfg.buffer_size * cfg.channels), .idle, [], []⟩
  step s
    | .block mic_sample_block => rtos_mic_array_isr cfg s mic_sample_block
    | .isr => isr_step s
    | .rx frame_count => (mic_array_local_rx cfg s.recv frame_count).map fun recv => { s with recv }
    | .rx_step => (rx_step s.recv).map fun recv => { s with recv }
    | .rx_timeout => (timeout s.recv).map fun recv => { s with recv }

end MicArray
