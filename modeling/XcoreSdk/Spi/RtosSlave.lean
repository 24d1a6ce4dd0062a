import XcoreSdk.FreeRtos.Osal
import XcoreSdk.Lib.Machine
/-!
# The RTOS SPI slave driver

The low-level slave calls the driver from a core of its own, when a transaction
starts and when it has ended. The end is passed on through fields of the driver
and a channel to an interrupt routine, which puts it into a queue of two and
gives the application thread a notification. Any task may prepare other buffers
at any time.
-/

namespace Spi
namespace RtosSlave
open FreeRtos

/-- `xfer_done_queue_item_t`. A buffer that is `none` is `NULL`. -/
structure Item (β : Type*) where
  out_buf : Option β
  bytes_written : Nat
  in_buf : Option β
  bytes_read : Nat
deriving DecidableEq

/-- What the tasks and the interrupt routine share, of `rtos_spi_slave_t`. -/
structure Ctx (β : Type*) where
  out_buf : Option β
  outbuf_len : Nat
  bytes_written : Nat
  in_buf : Option β
  inbuf_len : Nat
  bytes_read : Nat
  waiting_for_isr : Bool

/-- The buffers of a transaction. -/
structure Buffers (β : Type*) where
  out_buf : Option β
  outbuf_len : Nat
  in_buf : Option β
  inbuf_len : Nat

/-- Where the low-level slave's thread is. In a function of the driver that is
the field it accesses next, with what it has read so far. -/
inductive Hil (β : Type*)
  | boot
  | idle
  /-- In `slave_transaction_started`. -/
  | spin
  | out_buf
  | outbuf_len (out_buf : Option β)
  | in_buf (out_buf : Option β) (outbuf_len : Nat)
  | inbuf_len (out_buf : Option β) (outbuf_len : Nat) (in_buf : Option β)
  | running (buffers : Buffers β)
  /-- In `slave_transaction_ended`. -/
  | bytes_read (bytes_read : Nat)
  | waiting_for_isr
  | notify

/-- Where the interrupt routine is. -/
inductive Isr (β : Type*)
  | idle
  | out_buf
  | bytes_written (out_buf : Option β)
  | in_buf (out_buf : Option β) (bytes_written : Nat)
  | bytes_read (out_buf : Option β) (bytes_written : Nat) (in_buf : Option β)
  | take (item : Item β)
  | send (item : Item β)
  | done

/-- Where the application thread is. -/
inductive App
  | start
  | take
  | callback
deriving DecidableEq

/-- The arguments of `spi_slave_xfer_prepare`. -/
structure Args (β : Type*) where
  rx_buf : Option β
  rx_buf_len : Nat
  tx_buf : Option β
  tx_buf_len : Nat

/-- Where a task is in `spi_slave_xfer_prepare`: the field it writes next. -/
inductive Prepare (β : Type*)
  | idle
  | in_buf (args : Args β)
  | inbuf_len (args : Args β)
  | out_buf (args : Args β)
  | outbuf_len (args : Args β)

/-- Whether the application has given a `start` and an `xfer_done`. -/
structure Config where
  start : Bool
  xfer_done : Bool

structure State (ι β : Type*) where
  ctx : Ctx β
  hil : Hil β
  isr : Isr β
  app : App
  prepare : ι → Prepare β
  /-- Whether the byte for the interrupt routine is in the channel. -/
  to_isr : Bool
  to_hil : Bool
  xfer_done_queue : List (Item β)
  /-- The application thread's notification value. -/
  notified : Nat
  /-- The transactions that have ended, with the buffers they used. -/
  completed : List (Item β)
  /-- The one of them that is not yet in the queue. -/
  pending : Option (Item β)
  /-- What the calls of `spi_slave_xfer_complete` returned. -/
  results : List (Option (Item β))
  /-- How often the callback has been called. -/
  calls : Nat

variable {ι β : Type*} (cfg : Config)

/-! ## The low-level slave's thread -/

/-- A step inside the driver. -/
def hil_step (s : State ι β) : Option (State ι β) :=
  match s.hil with
  | .boot => if s.to_hil then some { s with to_hil := false, hil := .idle } else none
  | .spin => if s.ctx.waiting_for_isr then none else some { s with hil := .out_buf }
  | .out_buf => some { s with hil := .outbuf_len s.ctx.out_buf }
  | .outbuf_len out_buf => some { s with hil := .in_buf out_buf s.ctx.outbuf_len }
  | .in_buf out_buf outbuf_len => some { s with hil := .inbuf_len out_buf outbuf_len s.ctx.in_buf }
  | .inbuf_len out_buf outbuf_len in_buf => some { s with hil := .running ⟨out_buf, outbuf_len, in_buf, s.ctx.inbuf_len⟩ }
  | .bytes_read bytes_read => some { s with ctx := { s.ctx with bytes_read }, hil := .waiting_for_isr }
  | .waiting_for_isr => some { s with ctx := { s.ctx with waiting_for_isr := true }, hil := .notify }
  | .notify => if s.to_isr then none else some { s with to_isr := true, hil := .idle }
  | .idle | .running _ => none

/-- The master ends the transaction, and `slave_transaction_ended` is called. -/
def transaction_ended (s : State ι β) (bytes_written bytes_read : Nat) : Option (State ι β) :=
  match s.hil with
  | .running buffers =>
    let item := ⟨buffers.out_buf, bytes_written, buffers.in_buf, bytes_read⟩
    some { s with
      ctx := { s.ctx with bytes_written }
      hil := .bytes_read bytes_read
      completed := s.completed ++ [item]
      pending := some item }
  | _ => none

/-! ## The interrupt routine -/

def rtos_spi_slave_isr (s : State ι β) : Option (State ι β) :=
  match s.isr with
  | .idle => if s.to_isr then some { s with isr := .out_buf } else none
  | .out_buf => some { s with isr := .bytes_written s.ctx.out_buf }
  | .bytes_written out_buf => some { s with isr := .in_buf out_buf s.ctx.bytes_written }
  | .in_buf out_buf bytes_written => some { s with isr := .bytes_read out_buf bytes_written s.ctx.in_buf }
  | .bytes_read out_buf bytes_written in_buf =>
    some { s with isr := .take ⟨out_buf, bytes_written, in_buf, s.ctx.bytes_read⟩ }
  | .take item => if s.to_isr then some { s with to_isr := false, isr := .send item } else none
  | .send item =>
    match rtos_osal_queue_send 2 s.xfer_done_queue item with
    | some xfer_done_queue =>
      some { s with
        xfer_done_queue
        -- `xTaskNotifyGive`
        notified := if cfg.xfer_done then s.notified + 1 else s.notified
        isr := .done
        pending := none }
    | none => some { s with isr := .done, pending := none }
  | .done => some { s with ctx := { s.ctx with waiting_for_isr := false }, isr := .idle }

/-! ## Tasks -/

/-- A step of `spi_slave_app_thread` outside of the application's functions. -/
def app_step (s : State ι β) : Option (State ι β) :=
  match s.app with
  | .start => if s.to_hil then none else some { s with to_hil := true, app := .take }
  | .take =>
    -- `ulTaskNotifyTake` clears the notification value
    if 0 < s.notified then
      if cfg.xfer_done then some { s with notified := 0, app := .callback, calls := s.calls + 1 }
      else some { s with notified := 0 }
    else none
  | .callback => none

/-- A call of `spi_slave_xfer_complete` returns. -/
def spi_slave_xfer_complete (s : State ι β) : State ι β :=
  match rtos_osal_queue_receive s.xfer_done_queue with
  | some (item, xfer_done_queue) => { s with xfer_done_queue, results := s.results ++ [some item] }
  | none => { s with results := s.results ++ [none] }

section
variable [DecidableEq ι]

/-- A step of `spi_slave_xfer_prepare` in a task. -/
def spi_slave_xfer_prepare (s : State ι β) (i : ι) : Option (State ι β) :=
  let goto (s : State ι β) (pc : Prepare β) := { s with prepare := Function.update s.prepare i pc }
  match s.prepare i with
  | .idle => none
  | .in_buf args => some (goto { s with ctx := { s.ctx with in_buf := args.rx_buf } } (.inbuf_len args))
  | .inbuf_len args => some (goto { s with ctx := { s.ctx with inbuf_len := args.rx_buf_len } } (.out_buf args))
  | .out_buf args => some (goto { s with ctx := { s.ctx with out_buf := args.tx_buf } } (.outbuf_len args))
  | .outbuf_len args => some (goto { s with ctx := { s.ctx with outbuf_len := args.tx_buf_len } } .idle)

end

inductive Act (ι β : Type*)
  | hil
  | transaction_started
  | transaction_ended (bytes_written bytes_read : Nat)
  | isr
  | app
  /-- The application's callback makes a call of `spi_slave_xfer_complete` with timeout 0 and returns. -/
  | callback_complete
  | callback_return
  /-- Any other call of it returns. -/
  | complete
  | prepare_call (i : ι) (args : Args β)
  | prepare (i : ι)

variable [DecidableEq ι]

/-- The driver after `rtos_spi_slave_start`. -/
def driver : Machine (State ι β) (Act ι β) where
  init s := s = ⟨⟨none, 0, 0, none, 0, 0, false⟩, if cfg.start then .boot else .idle, .idle,
    if cfg.start then .start else .take, fun _ => .idle, false, false, [], 0, [], none, [], 0⟩
  step s
    | .hil => hil_step s
    | .transaction_started =>
      match s.hil with
      | .idle => some { s with hil := .spin }
      | _ => none
    | .transaction_ended bytes_written bytes_read => RtosSlave.transaction_ended s bytes_written bytes_read
    | .isr => rtos_spi_slave_isr cfg s
    | .app => app_step cfg s
    | .callback_complete =>
      match s.app with
      | .callback => some { spi_slave_xfer_complete s with app := .take }
      | _ => none
    | .callback_return =>
      match s.app with
      | .callback => some { s with app := .take }
      | _ => none
    | .complete => some (spi_slave_xfer_complete s)
    | .prepare_call i args =>
      match s.prepare i with
      | .idle => some { s with prepare := Function.update s.prepare i (.in_buf args) }
      | _ => none
    | .prepare i => spi_slave_xfer_prepare s i

end RtosSlave
end Spi
