import XcoreSdk.QspiFlash.Locking
/-!
# The RTOS SPI master

The four functions of a transaction, which the tasks of the host's tile call, and for each
client tile a thread that serves its calls. They send requests to `spi_xfer_thread`, which
performs them. The lock is held from the start of a transaction to its end.

A pointer that is only read through while its owner waits is what it points at. For the copy
that is made of bytes to be transmitted, the allocations have numbers.
-/

namespace Spi
namespace RtosMaster
open FreeRtos
open QspiFlash.Locking (Actor Mutex mutex_get mutex_put)

/-! ## Calls and requests -/

/-- A task that issues transactions. -/
inductive Owner (ι κ τ : Type*)
  | host (i : ι)
  | client (k : κ) (t : τ)
deriving DecidableEq

variable {ι κ τ δ ρ ρ' : Type*}

/-- What calls the functions on its behalf. -/
def Owner.actor : Owner ι κ τ → Actor ι κ
  | .host i => .host i
  | .client k _ => .rpc k

/-- The four functions. A pointer to the bytes to be received is a `ρ`. -/
inductive Call (δ ρ : Type*)
  | transaction_start (ctx : δ)
  | transfer (ctx : δ) (data_out : Option (List UInt8)) (data_in : Option ρ) (len : Nat)
  | delay_before_next_transfer (ctx : δ) (delay_ticks : Nat)
  | transaction_end (ctx : δ)
deriving DecidableEq

def Call.map (f : ρ → ρ') : Call δ ρ → Call δ ρ'
  | .transaction_start ctx => .transaction_start ctx
  | .transfer ctx data_out data_in len => .transfer ctx data_out (data_in.map f) len
  | .delay_before_next_transfer ctx delay_ticks => .delay_before_next_transfer ctx delay_ticks
  | .transaction_end ctx => .transaction_end ctx

/-- An operation, whatever place it receives to. -/
abbrev Op (δ : Type*) := Call δ Unit

/-- Where `memcpy` finds the bytes for the copy. -/
def copied (data_out : Option (List UInt8)) (len : Nat) : List UInt8 := (data_out.getD []).take len

/-- What is asked for. -/
def Call.op : Call δ ρ → Op δ
  | .transfer ctx data_out none len => .transfer ctx (some (copied data_out len)) none len
  | call => call.map fun _ => ()

/-- The memory that a task on the host receives to, or what the thread of a client tile has allocated. -/
inductive Place (κ : Type*)
  | memory (address : Nat)
  | rpc (k : κ)
deriving DecidableEq

/-- `req.data_out`. -/
inductive DataOut
  | caller (data_out : Option (List UInt8))
  | copy (n : Nat)
deriving DecidableEq

/-- The fields that are set and read for each operation. -/
inductive spi_xfer_req_t (κ δ : Type*)
  | SPI_OP_START (ctx : δ) (priority : Nat)
  | SPI_OP_XFER (ctx : δ) (data_out : DataOut) (data_in : Option (Place κ)) (len : Nat)
  | SPI_OP_DELAY (ctx : δ) (len : Nat)
  | SPI_OP_END (ctx : δ)
deriving DecidableEq

/-- A request, with the task that it is for and what it asked for, which the code does not see. -/
structure Item (ι κ τ δ : Type*) where
  owner : Owner ι κ τ
  op : Op δ
  req : spi_xfer_req_t κ δ
deriving DecidableEq

/-! ## State -/

/-- Where a task or thread is in the four functions. -/
inductive Local (ι κ τ δ : Type*)
  | idle
  | get_mutex (owner : Owner ι κ τ) (ctx : δ)
  | send (item : Item ι κ τ δ)
  /-- Waits for `data_ready`. -/
  | wait (data_in : Place κ)
  | put_mutex
deriving DecidableEq

/-- Where `spi_xfer_thread` is. -/
inductive Thread (ι κ τ δ : Type*)
  | receive
  | perform (item : Item ι κ τ δ)
  /-- After a transfer, with the semaphore still to be put, or the bytes to be freed. -/
  | put
  | free (data_out : DataOut)
deriving DecidableEq

/-- What has been done for a task, and with which copy. -/
structure Executed (ι κ τ δ : Type*) where
  owner : Owner ι κ τ
  op : Op δ
  received : List UInt8
  copy : Option Nat
deriving DecidableEq

/-- A transfer that has returned: which one of the task's operations it was, and what is in its buffer. -/
structure Returned (ι κ τ : Type*) where
  owner : Owner ι κ τ
  number : Nat
  bytes : List UInt8
deriving DecidableEq

structure Host (ι κ τ δ : Type*) where
  lock : Mutex (Actor ι κ)
  xfer_req_queue : List (Item ι κ τ δ)
  data_ready : Nat
  op_task_priority : Nat
  thread : Thread ι κ τ δ
  current_priority : Nat
  /-- The priority that `spi_xfer_thread` runs at. -/
  op_task : Nat
  actor : Actor ι κ → Local ι κ τ δ
  memory : Place κ → List UInt8
  /-- The copies that have not been freed. -/
  copy : Nat → Option (List UInt8)
  allocated : Nat
  freed : List Nat
  executed : List (Executed ι κ τ δ)
  /-- Whose transaction the lock is held for. -/
  within : Actor ι κ → Option (Owner ι κ τ)
  /-- The operations that each task has issued, and all that have been sent. -/
  issued : Owner ι κ τ → List (Op δ)
  sent : List (Owner ι κ τ × Op δ)
  returned : List (Returned ι κ τ)

/-- The lengths given to `rtos_osal_queue_create` and `rtos_osal_semaphore_create`. -/
def xfer_req_queue_length : Nat := 2
def data_ready_max_count : Nat := 1

/-! ## `spi_xfer_thread` -/

variable (s : Host ι κ τ δ)

/-- The bytes to be sent; what has been freed does not hold any. -/
def Host.data_out : DataOut → Option (List UInt8)
  | .caller data_out => data_out
  | .copy n => s.copy n

def DataOut.copies : DataOut → Option Nat
  | .caller _ => none
  | .copy n => some n

/-- The operation that a request makes the thread perform. -/
def Host.performs : spi_xfer_req_t κ δ → Op δ
  | .SPI_OP_START ctx _ => .transaction_start ctx
  | .SPI_OP_XFER ctx data_out data_in len => .transfer ctx (s.data_out data_out) (data_in.map fun _ => ()) len
  | .SPI_OP_DELAY ctx len => .delay_before_next_transfer ctx len
  | .SPI_OP_END ctx => .transaction_end ctx

/-- The number of the copy that a request has its bytes in. -/
def spi_xfer_req_t.copy : spi_xfer_req_t κ δ → Option Nat
  | .SPI_OP_XFER _ data_out none _ => data_out.copies
  | _ => none

def Host.execute (item : Item ι κ τ δ) (received : List UInt8) : Host ι κ τ δ :=
  { s with executed := s.executed ++ [⟨item.owner, s.performs item.req, received, item.req.copy⟩] }

section
variable [DecidableEq κ]

/-- One of the thread's requests. A transfer with `data_in` receives as many bytes as it sends. -/
def perform (item : Item ι κ τ δ) (received : List UInt8) : Option (Host ι κ τ δ) :=
  match item.req with
  | .SPI_OP_START _ priority => some { s.execute item [] with
      thread := .receive
      op_task := if s.current_priority ≠ priority then priority else s.op_task
      current_priority := priority }
  | .SPI_OP_XFER _ _ (some data_in) len =>
    if received.length = len then
      some { s.execute item received with thread := .put, memory := Function.update s.memory data_in received }
    else none
  | .SPI_OP_XFER _ data_out none _ => some { s.execute item [] with thread := .free data_out }
  | .SPI_OP_DELAY _ _ => some { s.execute item [] with thread := .receive }
  | .SPI_OP_END _ => some { s.execute item [] with
      thread := .receive
      op_task := if s.current_priority ≠ s.op_task_priority then s.op_task_priority else s.op_task
      current_priority := s.op_task_priority }

/-- Only what was allocated is freed. -/
def rtos_osal_free : DataOut → Option (Host ι κ τ δ)
  | .caller none => some s
  | .caller (some _) => none
  | .copy n => some { s with copy := Function.update s.copy n none, freed := s.freed ++ [n] }

def spi_xfer_thread (received : List UInt8) : Option (Host ι κ τ δ) :=
  match s.thread with
  | .receive => (rtos_osal_queue_receive s.xfer_req_queue).map fun (item, xfer_req_queue) =>
      { s with thread := .perform item, xfer_req_queue }
  | .perform item => perform s item received
  | .put => some { s with
      thread := .receive, data_ready := rtos_osal_semaphore_put data_ready_max_count s.data_ready }
  | .free data_out => (rtos_osal_free s data_out).map fun s => { s with thread := .receive }

end

/-! ## The local functions -/

section
variable [DecidableEq ι] [DecidableEq κ]

def Host.goto (a : Actor ι κ) (pc : Local ι κ τ δ) : Host ι κ τ δ := { s with actor := Function.update s.actor a pc }

variable {s} in
theorem goto_self {a : Actor ι κ} {pc : Local ι κ τ δ} : (s.goto a pc).actor a = pc := Function.update_self ..

variable {s} in
theorem goto_other {a b : Actor ι κ} {pc : Local ι κ τ δ} (hb : b ≠ a) : (s.goto a pc).actor b = s.actor b :=
  Function.update_of_ne hb ..

/-- A function is called, up to its first call that may wait. -/
def Host.enter (owner : Owner ι κ τ) (call : Call δ (Place κ)) : Host ι κ τ δ :=
  let send := fun req => Local.send ⟨owner, call.op, req⟩
  match call with
  | .transaction_start ctx => s.goto owner.actor (.get_mutex owner ctx)
  | .transfer ctx data_out (some data_in) len =>
    s.goto owner.actor (send (.SPI_OP_XFER ctx (.caller data_out) (some data_in) len))
  | .transfer ctx data_out none len =>
    { s with
      copy := Function.update s.copy s.allocated (some (copied data_out len))
      allocated := s.allocated + 1 }.goto owner.actor (send (.SPI_OP_XFER ctx (.copy s.allocated) none len))
  | .delay_before_next_transfer ctx delay_ticks => s.goto owner.actor (send (.SPI_OP_DELAY ctx delay_ticks))
  | .transaction_end ctx => s.goto owner.actor (send (.SPI_OP_END ctx))

/-- Where a function goes on when its request has been sent. -/
def spi_xfer_req_t.next : spi_xfer_req_t κ δ → Local ι κ τ δ
  | .SPI_OP_START _ _ | .SPI_OP_DELAY _ _ | .SPI_OP_XFER _ _ none _ => .idle
  | .SPI_OP_XFER _ _ (some data_in) _ => .wait data_in
  | .SPI_OP_END _ => .put_mutex

/-- What a transfer has returned with. -/
def Host.returns (a : Actor ι κ) (data_in : Place κ) : List (Returned ι κ τ) :=
  match s.within a with
  | some owner => [⟨owner, (s.issued owner).length - 1, s.memory data_in⟩]
  | none => []

/-- `spi_master_local_transaction_start`, `_transfer`, `_delay_before_next_transfer` and `_transaction_end`,
for a task of this priority. -/
def actor_step (a : Actor ι κ) (priority : Nat) : Option (Host ι κ τ δ) :=
  match s.actor a with
  | .idle => none
  | .get_mutex owner ctx => (mutex_get s.lock a).map fun lock => { s with
      lock
      within := Function.update s.within a (some owner)
      }.goto a (.send ⟨owner, .transaction_start ctx, .SPI_OP_START ctx priority⟩)
  | .send item => (rtos_osal_queue_send xfer_req_queue_length s.xfer_req_queue item).map fun xfer_req_queue =>
      { s with xfer_req_queue, sent := s.sent ++ [(item.owner, item.op)] }.goto a item.req.next
  | .wait data_in => (rtos_osal_semaphore_get s.data_ready).map fun data_ready =>
      { s with data_ready, returned := s.returned ++ s.returns a data_in }.goto a .idle
  | .put_mutex => some ({ s with
      lock := mutex_put s.lock a
      within := Function.update s.within a none }.goto a .idle)

variable [DecidableEq τ]

def start_call (owner : Owner ι κ τ) (call : Call δ (Place κ)) : Option (Host ι κ τ δ) :=
  match s.actor owner.actor with
  | .idle => some { s.enter owner call with issued := Function.update s.issued owner (s.issued owner ++ [call.op]) }
  | _ => none

/-! ## All together -/

inductive Act (ι κ τ δ : Type*)
  | call (owner : Owner ι κ τ) (call : Call δ (Place κ))
  | actor (a : Actor ι κ) (priority : Nat)
  | thread (received : List UInt8)

/-- `rtos_spi_master_start`. -/
def Host.init (op_task_priority : Nat) (memory : Place κ → List UInt8) : Host ι κ τ δ :=
  ⟨none, [], 0, op_task_priority, .receive, op_task_priority, op_task_priority, fun _ => .idle, memory, fun _ => none, 0,
    [], [], fun _ => none, fun _ => [], [], []⟩

def host : Machine (Host ι κ τ δ) (Act ι κ τ δ) where
  init s := ∃ op_task_priority memory, s = Host.init op_task_priority memory
  step s
    | .call owner call => start_call s owner call
    | .actor a priority => actor_step s a priority
    | .thread received => spi_xfer_thread s received

/-- The buffer is one of the calling task's tile. -/
def Place.Of (a : Actor ι κ) : Place κ → Prop
  | .memory _ => ∃ i, a = .host i
  | .rpc k => a = .rpc k

def Call.places : Call δ ρ → Option ρ
  | .transfer _ _ data_in _ => data_in
  | _ => none

/-- Transactions are issued one after another. -/
def Proper (s : Host ι κ τ δ) : Act ι κ τ δ → Prop
  | .call owner call =>
    s.within owner.actor = (match call with
      | .transaction_start _ => none
      | _ => some owner) ∧ ∀ data_in ∈ call.places, data_in.Of owner.actor
  | _ => True

end
end RtosMaster
end Spi
