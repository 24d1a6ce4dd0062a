import XcoreSdk.FreeRtos.Osal
import XcoreSdk.Lib.Machine
/-!
# The drivers' remote functions

A remote function is a sequence of calls of `rpc_client_call_generic`, in most
drivers between taking and giving back the driver's lock. A call sends a
request on the driver's intertile port and waits for a response on the same
port. Neither carries the caller's name, so requests, and responses, are told
apart here by numbers that the code does not see.
-/

namespace Rpc
open FreeRtos

/-- The operations of the remote functions. -/
inductive ClientOp
  | get
  /-- `rpc_client_call_generic` with this function code. -/
  | call (fcode : Nat)
  | put
deriving DecidableEq, Repr

/-- The drivers with an RPC client. -/
inductive Driver
  | i2c_master | mic_array | spi_master | qspi_flash | i2s | gpio
deriving DecidableEq, Repr

/-- How each driver creates the mutex that its remote functions take, if they
take one. -/
def Driver.recursive : Driver → Bool
  | .qspi_flash => true
  | _ => false

def RTOS_QSPI_FLASH_READ_CHUNK_SIZE : Nat := 24 * 1024

/-- The remote functions of each driver. -/
inductive Remote : Driver → Type
  | i2c_master_write : Remote .i2c_master
  | i2c_master_read : Remote .i2c_master
  | i2c_master_stop_bit_send : Remote .i2c_master
  | i2c_master_reg_write : Remote .i2c_master
  | i2c_master_reg_read : Remote .i2c_master
  | mic_array_rx : Remote .mic_array
  | spi_master_transaction_start : Remote .spi_master
  | spi_master_transfer : Remote .spi_master
  | spi_master_delay_before_next_transfer : Remote .spi_master
  | spi_master_transaction_end : Remote .spi_master
  | qspi_flash_lock : Remote .qspi_flash
  | qspi_flash_unlock : Remote .qspi_flash
  | qspi_flash_read (len : Nat) : Remote .qspi_flash
  | qspi_flash_write : Remote .qspi_flash
  | qspi_flash_erase : Remote .qspi_flash
  | i2s_rx : Remote .i2s
  | i2s_tx : Remote .i2s
  | gpio_port_enable : Remote .gpio
  | gpio_port_in : Remote .gpio
  | gpio_port_out : Remote .gpio
  | gpio_port_write_control_word : Remote .gpio
  | gpio_isr_callback_set : Remote .gpio
  | gpio_interrupt_enable : Remote .gpio
  | gpio_interrupt_disable : Remote .gpio

/-- A call between taking and giving back the lock. -/
def locked (fcode : Nat) : List ClientOp := [.get, .call fcode, .put]

/-- The chunks of the `do … while (len > 0)` loop of `qspi_flash_remote_read`. -/
def read_chunks (len : Nat) : Nat :=
  max 1 ((len + RTOS_QSPI_FLASH_READ_CHUNK_SIZE - 1) / RTOS_QSPI_FLASH_READ_CHUNK_SIZE)

def Remote.ops : {d : Driver} → Remote d → List ClientOp
  | _, .i2c_master_write => [.call 0]
  | _, .i2c_master_read => [.call 1]
  | _, .i2c_master_stop_bit_send => [.call 2]
  | _, .i2c_master_reg_write => [.call 3]
  | _, .i2c_master_reg_read => [.call 4]
  | _, .mic_array_rx => [.call 0]
  | _, .spi_master_transaction_start => [.get, .call 0]
  | _, .spi_master_transfer => [.call 1]
  | _, .spi_master_delay_before_next_transfer => [.call 2]
  | _, .spi_master_transaction_end => [.call 3, .put]
  | _, .qspi_flash_lock => [.get, .call 0]
  | _, .qspi_flash_unlock => [.call 1, .put]
  | _, .qspi_flash_read len => ClientOp.get :: List.replicate (read_chunks len) (ClientOp.call 2) ++ [ClientOp.put]
  | _, .qspi_flash_write => locked 3
  | _, .qspi_flash_erase => locked 4
  | _, .i2s_rx => locked 0
  | _, .i2s_tx => locked 1
  | _, .gpio_port_enable => locked 0
  | _, .gpio_port_in => locked 1
  | _, .gpio_port_out => locked 2
  | _, .gpio_port_write_control_word => locked 3
  | _, .gpio_isr_callback_set => locked 4
  | _, .gpio_interrupt_enable => locked 5
  | _, .gpio_interrupt_disable => locked 6

variable {ι : Type*} [DecidableEq ι]

/-- A request, and the response to it: the task, the number of its call, and
the function code. -/
structure Call (ι : Type*) where
  task : ι
  number : Nat
  fcode : Nat
deriving DecidableEq

structure Clients (ι : Type*) where
  /-- The holder of the driver's mutex, and how often it has taken it. -/
  lock : Option ι
  depth : Nat
  /-- What each task has still to do. -/
  code : ι → List ClientOp
  /-- The call that a task is waiting in for its response. -/
  waiting : ι → Option (Call ι)
  calls : ι → Nat
  /-- Requests and responses on their way, in order. -/
  requests : List (Call ι)
  responses : List (Call ι)
  /-- The calls that have returned, each with the response it got. -/
  returned : List (Call ι × Call ι)

inductive ClientAct (ι : Type*)
  | task (i : ι)
  /-- The host answers the oldest request. -/
  | host
deriving DecidableEq

/-- The lock operations of a mutex that may be recursive, and the call's sending half. -/
def client_op (recursive : Bool) (s : Clients ι) (i : ι) (k : List ClientOp) : ClientOp → Option (Clients ι)
  | .get =>
    if s.lock = none then some { s with lock := some i, depth := 1, code := Function.update s.code i k }
    else if recursive ∧ s.lock = some i then
      some { s with depth := s.depth + 1, code := Function.update s.code i k }
    else none
  | .call fcode =>
    some { s with
      code := Function.update s.code i k
      calls := Function.update s.calls i (s.calls i + 1)
      waiting := Function.update s.waiting i (some ⟨i, s.calls i + 1, fcode⟩)
      requests := s.requests ++ [⟨i, s.calls i + 1, fcode⟩] }
  | .put =>
    -- a recursive mutex is given back by its holder only
    if recursive ∧ (s.lock ≠ some i ∨ 1 < s.depth) then
      some { s with
        depth := if s.lock = some i then s.depth - 1 else s.depth, code := Function.update s.code i k }
    else some { s with lock := none, depth := 0, code := Function.update s.code i k }

/-- A task goes on with its functions, or takes a response if it waits for one. -/
def client_step (recursive : Bool) (s : Clients ι) (i : ι) : Option (Clients ι) :=
  match s.waiting i with
  | some c =>
    match s.responses with
    | [] => none
    | r :: responses =>
      some { s with responses, waiting := Function.update s.waiting i none, returned := s.returned ++ [(c, r)] }
  | none =>
    match s.code i with
    | [] => none
    | op :: k => client_op recursive s i k op

/-- The tasks of a tile, each with the remote functions it calls, and the host. -/
def clients (d : Driver) (progs : ι → List (Remote d)) : Machine (Clients ι) (ClientAct ι) where
  init s := s = ⟨none, 0, fun i => (progs i).flatMap Remote.ops, fun _ => none, fun _ => 0, [], [], []⟩
  step s
    | .task i => client_step d.recursive s i
    | .host =>
      match s.requests with
      | [] => none
      | c :: requests => some { s with requests, responses := s.responses ++ [c] }

end Rpc
