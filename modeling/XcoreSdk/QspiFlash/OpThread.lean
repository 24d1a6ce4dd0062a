import XcoreSdk.FreeRtos.Osal
import XcoreSdk.Lib.Machine
import Mathlib.Algebra.Order.Ring.Nat
/-!
# The QSPI flash driver and its operation thread

The tasks put their operations into a queue of two; one thread takes them out
and performs them. A read waits for the semaphore `data_ready`, of maximum
count one, that the thread puts after each read. Which waiting task gets the
semaphore is the kernel's choice; `Wakes` is the choice FreeRTOS documents,
the waiting task of the highest priority.
-/

namespace QspiFlash
open FreeRtos

inductive FlashOp
  | FLASH_OP_READ | FLASH_OP_WRITE | FLASH_OP_ERASE
deriving DecidableEq, Repr

variable {ι : Type*} [DecidableEq ι]

/-- An operation in the queue, and the call it is from: the task and the
number of the task's call. -/
structure qspi_flash_op_req_t (ι : Type*) where
  op : FlashOp
  call : ι × Nat

/-- Where a task is in `qspi_flash_local_read`, `_write` or `_erase`. -/
inductive Pc
  | idle
  | get_mutex (op : FlashOp)
  | send (op : FlashOp)
  | put_mutex (op : FlashOp)
  /-- Waiting for `data_ready`. -/
  | wait
deriving DecidableEq, Repr

/-- Where `qspi_flash_op_thread` is. -/
inductive Thread (ι : Type*)
  | receive
  | perform (req : qspi_flash_op_req_t ι)
  /-- The read is done, the semaphore is still to be put. -/
  | put (call : ι × Nat)

structure Flash (ι : Type*) where
  mutex : Option ι
  op_queue : List (qspi_flash_op_req_t ι)
  data_ready : Nat
  thread : Thread ι
  pc : ι → Pc
  /-- The number of the current or last call of each task. -/
  calls : ι → Nat
  /-- The read calls whose buffers have been filled, in order. -/
  filled : List (ι × Nat)
  /-- The read calls that have returned, in order. -/
  returned : List (ι × Nat)

inductive Act (ι : Type*)
  | call (i : ι) (op : FlashOp)
  | task (i : ι)
  | thread

def Flash.goto (s : Flash ι) (i : ι) (pc : Pc) : Flash ι := { s with pc := Function.update s.pc i pc }

/-- The lengths given to `rtos_osal_queue_create` and `rtos_osal_semaphore_create`. -/
def op_queue_length : Nat := 2
def data_ready_max_count : Nat := 1

/-- `request`, and after it the wait of a read. -/
def task_step (s : Flash ι) (i : ι) : Option (Flash ι) :=
  match s.pc i with
  | .idle => none
  | .get_mutex op => (rtos_osal_mutex_get s.mutex i).map fun mutex => { s.goto i (.send op) with mutex }
  | .send op =>
    (rtos_osal_queue_send op_queue_length s.op_queue ⟨op, i, s.calls i⟩).map fun op_queue =>
      { s.goto i (.put_mutex op) with op_queue }
  | .put_mutex op =>
    some { s.goto i (if op = .FLASH_OP_READ then .wait else .idle) with mutex := (rtos_osal_mutex_put s.mutex).2 }
  | .wait =>
    (rtos_osal_semaphore_get s.data_ready).map fun data_ready =>
      { s.goto i .idle with data_ready, returned := s.returned ++ [(i, s.calls i)] }

def qspi_flash_op_thread (s : Flash ι) : Option (Flash ι) :=
  match s.thread with
  | .receive => (rtos_osal_queue_receive s.op_queue).map fun (op, op_queue) => { s with thread := .perform op, op_queue }
  | .perform req =>
    if req.op = .FLASH_OP_READ then some { s with thread := .put req.call, filled := s.filled ++ [req.call] }
    else some { s with thread := .receive }
  | .put _ =>
    some { s with thread := .receive, data_ready := rtos_osal_semaphore_put data_ready_max_count s.data_ready }

def flash : Machine (Flash ι) (Act ι) where
  init s := s = ⟨none, [], 0, .receive, fun _ => .idle, fun _ => 0, [], []⟩
  step s
    | .call i op =>
      if s.pc i = .idle then some { s.goto i (.get_mutex op) with calls := Function.update s.calls i (s.calls i + 1) }
      else none
    | .task i => task_step s i
    | .thread => qspi_flash_op_thread s

/-- The semaphore goes to a waiting task of the highest priority. -/
def Wakes (prio : ι → Nat) (s : Flash ι) : Act ι → Prop
  | .task i => s.pc i = .wait → ∀ j, s.pc j = .wait → prio j ≤ prio i
  | _ => True

end QspiFlash
