import Mathlib.Data.List.Basic
/-!
# The OSAL primitives

Each call that can block is a partial function: `none` says that the calling
task has to wait. A mutex is the task that holds it; a semaphore is its count;
a queue is the list of its items, the oldest first.
-/

namespace FreeRtos
variable {ι α : Type*}

def rtos_osal_mutex_get (holder : Option ι) (task : ι) : Option (Option ι) :=
  match holder with
  | none => some (some task)
  | some _ => none

/-- Gives a mutex back, whoever holds it, and says whether anyone did. -/
def rtos_osal_mutex_put (holder : Option ι) : Bool × Option ι := (holder.isSome, none)

/-- A put on a full semaphore is lost. -/
def rtos_osal_semaphore_put (max_count count : Nat) : Nat := if count < max_count then count + 1 else count

def rtos_osal_semaphore_get : Nat → Option Nat
  | 0 => none
  | count + 1 => some count

def rtos_osal_queue_send (queue_length : Nat) (queue : List α) (item : α) : Option (List α) :=
  if queue.length < queue_length then some (queue ++ [item]) else none

def rtos_osal_queue_receive : List α → Option (α × List α)
  | [] => none
  | item :: queue => some (item, queue)

theorem mutex_get_eq_some {holder holder' : Option ι} {task : ι} :
    rtos_osal_mutex_get holder task = some holder' ↔ holder = none ∧ holder' = some task := by
  cases holder with
  | none => simp [rtos_osal_mutex_get, eq_comm]
  | some _ => simp [rtos_osal_mutex_get]

theorem semaphore_get_eq_some {count count' : Nat} :
    rtos_osal_semaphore_get count = some count' ↔ count = count' + 1 := by
  cases count with
  | zero => simp [rtos_osal_semaphore_get]
  | succ n => simp [rtos_osal_semaphore_get]

theorem queue_send_eq_some {queue_length : Nat} {queue queue' : List α} {item : α} :
    rtos_osal_queue_send queue_length queue item = some queue' ↔
      queue.length < queue_length ∧ queue' = queue ++ [item] := by
  unfold rtos_osal_queue_send
  split
  · rename_i h
    simp [h, eq_comm]
  · rename_i h
    simp [h]

theorem queue_receive_eq_some {queue queue' : List α} {item : α} :
    rtos_osal_queue_receive queue = some (item, queue') ↔ queue = item :: queue' := by
  cases queue with
  | nil => simp [rtos_osal_queue_receive]
  | cons a q => simp [rtos_osal_queue_receive]

end FreeRtos
