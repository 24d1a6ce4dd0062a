import XcoreSdk.QspiFlash.OpThread
/-!
# The QSPI flash driver's lock

The tasks of the host's tile and, for each client tile, a thread that serves its
calls use the driver's functions directly; the operation thread performs what
they queue. A task of a client tile holds the tile's mutex while it makes a
call. Both mutexes are recursive. Of what the tasks request the model keeps who
requested it, as the task's how manieth request, and within which of the
sections that the task had locked then.
-/

namespace QspiFlash
namespace Locking
open FreeRtos
variable {ι κ ρ : Type*} [DecidableEq ι] [DecidableEq κ] [DecidableEq ρ]

def RTOS_QSPI_FLASH_READ_CHUNK_SIZE : Nat := 24 * 1024

/-! ## Recursive mutexes -/

/-- Who holds a recursive mutex, and how often. -/
abbrev Mutex (α : Type*) := Option (α × Nat)

def mutex_get {α : Type*} [DecidableEq α] (mutex : Mutex α) (task : α) : Option (Mutex α) :=
  match mutex with
  | none => some (some (task, 1))
  | some (holder, count) => if holder = task then some (some (holder, count + 1)) else none

/-- Only its holder gives a mutex back. -/
def mutex_put {α : Type*} [DecidableEq α] (mutex : Mutex α) (task : α) : Mutex α :=
  match mutex with
  | none => none
  | some (holder, count) =>
    if holder = task then if count = 1 then none else some (holder, count - 1) else some (holder, count)

/-! ## State -/

/-- A task of the host's tile, or one of a client tile. -/
inductive Task (ι κ ρ : Type*)
  | host (i : ι)
  | client (t : κ) (j : ρ)
deriving DecidableEq

/-- What runs the driver's functions on the host's tile: a task, or the thread of a client tile. -/
inductive Actor (ι κ : Type*)
  | host (i : ι)
  | rpc (t : κ)
deriving DecidableEq

def Task.actor : Task ι κ ρ → Actor ι κ
  | .host i => .host i
  | .client t _ => .rpc t

inductive Request
  | read (address len : Nat)
  | write (address : Nat) (data : List UInt8)
  | erase (address len : Nat)
deriving DecidableEq

inductive Call
  | lock
  | unlock
  | op (request : Request)
deriving DecidableEq

/-- `qspi_flash_op_req_t`. -/
structure Op (ι κ ρ : Type*) where
  request : Request
  task : Task ι κ ρ
  number : Nat
  sections : List Nat
deriving DecidableEq

/-- Where an actor is in the driver's functions. -/
inductive Local (ι κ ρ : Type*)
  | idle
  | lock (τ : Task ι κ ρ)
  | unlock (τ : Task ι κ ρ)
  /-- In `request`. -/
  | get_mutex (op : Op ι κ ρ)
  | send (op : Op ι κ ρ)
  | put_mutex (op : Op ι κ ρ)
  /-- Waits for `data_ready`. -/
  | wait
  /-- The thread of a client tile is about to send the response. -/
  | respond
deriving DecidableEq

/-- Where a task of a client tile is. The request of a read is what is left to be read. -/
inductive Remote
  | idle
  | get_mutex (call : Call)
  | call (call : Call)
  | wait (call : Call)
  | put_mutex
deriving DecidableEq

/-- A request message. -/
inductive Msg (ι κ ρ : Type*)
  | lock (τ : Task ι κ ρ)
  | unlock (τ : Task ι κ ρ)
  | op (op : Op ι κ ρ)
deriving DecidableEq

inductive Thread (ι κ ρ : Type*)
  | receive
  | perform (op : Op ι κ ρ)
  | put

structure State (ι κ ρ : Type*) where
  mutex : Mutex (Actor ι κ)
  op_queue : List (Op ι κ ρ)
  data_ready : Nat
  thread : Thread ι κ ρ
  actor : Actor ι κ → Local ι κ ρ
  client_mutex : κ → Mutex ρ
  remote : κ → ρ → Remote
  requests : κ → List (Msg ι κ ρ)
  responses : κ → Nat
  /-- The sections that a task has locked and not unlocked, the last one first. -/
  sections : Task ι κ ρ → List Nat
  /-- The number of sections that have been locked so far. -/
  locked : Nat
  /-- The number of a task's requests so far. -/
  issued : Task ι κ ρ → Nat
  sent : List (Op ι κ ρ)
  executed : List (Op ι κ ρ)

def State.goto (s : State ι κ ρ) (a : Actor ι κ) (pc : Local ι κ ρ) : State ι κ ρ :=
  { s with actor := Function.update s.actor a pc }

def State.remote_goto (s : State ι κ ρ) (t : κ) (j : ρ) (pc : Remote) : State ι κ ρ :=
  { s with remote := Function.update s.remote t (Function.update (s.remote t) j pc) }

/-! ## On the host's tile -/

/-- A function returns, to the task or to the thread that serves a client tile. -/
def Actor.returned : Actor ι κ → Local ι κ ρ
  | .host _ => .idle
  | .rpc _ => .respond

/-- A task's next request. -/
def State.issue (s : State ι κ ρ) (τ : Task ι κ ρ) (request : Request) : Op ι κ ρ :=
  ⟨request, τ, s.issued τ + 1, s.sections τ⟩

def State.count (s : State ι κ ρ) (τ : Task ι κ ρ) : State ι κ ρ :=
  { s with issued := Function.update s.issued τ (s.issued τ + 1) }

/-- The thread of a client tile takes a request message. -/
def Msg.start : Msg ι κ ρ → Local ι κ ρ
  | .lock τ => .lock τ
  | .unlock τ => .unlock τ
  | .op o => .get_mutex o

def Request.isRead : Request → Bool
  | .read .. => true
  | _ => false

/-- `qspi_flash_local_lock`, `_unlock`, `_read`, `_write` and `_erase`, and
`qspi_flash_rpc_thread` around them. -/
def actor_step (s : State ι κ ρ) (a : Actor ι κ) : Option (State ι κ ρ) :=
  match s.actor a with
  | .idle =>
    match a with
    | .host _ => none
    | .rpc t => (rtos_osal_queue_receive (s.requests t)).map fun (msg, requests) =>
        { s with requests := Function.update s.requests t requests }.goto a msg.start
  | .lock τ => (mutex_get s.mutex a).map fun mutex => { s with
      mutex
      sections := Function.update s.sections τ (s.locked :: s.sections τ)
      locked := s.locked + 1 }.goto a a.returned
  | .unlock τ => some ({ s with
      mutex := mutex_put s.mutex a
      sections := Function.update s.sections τ (s.sections τ).tail }.goto a a.returned)
  | .get_mutex op => (mutex_get s.mutex a).map fun mutex => { s with mutex }.goto a (.send op)
  | .send op => (rtos_osal_queue_send op_queue_length s.op_queue op).map fun op_queue =>
      { s with op_queue, sent := s.sent ++ [op] }.goto a (.put_mutex op)
  | .put_mutex op =>
    some ({ s with mutex := mutex_put s.mutex a }.goto a (if op.request.isRead then .wait else a.returned))
  | .wait => (rtos_osal_semaphore_get s.data_ready).map fun data_ready => { s with data_ready }.goto a a.returned
  | .respond =>
    match a with
    | .host _ => none
    | .rpc t => some ({ s with responses := Function.update s.responses t (s.responses t + 1) }.goto a .idle)

def qspi_flash_op_thread (s : State ι κ ρ) : Option (State ι κ ρ) :=
  match s.thread with
  | .receive => (rtos_osal_queue_receive s.op_queue).map fun (op, op_queue) =>
      { s with thread := .perform op, op_queue }
  | .perform op => some { s with thread := if op.request.isRead then .put else .receive, executed := s.executed ++ [op] }
  | .put => some { s with
      thread := .receive, data_ready := rtos_osal_semaphore_put data_ready_max_count s.data_ready }

/-! ## On a client tile -/

/-- The request of one call: of a read, its next chunk. -/
def Request.chunk : Request → Request
  | .read address len => .read address (min len RTOS_QSPI_FLASH_READ_CHUNK_SIZE)
  | request => request

/-- What is left after it. -/
def Request.rest : Request → Option Request
  | .read address len =>
    let read_len := min len RTOS_QSPI_FLASH_READ_CHUNK_SIZE
    if 0 < len - read_len then some (.read ((address + read_len) % 2 ^ 32) (len - read_len)) else none
  | _ => none

/-- The message of a call. -/
def State.message (s : State ι κ ρ) (τ : Task ι κ ρ) : Call → Msg ι κ ρ
  | .lock => .lock τ
  | .unlock => .unlock τ
  | .op request => .op (s.issue τ request.chunk)

/-- Where a task goes on when it has got the response. -/
def Call.answered : Call → Remote
  | .lock => .idle
  | .unlock => .put_mutex
  | .op request =>
    match request.rest with
    | some rest => .call (.op rest)
    | none => .put_mutex

/-- `qspi_flash_remote_lock`, `_unlock`, `_read`, `_write` and `_erase`. -/
def remote_step (s : State ι κ ρ) (t : κ) (j : ρ) : Option (State ι κ ρ) :=
  match s.remote t j with
  | .idle => none
  | .get_mutex call => (mutex_get (s.client_mutex t) j).map fun mutex =>
      { s with client_mutex := Function.update s.client_mutex t mutex }.remote_goto t j (.call call)
  | .call call => some ({ s with
      requests := Function.update s.requests t (s.requests t ++ [s.message (.client t j) call])
      issued := match call with
        | .op _ => Function.update s.issued (.client t j) (s.issued (.client t j) + 1)
        | _ => s.issued }.remote_goto t j (.wait call))
  | .wait call => (rtos_osal_semaphore_get (s.responses t)).map fun responses =>
      { s with responses := Function.update s.responses t responses }.remote_goto t j call.answered
  | .put_mutex => some ({ s with
      client_mutex := Function.update s.client_mutex t (mutex_put (s.client_mutex t) j) }.remote_goto t j .idle)

/-! ## All together -/

inductive Act (ι κ ρ : Type*)
  | call (τ : Task ι κ ρ) (call : Call)
  | actor (a : Actor ι κ)
  | remote (t : κ) (j : ρ)
  | thread

/-- A task calls a function of the driver. -/
def start_call (s : State ι κ ρ) (τ : Task ι κ ρ) (call : Call) : Option (State ι κ ρ) :=
  match τ with
  | .host i =>
    if s.actor (.host i) = .idle then
      match call with
      | .lock => some (s.goto (.host i) (.lock τ))
      | .unlock => some (s.goto (.host i) (.unlock τ))
      | .op request => some ((s.count τ).goto (.host i) (.get_mutex (s.issue τ request)))
    else none
  | .client t j =>
    if s.remote t j = .idle then
      match call with
      | .unlock => some (s.remote_goto t j (.call .unlock))
      | call => some (s.remote_goto t j (.get_mutex call))
    else none

def flash : Machine (State ι κ ρ) (Act ι κ ρ) where
  init s := s = ⟨none, [], 0, .receive, fun _ => .idle, fun _ => none, fun _ _ => .idle, fun _ => [], fun _ => 0,
    fun _ => [], 0, fun _ => 0, [], []⟩
  step s
    | .call τ call => start_call s τ call
    | .actor a => actor_step s a
    | .remote t j => remote_step s t j
    | .thread => qspi_flash_op_thread s

/-- A task unlocks only what it has locked. -/
def Allowed (s : State ι κ ρ) : Act ι κ ρ → Prop
  | .call τ .unlock => s.sections τ ≠ []
  | _ => True

instance (s : State ι κ ρ) : ∀ a, Decidable (Allowed s a)
  | .call τ .unlock => inferInstanceAs (Decidable (s.sections τ ≠ []))
  | .call _ .lock | .call _ (.op _) | .actor _ | .remote _ _ | .thread => isTrue trivial

end Locking
end QspiFlash
