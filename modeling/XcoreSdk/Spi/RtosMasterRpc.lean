import XcoreSdk.Spi.InOrder
/-!
# The RTOS SPI master over RPC

On a client tile the four functions are calls of the host's. `spi_master_rpc_thread` serves
the calls of one tile, one at a time. The tile's own lock, too, is held from the start of a
transaction to its end.

The messages are what they stand for: a buffer that is sent is its bytes, one that is to be
filled is its length, and either is `NULL` if the length is 0.
-/

namespace Spi
namespace RtosMaster
open FreeRtos
open QspiFlash.Locking (Actor Mutex mutex_get mutex_put)
variable {ι κ τ δ : Type*}

/-! ## Messages -/

/-- The length of a buffer's parameter, which has 24 bits. -/
def param_length (buffer : Bool) (len : Nat) : BitVec 24 := BitVec.ofNat 24 (if buffer then len else 0)

/-- A client's call as the host unmarshalls it. -/
def Call.remote (host_dev_ctx_ptr : δ → δ) : Call δ Nat → Call δ (BitVec 24)
  | .transaction_start dev_ctx => .transaction_start (host_dev_ctx_ptr dev_ctx)
  | .transfer dev_ctx data_out data_in len =>
    let out_length := param_length data_out.isSome len
    let in_length := param_length data_in.isSome len
    .transfer (host_dev_ctx_ptr dev_ctx)
      (if out_length = 0 then none else data_out.map (·.take out_length.toNat))
      (if in_length = 0 then none else some in_length) len
  | .delay_before_next_transfer dev_ctx delay_ticks =>
    .delay_before_next_transfer (host_dev_ctx_ptr dev_ctx) delay_ticks
  | .transaction_end dev_ctx => .transaction_end (host_dev_ctx_ptr dev_ctx)

/-- A request message. The task that sent it is not in it. -/
structure Msg (ι κ τ δ : Type*) where
  owner : Owner ι κ τ
  call : Call δ (BitVec 24)

/-! ## State -/

/-- Where a task of a client tile is. -/
inductive Remote (δ : Type*)
  | idle
  | get_mutex (dev_ctx : δ)
  /-- At `rpc_client_call_generic`, -/
  | call (call : Call δ Nat)
  /-- and waiting in it. -/
  | wait (call : Call δ Nat)
  | put_mutex

/-- Where `spi_master_rpc_thread` is. -/
inductive Rpc (ι κ τ δ : Type*)
  | receive
  | serve (msg : Msg ι κ τ δ)

structure System (ι κ τ δ : Type*) where
  host : Host ι κ τ δ
  rpc : κ → Rpc ι κ τ δ
  client_lock : κ → Option τ
  remote : κ → τ → Remote δ
  requests : κ → List (Msg ι κ τ δ)
  /-- The bytes for `data_in`. -/
  responses : κ → List (Option (List UInt8))
  client_memory : κ → Nat → List UInt8
  /-- Which tasks are within a transaction. -/
  begun : Owner ι κ τ → Bool
  /-- What each task has asked of the host so far. -/
  called : Owner ι κ τ → List (Op δ)
  /-- The transfers that have returned on the client tiles. -/
  returned : List (Returned ι κ τ)

/-! ## Steps -/

section
variable [DecidableEq ι] [DecidableEq κ] [DecidableEq τ] (host_dev_ctx_ptr : κ → δ → δ) (s : System ι κ τ δ)

/-- `spi_transfer_rpc_host` and the like: the response, when the local function has returned. -/
def Msg.response (msg : Msg ι κ τ δ) (data_in : List UInt8) : Option (List UInt8) :=
  msg.call.places.map fun length => data_in.take length.toNat

/-- `spi_master_rpc_thread`. It receives to a buffer of its own. -/
def rpc_step (k : κ) : Option (System ι κ τ δ) :=
  match s.rpc k with
  | .receive =>
    (rtos_osal_queue_receive (s.requests k)).bind fun (msg, requests) =>
      (start_call s.host msg.owner (msg.call.map fun _ => .rpc k)).map fun host => { s with
        host
        requests := Function.update s.requests k requests
        rpc := Function.update s.rpc k (.serve msg) }
  | .serve msg =>
    match s.host.actor (.rpc k) with
    | .idle => some { s with
        responses := Function.update s.responses k (s.responses k ++ [msg.response (s.host.memory (.rpc k))])
        rpc := Function.update s.rpc k .receive }
    | _ => none

def System.goto (k : κ) (t : τ) (pc : Remote δ) : System ι κ τ δ :=
  { s with remote := Function.update s.remote k (Function.update (s.remote k) t pc) }

variable {s} in
omit [DecidableEq ι] in
theorem remote_goto_self {k : κ} {t : τ} {pc : Remote δ} : (s.goto k t pc).remote k t = pc := by
  dsimp only [System.goto]
  rw [Function.update_self, Function.update_self]

variable {s} in
omit [DecidableEq ι] in
theorem remote_goto_other {k k' : κ} {t t' : τ} {pc : Remote δ} (hne : k' ≠ k ∨ t' ≠ t) :
    (s.goto k t pc).remote k' t' = s.remote k' t' := by
  dsimp only [System.goto]
  by_cases hk : k' = k
  · subst hk
    rw [Function.update_self, Function.update_of_ne (hne.resolve_left fun hk => hk rfl)]
  · rw [Function.update_of_ne hk]

/-- Where a remote function begins, -/
def Call.entry : Call δ Nat → Remote δ
  | .transaction_start dev_ctx => .get_mutex dev_ctx
  | call => .call call

/-- and where it goes on after the call. -/
def Call.exit : Call δ Nat → Remote δ
  | .transaction_end _ => .put_mutex
  | _ => .idle

/-- The response's bytes are copied to the beginning of the buffer. -/
def fill (data_in : Option (List UInt8)) (buffer : List UInt8) : List UInt8 :=
  data_in.getD [] ++ buffer.drop (data_in.getD []).length

/-- A task gets its response. -/
def System.answer (k : κ) (t : τ) (call : Call δ Nat) (data_in : Option (List UInt8)) : System ι κ τ δ :=
  match call with
  | .transfer _ _ (some address) len =>
    let buffer := fill data_in (s.client_memory k address)
    { s with
      client_memory := Function.update s.client_memory k (Function.update (s.client_memory k) address buffer)
      returned := s.returned ++ [⟨.client k t, (s.called (.client k t)).length - 1, buffer.take len⟩] }
  | _ => s

/-- `spi_master_remote_transaction_start`, `_transfer`, `_delay_before_next_transfer` and `_transaction_end`. -/
def remote_step (k : κ) (t : τ) : Option (System ι κ τ δ) :=
  match s.remote k t with
  | .idle => none
  | .get_mutex dev_ctx => (rtos_osal_mutex_get (s.client_lock k) t).map fun lock =>
      { s with client_lock := Function.update s.client_lock k lock }.goto k t (.call (.transaction_start dev_ctx))
  | .call call => some ({ s with
      requests := Function.update s.requests k
        (s.requests k ++ [Msg.mk (.client k t) (call.remote (host_dev_ctx_ptr k))]) }.goto k t (.wait call))
  | .wait call => (rtos_osal_queue_receive (s.responses k)).map fun (data_in, responses) =>
      { s.answer k t call data_in with responses := Function.update s.responses k responses }.goto k t call.exit
  | .put_mutex => some ({ s with
      client_lock := Function.update s.client_lock k (rtos_osal_mutex_put (s.client_lock k)).2 }.goto k t .idle)

/-- Whether the transaction goes on after the call. -/
def Call.continues {ρ : Type*} : Call δ ρ → Bool
  | .transaction_end _ => false
  | _ => true

def Call.starts {ρ : Type*} : Call δ ρ → Bool
  | .transaction_start _ => true
  | _ => false

/-- A task calls one of the four functions. -/
def task_call (owner : Owner ι κ τ) (call : Call δ Nat) : Option (System ι κ τ δ) :=
  let s := { s with begun := Function.update s.begun owner call.continues }
  match owner with
  | .host _ => (start_call s.host owner (call.map .memory)).map fun host =>
      { s with host, called := Function.update s.called owner (s.called owner ++ [call.op]) }
  | .client k t =>
    match s.remote k t with
    | .idle => some ({ s with
        called := Function.update s.called owner
          (s.called owner ++ [(call.remote (host_dev_ctx_ptr k)).op]) }.goto k t call.entry)
    | _ => none

/-! ## All together -/

inductive SystemAct (ι κ τ δ : Type*)
  | call (owner : Owner ι κ τ) (call : Call δ Nat)
  /-- A local function goes on, for a caller of this priority. -/
  | actor (a : Actor ι κ) (priority : Nat)
  | rpc (k : κ)
  | remote (k : κ) (t : τ)
  /-- `spi_xfer_thread`, with what the device sends. -/
  | thread (received : List UInt8)

def system : Machine (System ι κ τ δ) (SystemAct ι κ τ δ) where
  init s := ∃ op_task_priority memory client_memory, s = ⟨.init op_task_priority memory, fun _ => .receive, fun _ => none,
    fun _ _ => .idle, fun _ => [], fun _ => [], client_memory, fun _ => false, fun _ => [], []⟩
  step s
    | .call owner call => task_call host_dev_ctx_ptr s owner call
    | .actor a priority => (actor_step s.host a priority).map fun host => { s with host }
    | .rpc k => rpc_step s k
    | .remote k t => remote_step host_dev_ctx_ptr s k t
    | .thread received => (spi_xfer_thread s.host received).map fun host => { s with host }

/-- A client's buffer has no more bytes than a parameter's length can tell; a tile has 512 KiB. -/
def Short : Owner ι κ τ → Call δ Nat → Prop
  | .client _ _, .transfer _ _ _ len => len < 2 ^ 24
  | _, _ => True

/-- Each task issues transactions one after another. -/
def OneByOne (s : System ι κ τ δ) : SystemAct ι κ τ δ → Prop
  | .call owner call => s.begun owner = !call.starts ∧ Short owner call
  | _ => True

instance : (owner : Owner ι κ τ) → (call : Call δ Nat) → Decidable (Short owner call)
  | .client _ _, .transfer _ _ _ len => inferInstanceAs (Decidable (len < 2 ^ 24))
  | .client _ _, .transaction_start _ | .client _ _, .delay_before_next_transfer _ _ | .client _ _, .transaction_end _ =>
    isTrue trivial
  | .host _, _ => isTrue trivial

instance (s : System ι κ τ δ) : (a : SystemAct ι κ τ δ) → Decidable (OneByOne s a)
  | .call _ _ => inferInstanceAs (Decidable (_ ∧ _))
  | .actor _ _ | .rpc _ | .remote _ _ | .thread _ => isTrue trivial

end
end RtosMaster
end Spi
