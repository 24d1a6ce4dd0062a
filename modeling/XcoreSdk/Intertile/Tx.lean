import XcoreSdk.Intertile.Frame
import XcoreSdk.FreeRtos.Osal
import XcoreSdk.Lib.Machine
/-!
# Sending over the intertile channel

The tasks of one tile send whole messages with `rtos_intertile_tx`, or in parts
with `rtos_intertile_tx_len` and then `rtos_intertile_tx_data` once for each
part. A task runs its functions one atomic operation at a time, in between
the operations of the others; every byte is an operation of its own.
-/

namespace Intertile
open FreeRtos

/-- A message as a task sends it: in one call, or announced with its length
and then sent in parts. -/
inductive Msg
  | tx (p : Packet)
  | parts (port : UInt8) (ps : List (List UInt8)) (ne : ps ≠ []) (fits : ps.flatten.length < 2 ^ 32)

def Msg.packet : Msg → Packet
  | .tx p => p
  | .parts port ps _ fits => ⟨port, ps.flatten, fits⟩

/-- The atomic operations of the sending functions. -/
inductive Op
  | get
  /-- `xassert(ctx->tx_len == 0); ctx->tx_len = len`. -/
  | set_len (len : Nat)
  | out (b : UInt8)
  /-- A call of `rtos_intertile_tx_data`. -/
  | data (part : List UInt8)
  /-- `ctx->tx_len -= tx_len`. -/
  | sub (tx_len : Nat)
  /-- `if (ctx->tx_len == 0) rtos_osal_mutex_put(&ctx->lock)`. -/
  | put_if_done
  | put
deriving DecidableEq

def rtos_intertile_tx (port : UInt8) (msg : List UInt8) : List Op :=
  Op.get :: (header port msg.length ++ msg).map Op.out ++ [Op.put]

def rtos_intertile_tx_len (port : UInt8) (len : Nat) : List Op :=
  .get :: .set_len len :: (header port len).map Op.out

def rtos_intertile_tx_data (tx_len : Nat) (data : List UInt8) : List Op :=
  let n := if data.length ≤ tx_len then data.length else tx_len
  (data.take n).map Op.out ++ [Op.sub n, Op.put_if_done]

def Msg.ops : Msg → List Op
  | .tx p => rtos_intertile_tx p.port p.payload
  | .parts port ps _ _ => rtos_intertile_tx_len port ps.flatten.length ++ ps.map Op.data

variable {ι : Type*} [DecidableEq ι]

structure Sender (ι : Type*) where
  lock : Option ι
  tx_len : Nat
  /-- What is on the channel. -/
  chan : List UInt8
  /-- What each task has still to do. -/
  code : ι → List Op
  /-- Each time the lock was released: the task that did, and the one that held it. -/
  releases : List (ι × ι)
  /-- An `xassert` has failed. -/
  failed : Bool

def Sender.goto (s : Sender ι) (i : ι) (k : List Op) : Sender ι := { s with code := Function.update s.code i k }

/-- `rtos_osal_mutex_put(&ctx->lock)` by task `i`. -/
def Sender.unlock (s : Sender ι) (i : ι) : Sender ι :=
  { s with
    lock := (rtos_osal_mutex_put s.lock).2
    releases := s.releases ++ (s.lock.map fun holder => (i, holder)).toList }

/-- One operation of task `i`, with the operations `k` behind it. -/
def Sender.run (s : Sender ι) (i : ι) (k : List Op) : Op → Option (Sender ι)
  | .get => (rtos_osal_mutex_get s.lock i).map fun lock => { s.goto i k with lock := lock }
  | .set_len len => some { s.goto i k with tx_len := len, failed := s.failed || s.tx_len ≠ 0 }
  | .out b => some { s.goto i k with chan := s.chan ++ [b] }
  | .data part => some (s.goto i (rtos_intertile_tx_data s.tx_len part ++ k))
  | .sub n => some { s.goto i k with tx_len := (s.tx_len + 2 ^ 32 - n) % 2 ^ 32 }
  | .put_if_done => some (if s.tx_len = 0 then (s.goto i k).unlock i else s.goto i k)
  | .put => some ((s.goto i k).unlock i)

/-- The sending half of a tile's link, each task with the messages it is to send. -/
def sender (progs : ι → List Msg) : Machine (Sender ι) ι where
  init s := s = ⟨none, 0, [], fun i => (progs i).flatMap Msg.ops, [], false⟩
  step s i :=
    match s.code i with
    | [] => none
    | op :: k => s.run i k op

end Intertile
