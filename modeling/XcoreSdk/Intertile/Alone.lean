import XcoreSdk.Intertile.Frame
import XcoreSdk.FreeRtos.Osal
import Mathlib.Data.List.Basic
/-!
# A link that nobody else uses

The functions of one end of the link as the task that calls them sees them when
no other task sends or receives: each runs from its beginning to its end, on
the end's fields and on the bytes that are on their way to it. `none` is a
failed assertion, or a wait that does not end.
-/

namespace Intertile
namespace Alone
open FreeRtos

/-- The fields of `rtos_intertile_t`, with the bytes on their way to the other end. -/
structure End where
  /-- The lock, and whether it is held. -/
  lock : Option Unit
  tx_len : Nat
  rx_len : Nat
  sent : List UInt8
deriving DecidableEq

/-- Nothing is being sent or received. -/
def End.idle : End := ⟨none, 0, 0, []⟩

def rtos_intertile_tx_len (ctx : End) (port : UInt8) (len : Nat) : Option End :=
  (rtos_osal_mutex_get ctx.lock ()).bind fun lock =>
    if ctx.tx_len = 0 then some { ctx with lock, tx_len := len, sent := ctx.sent ++ header port len } else none

def rtos_intertile_tx_data (ctx : End) (data : List UInt8) : End :=
  let tx_len := if data.length ≤ ctx.tx_len then data.length else ctx.tx_len
  let ctx := { ctx with sent := ctx.sent ++ data.take tx_len, tx_len := ctx.tx_len - tx_len }
  if ctx.tx_len = 0 then { ctx with lock := (rtos_osal_mutex_put ctx.lock).2 } else ctx

def rtos_intertile_tx (ctx : End) (port : UInt8) (msg : List UInt8) : Option End :=
  (rtos_osal_mutex_get ctx.lock ()).map fun lock =>
    { ctx with lock := (rtos_osal_mutex_put lock).2, sent := ctx.sent ++ header port msg.length ++ msg }

/-- `rtos_osal_event_group_get_bits` for the port, whose byte the interrupt
routine has taken off the channel, and `s_chan_in_word`. -/
def in_len (chan : List UInt8) (port : UInt8) : Option (Nat × List UInt8) :=
  match chan with
  | [] => none
  | p :: chan => if p = port ∧ 4 ≤ chan.length then some (Bytes.ofBE (chan.take 4), chan.drop 4) else none

/-- `s_chan_in_buf_byte`. -/
def in_buf (chan : List UInt8) (len : Nat) : Option (List UInt8 × List UInt8) :=
  if len ≤ chan.length then some (chan.take len, chan.drop len) else none

def rtos_intertile_rx_len (ctx : End) (chan : List UInt8) (port : UInt8) : Option (Nat × End × List UInt8) :=
  if ctx.rx_len = 0 then (in_len chan port).map fun (len, chan) => (len, { ctx with rx_len := len }, chan) else none

def rtos_intertile_rx_data (ctx : End) (chan : List UInt8) (len : Nat) : Option (List UInt8 × End × List UInt8) :=
  let rx_len := if len ≤ ctx.rx_len then len else ctx.rx_len
  (in_buf chan rx_len).map fun (data, chan) => (data, { ctx with rx_len := ctx.rx_len - rx_len }, chan)

def rtos_intertile_rx (chan : List UInt8) (port : UInt8) : Option (List UInt8 × List UInt8) :=
  (in_len chan port).bind fun (len, chan) => in_buf chan len

/-! ## Whole messages -/

variable {ctx : End} {port : UInt8} {rest : List UInt8}

/-- `rtos_intertile_tx_data` for each part. -/
def tx_parts (ctx : End) (ps : List (List UInt8)) : End := ps.foldl rtos_intertile_tx_data ctx

theorem tx_data_part {data : List UInt8} {n : Nat} (h : ctx.tx_len = data.length + n) :
    rtos_intertile_tx_data ctx data =
      { ctx with sent := ctx.sent ++ data, tx_len := n, lock := if n = 0 then none else ctx.lock } := by
  have hle : data.length ≤ ctx.tx_len := by omega
  have hsub : ctx.tx_len - data.length = n := by omega
  simp only [rtos_intertile_tx_data, if_pos hle, hsub, List.take_length, rtos_osal_mutex_put]
  split <;> rfl

/-- Sending a message in parts puts its bytes on the channel and the lock back,
also when a part is empty. -/
theorem tx_parts_sent (ps : List (List UInt8)) (h : ctx.tx_len = ps.flatten.length) (hne : ps ≠ []) :
    tx_parts ctx ps = { ctx with sent := ctx.sent ++ ps.flatten, tx_len := 0, lock := none } := by
  induction ps generalizing ctx with
  | nil => exact absurd rfl hne
  | cons data ps ih =>
    rw [List.flatten_cons, List.length_append] at h
    rw [tx_parts, List.foldl_cons, tx_data_part h, ← tx_parts]
    cases ps with
    | nil => simp [tx_parts]
    | cons data' ps => rw [ih rfl (List.cons_ne_nil _ _)]; simp

theorem tx_len_parts (ctx : End) (port : UInt8) (ps : List (List UInt8)) (hlock : ctx.lock = none) (hlen : ctx.tx_len = 0) (hne : ps ≠ []) :
    (rtos_intertile_tx_len ctx port ps.flatten.length).map (tx_parts · ps) =
      some { ctx with sent := ctx.sent ++ (header port ps.flatten.length ++ ps.flatten) } := by
  simp only [rtos_intertile_tx_len, rtos_osal_mutex_get, hlock, Option.bind_some, hlen, if_true, Option.map_some]
  rw [tx_parts_sent ps rfl hne]
  simp

theorem tx_sent (ctx : End) (port : UInt8) (msg : List UInt8) (hlock : ctx.lock = none) :
    rtos_intertile_tx ctx port msg = some { ctx with sent := ctx.sent ++ (header port msg.length ++ msg) } := by
  simp [rtos_intertile_tx, rtos_osal_mutex_get, rtos_osal_mutex_put, hlock]

theorem in_len_header {len : Nat} (h : len < 2 ^ 32) : in_len (header port len ++ rest) port = some (len, rest) := by
  have htake : (word len ++ rest).take 4 = word len := List.take_left' (length_word len)
  have hdrop : (word len ++ rest).drop 4 = rest := List.drop_left' (length_word len)
  have hlen : 4 ≤ (word len ++ rest).length := by rw [List.length_append, length_word]; omega
  simp only [header, List.cons_append, in_len, true_and, if_pos hlen, htake, hdrop, ofBE_word h]

theorem in_buf_append (data : List UInt8) : in_buf (data ++ rest) data.length = some (data, rest) := by
  simp [in_buf]

theorem rx_frame (port : UInt8) (msg rest : List UInt8) (h : msg.length < 2 ^ 32) :
    rtos_intertile_rx (header port msg.length ++ msg ++ rest) port = some (msg, rest) := by
  rw [List.append_assoc, rtos_intertile_rx, in_len_header h, Option.bind_some]
  exact in_buf_append msg

theorem rx_len_frame (ctx : End) (port : UInt8) (rest : List UInt8) {len : Nat} (hrx : ctx.rx_len = 0) (h : len < 2 ^ 32) :
    rtos_intertile_rx_len ctx (header port len ++ rest) port = some (len, { ctx with rx_len := len }, rest) := by
  simp [rtos_intertile_rx_len, hrx, in_len_header h]

theorem rx_data_part (ctx : End) (data rest : List UInt8) (n : Nat) (h : ctx.rx_len = data.length + n) :
    rtos_intertile_rx_data ctx (data ++ rest) data.length = some (data, { ctx with rx_len := n }, rest) := by
  have hle : data.length ≤ ctx.rx_len := by omega
  have hsub : ctx.rx_len - data.length = n := by omega
  simp only [rtos_intertile_rx_data, if_pos hle, in_buf_append, Option.map_some, hsub]

end Alone
end Intertile
