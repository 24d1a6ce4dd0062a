import XcoreSdk.DeviceControl.Transfer
import XcoreSdk.Intertile.Alone
/-!
# Two ways to a servicer

`do_command` hands a command to a servicer of its own tile by pointer, and
sends it to a servicer of another tile as bytes. Here one command is followed
through the functions of all threads on its way, in the order in which each
waits for the one before it; nobody else uses the queues and the link. A lost
message, a failed assertion and a wait that does not end are `none`.
-/

namespace DeviceControl
namespace Paths
open FreeRtos Intertile Intertile.Alone
variable {S L σ : Type*}

abbrev Pointer := BitVec 32

/-- `cmd_to_servicer_t`, up to its flexible array member. -/
structure cmd_to_servicer_t where
  dev_ctrl_ctx : Pointer
  queue : Pointer
  payload_len : Nat
  resid : UInt8
  cmd : UInt8
  payload : Pointer
deriving DecidableEq

/-- The structure in memory: little-endian words, and two bytes of padding. -/
def cmd_to_servicer_t.bytes (c : cmd_to_servicer_t) : List UInt8 :=
  Bytes.toLE 4 c.dev_ctrl_ctx.toNat ++ Bytes.toLE 4 c.queue.toNat ++ Bytes.toLE 4 c.payload_len ++
    [c.resid, c.cmd, 0, 0] ++ Bytes.toLE 4 c.payload.toNat

/-- `(cmd_to_servicer_t *) msg`, when the message is large enough. -/
def cmd_to_servicer_t.ofBytes (msg : List UInt8) : Option cmd_to_servicer_t :=
  if cmd_size ≤ msg.length then
    some ⟨.ofNat 32 (Bytes.ofLE (msg.take 4)), .ofNat 32 (Bytes.ofLE ((msg.drop 4).take 4)),
      Bytes.ofLE ((msg.drop 8).take 4), msg.getD 12 0, msg.getD 13 0, .ofNat 32 (Bytes.ofLE ((msg.drop 16).take 4))⟩
  else none

/-- A `control_ret_t` in memory. -/
def ret_bytes (ret : control_ret_t) : List UInt8 := Bytes.toLE ret_size ret.status.toNat

def ret_ofBytes (bytes : List UInt8) : Option control_ret_t :=
  [.CONTROL_SUCCESS, .CONTROL_REGISTRATION_FAILED, .CONTROL_BAD_COMMAND, .CONTROL_DATA_LENGTH_ERROR,
    .CONTROL_OTHER_TRANSPORT_ERROR, .CONTROL_ERROR][Bytes.ofLE bytes]?

/-- `read_cmd_cb` or `write_cmd_cb`, on the memory at the payload pointer: what
it returns, and what the memory holds afterwards. -/
def callback (cb : Callbacks σ) (app_data : σ) (c : cmd_to_servicer_t) (mem : List UInt8) : control_ret_t × List UInt8 :=
  if IS_CONTROL_CMD_READ c.cmd then
    let r := cb.read_cmd_cb c.resid c.cmd (mem.take c.payload_len) app_data
    (r.1, r.2.1 ++ mem.drop c.payload_len)
  else ((cb.write_cmd_cb c.resid c.cmd (mem.take c.payload_len) app_data).1, mem)

/-! ## On one tile -/

/-- `device_control_servicer_cmd_recv` on the host's tile: takes the command
from its queue, and answers on the gateway queue, which is asserted to have
room. -/
def servicer_cmd_recv_local (cb : Callbacks σ) (app_data : σ) (queue : List cmd_to_servicer_t)
    (gateway_queue : List control_ret_t) (payload : List UInt8) : Option (List control_ret_t × List UInt8) :=
  (rtos_osal_queue_receive queue).bind fun (c, _) =>
    let (ret, payload) := callback cb app_data c payload
    (rtos_osal_queue_send 1 gateway_queue ret).map fun gateway_queue => (gateway_queue, payload)

/-- The on-tile case of `do_command`. -/
def do_command_on_tile (cb : Callbacks σ) (app_data : σ) (c : cmd_to_servicer_t) (payload : List UInt8) :
    Option (control_ret_t × List UInt8) := do
  let queue ← rtos_osal_queue_send 1 [] c
  let (gateway_queue, payload) ← servicer_cmd_recv_local cb app_data queue [] payload
  let (ret, _) ← rtos_osal_queue_receive gateway_queue
  return (ret, payload)

/-! ## From tile to tile -/

/-- `device_control_client_thread`: what it puts into the servicer's queue, and
the memory at the payload pointer. `mem` is what it gets from the allocator. -/
def client_thread (ctx : Pointer) (msg mem : List UInt8) : Option (cmd_to_servicer_t × List UInt8) :=
  (cmd_to_servicer_t.ofBytes msg).bind fun c =>
    let c := { c with dev_ctrl_ctx := ctx }
    if IS_CONTROL_CMD_READ c.cmd then
      if msg.length = cmd_size ∧ 0 < c.payload_len ∧ mem.length = c.payload_len then some (c, mem) else none
    else if cmd_size ≤ msg.length ∧ c.payload_len = msg.length - cmd_size then some (c, msg.drop cmd_size)
    else none

/-- `device_control_servicer_cmd_recv` on a client's tile. -/
def servicer_cmd_recv_remote (cb : Callbacks σ) (app_data : σ) (ctx : End) (port : UInt8)
    (queue : List cmd_to_servicer_t) (mem : List UInt8) : Option End :=
  (rtos_osal_queue_receive queue).bind fun (c, _) =>
    let (ret, mem) := callback cb app_data c mem
    if IS_CONTROL_CMD_READ c.cmd then
      (rtos_intertile_tx_len ctx port ((ret_size + c.payload_len) % 2 ^ 32)).map fun ctx =>
        rtos_intertile_tx_data (rtos_intertile_tx_data ctx (ret_bytes ret)) (mem.take c.payload_len)
    else rtos_intertile_tx ctx port (ret_bytes ret)

/-- `do_command` sends the command. -/
def send_command (ctx : End) (port : UInt8) (c : cmd_to_servicer_t) (payload : List UInt8) : Option End :=
  let xfer_len := if IS_CONTROL_CMD_READ c.cmd then cmd_size else (cmd_size + c.payload_len) % 2 ^ 32
  (rtos_intertile_tx_len ctx port xfer_len).map fun ctx =>
    let ctx := rtos_intertile_tx_data ctx c.bytes
    if IS_CONTROL_CMD_READ c.cmd then ctx else rtos_intertile_tx_data ctx (payload.take c.payload_len)

/-- `do_command` takes the answer. -/
def receive_answer (ctx : End) (chan : List UInt8) (port : UInt8) (c : cmd_to_servicer_t) (payload : List UInt8) :
    Option (control_ret_t × List UInt8 × End × List UInt8) := do
  let (xfer_len, ctx, chan) ← rtos_intertile_rx_len ctx chan port
  if ret_size ≤ xfer_len then
    let (bytes, ctx, chan) ← rtos_intertile_rx_data ctx chan ret_size
    let ret ← ret_ofBytes bytes
    if IS_CONTROL_CMD_READ c.cmd then
      if c.payload_len = xfer_len - ret_size then
        let (data, ctx, chan) ← rtos_intertile_rx_data ctx chan c.payload_len
        return (ret, data ++ payload.drop c.payload_len, ctx, chan)
      else none
    else if xfer_len = ret_size then return (ret, payload, ctx, chan) else none
  else return (.CONTROL_ERROR, payload, ctx, chan)

/-- The off-tile case of `do_command`, with the two ends of the link. What the
client thread and the servicer do in between stands where it happens. -/
def do_command_off_tile (cb : Callbacks σ) (app_data : σ) (client_ctx : Pointer) (port : UInt8) (host client : End)
    (c : cmd_to_servicer_t) (payload mem : List UInt8) : Option ((control_ret_t × List UInt8) × End × End) := do
  let host ← send_command host port c payload
  -- the other tile
  let (msg, chan) ← rtos_intertile_rx host.sent port
  let (command, mem) ← client_thread client_ctx msg mem
  let queue ← rtos_osal_queue_send 1 [] command
  let client ← servicer_cmd_recv_remote cb app_data client port queue mem
  -- and back
  let (ret, payload, host, answer) ← receive_answer host client.sent port c payload
  return ((ret, payload), { host with sent := chan }, { client with sent := answer })

/-- Where a servicer is. -/
inductive Tile
  | on
  | off (client_ctx : Pointer) (port : UInt8)

/-- `do_command` with an idle link, and what is then left on the link. -/
def do_command (cb : Callbacks σ) (app_data : σ) (ctx : device_control_t S L) (tile : Tile) (c : cmd_to_servicer_t)
    (payload mem : List UInt8) : Option ((control_ret_t × List UInt8) × End × End) :=
  if c.resid = CONTROL_SPECIAL_RESID then
    if IS_CONTROL_CMD_READ c.cmd then some (special_read_command ctx c.cmd payload c.payload_len, .idle, .idle)
    else some ((.CONTROL_BAD_COMMAND, payload), .idle, .idle)
  else
    match tile with
    | .on => (do_command_on_tile cb app_data c payload).map fun r => (r, .idle, .idle)
    | .off client_ctx port => do_command_off_tile cb app_data client_ctx port .idle .idle c payload mem

/-! ## What goes over the link -/

variable {cb : Callbacks σ} {app_data : σ} {ctx : device_control_t S L} {client_ctx : Pointer} {port : UInt8}
variable {c : cmd_to_servicer_t} {payload mem : List UInt8}

@[simp] theorem length_bytes : c.bytes.length = cmd_size := by simp [cmd_to_servicer_t.bytes, cmd_size]

/-- The structure arrives as it was sent. -/
theorem ofBytes_bytes (data : List UInt8) (h : c.payload_len < 2 ^ 32) :
    cmd_to_servicer_t.ofBytes (c.bytes ++ data) = some c := by
  have hword : ∀ p : Pointer, BitVec.ofNat 32 (Bytes.ofLE (Bytes.toLE 4 p.toNat)) = p := fun p => by
    rw [Bytes.ofLE_toLE (n := 4) p.isLt, BitVec.ofNat_toNat, BitVec.setWidth_eq]
  have hlen : Bytes.ofLE (Bytes.toLE 4 c.payload_len) = c.payload_len := Bytes.ofLE_toLE (n := 4) h
  have hle : cmd_size ≤ (c.bytes ++ data).length := by rw [List.length_append, length_bytes]; omega
  have h1 : (c.bytes ++ data).take 4 = Bytes.toLE 4 c.dev_ctrl_ctx.toNat := rfl
  have h2 : ((c.bytes ++ data).drop 4).take 4 = Bytes.toLE 4 c.queue.toNat := rfl
  have h3 : ((c.bytes ++ data).drop 8).take 4 = Bytes.toLE 4 c.payload_len := rfl
  have h4 : (c.bytes ++ data).getD 12 0 = c.resid := rfl
  have h5 : (c.bytes ++ data).getD 13 0 = c.cmd := rfl
  have h6 : ((c.bytes ++ data).drop 16).take 4 = Bytes.toLE 4 c.payload.toNat := rfl
  rw [cmd_to_servicer_t.ofBytes, if_pos hle, h1, h2, h3, h4, h5, h6, hword, hword, hword, hlen]

@[simp] theorem length_ret_bytes (ret : control_ret_t) : (ret_bytes ret).length = ret_size := by simp [ret_bytes]

theorem ret_ofBytes_bytes (ret : control_ret_t) : ret_ofBytes (ret_bytes ret) = some ret := by
  cases ret <;> decide

/-- What `do_command` sends. -/
def request_data (c : cmd_to_servicer_t) (payload : List UInt8) : List UInt8 :=
  if IS_CONTROL_CMD_READ c.cmd then [] else payload.take c.payload_len

theorem send_command_sent (port : UInt8) (hlen : c.payload_len ≤ payload.length) (hfits : cmd_size + payload.length < 2 ^ 32) :
    send_command .idle port c payload =
      some { End.idle with sent := header port (c.bytes ++ request_data c payload).length ++ (c.bytes ++ request_data c payload) } := by
  by_cases hr : IS_CONTROL_CMD_READ c.cmd
  · have hparts := tx_len_parts .idle port [c.bytes] rfl rfl (List.cons_ne_nil _ _)
    simpa [send_command, request_data, hr, tx_parts, End.idle] using hparts
  · have hmod : (cmd_size + c.payload_len) % 2 ^ 32 = cmd_size + c.payload_len := Nat.mod_eq_of_lt (by omega)
    have hparts := tx_len_parts .idle port [c.bytes, payload.take c.payload_len] rfl rfl
      (List.cons_ne_nil _ _)
    simp only [send_command, if_neg hr, hmod]
    simpa [request_data, hr, tx_parts, End.idle, Nat.min_eq_left hlen] using hparts

/-- What the servicer of another tile sends back. -/
def answer_data (c : cmd_to_servicer_t) (mem : List UInt8) : List UInt8 :=
  if IS_CONTROL_CMD_READ c.cmd then mem.take c.payload_len else []

theorem servicer_answer_sent (cb : Callbacks σ) (app_data : σ) (port : UInt8) (c : cmd_to_servicer_t) (mem : List UInt8)
    (hmem : c.payload_len ≤ (callback cb app_data c mem).2.length)
    (hfits : cmd_size + c.payload_len < 2 ^ 32) :
    servicer_cmd_recv_remote cb app_data .idle port [c] mem = some { End.idle with
      sent := header port (ret_bytes (callback cb app_data c mem).1 ++ answer_data c (callback cb app_data c mem).2).length ++
        (ret_bytes (callback cb app_data c mem).1 ++ answer_data c (callback cb app_data c mem).2) } := by
  generalize hcb : callback cb app_data c mem = r at hmem ⊢
  obtain ⟨ret, mem'⟩ := r
  simp only [servicer_cmd_recv_remote, rtos_osal_queue_receive, Option.bind_some, hcb] at hmem ⊢
  by_cases hr : IS_CONTROL_CMD_READ c.cmd
  · have hmod : (ret_size + c.payload_len) % 2 ^ 32 = ret_size + c.payload_len :=
      Nat.mod_eq_of_lt (by simp only [ret_size, cmd_size] at *; omega)
    have hparts := tx_len_parts .idle port [ret_bytes ret, mem'.take c.payload_len] rfl rfl
      (List.cons_ne_nil _ _)
    simp only [if_pos hr, hmod]
    simpa [answer_data, hr, tx_parts, End.idle, Nat.min_eq_left hmem] using hparts
  · simpa [answer_data, hr, End.idle] using tx_sent .idle port (ret_bytes ret) rfl

variable {host : End}

theorem receive_answer_read {ret : control_ret_t} {data : List UInt8} (hrx : host.rx_len = 0)
    (hr : IS_CONTROL_CMD_READ c.cmd) (hdata : data.length = c.payload_len) (hfits : cmd_size + c.payload_len < 2 ^ 32) :
    receive_answer host (header port (ret_bytes ret ++ data).length ++ (ret_bytes ret ++ data)) port c payload =
      some (ret, data ++ payload.drop c.payload_len, host, []) := by
  obtain ⟨lock, tx_len, rx_len, sent⟩ := host
  cases hrx
  have hlen : (ret_bytes ret ++ data).length = ret_size + data.length := by simp
  have hfits' : ret_size + data.length < 2 ^ 32 := by simp only [ret_size, cmd_size] at *; omega
  have h1 := rx_len_frame ⟨lock, tx_len, 0, sent⟩ port (ret_bytes ret ++ data) rfl hfits'
  have h2 := rx_data_part ⟨lock, tx_len, ret_size + data.length, sent⟩ (ret_bytes ret) data data.length
    (by rw [length_ret_bytes])
  have h3 := rx_data_part ⟨lock, tx_len, data.length, sent⟩ data [] 0 rfl
  rw [length_ret_bytes] at h2
  rw [List.append_nil] at h3
  rw [hlen]
  simp [receive_answer, h1, h2, h3, ret_ofBytes_bytes, hr, ← hdata]

theorem receive_answer_write {ret : control_ret_t} (hrx : host.rx_len = 0) (hr : ¬ IS_CONTROL_CMD_READ c.cmd) :
    receive_answer host (header port (ret_bytes ret).length ++ ret_bytes ret) port c payload =
      some (ret, payload, host, []) := by
  obtain ⟨lock, tx_len, rx_len, sent⟩ := host
  cases hrx
  have h1 := rx_len_frame ⟨lock, tx_len, 0, sent⟩ port (ret_bytes ret) rfl
    (show ret_size < 2 ^ 32 by decide)
  have h2 := rx_data_part ⟨lock, tx_len, ret_size, sent⟩ (ret_bytes ret) [] 0 (by rw [length_ret_bytes]; rfl)
  rw [length_ret_bytes, List.append_nil] at h2
  rw [length_ret_bytes]
  simp [receive_answer, h1, h2, ret_ofBytes_bytes, hr]

/-! ## Agreement -/

/-- On one tile the callback works on the host's buffer, and that is all. -/
theorem on_tile : do_command_on_tile cb app_data c payload = some (callback cb app_data c payload) := by
  simp [do_command_on_tile, servicer_cmd_recv_local, rtos_osal_queue_send, rtos_osal_queue_receive]

/-- Each thread on the way takes what the one before it has left. -/
theorem off_tile_threads {sent host' client client' : End} {msg chan mem' answer data : List UInt8} {ret : control_ret_t}
    {command : cmd_to_servicer_t} (hsend : send_command host port c payload = some sent)
    (hrx : rtos_intertile_rx sent.sent port = some (msg, chan)) (hclient : client_thread client_ctx msg mem = some (command, mem'))
    (hservicer : servicer_cmd_recv_remote cb app_data client port [command] mem' = some client')
    (hback : receive_answer sent client'.sent port c payload = some (ret, data, host', answer)) :
    do_command_off_tile cb app_data client_ctx port host client c payload mem =
      some ((ret, data), { host' with sent := chan }, { client' with sent := answer }) := by
  simp only [do_command_off_tile, Option.bind_eq_bind, hsend, Option.bind_some, hrx, hclient, rtos_osal_queue_send,
    List.length_nil, zero_lt_one, if_true, List.nil_append, hservicer, hback, Option.pure_def]

/-- A write goes to the other tile whatever its length. -/
theorem off_tile_write (hr : ¬ IS_CONTROL_CMD_READ c.cmd) (hlen : c.payload_len ≤ payload.length)
    (hfits : cmd_size + payload.length < 2 ^ 32) :
    do_command_off_tile cb app_data client_ctx port .idle .idle c payload mem =
      some (((cb.write_cmd_cb c.resid c.cmd (payload.take c.payload_len) app_data).1, payload), .idle, .idle) := by
  have hdata : request_data c payload = payload.take c.payload_len := by simp [request_data, hr]
  have hmsg : (c.bytes ++ payload.take c.payload_len).length = cmd_size + c.payload_len := by
    rw [List.length_append, length_bytes, List.length_take, Nat.min_eq_left hlen]
  have hsend := send_command_sent port hlen hfits
  have hframe : rtos_intertile_rx (header port (c.bytes ++ payload.take c.payload_len).length ++
      (c.bytes ++ payload.take c.payload_len)) port = some (c.bytes ++ payload.take c.payload_len, []) := by
    have h := rx_frame port (c.bytes ++ payload.take c.payload_len) [] (by omega)
    rwa [List.append_nil] at h
  have hclient : client_thread client_ctx (c.bytes ++ payload.take c.payload_len) mem =
      some ({ c with dev_ctrl_ctx := client_ctx }, payload.take c.payload_len) := by
    rw [client_thread, ofBytes_bytes _ (by omega), Option.bind_some, hmsg]
    simp [hr]
  have hcb : callback cb app_data { c with dev_ctrl_ctx := client_ctx } (payload.take c.payload_len) =
      ((cb.write_cmd_cb c.resid c.cmd (payload.take c.payload_len) app_data).1, payload.take c.payload_len) := by
    simp [callback, hr, List.take_take]
  have hanswer := servicer_answer_sent cb app_data port { c with dev_ctrl_ctx := client_ctx } (payload.take c.payload_len)
    (by rw [hcb]; simpa using hlen) (by dsimp only; omega)
  rw [hcb, answer_data, if_neg hr, List.append_nil] at hanswer
  rw [hdata] at hsend
  exact off_tile_threads hsend hframe hclient hanswer (receive_answer_write rfl hr)

/-- A read of at least one byte fills a buffer of the other tile. -/
theorem off_tile_read (hr : IS_CONTROL_CMD_READ c.cmd) (hpos : 0 < c.payload_len) (hmem : mem.length = c.payload_len)
    (hlen : c.payload_len ≤ payload.length) (hfits : cmd_size + payload.length < 2 ^ 32) :
    do_command_off_tile cb app_data client_ctx port .idle .idle c payload mem =
      some (((cb.read_cmd_cb c.resid c.cmd mem app_data).1,
        (cb.read_cmd_cb c.resid c.cmd mem app_data).2.1 ++ payload.drop c.payload_len), .idle, .idle) := by
  have hdata : request_data c payload = [] := by simp [request_data, hr]
  have hsend := send_command_sent port hlen hfits
  rw [hdata, List.append_nil] at hsend
  have hframe : rtos_intertile_rx (header port c.bytes.length ++ c.bytes) port = some (c.bytes, []) := by
    have h := rx_frame port c.bytes [] (by rw [length_bytes]; decide)
    rwa [List.append_nil] at h
  have hclient : client_thread client_ctx c.bytes mem = some ({ c with dev_ctrl_ctx := client_ctx }, mem) := by
    have h := ofBytes_bytes (c := c) [] (by omega)
    rw [List.append_nil] at h
    rw [client_thread, h, Option.bind_some, length_bytes]
    simp [hr, hpos, hmem]
  have hread := cb.read_length c.resid c.cmd mem app_data
  have hcb : callback cb app_data { c with dev_ctrl_ctx := client_ctx } mem =
      ((cb.read_cmd_cb c.resid c.cmd mem app_data).1, (cb.read_cmd_cb c.resid c.cmd mem app_data).2.1) := by
    simp [callback, hr, ← hmem]
  have hanswer := servicer_answer_sent cb app_data port { c with dev_ctrl_ctx := client_ctx } mem
    (by rw [hcb]; simp only; omega) (by simp only; omega)
  rw [hcb, answer_data, if_pos hr, List.take_of_length_le (by simp only; omega)] at hanswer
  exact off_tile_threads hsend hframe hclient hanswer (receive_answer_read rfl hr (hread.trans hmem) (by omega))

/-- The client thread asserts that a read asks for something. -/
theorem off_tile_read_nothing (hr : IS_CONTROL_CMD_READ c.cmd) (hzero : c.payload_len = 0)
    (hfits : cmd_size + payload.length < 2 ^ 32) :
    do_command_off_tile cb app_data client_ctx port .idle .idle c payload mem = none := by
  have hsend := send_command_sent port (hzero ▸ Nat.zero_le payload.length) hfits
  have hdata : request_data c payload = [] := by simp [request_data, hr]
  rw [hdata, List.append_nil] at hsend
  have hframe : rtos_intertile_rx (header port c.bytes.length ++ c.bytes) port = some (c.bytes, []) := by
    have h := rx_frame port c.bytes [] (by rw [length_bytes]; decide)
    rwa [List.append_nil] at h
  have hclient : client_thread client_ctx c.bytes mem = none := by
    have h := ofBytes_bytes (c := c) [] (by omega)
    rw [List.append_nil] at h
    simp [client_thread, h, hr, hzero]
  simp only [do_command_off_tile, Option.bind_eq_bind, hsend, Option.bind_some, hframe, hclient, Option.bind_none]

/-- The answer of a read does not depend on what the buffer held before. -/
def Fills (cb : Callbacks σ) (app_data : σ) (c : cmd_to_servicer_t) (payload : List UInt8) : Prop :=
  ∀ mem : List UInt8, mem.length = c.payload_len →
    (cb.read_cmd_cb c.resid c.cmd mem app_data).1 =
      (cb.read_cmd_cb c.resid c.cmd (payload.take c.payload_len) app_data).1 ∧
    (cb.read_cmd_cb c.resid c.cmd mem app_data).2.1 =
      (cb.read_cmd_cb c.resid c.cmd (payload.take c.payload_len) app_data).2.1

/-- The two paths do the same thing with a command, whatever the allocator gives
the client thread, and leave nothing behind. -/
def Agree (cb : Callbacks σ) (app_data : σ) (ctx : device_control_t S L) (client_ctx : Pointer) (port : UInt8)
    (c : cmd_to_servicer_t) (payload : List UInt8) : Prop :=
  ∃ answer, (∀ mem, do_command cb app_data ctx .on c payload mem = some (answer, .idle, .idle)) ∧
    ∀ mem : List UInt8, mem.length = c.payload_len →
      do_command cb app_data ctx (.off client_ctx port) c payload mem = some (answer, .idle, .idle)

theorem on_read (hspecial : c.resid ≠ CONTROL_SPECIAL_RESID) (hr : IS_CONTROL_CMD_READ c.cmd) :
    do_command cb app_data ctx .on c payload mem =
      some (((cb.read_cmd_cb c.resid c.cmd (payload.take c.payload_len) app_data).1,
        (cb.read_cmd_cb c.resid c.cmd (payload.take c.payload_len) app_data).2.1 ++ payload.drop c.payload_len),
        .idle, .idle) := by
  rw [do_command, if_neg hspecial, on_tile, callback, if_pos hr, Option.map_some]

theorem on_write (hspecial : c.resid ≠ CONTROL_SPECIAL_RESID) (hr : ¬ IS_CONTROL_CMD_READ c.cmd) :
    do_command cb app_data ctx .on c payload mem =
      some (((cb.write_cmd_cb c.resid c.cmd (payload.take c.payload_len) app_data).1, payload), .idle, .idle) := by
  rw [do_command, if_neg hspecial, on_tile, callback, if_neg hr, Option.map_some]

theorem paths_agree (cb : Callbacks σ) (app_data : σ) (ctx : device_control_t S L) (client_ctx : Pointer)
    (port : UInt8) (c : cmd_to_servicer_t) (payload : List UInt8) (hlen : c.payload_len ≤ payload.length)
    (hfits : cmd_size + payload.length < 2 ^ 32) :
    Agree cb app_data ctx client_ctx port c payload ↔
      (c.resid ≠ CONTROL_SPECIAL_RESID → IS_CONTROL_CMD_READ c.cmd → 0 < c.payload_len ∧ Fills cb app_data c payload) := by
  constructor
  · rintro ⟨answer, hon, hoff⟩ hspecial hr
    have hpos : 0 < c.payload_len := by
      by_contra hzero
      have hzero : c.payload_len = 0 := by omega
      have h := hoff [] hzero.symm
      rw [do_command, if_neg hspecial] at h
      simp only [off_tile_read_nothing hr hzero hfits, reduceCtorEq] at h
    refine ⟨hpos, fun mem hmem => ?_⟩
    have h := (hoff mem hmem).trans (hon mem).symm
    rw [on_read hspecial hr, do_command, if_neg hspecial] at h
    simp only [off_tile_read hr hpos hmem hlen hfits, Option.some.injEq, Prod.mk.injEq, and_true,
      List.append_cancel_right_eq] at h
    exact h
  · intro h
    by_cases hspecial : c.resid = CONTROL_SPECIAL_RESID
    · simp only [Agree, do_command, if_pos hspecial]
      split
      · exact ⟨_, fun _ => rfl, fun _ _ => rfl⟩
      · exact ⟨_, fun _ => rfl, fun _ _ => rfl⟩
    by_cases hr : IS_CONTROL_CMD_READ c.cmd
    · obtain ⟨hpos, hfills⟩ := h hspecial hr
      refine ⟨_, fun mem => on_read hspecial hr, fun mem hmem => ?_⟩
      rw [do_command, if_neg hspecial, ← (hfills mem hmem).1, ← (hfills mem hmem).2]
      exact off_tile_read hr hpos hmem hlen hfits
    · refine ⟨_, fun mem => on_write hspecial hr, fun mem hmem => ?_⟩
      rw [do_command, if_neg hspecial]
      exact off_tile_write hr hlen hfits

/-- A servicer that refuses every command and writes nothing. -/
def refusing : Callbacks Unit :=
  ⟨fun _ _ payload _ => (.CONTROL_BAD_COMMAND, payload, ()), fun _ _ _ _ => (.CONTROL_BAD_COMMAND, ()), fun _ _ _ _ => rfl⟩

/-- A servicer that answers every read with zeros. -/
def clearing : Callbacks Unit :=
  ⟨fun _ _ payload _ => (.CONTROL_SUCCESS, payload.map fun _ => 0, ()), fun _ _ _ _ => (.CONTROL_SUCCESS, ()),
    fun _ _ _ _ => List.length_map _⟩

/-- A read command of `payload_len` bytes for resource 1. -/
def read_command (payload_len : Nat) : cmd_to_servicer_t := ⟨0, 0, payload_len, 1, 0x80, 0⟩

theorem paths_agree_clearing : Agree clearing () (device_control_init 1 : device_control_t Unit Unit) 0 0
    (read_command 2) [1, 2, 3] :=
  (paths_agree clearing () (device_control_init 1) 0 0 (read_command 2) [1, 2, 3] (by decide) (by decide)).2
    fun _ _ => ⟨by decide, fun mem hmem => ⟨rfl, by
      obtain ⟨a, b, rfl⟩ := List.length_eq_two.1 hmem
      rfl⟩⟩

/-- A read of nothing stops the other tile, and a servicer that refuses a read
returns what was in the buffer. -/
theorem local_and_remote_differ :
    do_command clearing () (device_control_init 1 : device_control_t Unit Unit) .on (read_command 0) [] [] =
        some ((.CONTROL_SUCCESS, []), .idle, .idle) ∧
      do_command clearing () (device_control_init 1 : device_control_t Unit Unit) (.off 0 0) (read_command 0) [] [] = none ∧
      do_command refusing () (device_control_init 1 : device_control_t Unit Unit) .on (read_command 1) [7] [9] =
        some ((.CONTROL_BAD_COMMAND, [7]), .idle, .idle) ∧
      do_command refusing () (device_control_init 1 : device_control_t Unit Unit) (.off 0 0) (read_command 1) [7] [9] =
        some ((.CONTROL_BAD_COMMAND, [9]), .idle, .idle) := by
  decide +kernel

end Paths
end DeviceControl
