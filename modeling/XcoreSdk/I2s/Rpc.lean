import XcoreSdk.I2s.Calls
import XcoreSdk.I2s.Transfer
import XcoreSdk.Rpc.Transparency
/-!
# I2S over RPC

A client's `rtos_i2s_rx` and `rtos_i2s_tx` are calls of the host's. Client and
host each work out how long the sample buffer is: the client from the number of
input (or output) lines that it was told, in the 24 bits that a parameter's
length has, and the host, where it is to return samples, from its own.
-/

namespace I2s.Remote
open Rpc Bytes Calls

abbrev Word := BitVec 32

def fcode_rx : BitVec 32 := 0
def fcode_tx : BitVec 32 := 1

/-! ## The instances -/

/-- The host's instance, and where it is in its memory. -/
structure Host where
  address : Word
  num_in : Word
  num_out : Word
  recv : Side Word
  send : Side Word

/-- The client's instance. -/
structure Client where
  host_ctx_ptr : Word
  num_out : Word
  num_in : Word

/-- What the host sends to a client. -/
def rtos_i2s_rpc_host_init (i2s_ctx : Host) : List Word := [i2s_ctx.address, i2s_ctx.num_out, i2s_ctx.num_in]

def rtos_i2s_rpc_client_init : List Word → Option Client
  | [host_ctx_ptr, num_out, num_in] => some ⟨host_ctx_ptr, num_out, num_in⟩
  | _ => none

/-! ## The client -/

/-- `sizeof(int32_t)` times the number of words, as a parameter's length. -/
def buf_length (num frame_count : Word) : BitVec 24 := BitVec.ofNat 24 (4 * frame_words num.toNat frame_count.toNat)

def rx_desc (ctx : Client) (frame_count : Word) : List rpc_param_desc_t :=
  [RPC_PARAM_TYPE 4, RPC_PARAM_OUT_BUFFER (buf_length ctx.num_in frame_count), RPC_PARAM_TYPE 4, RPC_PARAM_TYPE 4,
    RPC_PARAM_RETURN 4, RPC_PARAM_LIST_END]

def tx_desc (ctx : Client) (frame_count : Word) : List rpc_param_desc_t :=
  [RPC_PARAM_TYPE 4, RPC_PARAM_IN_BUFFER (buf_length ctx.num_out frame_count), RPC_PARAM_TYPE 4, RPC_PARAM_TYPE 4,
    RPC_PARAM_RETURN 4, RPC_PARAM_LIST_END]

/-- The memory of the arguments; `ret` has not been set. -/
def call_args (ctx : Client) (i2s_sample_buf : List UInt8) (frame_count timeout ret : Word) : List (List UInt8) :=
  [toLE 4 ctx.host_ctx_ptr.toNat, i2s_sample_buf, toLE 4 frame_count.toNat, toLE 4 timeout.toNat, toLE 4 ret.toNat]

/-- What is returned, and the sample buffer's memory. -/
def i2s_remote_rx (host : List UInt8 → Option (List UInt8)) (ctx : Client) (i2s_sample_buf : List UInt8)
    (frame_count timeout ret : Word) : Option (Nat × List UInt8) :=
  match rpc_client_call_generic host fcode_rx (rx_desc ctx frame_count) (call_args ctx i2s_sample_buf frame_count timeout ret) with
  | some [_, i2s_sample_buf, _, _, ret] => some (ofLE ret, i2s_sample_buf)
  | _ => none

def i2s_remote_tx (host : List UInt8 → Option (List UInt8)) (ctx : Client) (i2s_sample_buf : List UInt8)
    (frame_count timeout ret : Word) : Option Nat :=
  match rpc_client_call_generic host fcode_tx (tx_desc ctx frame_count) (call_args ctx i2s_sample_buf frame_count timeout ret) with
  | some [_, _, _, _, ret] => some (ofLE ret)
  | _ => none

/-! ## The host -/

/-- Samples in memory. -/
def words_bytes (ws : List Word) : List UInt8 := ws.flatMap fun x => toLE 4 x.toNat

/-- The sample at an index from a pointer on. -/
def word_at (mem : List UInt8) (k : Nat) : Word := BitVec.ofNat 32 (ofLE ((mem.drop (4 * k)).take 4))

/-- The response, how many samples the host read from the request, and its instance. -/
structure Answer where
  resp_msg : List UInt8
  samples_read : Nat
  host : Host

/-- What the environment does in the two calls, and what the heap has. -/
structure Env where
  rx_wait : Nat → Wait (Side.read_index (w := Word))
  tx_wait : Nat → Wait (Side.write_index (w := Word))
  heap : Nat → UInt8

/-- An access outside of the allocated buffer, or through another pointer than that of the instance, has no result. -/
def i2s_rx_rpc_host (env : Env) (host : Host) (rpc_msg : rpc_msg_t) : Option Answer := do
  let (args, _) ← rpc_request_unmarshall rpc_msg
  match args with
  | [.value i2s_ctx, _, .value frame_count, .value timeout, _] =>
    if BitVec.ofNat 32 (ofLE i2s_ctx) = host.address then do
      let i2s_sample_buf := (List.range (ofLE frame_count * (2 * host.num_out.toNat) * 4 % 2 ^ 32)).map env.heap
      let (ret, sample_buf, recv) := Calls.i2s_local_rx env.rx_wait host.num_in.toNat host.recv (ofLE frame_count) (ofLE timeout)
      let i2s_sample_buf ← memcpy_into i2s_sample_buf (words_bytes sample_buf) (words_bytes sample_buf).length
      let (_, resp_msg) ← rpc_response_marshall rpc_msg
        [.value (ofLE i2s_ctx), .ptr i2s_sample_buf, .value (ofLE frame_count), .value (ofLE timeout), .value ret]
      some ⟨resp_msg, 0, { host with recv }⟩
    else none
  | _ => none

/-- The memory that the sample buffer's pointer points at. -/
def pointee : Arg → List UInt8
  | .ptr params_ptr => params_ptr
  | _ => []

def i2s_tx_rpc_host (env : Env) (host : Host) (rpc_msg : rpc_msg_t) : Option Answer := do
  let (args, _) ← rpc_request_unmarshall rpc_msg
  match args with
  | [.value i2s_ctx, i2s_sample_buf, .value frame_count, .value timeout, _] =>
    if BitVec.ofNat 32 (ofLE i2s_ctx) = host.address then do
      let (ret, samples_read, send) := Calls.i2s_local_tx env.tx_wait host.num_out.toNat host.send
        (word_at (pointee i2s_sample_buf)) (ofLE frame_count) (ofLE timeout)
      let (_, resp_msg) ← rpc_response_marshall rpc_msg
        [.value (ofLE i2s_ctx), .ptr (pointee i2s_sample_buf), .value (ofLE frame_count), .value (ofLE timeout), .value ret]
      some ⟨resp_msg, samples_read, { host with send }⟩
    else none
  | _ => none

/-- What the thread does with a request. -/
def i2s_rpc_thread (env : Env) (host : Host) (req_msg : List UInt8) : Option Answer := do
  let rpc_msg ← rpc_request_parse req_msg
  if rpc_msg.fcode = fcode_rx then i2s_rx_rpc_host env host rpc_msg
  else if rpc_msg.fcode = fcode_tx then i2s_tx_rpc_host env host rpc_msg
  else none

/-! ## What is promised -/

section Promised
variable (env : Env) (host : Host) (ctx : Client) (frame_count timeout : Word)

/-- A call from the client returns what the host's own call returns, with the same samples in the sample buffer, and
leaves the host's instance as that does. The caller's buffer has room for them. -/
def SameRx : Prop :=
  ∀ (i2s_sample_buf : List UInt8) (ret : Word), 4 * frame_words host.num_in.toNat frame_count.toNat ≤ i2s_sample_buf.length →
    let (count, samples, recv) := Calls.i2s_local_rx env.rx_wait host.num_in.toNat host.recv frame_count.toNat timeout.toNat
    ∃ (req_msg : List UInt8) (answer : Answer) (out : List UInt8),
      rpc_request_marshall fcode_rx (rx_desc ctx frame_count) (call_args ctx i2s_sample_buf frame_count timeout ret) =
        some (req_msg.length, req_msg) ∧
      i2s_rpc_thread env host req_msg = some answer ∧ answer.host = { host with recv } ∧
      i2s_remote_rx (fun m => (i2s_rpc_thread env host m).map Answer.resp_msg) ctx i2s_sample_buf frame_count timeout ret =
        some (count, out) ∧
      out.take (words_bytes samples).length = words_bytes samples

/-- The same for transmitting: the host's own call is with the caller's samples. And the host reads no more samples than
the message has. -/
def SameTx : Prop :=
  ∀ (i2s_sample_buf : List UInt8) (ret : Word), 4 * frame_words host.num_out.toNat frame_count.toNat ≤ i2s_sample_buf.length →
    let (count, _, send) := Calls.i2s_local_tx env.tx_wait host.num_out.toNat host.send (word_at i2s_sample_buf)
      frame_count.toNat timeout.toNat
    ∃ (req_msg : List UInt8) (answer : Answer),
      rpc_request_marshall fcode_tx (tx_desc ctx frame_count) (call_args ctx i2s_sample_buf frame_count timeout ret) =
        some (req_msg.length, req_msg) ∧
      i2s_rpc_thread env host req_msg = some answer ∧ answer.host = { host with send } ∧
      4 * answer.samples_read ≤ (buf_length ctx.num_out frame_count).toNat ∧
      i2s_remote_tx (fun m => (i2s_rpc_thread env host m).map Answer.resp_msg) ctx i2s_sample_buf frame_count timeout ret =
        some count

/-- What the client takes the samples to need is no more than the host allocates, and where samples come, their bytes
can be told in 24 bits. -/
def RxFits : Prop :=
  4 * frame_words host.num_in.toNat frame_count.toNat % 2 ^ 24 ≤ frame_count.toNat * (2 * host.num_out.toNat) * 4 % 2 ^ 32 ∧
    (Served (env.rx_wait timeout.toNat) Side.words_available (frame_words host.num_in.toNat frame_count.toNat) host.recv →
      4 * frame_words host.num_in.toNat frame_count.toNat < 2 ^ 24)

/-- Where samples go, likewise. -/
def TxFits : Prop :=
  Served (env.tx_wait timeout.toNat) Side.words_free (frame_words host.num_out.toNat frame_count.toNat) host.send →
    4 * frame_words host.num_out.toNat frame_count.toNat < 2 ^ 24

end Promised

/-! ## Words and bytes -/

theorem toLE_word (x : Word) : BitVec.ofNat 32 (ofLE (toLE 4 x.toNat)) = x := ofNat_ofLE_toLE x

theorem ofLE_word (x : Word) : ofLE (toLE 4 x.toNat) = x.toNat := ofLE_toLE x.isLt

theorem length_words_bytes (ws : List Word) : (words_bytes ws).length = 4 * ws.length := by
  induction ws with
  | nil => rfl
  | cons x ws ih =>
    have hcons : words_bytes (x :: ws) = toLE 4 x.toNat ++ words_bytes ws := rfl
    rw [hcons, List.length_append, ih, length_toLE, List.length_cons]
    omega

/-- Memories with the same first bytes have the same first samples. -/
theorem word_at_take {mem mem' : List UInt8} {n k : Nat} (h : mem.take n = mem'.take n) (hk : 4 * k + 4 ≤ n) :
    word_at mem k = word_at mem' k := by
  have hpart : ∀ m : List UInt8, (m.drop (4 * k)).take 4 = ((m.take n).drop (4 * k)).take 4 := fun m => by
    rw [List.drop_take, List.take_take, Nat.min_eq_left (by omega)]
  rw [word_at, word_at, hpart, hpart mem', h]

/-! ## The parameters -/

section Params
variable {ctx : Client} {frame_count timeout ret fcode : Word} {d : rpc_param_desc_t} {i2s_sample_buf : List UInt8}

theorem type_made : Made (RPC_PARAM_TYPE 4) := .type (by decide)

theorem return_made : Made (RPC_PARAM_RETURN 4) := .ret (by decide)

/-- The parameters of a call, with the sample buffer's descriptor. -/
def params (ctx : Client) (frame_count timeout ret : Word) (made : Made d) (room : d.size ≤ i2s_sample_buf.length) : List Param :=
  [⟨RPC_PARAM_TYPE 4, toLE 4 ctx.host_ctx_ptr.toNat, type_made, by rw [length_toLE]; decide⟩,
    ⟨d, i2s_sample_buf, made, room⟩,
    ⟨RPC_PARAM_TYPE 4, toLE 4 frame_count.toNat, type_made, by rw [length_toLE]; decide⟩,
    ⟨RPC_PARAM_TYPE 4, toLE 4 timeout.toNat, type_made, by rw [length_toLE]; decide⟩,
    ⟨RPC_PARAM_RETURN 4, toLE 4 ret.toNat, return_made, by rw [length_toLE]; decide⟩]

theorem size_lt (d : rpc_param_desc_t) : d.size < 2 ^ 24 := d.length.isLt

theorem params_lengths (made : Made d) (room : d.size ≤ i2s_sample_buf.length) :
    request_length ((params ctx frame_count timeout ret made room).map Param.desc) ≤ INT_MAX ∧
      response_length ((params ctx frame_count timeout ret made room).map Param.desc) ≤ INT_MAX := by
  have hsize := size_lt d
  have h4 : (RPC_PARAM_TYPE 4).size = 4 := by decide
  have h4' : (RPC_PARAM_RETURN 4).size = 4 := by decide
  have hle : ∀ flag : Bool, (if flag then d.size else 0) ≤ d.size := fun flag => by split <;> omega
  constructor
  · have hin := hle d.input
    simp [request_length, params, RPC_PARAM_TYPE, RPC_PARAM_RETURN, rpc_param_desc_t.size, INT_MAX] at h4 h4' hsize hin ⊢
    omega
  · have hout := hle d.output
    simp [response_length, params, RPC_PARAM_TYPE, RPC_PARAM_RETURN, rpc_param_desc_t.size, INT_MAX] at h4 h4' hsize hout ⊢
    omega

variable (ctx frame_count timeout ret fcode) in
/-- The host gets the four values, and of the sample buffer what its descriptor says. -/
theorem request_received (made : Made d) (room : d.size ≤ i2s_sample_buf.length) : ∃ (req_msg sent : List UInt8) (arg : Arg),
    rpc_request_marshall fcode (call_desc (params ctx frame_count timeout ret made room) [])
      (call_args ctx i2s_sample_buf frame_count timeout ret) = some (req_msg.length, req_msg) ∧
    rpc_request_parse req_msg = some ⟨fcode, (params ctx frame_count timeout ret made room).map Param.desc, sent⟩ ∧
    rpc_request_unmarshall ⟨fcode, (params ctx frame_count timeout ret made room).map Param.desc, sent⟩ =
      some ([.value (toLE 4 ctx.host_ctx_ptr.toNat), arg, .value (toLE 4 frame_count.toNat), .value (toLE 4 timeout.toNat),
        .untouched], []) ∧
    Received ⟨d, i2s_sample_buf, made, room⟩ arg := by
  obtain ⟨req_msg, args, hmarshall, hparse, hunmarshall, hreceived⟩ :=
    request_round_trip fcode (params ctx frame_count timeout ret made room) [] (params_lengths made room).1
  have hvalue : ∀ (x : Word) (room : (RPC_PARAM_TYPE 4).size ≤ (toLE 4 x.toNat).length) (arg : Arg),
      Received ⟨RPC_PARAM_TYPE 4, toLE 4 x.toNat, type_made, room⟩ arg → arg = .value (toLE 4 x.toNat) := by
    intro x room arg h
    have hvalue : arg = .value ((toLE 4 x.toNat).take (RPC_PARAM_TYPE 4).size) := h
    rw [hvalue, List.take_of_length_le (by rw [length_toLE]; decide)]
  unfold params at hreceived
  rcases hreceived with _ | ⟨h1, _ | ⟨h2, _ | ⟨h3, _ | ⟨h4, _ | ⟨h5, _ | _⟩⟩⟩⟩⟩
  refine ⟨req_msg, _, _, hmarshall, hparse, ?_, h2⟩
  rw [hunmarshall, hvalue _ _ _ h1, hvalue _ _ _ h3, hvalue _ _ _ h4]
  rename_i a5
  have hret : a5 = .untouched := h5
  rw [hret]

/-- The values that the host passes on, and the sample buffer's memory. -/
def host_args (ctx : Client) (frame_count timeout : Word) (mem : List UInt8) (count : Nat) : List HostArg :=
  [.value ctx.host_ctx_ptr.toNat, .ptr mem, .value frame_count.toNat, .value timeout.toNat, .value count]

theorem host_args_fit (made : Made d) (room : d.size ≤ i2s_sample_buf.length) (hptr : d.ptr = true) (mem : List UInt8)
    (hmem : d.output = true → d.size ≤ mem.length) (count : Nat) : List.Forall₂ (fun p h => HostArg.Fits p h)
      (params ctx frame_count timeout ret made room) (host_args ctx frame_count timeout mem count) :=
  .cons Bool.false_ne_true (.cons ⟨hptr, hmem⟩ (.cons Bool.false_ne_true (.cons Bool.false_ne_true
    (.cons Bool.false_ne_true .nil))))

/-- What the client has after a call that the host answers with these values. -/
theorem call_answered (host : List UInt8 → Option (List UInt8)) {req_msg resp_msg sent mem : List UInt8} {n count : Nat}
    (made : Made d) (room : d.size ≤ i2s_sample_buf.length) (hptr : d.ptr = true)
    (hmem : d.output = true → d.size ≤ mem.length)
    (hreq : rpc_request_marshall fcode (call_desc (params ctx frame_count timeout ret made room) [])
      (call_args ctx i2s_sample_buf frame_count timeout ret) = some (req_msg.length, req_msg))
    (hhost : host req_msg = some resp_msg)
    (hresp : rpc_response_marshall ⟨fcode, (params ctx frame_count timeout ret made room).map Param.desc, sent⟩
      (host_args ctx frame_count timeout mem count) = some (n, resp_msg)) :
    rpc_client_call_generic host fcode (call_desc (params ctx frame_count timeout ret made room) [])
      (call_args ctx i2s_sample_buf frame_count timeout ret) =
      some [toLE 4 ctx.host_ctx_ptr.toNat,
        if d.output then mem.take d.size ++ i2s_sample_buf.drop d.size else i2s_sample_buf,
        toLE 4 frame_count.toNat, toLE 4 timeout.toNat, toLE 4 count] := by
  have hcall := client_call_answered fcode (params ctx frame_count timeout ret made room) [] hreq
    (params_lengths made room).2 (host_args_fit made room hptr mem hmem count) hhost hresp
  refine hcall.trans (congrArg some ?_)
  have hret : stored ⟨RPC_PARAM_RETURN 4, toLE 4 ret.toNat, return_made, by rw [length_toLE]; decide⟩ (.value count) =
      toLE 4 count := by
    have hsize : (RPC_PARAM_RETURN 4).size = 4 := by decide
    have hstored : stored ⟨RPC_PARAM_RETURN 4, toLE 4 ret.toNat, return_made, by rw [length_toLE]; decide⟩ (.value count) =
      toLE (RPC_PARAM_RETURN 4).size count ++ (toLE 4 ret.toNat).drop (RPC_PARAM_RETURN 4).size := rfl
    rw [hstored, hsize, List.drop_eq_nil_of_le (length_toLE 4 ret.toNat).le, List.append_nil]
  have hlist : List.zipWith stored (params ctx frame_count timeout ret made room) (host_args ctx frame_count timeout mem count) =
      [toLE 4 ctx.host_ctx_ptr.toNat, stored ⟨d, i2s_sample_buf, made, room⟩ (.ptr mem), toLE 4 frame_count.toNat,
        toLE 4 timeout.toNat,
        stored ⟨RPC_PARAM_RETURN 4, toLE 4 ret.toNat, return_made, by rw [length_toLE]; decide⟩ (.value count)] := rfl
  rw [hlist, hret]
  rfl

end Params

section Calls
variable {env : Env} {host : Host} {ctx : Client} {frame_count timeout : Word}

theorem client_of_host (h : rtos_i2s_rpc_client_init (rtos_i2s_rpc_host_init host) = some ctx) :
    ctx = ⟨host.address, host.num_out, host.num_in⟩ := (Option.some.inj h).symm

/-! ## Receiving -/

/-- The buffer that the host allocates. -/
def allocated (env : Env) (host : Host) (frame_count : Word) : List UInt8 :=
  (List.range (frame_count.toNat * (2 * host.num_out.toNat) * 4 % 2 ^ 32)).map env.heap

variable (env) in
theorem length_allocated : (allocated env host frame_count).length = frame_count.toNat * (2 * host.num_out.toNat) * 4 % 2 ^ 32 := by
  rw [allocated, List.length_map, List.length_range]

theorem rx_thread {req_msg sent : List UInt8} {descs : List rpc_param_desc_t} {a b : Arg} {count : Nat} {samples : List Word}
    {recv : Side Word} (hctx : ctx.host_ctx_ptr = host.address)
    (hparse : rpc_request_parse req_msg = some ⟨fcode_rx, descs, sent⟩)
    (hunmarshall : rpc_request_unmarshall ⟨fcode_rx, descs, sent⟩ =
      some ([.value (toLE 4 ctx.host_ctx_ptr.toNat), a, .value (toLE 4 frame_count.toNat), .value (toLE 4 timeout.toNat), b], []))
    (hcall : Calls.i2s_local_rx env.rx_wait host.num_in.toNat host.recv frame_count.toNat timeout.toNat = (count, samples, recv)) :
    i2s_rpc_thread env host req_msg =
      (memcpy_into (allocated env host frame_count) (words_bytes samples) (words_bytes samples).length).bind fun mem =>
        (rpc_response_marshall ⟨fcode_rx, descs, sent⟩ (host_args ctx frame_count timeout mem count)).map fun r =>
          ⟨r.2, 0, { host with recv }⟩ := by
  simp only [i2s_rpc_thread, hparse, Option.bind_eq_bind, Option.bind_some, if_true, i2s_rx_rpc_host, hunmarshall, hctx,
    ofLE_word, hcall, BitVec.ofNat_toNat, BitVec.setWidth_eq, allocated, host_args, Option.map_eq_bind, Function.comp_def]

/-- A sample buffer that is too short for the parameter cannot be copied. -/
theorem response_short {d : rpc_param_desc_t} {descs : List rpc_param_desc_t} {sent mem : List UInt8} {fcode : Word} {count : Nat}
    (hout : d.output = true) (hshort : mem.length < d.size) :
    rpc_response_marshall ⟨fcode, RPC_PARAM_TYPE 4 :: d :: descs, sent⟩ (host_args ctx frame_count timeout mem count) = none := by
  have hcopy : copy_param d.output mem d.size = none := by
    rw [copy_param, if_pos hout, memcpy, if_neg (by omega)]
  have hparams : response_params (RPC_PARAM_TYPE 4 :: d :: descs) (host_args ctx frame_count timeout mem count) = none := by
    simp only [host_args, response_params, Option.bind_eq_bind]
    rcases response_arg (RPC_PARAM_TYPE 4) (.value ctx.host_ctx_ptr.toNat) with _ | first
    · rfl
    · rw [Option.bind_some]
      rcases copy_param (RPC_PARAM_TYPE 4).output first (RPC_PARAM_TYPE 4).size with _ | part
      · rfl
      · rw [Option.bind_some]
        have harg : (response_arg d (.ptr mem)).bind (fun arg_ptr => (copy_param d.output arg_ptr d.size).bind fun param =>
            (response_params descs [.value frame_count.toNat, .value timeout.toNat, .value count]).bind fun params =>
              some (param ++ params)) = none := by
          rw [response_arg]
          split
          · rw [Option.bind_some, hcopy, Option.bind_none]
          · rfl
        rw [harg, Option.bind_none]
  rw [rpc_response_marshall, hparams]
  simp

variable (frame_count) in
theorem length_buf (num : Word) : (buf_length num frame_count).toNat = 4 * frame_words num.toNat frame_count.toNat % 2 ^ 24 :=
  BitVec.toNat_ofNat ..

/-- The length of a parameter fits in the caller's buffer, whatever bits it has lost. -/
theorem buf_room {num : Word} {i2s_sample_buf : List UInt8} (h : 4 * frame_words num.toNat frame_count.toNat ≤ i2s_sample_buf.length) :
    (buf_length num frame_count).toNat ≤ i2s_sample_buf.length :=
  (length_buf frame_count num).le.trans ((Nat.mod_le _ _).trans h)

/-- A call that stays within the buffer that the host allocates. -/
theorem rx_within (i2s_sample_buf : List UInt8) {count : Nat} {samples : List Word} {recv : Side Word} (ret : Word)
    (hctx : ctx = ⟨host.address, host.num_out, host.num_in⟩)
    (hcall : Calls.i2s_local_rx env.rx_wait host.num_in.toNat host.recv frame_count.toNat timeout.toNat = (count, samples, recv))
    (hcount : count < 2 ^ 32) (hwrite : (words_bytes samples).length ≤ (allocated env host frame_count).length)
    (hread : (buf_length host.num_in frame_count).toNat ≤ (allocated env host frame_count).length)
    (hroom : 4 * frame_words host.num_in.toNat frame_count.toNat ≤ i2s_sample_buf.length) :
    ∃ (req_msg : List UInt8) (answer : Answer) (rest : List UInt8),
      rpc_request_marshall fcode_rx (rx_desc ctx frame_count) (call_args ctx i2s_sample_buf frame_count timeout ret) =
        some (req_msg.length, req_msg) ∧
      i2s_rpc_thread env host req_msg = some answer ∧ answer.host = { host with recv } ∧
      i2s_remote_rx (fun m => (i2s_rpc_thread env host m).map Answer.resp_msg) ctx i2s_sample_buf frame_count timeout ret =
        some (count, (words_bytes samples ++ rest).take (buf_length host.num_in frame_count).toNat ++
          i2s_sample_buf.drop (buf_length host.num_in frame_count).toNat) := by
  subst hctx
  have hfit := buf_room hroom
  have made : Made (RPC_PARAM_OUT_BUFFER (buf_length host.num_in frame_count)) := .out_buffer _
  obtain ⟨req_msg, sent, arg, hreq, hparse, hunmarshall, -⟩ := request_received ⟨host.address, host.num_out, host.num_in⟩
    frame_count timeout ret fcode_rx made hfit
  have hthread := rx_thread rfl hparse hunmarshall hcall
  rw [memcpy_into, if_pos ⟨hwrite, Nat.le_refl _⟩, Option.bind_some, List.take_length] at hthread
  generalize hrest : (allocated env host frame_count).drop (words_bytes samples).length = rest at hthread
  have hmem : (buf_length host.num_in frame_count).toNat ≤ (words_bytes samples ++ rest).length := by
    rw [← hrest, List.length_append, List.length_drop]
    omega
  obtain ⟨resp_msg, -, hresp, -⟩ := response_round_trip fcode_rx
    (params ⟨host.address, host.num_out, host.num_in⟩ frame_count timeout ret made hfit) [] sent (params_lengths made hfit).2
    (host_args_fit made hfit rfl _ (fun _ => hmem) count)
  rw [hresp, Option.map_some] at hthread
  have hcall := call_answered (fun m => (i2s_rpc_thread env host m).map Answer.resp_msg) made hfit rfl (fun _ => hmem) hreq
    (congrArg (Option.map Answer.resp_msg) hthread) hresp
  refine ⟨req_msg, _, rest, hreq, hthread, rfl, ?_⟩
  unfold i2s_remote_rx
  have hdesc : rx_desc ⟨host.address, host.num_out, host.num_in⟩ frame_count =
      call_desc (params ⟨host.address, host.num_out, host.num_in⟩ frame_count timeout ret made hfit) [] := rfl
  rw [hdesc, hcall]
  have hret : ofLE (toLE 4 count) = count := ofLE_toLE hcount
  dsimp only
  rw [hret]
  rfl

/-- A host that answers has stayed within the buffer it allocated. -/
theorem rx_answered {i2s_sample_buf : List UInt8} {count : Nat} {samples : List Word} {recv : Side Word} {ret : Word}
    {req_msg : List UInt8} {answer : Answer}
    (hcall : Calls.i2s_local_rx env.rx_wait host.num_in.toNat host.recv frame_count.toNat timeout.toNat = (count, samples, recv))
    (hroom : 4 * frame_words host.num_in.toNat frame_count.toNat ≤ i2s_sample_buf.length)
    (hreq : rpc_request_marshall fcode_rx (rx_desc ⟨host.address, host.num_out, host.num_in⟩ frame_count)
      (call_args ⟨host.address, host.num_out, host.num_in⟩ i2s_sample_buf frame_count timeout ret) = some (req_msg.length, req_msg))
    (hthread : i2s_rpc_thread env host req_msg = some answer) :
    (words_bytes samples).length ≤ (allocated env host frame_count).length ∧
      (buf_length host.num_in frame_count).toNat ≤ (allocated env host frame_count).length := by
  have hfit := buf_room hroom
  have made : Made (RPC_PARAM_OUT_BUFFER (buf_length host.num_in frame_count)) := .out_buffer _
  obtain ⟨req_msg', sent, arg, hreq', hparse, hunmarshall, -⟩ := request_received ⟨host.address, host.num_out, host.num_in⟩
    frame_count timeout ret fcode_rx made hfit
  have hmsg : some (req_msg.length, req_msg) = some (req_msg'.length, req_msg') := hreq.symm.trans hreq'
  obtain ⟨-, rfl⟩ := Prod.mk.inj (Option.some.inj hmsg)
  rw [rx_thread rfl hparse hunmarshall hcall] at hthread
  obtain ⟨mem, hmem, hresp⟩ := Option.bind_eq_some_iff.1 hthread
  unfold memcpy_into at hmem
  split at hmem
  · rename_i hwrite
    obtain rfl := Option.some.inj hmem
    refine ⟨hwrite.1, ?_⟩
    by_contra hread
    have hshort : ((words_bytes samples).take (words_bytes samples).length ++
        (allocated env host frame_count).drop (words_bytes samples).length).length <
        (RPC_PARAM_OUT_BUFFER (buf_length host.num_in frame_count)).size := by
      have hsize : (RPC_PARAM_OUT_BUFFER (buf_length host.num_in frame_count)).size = (buf_length host.num_in frame_count).toNat := rfl
      rw [hsize, List.take_length, List.length_append, List.length_drop]
      omega
    have hdescs : (params ⟨host.address, host.num_out, host.num_in⟩ frame_count timeout ret made hfit).map Param.desc =
        RPC_PARAM_TYPE 4 :: RPC_PARAM_OUT_BUFFER (buf_length host.num_in frame_count) ::
          [RPC_PARAM_TYPE 4, RPC_PARAM_TYPE 4, RPC_PARAM_RETURN 4] := rfl
    rw [hdescs, response_short rfl hshort] at hresp
    cases hresp
  · cases hmem

theorem same_rx_of_fits (hctx : ctx = ⟨host.address, host.num_out, host.num_in⟩)
    (hwithin : Within host.recv.buf_size host.recv.read_index) (h : RxFits env host frame_count timeout) :
    SameRx env host ctx frame_count timeout := by
  intro i2s_sample_buf ret hroom
  obtain ⟨hread, hbits⟩ := h
  rw [← length_buf, ← length_allocated env] at hread
  by_cases hserved : Served (env.rx_wait timeout.toNat) Side.words_available
      (frame_words host.num_in.toNat frame_count.toNat) host.recv
  · obtain ⟨samples, recv, hcall, hlength⟩ := rx_served host.num_in.toNat hwithin hserved
    have hbytes : (words_bytes samples).length = (buf_length host.num_in frame_count).toNat := by
      rw [length_words_bytes, hlength, length_buf, Nat.mod_eq_of_lt (hbits hserved)]
    obtain ⟨req_msg, answer, rest, hreq, hthread, hhost, hremote⟩ :=
      rx_within i2s_sample_buf ret hctx hcall frame_count.isLt (hbytes ▸ hread) hread hroom
    rw [hcall]
    refine ⟨req_msg, answer, _, hreq, hthread, hhost, hremote, ?_⟩
    rw [← hbytes, List.take_left, List.take_left]
  · obtain ⟨recv, hcall⟩ := rx_refused hserved
    obtain ⟨req_msg, answer, rest, hreq, hthread, hhost, hremote⟩ :=
      rx_within i2s_sample_buf ret hctx hcall (by decide) (Nat.zero_le _) hread hroom
    rw [hcall]
    exact ⟨req_msg, answer, _, hreq, hthread, hhost, hremote, rfl⟩

/-- What the client's memory has behind the bytes that come back. -/
theorem rx_fits_of_same (hctx : ctx = ⟨host.address, host.num_out, host.num_in⟩)
    (hwithin : Within host.recv.buf_size host.recv.read_index) (h : SameRx env host ctx frame_count timeout) :
    RxFits env host frame_count timeout := by
  rcases hcall : Calls.i2s_local_rx env.rx_wait host.num_in.toNat host.recv frame_count.toNat timeout.toNat with ⟨count, samples, recv⟩
  have hfill : ∀ x : UInt8, ∃ out : List UInt8, (words_bytes samples).length ≤ (allocated env host frame_count).length ∧
      (buf_length host.num_in frame_count).toNat ≤ (allocated env host frame_count).length ∧
      out.take (words_bytes samples).length = words_bytes samples ∧ ∃ rest,
        (count < 2 ^ 32 → out = (words_bytes samples ++ rest).take (buf_length host.num_in frame_count).toNat ++
          (List.replicate (4 * frame_words host.num_in.toNat frame_count.toNat) x).drop (buf_length host.num_in frame_count).toNat) := by
    intro x
    have hx := h (List.replicate (4 * frame_words host.num_in.toNat frame_count.toNat) x) 0 (by rw [List.length_replicate])
    rw [hcall] at hx
    obtain ⟨req_msg, answer, out, hreq, hthread, -, hremote, hout⟩ := hx
    subst hctx
    obtain ⟨hwrite, hread⟩ := rx_answered hcall (by rw [List.length_replicate]) hreq hthread
    by_cases hcount : count < 2 ^ 32
    · obtain ⟨-, -, rest, -, -, -, hremote'⟩ := rx_within
        (List.replicate (4 * frame_words host.num_in.toNat frame_count.toNat) x) 0 rfl hcall hcount hwrite hread
        (by rw [List.length_replicate])
      refine ⟨out, hwrite, hread, hout, rest, fun _ => ?_⟩
      exact (Prod.mk.inj (Option.some.inj (hremote.symm.trans hremote'))).2
    · exact ⟨out, hwrite, hread, hout, [], fun hlt => absurd hlt hcount⟩
  obtain ⟨out, hwrite, hread, hout, rest, hout'⟩ := hfill 0
  refine ⟨by rwa [← length_buf, ← length_allocated env], fun hserved => ?_⟩
  by_contra hge
  obtain ⟨samples', recv', hcall', hlength⟩ := rx_served host.num_in.toNat hwithin hserved
  obtain ⟨rfl, hrest⟩ := Prod.mk.inj (hcall.symm.trans hcall')
  obtain ⟨rfl, rfl⟩ := Prod.mk.inj hrest
  have hlost : (buf_length host.num_in frame_count).toNat < 4 * frame_words host.num_in.toNat frame_count.toNat := by
    have := (buf_length host.num_in frame_count).isLt
    omega
  have hbytes := length_words_bytes samples
  rw [hlength] at hbytes
  have hall : ∀ x : UInt8, words_bytes samples = (words_bytes samples).take (buf_length host.num_in frame_count).toNat ++
      (List.replicate (4 * frame_words host.num_in.toNat frame_count.toNat) x).drop (buf_length host.num_in frame_count).toNat := by
    intro x
    obtain ⟨out, -, -, hout, rest, hout'⟩ := hfill x
    have heq := hout' frame_count.isLt
    rw [List.take_append_of_le_length (by omega)] at heq
    rw [heq, List.take_of_length_le] at hout
    · exact hout.symm
    · rw [List.length_append, List.length_take, List.length_drop, List.length_replicate]
      omega
  have hsame := List.append_cancel_left ((hall 0).symm.trans (hall 1))
  rw [List.drop_replicate, List.drop_replicate] at hsame
  have hzero := (List.replicate_inj.1 hsame).2
  have hpos : 4 * frame_words host.num_in.toNat frame_count.toNat - (buf_length host.num_in frame_count).toNat ≠ 0 := by omega
  exact absurd (hzero.resolve_left hpos) (by decide)

/-! ## Transmitting -/

/-- The samples that the host finds behind its pointer are the caller's, as many as the message has. -/
theorem received_words {num : Word} {i2s_sample_buf : List UInt8} {arg : Arg} {made : Made (RPC_PARAM_IN_BUFFER (buf_length num frame_count))}
    {room : (RPC_PARAM_IN_BUFFER (buf_length num frame_count)).size ≤ i2s_sample_buf.length}
    (h : Received ⟨RPC_PARAM_IN_BUFFER (buf_length num frame_count), i2s_sample_buf, made, room⟩ arg) {k : Nat}
    (hk : 4 * k + 4 ≤ (buf_length num frame_count).toNat) : word_at i2s_sample_buf k = word_at (pointee arg) k := by
  have hsize : (RPC_PARAM_IN_BUFFER (buf_length num frame_count)).size ≠ 0 := by
    have hlength : (RPC_PARAM_IN_BUFFER (buf_length num frame_count)).size = (buf_length num frame_count).toNat := rfl
    omega
  have hsome : if (RPC_PARAM_IN_BUFFER (buf_length num frame_count)).size = 0 then arg = .null
      else ∃ params_ptr, arg = .ptr params_ptr ∧
        params_ptr.take (RPC_PARAM_IN_BUFFER (buf_length num frame_count)).size =
          i2s_sample_buf.take (RPC_PARAM_IN_BUFFER (buf_length num frame_count)).size := h
  rw [if_neg hsize] at hsome
  obtain ⟨params_ptr, rfl, htake⟩ := hsome
  exact word_at_take htake.symm hk

theorem tx_thread {req_msg sent : List UInt8} {descs : List rpc_param_desc_t} {a b : Arg} {count samples_read : Nat}
    {send : Side Word} (hctx : ctx.host_ctx_ptr = host.address)
    (hparse : rpc_request_parse req_msg = some ⟨fcode_tx, descs, sent⟩)
    (hunmarshall : rpc_request_unmarshall ⟨fcode_tx, descs, sent⟩ =
      some ([.value (toLE 4 ctx.host_ctx_ptr.toNat), a, .value (toLE 4 frame_count.toNat), .value (toLE 4 timeout.toNat), b], []))
    (hcall : Calls.i2s_local_tx env.tx_wait host.num_out.toNat host.send (word_at (pointee a)) frame_count.toNat timeout.toNat =
      (count, samples_read, send)) :
    i2s_rpc_thread env host req_msg =
      (rpc_response_marshall ⟨fcode_tx, descs, sent⟩ (host_args ctx frame_count timeout (pointee a) count)).map fun r =>
        ⟨r.2, samples_read, { host with send }⟩ := by
  have hcode : ¬ fcode_tx = fcode_rx := by decide
  simp only [i2s_rpc_thread, hparse, Option.bind_eq_bind, Option.bind_some, if_true, if_neg hcode, i2s_tx_rpc_host, hunmarshall,
    hctx, ofLE_word, hcall, BitVec.ofNat_toNat, BitVec.setWidth_eq, host_args, Option.map_eq_bind, Function.comp_def]

variable (env) in
/-- The host's view of a request, and what comes of its call. -/
theorem tx_answer {i2s_sample_buf : List UInt8} (timeout ret : Word) (hctx : ctx = ⟨host.address, host.num_out, host.num_in⟩)
    (hroom : 4 * frame_words host.num_out.toNat frame_count.toNat ≤ i2s_sample_buf.length) :
    ∃ (req_msg : List UInt8) (arg : Arg),
      rpc_request_marshall fcode_tx (tx_desc ctx frame_count) (call_args ctx i2s_sample_buf frame_count timeout ret) =
        some (req_msg.length, req_msg) ∧
      (∀ k, 4 * k + 4 ≤ (buf_length host.num_out frame_count).toNat → word_at i2s_sample_buf k = word_at (pointee arg) k) ∧
      ∀ count samples_read send, Calls.i2s_local_tx env.tx_wait host.num_out.toNat host.send (word_at (pointee arg))
          frame_count.toNat timeout.toNat = (count, samples_read, send) → count < 2 ^ 32 →
        ∃ answer, i2s_rpc_thread env host req_msg = some answer ∧ answer.host = { host with send } ∧
          answer.samples_read = samples_read ∧
          i2s_remote_tx (fun m => (i2s_rpc_thread env host m).map Answer.resp_msg) ctx i2s_sample_buf frame_count timeout ret =
            some count := by
  subst hctx
  have hfit := buf_room hroom
  have made : Made (RPC_PARAM_IN_BUFFER (buf_length host.num_out frame_count)) := .in_buffer _
  obtain ⟨req_msg, sent, arg, hreq, hparse, hunmarshall, hreceived⟩ := request_received ⟨host.address, host.num_out, host.num_in⟩
    frame_count timeout ret fcode_tx made hfit
  refine ⟨req_msg, arg, hreq, fun k hk => received_words hreceived hk, fun count samples_read send hcall hcount => ?_⟩
  have hthread := tx_thread rfl hparse hunmarshall hcall
  obtain ⟨resp_msg, -, hresp, -⟩ := response_round_trip fcode_tx
    (params ⟨host.address, host.num_out, host.num_in⟩ frame_count timeout ret made hfit) [] sent (params_lengths made hfit).2
    (host_args_fit made hfit rfl (pointee arg) nofun count)
  rw [hresp, Option.map_some] at hthread
  have hcall := call_answered (fun m => (i2s_rpc_thread env host m).map Answer.resp_msg) made hfit rfl nofun hreq
    (congrArg (Option.map Answer.resp_msg) hthread) hresp
  refine ⟨_, hthread, rfl, rfl, ?_⟩
  unfold i2s_remote_tx
  have hdesc : tx_desc ⟨host.address, host.num_out, host.num_in⟩ frame_count =
      call_desc (params ⟨host.address, host.num_out, host.num_in⟩ frame_count timeout ret made hfit) [] := rfl
  rw [hdesc, hcall]
  have hret : ofLE (toLE 4 count) = count := ofLE_toLE hcount
  dsimp only
  rw [hret]

theorem same_tx_of_fits (hctx : ctx = ⟨host.address, host.num_out, host.num_in⟩)
    (hwithin : Within host.send.buf_size host.send.write_index) (h : TxFits env host frame_count timeout) :
    SameTx env host ctx frame_count timeout := by
  intro i2s_sample_buf ret hroom
  obtain ⟨req_msg, arg, hreq, hwords, hanswer⟩ := tx_answer env timeout ret hctx hroom
  by_cases hserved : Served (env.tx_wait timeout.toNat) Side.words_free
      (frame_words host.num_out.toNat frame_count.toNat) host.send
  · have hbits := h hserved
    have hlength := length_buf frame_count host.num_out
    rw [Nat.mod_eq_of_lt hbits] at hlength
    obtain ⟨send, hcall, hsame⟩ := tx_served (word_at i2s_sample_buf) (word_at (pointee arg)) hwithin hserved
    obtain ⟨answer, hthread, hhost, hread, hremote⟩ := hanswer _ _ _ (hsame fun k hk => hwords k (by omega)) frame_count.isLt
    rw [hcall]
    refine ⟨req_msg, answer, hreq, hthread, hhost, ?_, hremote⟩
    subst hctx
    rw [hread, hlength]
  · obtain ⟨send, hcall⟩ := tx_refused hserved
    obtain ⟨answer, hthread, hhost, hread, hremote⟩ := hanswer _ _ _ (hcall _) (by decide)
    rw [hcall]
    exact ⟨req_msg, answer, hreq, hthread, hhost, by rw [hread]; exact Nat.zero_le _, hremote⟩

theorem tx_fits_of_same (hctx : ctx = ⟨host.address, host.num_out, host.num_in⟩)
    (hwithin : Within host.send.buf_size host.send.write_index) (h : SameTx env host ctx frame_count timeout) :
    TxFits env host frame_count timeout := by
  intro hserved
  have hroom : 4 * frame_words host.num_out.toNat frame_count.toNat ≤
      (List.replicate (4 * frame_words host.num_out.toNat frame_count.toNat) (0 : UInt8)).length := by rw [List.length_replicate]
  obtain ⟨req_msg, arg, hreq, -, hanswer⟩ := tx_answer env timeout 0 hctx hroom
  obtain ⟨send, hcall, -⟩ := tx_served (word_at (pointee arg)) (word_at (pointee arg)) hwithin hserved
  obtain ⟨answer, hthread, -, hread, -⟩ := hanswer _ _ _ hcall frame_count.isLt
  obtain ⟨req_msg', answer', hreq', hthread', -, hread', -⟩ := h _ 0 hroom
  obtain ⟨-, rfl⟩ := Prod.mk.inj (Option.some.inj (hreq.symm.trans hreq'))
  obtain rfl := Option.some.inj (hthread.symm.trans hthread')
  subst hctx
  rw [hread, length_buf] at hread'
  omega

end Calls

/-- The driver keeps its indexes within its buffers. -/
theorem indexes_within {w : Type*} {cfg : Config} {s : Driver w} (h : (driver cfg).Reachable (Fits cfg) s) :
    Within s.recv.buf_size s.recv.read_index ∧ Within s.send.buf_size s.send.write_index := by
  have hmod : ∀ n size : Nat, Within size (n % size) := fun n size =>
    (Nat.eq_zero_or_pos size).imp_right (Nat.mod_lt n)
  have hinv := h.inv (I := fun t => RecvInv cfg t ∧ SendInv cfg t) (fun _ => inv_init)
    fun _ _ _ hinv hc hs => ⟨hinv.1.step (fun _ _ => hc) hs, hinv.2.step (fun _ _ _ => hc) hs⟩
  rw [hinv.1.rx.read_index, hinv.2.tx.write_index]
  exact ⟨hmod _ _, hmod _ _⟩

/-- Calls over RPC are the host's own calls exactly where the samples fit. -/
theorem remote_calls_same (env : Env) (host : Host) (ctx : Client) (hctx : rtos_i2s_rpc_client_init (rtos_i2s_rpc_host_init host) = some ctx)
    (hrecv : Within host.recv.buf_size host.recv.read_index) (hsend : Within host.send.buf_size host.send.write_index)
    (frame_count timeout : Word) :
    SameRx env host ctx frame_count timeout ∧ SameTx env host ctx frame_count timeout ↔
      RxFits env host frame_count timeout ∧ TxFits env host frame_count timeout := by
  have heq := client_of_host hctx
  constructor
  · rintro ⟨hrx, htx⟩
    exact ⟨rx_fits_of_same heq hrecv hrx, tx_fits_of_same heq hsend htx⟩
  · rintro ⟨hrx, htx⟩
    exact ⟨same_rx_of_fits heq hrecv hrx, same_tx_of_fits heq hsend htx⟩

/-- No wait succeeds. -/
def no_wait {index : Side Word → Nat} : Wait index := ⟨false, id, fun _ => rfl, fun _ => rfl⟩

def idle_env : Env := ⟨fun _ => no_wait, fun _ => no_wait, fun _ => 0⟩

/-- A host with so many lines in and one out, and a receive buffer that has four words. -/
def host_of (num_in : Word) : Host :=
  ⟨0x1000, num_in, 1, { Side.start (fun i => BitVec.ofNat 32 i) 4 with total_written := 4 }, .start (fun _ => 0) 4⟩

/-- With two lines in and one out, the host allocates half of what a frame needs. -/
theorem remote_calls_same_two_in : ¬ (SameRx idle_env (host_of 2) ⟨0x1000, 1, 2⟩ 1 0 ∧ SameTx idle_env (host_of 2) ⟨0x1000, 1, 2⟩ 1 0) := by
  rintro ⟨hrx, -⟩
  have hfits := (rx_fits_of_same rfl (.inr (by decide)) hrx).1
  exact absurd hfits (by decide)

/-- With one line each way. -/
theorem remote_calls_same_one_in :
    rtos_i2s_rpc_client_init (rtos_i2s_rpc_host_init (host_of 1)) = some ⟨0x1000, 1, 1⟩ ∧
      Within (host_of 1).recv.buf_size (host_of 1).recv.read_index ∧ Within (host_of 1).send.buf_size (host_of 1).send.write_index ∧
      SameRx idle_env (host_of 1) ⟨0x1000, 1, 1⟩ 1 0 ∧ SameTx idle_env (host_of 1) ⟨0x1000, 1, 1⟩ 1 0 := by
  have hrecv : Within (host_of 1).recv.buf_size (host_of 1).recv.read_index := .inr (by decide)
  have hsend : Within (host_of 1).send.buf_size (host_of 1).send.write_index := .inr (by decide)
  have hrx : RxFits idle_env (host_of 1) 1 0 := ⟨by decide, fun _ => by decide⟩
  have htx : TxFits idle_env (host_of 1) 1 0 := fun _ => by decide
  exact ⟨rfl, hrecv, hsend, (remote_calls_same idle_env (host_of 1) ⟨0x1000, 1, 1⟩ rfl hrecv hsend 1 0).2 ⟨hrx, htx⟩⟩

end I2s.Remote
