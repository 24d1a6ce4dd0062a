import XcoreSdk.Rpc.Marshall
/-!
# The RPC layer is transparent

What the host reads out of a request is what the client put in, and what the
client stores from a response is what the host put in. Each of the four walks
has one lemma that says which bytes it produces or consumes, parameter by
parameter; the walks agree because the lemmas name the same bytes.
-/

namespace Rpc
open Bytes

/-- The descriptors that the `RPC_PARAM_*` macros make. -/
inductive Made : rpc_param_desc_t → Prop
  | type {size : Nat} : size ∈ [1, 2, 4, 8] → Made (RPC_PARAM_TYPE size)
  | ret {size : Nat} : size ∈ [1, 2, 4, 8] → Made (RPC_PARAM_RETURN size)
  | in_buffer (length : BitVec 24) : Made (RPC_PARAM_IN_BUFFER length)
  | out_buffer (length : BitVec 24) : Made (RPC_PARAM_OUT_BUFFER length)
  | inout_buffer (length : BitVec 24) : Made (RPC_PARAM_INOUT_BUFFER length)

/-- A parameter of a call: its descriptor and the caller's memory, which holds
all of it. -/
structure Param where
  desc : rpc_param_desc_t
  arg : List UInt8
  made : Made desc
  room : desc.size ≤ arg.length

/-- The host's argument for a parameter is of its kind, and holds all of it. -/
def HostArg.Fits (p : Param) : HostArg → Prop
  | .ptr mem => p.desc.ptr ∧ (p.desc.output → p.desc.size ≤ mem.length)
  | .value _ => ¬ p.desc.ptr

/-- What the host is to see of a parameter. -/
def Received (p : Param) (arg : Arg) : Prop :=
  if p.desc.ptr then
    if p.desc.size = 0 then arg = .null
    else if p.desc.input then ∃ params_ptr, arg = .ptr params_ptr ∧ params_ptr.take p.desc.size = p.arg.take p.desc.size
    else arg = .invalid
  else if p.desc.input then arg = .value (p.arg.take p.desc.size)
  else arg = .untouched

/-- The host's output for a parameter. -/
def HostArg.bytes (d : rpc_param_desc_t) : HostArg → List UInt8
  | .ptr mem => mem.take d.size
  | .value v => toLE d.size v

/-- The caller's memory for a parameter after the call. -/
def stored (p : Param) (h : HostArg) : List UInt8 :=
  if p.desc.output then h.bytes p.desc ++ p.arg.drop p.desc.size else p.arg

/-! ## Descriptors -/

theorem Made.used {d : rpc_param_desc_t} (h : Made d) : d.used := by
  cases h <;> rfl

theorem Made.value_size {d : rpc_param_desc_t} (h : Made d) (hp : ¬ d.ptr) : d.size ∈ [1, 2, 4, 8] := by
  cases h with
  | type hs | ret hs =>
    simp only [List.mem_cons, List.not_mem_nil, or_false] at hs
    rcases hs with rfl | rfl | rfl | rfl <;> decide
  | _ => exact absurd rfl hp

/-- A parameter is an input or an output. -/
theorem Made.output_of_not_input {d : rpc_param_desc_t} (h : Made d) (hi : d.input = false) : d.output = true := by
  have hu := h.used
  simpa [rpc_param_desc_t.used, hi] using hu

@[simp] theorem length_bytes (d : rpc_param_desc_t) : d.bytes.length = 4 := by simp [rpc_param_desc_t.bytes]

theorem ofBytes_bytes (d : rpc_param_desc_t) : rpc_param_desc_t.ofBytes d.bytes = d := by
  obtain ⟨length, ptr, input, output⟩ := d
  have hlt : length.toNat < 256 ^ 3 := length.isLt
  have htake : ∀ b : UInt8, (toLE 3 length.toNat ++ [b]).take 3 = toLE 3 length.toNat := fun b =>
    List.take_left' (by simp)
  have hget : ∀ b : UInt8, (toLE 3 length.toNat ++ [b]).getD 3 0 = b := fun b => by
    simp [List.getD_eq_getElem?_getD]
  simp only [rpc_param_desc_t.ofBytes, rpc_param_desc_t.bytes, htake, hget, ofLE_toLE hlt]
  rw [BitVec.ofNat_toNat, BitVec.setWidth_eq]
  cases ptr <;> cases input <;> cases output <;> rfl

theorem params_before_end_append (descs rest : List rpc_param_desc_t) (h : ∀ d ∈ descs, d.used) :
    params_before_end (descs ++ RPC_PARAM_LIST_END :: rest) = some descs := by
  induction descs with
  | nil => rfl
  | cons d ds ih =>
    have hd : d.used := h d (by simp)
    simp [params_before_end, hd, ih fun e he => h e (by simp [he])]

theorem length_flatMap_bytes (descs : List rpc_param_desc_t) :
    (descs.flatMap rpc_param_desc_t.bytes).length = 4 * descs.length := by
  induction descs with
  | nil => rfl
  | cons d ds ih => simp only [List.flatMap_cons, List.length_append, ih, length_bytes, List.length_cons]; omega

theorem memcpy_append (xs ys : List UInt8) : memcpy (xs ++ ys) xs.length = some xs := by
  simp [memcpy]

theorem read_descs_append (descs : List rpc_param_desc_t) (params : List UInt8) :
    read_descs descs.length (descs.flatMap rpc_param_desc_t.bytes ++ params) = some descs := by
  induction descs with
  | nil => rfl
  | cons d ds ih =>
    have hcpy : memcpy (d.bytes ++ (ds.flatMap rpc_param_desc_t.bytes ++ params)) 4 = some d.bytes := by
      rw [← length_bytes d]; exact memcpy_append _ _
    have hdrop : (d.bytes ++ (ds.flatMap rpc_param_desc_t.bytes ++ params)).drop 4 =
        ds.flatMap rpc_param_desc_t.bytes ++ params := List.drop_left' (length_bytes d)
    simp [read_descs, List.flatMap_cons, List.append_assoc, hcpy, hdrop, ih, ofBytes_bytes]

/-- A `memcpy` of an `int`, and what is behind it. -/
theorem memcpy_int (v : Nat) (bs : List UInt8) : memcpy (toLE 4 v ++ bs) 4 = some (toLE 4 v) := by
  have h := memcpy_append (toLE 4 v) bs
  rwa [length_toLE] at h

theorem drop_int (v : Nat) (bs : List UInt8) : (toLE 4 v ++ bs).drop 4 = bs := List.drop_left' (length_toLE 4 v)

theorem ofNat_ofLE_toLE (fcode : BitVec 32) : BitVec.ofNat 32 (ofLE (toLE 4 fcode.toNat)) = fcode := by
  have hlt : fcode.toNat < 256 ^ 4 := fcode.isLt
  rw [ofLE_toLE hlt, BitVec.ofNat_toNat, BitVec.setWidth_eq]

theorem request_parse_of_bytes (fcode : BitVec 32) (descs : List rpc_param_desc_t) (params : List UInt8)
    (h : descs.length < 2 ^ 32) :
    rpc_request_parse (toLE 4 fcode.toNat ++ (toLE 4 descs.length ++
      (descs.flatMap rpc_param_desc_t.bytes ++ params))) = some ⟨fcode, descs, params⟩ := by
  have hlen : ofLE (toLE 4 descs.length) = descs.length := ofLE_toLE (by omega)
  have hdrop : (descs.flatMap rpc_param_desc_t.bytes ++ params).drop (4 * descs.length) = params :=
    List.drop_left' (length_flatMap_bytes descs)
  simp only [rpc_request_parse, memcpy_int, drop_int, Option.bind_eq_bind, Option.bind_some, hlen,
    read_descs_append, ofNat_ofLE_toLE, hdrop]

/-! ## The request -/

/-- The bytes of the request that carry a parameter. -/
def Param.sent (p : Param) : List UInt8 := if p.desc.input then p.arg.take p.desc.size else []

theorem Param.length_sent (p : Param) : p.sent.length = if p.desc.input then p.desc.size else 0 := by
  unfold Param.sent
  split
  · rw [List.length_take, Nat.min_eq_left p.room]
  · rfl

theorem request_params_eq (ps : List Param) :
    request_params (ps.map Param.desc) (ps.map Param.arg) = some (ps.flatMap Param.sent) := by
  induction ps with
  | nil => rfl
  | cons p ps ih =>
    have hp : copy_param p.desc.input p.arg p.desc.size = some p.sent := by
      unfold copy_param Param.sent
      split
      · simp [memcpy, p.room]
      · rfl
    simp [request_params, hp, ih, List.flatMap_cons]

theorem length_flatMap_sent (ps : List Param) :
    (ps.flatMap Param.sent).length = ((ps.map Param.desc).map fun d => if d.input then d.size else 0).sum := by
  induction ps with
  | nil => rfl
  | cons p ps ih => simp [List.flatMap_cons, ih, Param.length_sent]

/-- One parameter is received as it was sent, and `params_ptr` moves behind it. -/
theorem request_unmarshall_param_eq (p : Param) (tail : List UInt8) :
    ∃ arg, request_unmarshall_param p.desc (p.sent ++ tail) = some (arg, tail) ∧ Received p arg := by
  have hlen := p.length_sent
  unfold request_unmarshall_param Received
  by_cases hptr : p.desc.ptr
  · by_cases hin : p.desc.input
    · rw [if_pos hin] at hlen
      have hdrop : (p.sent ++ tail).drop p.desc.size = tail := List.drop_left' hlen
      by_cases h0 : p.desc.size = 0
      · refine ⟨.null, ?_, by simp [hptr, h0]⟩
        rw [h0, List.drop_zero] at hdrop
        simp [hptr, hin, h0, hdrop]
      · refine ⟨.ptr (p.sent ++ tail), by simp [hptr, hin, Nat.pos_of_ne_zero h0, hdrop], ?_⟩
        rw [if_pos hptr, if_neg h0, if_pos hin]
        refine ⟨_, rfl, ?_⟩
        rw [List.take_left' hlen]
        simp [Param.sent, hin]
    · have hout := p.made.output_of_not_input (by simpa using hin)
      have hsent : p.sent = [] := by simp [Param.sent, hin]
      refine ⟨if p.desc.size = 0 then .null else .invalid, by simp [hptr, hin, hout, hsent], ?_⟩
      by_cases h0 : p.desc.size = 0 <;> simp [hptr, hin, h0]
  · by_cases hin : p.desc.input
    · have hsent : p.sent = p.arg.take p.desc.size := by simp [Param.sent, hin]
      rw [if_pos hin] at hlen
      have hcpy : memcpy (p.sent ++ tail) p.desc.size = some p.sent := by
        rw [← hlen]; exact memcpy_append _ _
      have hdrop : (p.sent ++ tail).drop p.desc.size = tail := List.drop_left' hlen
      exact ⟨.value (p.arg.take p.desc.size), by simp [hptr, hin, hcpy, hdrop, ← hsent], by simp [hptr, hin]⟩
    · have hsent : p.sent = [] := by simp [Param.sent, hin]
      exact ⟨.untouched, by simp [hptr, hin, hsent], by simp [hptr, hin]⟩

theorem request_unmarshall_params_eq (ps : List Param) (tail : List UInt8) :
    ∃ args, request_unmarshall_params (ps.map Param.desc) (ps.flatMap Param.sent ++ tail) = some (args, tail) ∧
      List.Forall₂ Received ps args := by
  induction ps with
  | nil => exact ⟨[], rfl, .nil⟩
  | cons p ps ih =>
    obtain ⟨args, hargs, hrec⟩ := ih
    obtain ⟨arg, harg, hr⟩ := request_unmarshall_param_eq p (ps.flatMap Param.sent ++ tail)
    refine ⟨arg :: args, ?_, .cons hr hrec⟩
    simp [request_unmarshall_params, List.flatMap_cons, List.append_assoc, harg, hargs]

/-! ## The response -/

/-- The bytes of the response that carry a parameter. -/
def returned (p : Param) (h : HostArg) : List UInt8 := if p.desc.output then h.bytes p.desc else []

theorem HostArg.length_bytes {p : Param} {h : HostArg} (hf : h.Fits p) (ho : p.desc.output) :
    (h.bytes p.desc).length = p.desc.size := by
  cases h with
  | ptr mem => exact (List.length_take ..).trans (Nat.min_eq_left (hf.2 ho))
  | value v => exact length_toLE _ _

theorem response_arg_eq {p : Param} {h : HostArg} (hf : h.Fits p) :
    ∃ mem, response_arg p.desc h = some mem ∧
      (p.desc.output → memcpy mem p.desc.size = some (h.bytes p.desc)) := by
  cases h with
  | ptr mem =>
    refine ⟨mem, by simp [response_arg, hf.1], fun ho => ?_⟩
    simp [memcpy, hf.2 ho, HostArg.bytes]
  | value v =>
    have hs := p.made.value_size hf
    have hptr : ¬ p.desc.ptr := hf
    have h1 : toLE 1 (v % 2 ^ 32) = toLE 1 v := toLE_mod (by decide : 1 ≤ 4) v
    have h2 : toLE 2 (v % 2 ^ 32) = toLE 2 v := toLE_mod (by decide : 2 ≤ 4) v
    have h4 : toLE 4 (v % 2 ^ 32) = toLE 4 v := toLE_mod (Nat.le_refl 4) v
    have h8 : toLE 8 (v % 2 ^ 64) = toLE 8 v := toLE_mod (Nat.le_refl 8) v
    refine ⟨toLE p.desc.size v, ?_, fun _ => ?_⟩
    · simp only [List.mem_cons, List.not_mem_nil, or_false] at hs
      simp only [response_arg, if_neg hptr, h1, h2, h4, h8]
      rcases hs with hs | hs | hs | hs <;> rw [hs] <;> rfl
    · have hcpy := memcpy_append (toLE p.desc.size v) []
      rwa [List.append_nil, length_toLE] at hcpy

theorem response_params_eq (ps : List Param) (hs : List HostArg) (h : List.Forall₂ (fun p h => HostArg.Fits p h) ps hs) :
    response_params (ps.map Param.desc) hs = some (List.zipWith returned ps hs).flatten := by
  induction h with
  | nil => rfl
  | cons hf _ ih =>
    rename_i p a ps hs _
    obtain ⟨mem, hmem, hcpy⟩ := response_arg_eq hf
    have hp : copy_param p.desc.output mem p.desc.size = some (returned p a) := by
      unfold copy_param returned
      split
      · rename_i ho; exact hcpy ho
      · rfl
    simp [response_params, hmem, hp, ih]

theorem length_returned (ps : List Param) (hs : List HostArg) (h : List.Forall₂ (fun p h => HostArg.Fits p h) ps hs) :
    (List.zipWith returned ps hs).flatten.length =
      ((ps.map Param.desc).map fun d => if d.output then d.size else 0).sum := by
  induction h with
  | nil => rfl
  | cons hf _ ih =>
    rename_i p a ps hs _
    have hp : (returned p a).length = if p.desc.output then p.desc.size else 0 := by
      unfold returned
      split
      · rename_i ho; exact HostArg.length_bytes hf ho
      · rfl
    simp [ih, hp]

theorem response_unmarshall_params_eq (ps : List Param) (hs : List HostArg)
    (h : List.Forall₂ (fun p h => HostArg.Fits p h) ps hs) :
    response_unmarshall_params (ps.map Param.desc) (List.zipWith returned ps hs).flatten (ps.map Param.arg) =
      some (List.zipWith stored ps hs) := by
  induction h with
  | nil => rfl
  | cons hf _ ih =>
    rename_i p a ps hs _
    simp only [List.map_cons, List.zipWith_cons_cons, List.flatten_cons, response_unmarshall_params]
    by_cases ho : p.desc.output
    · have hlen := HostArg.length_bytes hf ho
      have hret : returned p a = a.bytes p.desc := by simp [returned, ho]
      have hinto : memcpy_into p.arg (a.bytes p.desc ++ (List.zipWith returned ps hs).flatten) p.desc.size =
          some (stored p a) := by
        simp [memcpy_into, p.room, stored, ho, List.take_left' hlen, hlen]
      rw [if_pos ho, hret, List.drop_left' hlen, ih]
      simp [hinto]
    · have hret : returned p a = [] := by simp [returned, ho]
      simp [ho, hret, ih, stored]

/-! ## A call -/

section Call
variable (fcode : BitVec 32) (ps : List Param) (rest : List rpc_param_desc_t)

/-- The descriptor array of the call: the parameters, the end of the list, and
whatever lies behind it. -/
def call_desc : List rpc_param_desc_t := ps.map Param.desc ++ RPC_PARAM_LIST_END :: rest

theorem params_before_end_call : params_before_end (call_desc ps rest) = some (ps.map Param.desc) := by
  refine params_before_end_append _ rest fun d hd => ?_
  obtain ⟨p, -, rfl⟩ := List.mem_map.1 hd
  exact p.made.used

/-- The client's request, and the host's view of it. -/
theorem request_round_trip (hlen : request_length (ps.map Param.desc) ≤ INT_MAX) :
    ∃ msg args,
      rpc_request_marshall fcode (call_desc ps rest) (ps.map Param.arg) = some (msg.length, msg) ∧
      rpc_request_parse msg = some ⟨fcode, ps.map Param.desc, ps.flatMap Param.sent⟩ ∧
      rpc_request_unmarshall ⟨fcode, ps.map Param.desc, ps.flatMap Param.sent⟩ = some (args, []) ∧
      List.Forall₂ Received ps args := by
  have hcount : (ps.map Param.desc).length < 2 ^ 32 := by
    simp only [request_length, INT_MAX] at hlen
    omega
  obtain ⟨args, hargs, hrec⟩ := request_unmarshall_params_eq ps []
  rw [List.append_nil] at hargs
  refine ⟨_, args, ?_, request_parse_of_bytes fcode _ (ps.flatMap Param.sent) hcount, hargs, hrec⟩
  have hmsg : (toLE 4 fcode.toNat ++ (toLE 4 (ps.map Param.desc).length ++
      ((ps.map Param.desc).flatMap rpc_param_desc_t.bytes ++ ps.flatMap Param.sent))).length =
      request_length (ps.map Param.desc) := by
    simp only [List.length_append, length_toLE, length_flatMap_bytes, length_flatMap_sent, request_length]
    omega
  rw [hmsg]
  simp [rpc_request_marshall, params_before_end_call, rtos_osal_malloc, hlen, request_params_eq]

/-- The host's response, and what the client makes of it. -/
theorem response_round_trip (params : List UInt8) (hlen : response_length (ps.map Param.desc) ≤ INT_MAX)
    {hs : List HostArg} (hfit : List.Forall₂ (fun p h => HostArg.Fits p h) ps hs) :
    ∃ resp rpc_resp,
      rpc_response_marshall ⟨fcode, ps.map Param.desc, params⟩ hs = some (resp.length, resp) ∧
      resp.length ≠ 0 ∧ rpc_response_parse resp = some rpc_resp ∧ rpc_resp.fcode = fcode ∧
      rpc_response_unmarshall rpc_resp (call_desc ps rest) (ps.map Param.arg) = some (List.zipWith stored ps hs) := by
  have hmsg : (toLE 4 fcode.toNat ++ (List.zipWith returned ps hs).flatten).length =
      response_length (ps.map Param.desc) := by
    simp only [List.length_append, length_toLE, length_returned ps hs hfit, response_length]
  refine ⟨toLE 4 fcode.toNat ++ (List.zipWith returned ps hs).flatten,
    ⟨fcode, [], (List.zipWith returned ps hs).flatten⟩, ?_, ?_, ?_, rfl, ?_⟩
  · rw [hmsg]
    simp [rpc_response_marshall, rtos_osal_malloc, hlen, response_params_eq ps hs hfit]
  · rw [hmsg, response_length]
    omega
  · simp only [rpc_response_parse, memcpy_int, drop_int, Option.bind_eq_bind, Option.bind_some, ofNat_ofLE_toLE]
  · simp only [rpc_response_unmarshall, params_before_end_call, Option.bind_eq_bind, Option.bind_some]
    exact response_unmarshall_params_eq ps hs hfit

/-- The host receives every input of a request and nothing else, and the
client stores every output of the response and nothing else. -/
theorem rpc_transparent (hreq : request_length (ps.map Param.desc) ≤ INT_MAX)
    (hresp : response_length (ps.map Param.desc) ≤ INT_MAX) :
    ∃ msg rpc_msg args,
      rpc_request_marshall fcode (call_desc ps rest) (ps.map Param.arg) = some (msg.length, msg) ∧
      rpc_request_parse msg = some rpc_msg ∧ rpc_msg.fcode = fcode ∧
      rpc_request_unmarshall rpc_msg = some (args, []) ∧ List.Forall₂ Received ps args ∧
      ∀ hs, List.Forall₂ (fun p h => HostArg.Fits p h) ps hs →
        ∃ resp rpc_resp, rpc_response_marshall rpc_msg hs = some (resp.length, resp) ∧
          rpc_response_parse resp = some rpc_resp ∧ rpc_resp.fcode = fcode ∧
          rpc_response_unmarshall rpc_resp (call_desc ps rest) (ps.map Param.arg) =
            some (List.zipWith stored ps hs) := by
  obtain ⟨msg, args, hmarshall, hparse, hunmarshall, hrec⟩ := request_round_trip fcode ps rest hreq
  refine ⟨msg, _, args, hmarshall, hparse, rfl, hunmarshall, hrec, fun hs hfit => ?_⟩
  obtain ⟨resp, rpc_resp, hm, -, hp, hf, hu⟩ := response_round_trip fcode ps rest (ps.flatMap Param.sent) hresp hfit
  exact ⟨resp, rpc_resp, hm, hp, hf, hu⟩

/-- `led(3, "on", buf, NULL)`, returning an `int`. -/
def led_params : List Param :=
  [⟨RPC_PARAM_TYPE 2, [3, 0], .type (by decide), by decide⟩,
    ⟨RPC_PARAM_IN_BUFFER 2, [111, 110], .in_buffer 2, by decide⟩,
    ⟨RPC_PARAM_OUT_BUFFER 3, [0, 0, 0, 9], .out_buffer 3, by decide⟩,
    ⟨RPC_PARAM_INOUT_BUFFER 0, [], .inout_buffer 0, by decide⟩,
    ⟨RPC_PARAM_RETURN 4, [0, 0, 0, 0], .ret (by decide), by decide⟩]

/-- The host fills the buffer and returns 5; of `NULL` and the inputs it gives nothing back. -/
def led_reply : List HostArg := [.value 3, .ptr [111, 110], .ptr [1, 2, 3], .ptr [], .value 5]

theorem rpc_transparent_led : ∃ msg rpc_msg args resp rpc_resp,
    rpc_request_marshall 7 (call_desc led_params []) (led_params.map Param.arg) = some (msg.length, msg) ∧
    rpc_request_parse msg = some rpc_msg ∧ rpc_request_unmarshall rpc_msg = some (args, []) ∧
    List.Forall₂ Received led_params args ∧
    rpc_response_marshall rpc_msg led_reply = some (resp.length, resp) ∧ rpc_response_parse resp = some rpc_resp ∧
    rpc_response_unmarshall rpc_resp (call_desc led_params []) (led_params.map Param.arg) =
      some [[3, 0], [111, 110], [1, 2, 3, 9], [], [5, 0, 0, 0]] := by
  obtain ⟨msg, rpc_msg, args, hm, hp, -, hu, hr, hresp⟩ := rpc_transparent 7 led_params [] (by decide) (by decide)
  have hfit : List.Forall₂ (fun p h => HostArg.Fits p h) led_params led_reply := by
    refine .cons (show ¬ (RPC_PARAM_TYPE 2).ptr = true by decide) (.cons ⟨rfl, fun _ => by decide⟩ (.cons ⟨rfl, fun _ => by decide⟩
      (.cons ⟨rfl, fun _ => by decide⟩ (.cons (show ¬ (RPC_PARAM_RETURN 4).ptr = true by decide) .nil))))
  obtain ⟨resp, rpc_resp, hrm, hrp, -, hru⟩ := hresp led_reply hfit
  exact ⟨msg, rpc_msg, args, resp, rpc_resp, hm, hp, hu, hr, hrm, hrp, hru⟩

/-- A call whose request the host answers leaves the host's outputs in the caller's memory. -/
theorem client_call_answered {req_msg resp_msg params : List UInt8} {hs : List HostArg} {n : Nat}
    {host : List UInt8 → Option (List UInt8)}
    (hreq : rpc_request_marshall fcode (call_desc ps rest) (ps.map Param.arg) = some (req_msg.length, req_msg))
    (hlen : response_length (ps.map Param.desc) ≤ INT_MAX) (hfit : List.Forall₂ (fun p h => HostArg.Fits p h) ps hs)
    (hhost : host req_msg = some resp_msg)
    (hresp : rpc_response_marshall ⟨fcode, ps.map Param.desc, params⟩ hs = some (n, resp_msg)) :
    rpc_client_call_generic host fcode (call_desc ps rest) (ps.map Param.arg) = some (List.zipWith stored ps hs) := by
  obtain ⟨resp, rpc_resp, hm, h0, hp, hf, hu⟩ := response_round_trip fcode ps rest params hlen hfit
  cases hm.symm.trans hresp
  simp only [rpc_client_call_generic, hreq, hhost, hp, hf, hu, Option.bind_eq_bind, Option.bind_some]
  rw [if_neg h0, if_pos trivial]

end Call

end Rpc
