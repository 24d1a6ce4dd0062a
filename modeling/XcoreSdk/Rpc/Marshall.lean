import XcoreSdk.Lib.Bytes
/-!
# RPC messages

A call is marshalled by the client, unmarshalled, executed and answered by the
host, and the answer is unmarshalled by the client: four walks over one list
of parameter descriptors. A pointer into a message is the suffix of the
message it points at, and an argument pointer is the memory it points at.
`none` stands for what C does not define: a copy beyond the end of a buffer, a
descriptor list without an end, a message too long for an `int`, a missing
argument, or a failed `xassert`.
-/

namespace Rpc
open Bytes

structure rpc_param_desc_t where
  /-- A 24-bit field. -/
  length : BitVec 24
  ptr : Bool
  input : Bool
  output : Bool
deriving DecidableEq, Repr

def RPC_PARAM_TYPE (size : Nat) : rpc_param_desc_t := ⟨BitVec.ofNat 24 size, false, true, false⟩
def RPC_PARAM_RETURN (size : Nat) : rpc_param_desc_t := ⟨BitVec.ofNat 24 size, false, false, true⟩
def RPC_PARAM_IN_BUFFER (length : BitVec 24) : rpc_param_desc_t := ⟨length, true, true, false⟩
def RPC_PARAM_OUT_BUFFER (length : BitVec 24) : rpc_param_desc_t := ⟨length, true, false, true⟩
def RPC_PARAM_INOUT_BUFFER (length : BitVec 24) : rpc_param_desc_t := ⟨length, true, true, true⟩
def RPC_PARAM_LIST_END : rpc_param_desc_t := ⟨0, false, false, false⟩

/-- The number of bytes of the parameter. -/
def rpc_param_desc_t.size (d : rpc_param_desc_t) : Nat := d.length.toNat

/-- The loops' condition: not the end of the list. -/
def rpc_param_desc_t.used (d : rpc_param_desc_t) : Bool := d.input || d.output

/-- A descriptor in memory: the length in three bytes, the flags in the fourth. -/
def rpc_param_desc_t.bytes (d : rpc_param_desc_t) : List UInt8 :=
  toLE 3 d.length.toNat ++ [UInt8.ofNat (d.ptr.toNat + 2 * d.input.toNat + 4 * d.output.toNat)]

def rpc_param_desc_t.ofBytes (bs : List UInt8) : rpc_param_desc_t where
  length := BitVec.ofNat 24 (ofLE (bs.take 3))
  ptr := (bs.getD 3 0).toNat.testBit 0
  input := (bs.getD 3 0).toNat.testBit 1
  output := (bs.getD 3 0).toNat.testBit 2

/-- What the parse functions fill in. -/
structure rpc_msg_t where
  fcode : BitVec 32
  param_desc : List rpc_param_desc_t
  params : List UInt8

def memcpy (src : List UInt8) (n : Nat) : Option (List UInt8) :=
  if n ≤ src.length then some (src.take n) else none

/-- The step all loops share: a parameter that goes the loop's way is copied,
any other is passed over. -/
def copy_param (copied : Bool) (arg_ptr : List UInt8) (n : Nat) : Option (List UInt8) :=
  if copied then memcpy arg_ptr n else some []

/-- Lengths of messages are of type `int`. -/
def INT_MAX : Nat := 2 ^ 31 - 1

def rtos_osal_malloc (msg_length : Nat) : Option Nat := if msg_length ≤ INT_MAX then some msg_length else none

/-! ## The request -/

/-- The descriptors before the end of the list. -/
def params_before_end : List rpc_param_desc_t → Option (List rpc_param_desc_t)
  | [] => none
  | d :: ds => if d.used then (params_before_end ds).map (d :: ·) else some []

def request_length (descs : List rpc_param_desc_t) : Nat :=
  4 + 4 + 4 * descs.length + (descs.map fun d => if d.input then d.size else 0).sum

/-- The loop that copies the input parameters. -/
def request_params : List rpc_param_desc_t → List (List UInt8) → Option (List UInt8)
  | [], _ => some []
  | _ :: _, [] => none
  | d :: ds, arg_ptr :: ap => do
    let param ← copy_param d.input arg_ptr d.size
    let params ← request_params ds ap
    some (param ++ params)

/-- The message and its length. -/
def rpc_request_marshall (fcode : BitVec 32) (param_desc : List rpc_param_desc_t) (ap : List (List UInt8)) :
    Option (Nat × List UInt8) := do
  let descs ← params_before_end param_desc
  let msg_length ← rtos_osal_malloc (request_length descs)
  let params ← request_params descs ap
  some (msg_length,
    toLE 4 fcode.toNat ++ (toLE 4 descs.length ++ (descs.flatMap rpc_param_desc_t.bytes ++ params)))

/-- `param_desc[0]` to `param_desc[n - 1]`. -/
def read_descs : Nat → List UInt8 → Option (List rpc_param_desc_t)
  | 0, _ => some []
  | n + 1, p => do
    let bs ← memcpy p 4
    let ds ← read_descs n (p.drop 4)
    some (.ofBytes bs :: ds)

def rpc_request_parse (msg_buf : List UInt8) : Option rpc_msg_t := do
  let fcode ← memcpy msg_buf 4
  let msg_buf := msg_buf.drop 4
  let param_count ← memcpy msg_buf 4
  let msg_buf := msg_buf.drop 4
  let param_desc ← read_descs (ofLE param_count) msg_buf
  some ⟨BitVec.ofNat 32 (ofLE fcode), param_desc, msg_buf.drop (4 * ofLE param_count)⟩

/-- What the host's variable for an argument holds after unmarshalling. -/
inductive Arg
  | null
  /-- `NULL+1`. -/
  | invalid
  /-- A pointer into the message. -/
  | ptr (params_ptr : List UInt8)
  | value (bytes : List UInt8)
  | untouched
deriving DecidableEq, Repr

/-- One pass of the loop of `rpc_request_unmarshall`: the argument and the new `params_ptr`. -/
def request_unmarshall_param (d : rpc_param_desc_t) (params_ptr : List UInt8) : Option (Arg × List UInt8) :=
  if d.ptr then
    if d.input then some (if d.size > 0 then .ptr params_ptr else .null, params_ptr.drop d.size)
    else if d.output then some (if d.size = 0 then .null else .invalid, params_ptr)
    else some (.untouched, params_ptr)
  else if d.input then (memcpy params_ptr d.size).map fun bytes => (.value bytes, params_ptr.drop d.size)
  else some (.untouched, params_ptr)

def request_unmarshall_params : List rpc_param_desc_t → List UInt8 → Option (List Arg × List UInt8)
  | [], params_ptr => some ([], params_ptr)
  | d :: ds, params_ptr => do
    let (arg, params_ptr) ← request_unmarshall_param d params_ptr
    let (args, params_ptr) ← request_unmarshall_params ds params_ptr
    some (arg :: args, params_ptr)

/-- The arguments, and where `params_ptr` ends up. -/
def rpc_request_unmarshall (rpc_msg : rpc_msg_t) : Option (List Arg × List UInt8) :=
  request_unmarshall_params rpc_msg.param_desc rpc_msg.params

/-! ## The response -/

/-- An argument of `rpc_response_marshall`: the memory behind a pointer, or an
integer in two's complement. -/
inductive HostArg
  | ptr (mem : List UInt8)
  | value (v : Nat)
deriving DecidableEq, Repr

/-- The bytes `arg_ptr` points at. -/
def response_arg (d : rpc_param_desc_t) : HostArg → Option (List UInt8)
  | .ptr mem => if d.ptr then some mem else none
  | .value v =>
    if d.ptr then none
    else if d.size = 1 then some (toLE 1 (v % 2 ^ 32))
    else if d.size = 2 then some (toLE 2 (v % 2 ^ 32))
    else if d.size = 4 then some (toLE 4 (v % 2 ^ 32))
    else if d.size = 8 then some (toLE 8 (v % 2 ^ 64))
    else none

def response_params : List rpc_param_desc_t → List HostArg → Option (List UInt8)
  | [], _ => some []
  | _ :: _, [] => none
  | d :: ds, arg :: ap => do
    let arg_ptr ← response_arg d arg
    let param ← copy_param d.output arg_ptr d.size
    let params ← response_params ds ap
    some (param ++ params)

def response_length (descs : List rpc_param_desc_t) : Nat :=
  4 + (descs.map fun d => if d.output then d.size else 0).sum

def rpc_response_marshall (rpc_msg : rpc_msg_t) (ap : List HostArg) : Option (Nat × List UInt8) := do
  let msg_length ← rtos_osal_malloc (response_length rpc_msg.param_desc)
  let params ← response_params rpc_msg.param_desc ap
  some (msg_length, toLE 4 rpc_msg.fcode.toNat ++ params)

/-- Only the function code and the parameters are filled in. -/
def rpc_response_parse (msg_buf : List UInt8) : Option rpc_msg_t := do
  let fcode ← memcpy msg_buf 4
  some ⟨BitVec.ofNat 32 (ofLE fcode), [], msg_buf.drop 4⟩

/-- A copy into the beginning of a memory area. -/
def memcpy_into (dst src : List UInt8) (n : Nat) : Option (List UInt8) :=
  if n ≤ dst.length ∧ n ≤ src.length then some (src.take n ++ dst.drop n) else none

/-- The caller's memory after the loop of `rpc_response_unmarshall`. -/
def response_unmarshall_params :
    List rpc_param_desc_t → List UInt8 → List (List UInt8) → Option (List (List UInt8))
  | [], _, ap => some ap
  | _ :: _, _, [] => none
  | d :: ds, params_ptr, arg_ptr :: ap =>
    if d.output then do
      let arg_ptr ← memcpy_into arg_ptr params_ptr d.size
      let ap ← response_unmarshall_params ds (params_ptr.drop d.size) ap
      some (arg_ptr :: ap)
    else (response_unmarshall_params ds params_ptr ap).map (arg_ptr :: ·)

def rpc_response_unmarshall (rpc_msg : rpc_msg_t) (param_desc : List rpc_param_desc_t)
    (ap : List (List UInt8)) : Option (List (List UInt8)) := do
  let descs ← params_before_end param_desc
  response_unmarshall_params descs rpc_msg.params ap

/-- A call from start to end: `host` is what the host makes of the request,
and the caller's memory afterwards is returned. -/
def rpc_client_call_generic (host : List UInt8 → Option (List UInt8)) (fcode : BitVec 32)
    (param_desc : List rpc_param_desc_t) (ap : List (List UInt8)) : Option (List (List UInt8)) := do
  let (_, req_msg) ← rpc_request_marshall fcode param_desc ap
  let resp_msg ← host req_msg
  if resp_msg.length = 0 then none
  else
    let rpc_msg ← rpc_response_parse resp_msg
    if rpc_msg.fcode = fcode then rpc_response_unmarshall rpc_msg param_desc ap else none

end Rpc
