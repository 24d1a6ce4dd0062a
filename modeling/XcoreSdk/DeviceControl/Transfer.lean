import XcoreSdk.DeviceControl.Resources
import XcoreSdk.FreeRtos.Osal
import XcoreSdk.Lib.Machine
/-!
# Device control: requests and transfers

The task of the transport layer makes a request and then a transfer. The
transfer hands a command to the servicer's queue, or sends it to the client
thread of the servicer's tile, which hands it over there; the servicer calls
back and answers. A link carries whole messages, one after the other, as it
does when nobody else uses it; a command's structure travels as it is.
-/

namespace DeviceControl
open FreeRtos
variable {S L σ : Type*}

/-- A servicer's callbacks, with its application data. A read callback has a
buffer of the requested length to write to. -/
structure Callbacks (σ : Type*) where
  read_cmd_cb : UInt8 → UInt8 → List UInt8 → σ → control_ret_t × List UInt8 × σ
  write_cmd_cb : UInt8 → UInt8 → List UInt8 → σ → control_ret_t × σ
  read_length : ∀ resid cmd payload app_data, (read_cmd_cb resid cmd payload app_data).2.1.length = payload.length

/-- What a command's payload pointer points to. -/
inductive Payload
  /-- The buffer of the transfer. -/
  | host
  /-- A buffer that the client thread has allocated, or received. -/
  | own (bytes : List UInt8)
deriving DecidableEq

structure cmd_to_servicer_t (S L : Type*) where
  /-- The instance to answer: the host's, or the client's at the end of a link. -/
  dev_ctrl_ctx : Option L
  queue : S
  payload_len : Nat
  resid : UInt8
  cmd : UInt8
  payload : Payload
deriving DecidableEq

/-- `sizeof(cmd_to_servicer_t)`. -/
def cmd_size : Nat := 20

/-- `sizeof(control_ret_t)`. -/
def ret_size : Nat := 4

/-- A run of a callback: what it was called with, what it returned and wrote. -/
structure Callback (S : Type*) where
  servicer : S
  read : Bool
  resid : UInt8
  cmd : UInt8
  payload : List UInt8
  ret : control_ret_t
  written : List UInt8
deriving DecidableEq

/-- `device_control_payload_transfer` while it carries out a command. -/
structure Pending (S L : Type*) where
  entry : ServicerEntry S L
  resid : UInt8
  cmd : UInt8
  payload_len : Nat
  /-- The buffer it was called with. -/
  given : List UInt8
  direction : control_direction_t
deriving DecidableEq

inductive Host (S L : Type*)
  | idle
  | send (t : Pending S L)
  | wait (t : Pending S L)

inductive Client (S L : Type*)
  | receive
  | send (c : cmd_to_servicer_t S L)

inductive Servicer (S L : Type*)
  | receive
  | call (c : cmd_to_servicer_t S L)
  | respond (c : cmd_to_servicer_t S L) (ret : control_ret_t)

/-- A transfer that has returned: the last request's parameters, the buffer and
direction it was called with, what it returned, and the callbacks that ran
since the transfer before it. -/
structure Result (S : Type*) where
  resid : UInt8
  cmd : UInt8
  payload_len : Nat
  given : List UInt8
  direction : control_direction_t
  ret : control_ret_t
  payload_buf : List UInt8
  buf_size : Nat
  calls : List (Callback S)
deriving DecidableEq

/-- The queues, the links and the threads that serve them. -/
structure Traffic (S L : Type*) where
  gateway_queue : List control_ret_t
  queue : S → List (cmd_to_servicer_t S L)
  to_client : L → List (cmd_to_servicer_t S L × List UInt8)
  to_host : L → List (control_ret_t × List UInt8)
  client : L → Client S L
  servicer : S → Servicer S L

structure State (S L σ : Type*) where
  ctx : device_control_t S L
  /-- The parameters of the last request. -/
  request : UInt8 × UInt8 × Nat
  payload_buf : List UInt8
  host : Host S L
  net : Traffic S L
  app_data : S → σ
  calls : List (Callback S)
  results : List (Result S)

/-! ## The host's functions -/

def device_control_request (ctx : device_control_t S L) (resid cmd : UInt8) (payload_len : Nat) :
    control_ret_t × device_control_t S L :=
  let ctx := { ctx with requested_resid := resid }
  if (resource_table_search ctx.resource_table resid).1 = 0 then
    (.CONTROL_SUCCESS, { ctx with requested_cmd := cmd, requested_payload_len := payload_len })
  else (.CONTROL_BAD_COMMAND, ctx)

/-- The payload has the one byte that these commands write. -/
def special_read_command (ctx : device_control_t S L) (cmd : UInt8) (payload : List UInt8) (payload_len : Nat) :
    control_ret_t × List UInt8 :=
  if cmd = CONTROL_GET_VERSION then
    if payload_len ≠ 1 then (.CONTROL_BAD_COMMAND, payload) else (.CONTROL_SUCCESS, payload.set 0 CONTROL_VERSION)
  else if cmd = CONTROL_GET_LAST_COMMAND_STATUS then
    if payload_len ≠ 1 then (.CONTROL_BAD_COMMAND, payload) else (.CONTROL_SUCCESS, payload.set 0 ctx.last_status)
  else (.CONTROL_BAD_COMMAND, payload)

/-- What `device_control_payload_transfer` decides to do. -/
inductive Decision
  | command (servicer : UInt8)
  | refuse (ret : control_ret_t)
  | ignore

def decide_transfer (ctx : device_control_t S L) (buf_size : Nat) (direction : control_direction_t) : Decision :=
  if (resource_table_search ctx.resource_table ctx.requested_resid).1 = 0 then
    if (direction = .CONTROL_DEVICE_TO_HOST ∧ IS_CONTROL_CMD_READ ctx.requested_cmd) ∨
        (direction = .CONTROL_HOST_TO_DEVICE ∧ ¬ IS_CONTROL_CMD_READ ctx.requested_cmd) then
      if ctx.requested_payload_len ≤ buf_size then
        .command (resource_table_search ctx.resource_table ctx.requested_resid).2
      else .refuse .CONTROL_DATA_LENGTH_ERROR
    else if 0 < buf_size then .refuse .CONTROL_BAD_COMMAND
    else .ignore
  else .refuse .CONTROL_BAD_COMMAND

/-- The transfer returns, with this status and this buffer. -/
def finish (s : State S L σ) (given : List UInt8) (direction : control_direction_t) (ret : control_ret_t)
    (payload_buf : List UInt8) (buf_size : Nat) : State S L σ :=
  { s with
    payload_buf
    host := .idle
    calls := []
    results := s.results ++ [⟨s.request.1, s.request.2.1, s.request.2.2, given, direction, ret, payload_buf, buf_size, s.calls⟩] }

def State.save (s : State S L σ) (ret : control_ret_t) : State S L σ :=
  { s with ctx := { s.ctx with last_status := ret.status } }

/-- `*buf_size` after a command. -/
def size_after (direction : control_direction_t) (requested_payload_len buf_size : Nat) : Nat :=
  match direction with
  | .CONTROL_DEVICE_TO_HOST => requested_payload_len
  | .CONTROL_HOST_TO_DEVICE => buf_size

/-- `device_control_payload_transfer`, up to the sending of a command. -/
def device_control_payload_transfer (s : State S L σ) (payload_buf : List UInt8) (direction : control_direction_t) :
    Option (State S L σ) :=
  match decide_transfer s.ctx payload_buf.length direction with
  | .refuse ret => some ((finish s payload_buf direction ret payload_buf payload_buf.length).save ret)
  | .ignore => some (finish s payload_buf direction .CONTROL_SUCCESS payload_buf payload_buf.length)
  | .command servicer =>
    if s.ctx.requested_resid = CONTROL_SPECIAL_RESID then
      let done := if IS_CONTROL_CMD_READ s.ctx.requested_cmd then
          special_read_command s.ctx s.ctx.requested_cmd payload_buf s.ctx.requested_payload_len
        else (.CONTROL_BAD_COMMAND, payload_buf)
      some ((finish s payload_buf direction done.1 done.2
        (size_after direction s.ctx.requested_payload_len payload_buf.length)).save done.1)
    else (s.ctx.servicer_table servicer.toNat).map fun entry => { s with
      payload_buf
      host := .send ⟨entry, s.ctx.requested_resid, s.ctx.requested_cmd, s.ctx.requested_payload_len, payload_buf,
        direction⟩ }

variable [DecidableEq S] [DecidableEq L]

/-- The end of `do_command` and of the transfer. -/
def command_done (s : State S L σ) (t : Pending S L) (ret : control_ret_t) (payload_buf : List UInt8) : State S L σ :=
  (finish s t.given t.direction ret payload_buf (size_after t.direction t.payload_len payload_buf.length)).save ret

/-- `do_command` sends the command, and takes the answer. -/
def host_step (s : State S L σ) : Option (State S L σ) :=
  match s.host with
  | .idle => none
  | .send t =>
    let c : cmd_to_servicer_t S L := ⟨none, t.entry.queue, t.payload_len, t.resid, t.cmd, .host⟩
    match t.entry.intertile_ctx with
    | none => (rtos_osal_queue_send 1 (s.net.queue t.entry.queue) c).map fun queue => { s with
        net := { s.net with queue := Function.update s.net.queue t.entry.queue queue }
        host := .wait t }
    | some l =>
      let buf := if IS_CONTROL_CMD_READ t.cmd then [] else s.payload_buf.take t.payload_len
      some { s with
        net := { s.net with to_client := Function.update s.net.to_client l (s.net.to_client l ++ [(c, buf)]) }
        host := .wait t }
  | .wait t =>
    match t.entry.intertile_ctx with
    | none => (rtos_osal_queue_receive s.net.gateway_queue).map fun (ret, gateway_queue) =>
        command_done { s with net := { s.net with gateway_queue } } t ret s.payload_buf
    | some l =>
      match s.net.to_host l with
      | [] => none
      | (ret, payload) :: rest =>
        let s := { s with net := { s.net with to_host := Function.update s.net.to_host l rest } }
        -- the assertions on the length of the answer
        if IS_CONTROL_CMD_READ t.cmd then
          if t.payload_len = ret_size + payload.length - ret_size then
            some (command_done s t ret (payload ++ s.payload_buf.drop t.payload_len))
          else none
        else if ret_size + payload.length = ret_size then some (command_done s t ret s.payload_buf)
        else none

/-! ## The other threads -/

/-- `device_control_client_thread` on the tile at the end of link `l`; `mem` is
what it gets from the allocator for a read. -/
def client_step (s : State S L σ) (l : L) (mem : List UInt8) : Option (State S L σ) :=
  match s.net.client l with
  | .receive =>
    match s.net.to_client l with
    | [] => none
    | (c, buf) :: rest =>
      let msg_length := cmd_size + buf.length
      let net := { s.net with to_client := Function.update s.net.to_client l rest }
      let c := { c with dev_ctrl_ctx := some l }
      if IS_CONTROL_CMD_READ c.cmd then
        if msg_length = cmd_size ∧ 0 < c.payload_len ∧ mem.length = c.payload_len then some { s with
          net := { net with client := Function.update s.net.client l (.send { c with payload := .own mem }) } }
        else none
      else if cmd_size ≤ msg_length ∧ c.payload_len = msg_length - cmd_size then some { s with
        net := { net with client := Function.update s.net.client l (.send { c with payload := .own buf }) } }
      else none
  | .send c => (rtos_osal_queue_send 1 (s.net.queue c.queue) c).map fun queue => { s with
      net := { s.net with
        queue := Function.update s.net.queue c.queue queue
        client := Function.update s.net.client l .receive } }

/-- The bytes at a command's payload pointer. -/
def State.payload (s : State S L σ) (c : cmd_to_servicer_t S L) : List UInt8 :=
  match c.payload with
  | .host => s.payload_buf.take c.payload_len
  | .own bytes => bytes.take c.payload_len

/-- The servicer's callback runs. -/
def run_callback (cb : S → Callbacks σ) (s : State S L σ) (servicer : S) (c : cmd_to_servicer_t S L) : State S L σ :=
  if IS_CONTROL_CMD_READ c.cmd then
    let r := (cb servicer).read_cmd_cb c.resid c.cmd (s.payload c) (s.app_data servicer)
    let s : State S L σ := { s with
      app_data := Function.update s.app_data servicer r.2.2
      calls := s.calls ++ [⟨servicer, true, c.resid, c.cmd, s.payload c, r.1, r.2.1⟩] }
    match c.payload with
    | .host => { s with
        payload_buf := r.2.1 ++ s.payload_buf.drop c.payload_len
        net := { s.net with servicer := Function.update s.net.servicer servicer (.respond c r.1) } }
    | .own _ => { s with
        net := { s.net with servicer := Function.update s.net.servicer servicer (.respond { c with payload := .own r.2.1 } r.1) } }
  else
    let r := (cb servicer).write_cmd_cb c.resid c.cmd (s.payload c) (s.app_data servicer)
    { s with
      app_data := Function.update s.app_data servicer r.2
      calls := s.calls ++ [⟨servicer, false, c.resid, c.cmd, s.payload c, r.1, []⟩]
      net := { s.net with servicer := Function.update s.net.servicer servicer (.respond c r.1) } }

/-- `device_control_servicer_cmd_recv`. -/
def servicer_step (cb : S → Callbacks σ) (s : State S L σ) (servicer : S) : Option (State S L σ) :=
  match s.net.servicer servicer with
  | .receive => (rtos_osal_queue_receive (s.net.queue servicer)).map fun (c, queue) => { s with
      net := { s.net with
        queue := Function.update s.net.queue servicer queue
        servicer := Function.update s.net.servicer servicer (.call c) } }
  | .call c => some (run_callback cb s servicer c)
  | .respond c ret =>
    let net := { s.net with servicer := Function.update s.net.servicer servicer .receive }
    match c.dev_ctrl_ctx with
    -- the gateway queue is asserted to have room
    | none => (rtos_osal_queue_send 1 s.net.gateway_queue ret).map fun gateway_queue =>
        { s with net := { net with gateway_queue } }
    | some l =>
      let payload := if IS_CONTROL_CMD_READ c.cmd then s.payload c else []
      some { s with net := { net with to_host := Function.update s.net.to_host l (s.net.to_host l ++ [(ret, payload)]) } }

/-! ## All together -/

inductive Act (S L : Type*)
  | request (resid cmd : UInt8) (payload_len : Nat)
  | transfer (payload_buf : List UInt8) (direction : control_direction_t)
  | host
  | client (l : L) (mem : List UInt8)
  | servicer (s : S)

/-- Nothing is on its way. -/
def Traffic.quiet : Traffic S L :=
  ⟨[], fun _ => [], fun _ => [], fun _ => [], fun _ => .receive, fun _ => .receive⟩

/-- The host and its servicers after a registration. As many servicers have
registered as the host was told of: no message of another one is waiting. -/
def device_control (cb : S → Callbacks σ) (servicer_count : Nat)
    (polls : List (Option (servicer_init_data_t S × Option L))) : Machine (State S L σ) (Act S L) where
  init s := device_control_resources_register (device_control_init servicer_count) polls = (.CONTROL_SUCCESS, s.ctx) ∧
    s.request = (s.ctx.requested_resid, s.ctx.requested_cmd, s.ctx.requested_payload_len) ∧
    s.host = .idle ∧ s.net = .quiet ∧ s.calls = [] ∧ s.results = []
  step s
    | .request resid cmd payload_len =>
      match s.host with
      | .idle => some { s with
          ctx := (device_control_request s.ctx resid cmd payload_len).2, request := (resid, cmd, payload_len) }
      | _ => none
    | .transfer payload_buf direction =>
      match s.host with
      | .idle => device_control_payload_transfer s payload_buf direction
      | _ => none
    | .host => host_step s
    | .client l mem => client_step s l mem
    | .servicer servicer => servicer_step cb s servicer

/-- Reads from other tiles ask for at least one byte. -/
def Allowed (s : State S L σ) : Act S L → Prop
  | .transfer _ .CONTROL_DEVICE_TO_HOST => IS_CONTROL_CMD_READ s.ctx.requested_cmd →
      ∀ entry ∈ s.ctx.servicer_table (s.ctx.resource_table s.ctx.requested_resid).toNat,
        entry.intertile_ctx.isSome → 0 < s.ctx.requested_payload_len
  | _ => True

instance (s : State S L σ) : ∀ a, Decidable (Allowed s a)
  | .transfer _ .CONTROL_DEVICE_TO_HOST => inferInstanceAs (Decidable (_ → ∀ entry ∈ (_ : Option _), _ → _))
  | .transfer _ .CONTROL_HOST_TO_DEVICE | .request .. | .host | .client .. | .servicer _ => isTrue trivial

end DeviceControl
