import XcoreSdk.Lib.Bytes
import XcoreSdk.Lib.Machine
/-!
# GPIO interrupts over RPC

A port's interrupt is serviced on the host tile, on one of its cores. When the
callback there is `rtos_gpio_rpc_host_isr`, the port and its value are put on
the channel end of the client tile, as a byte, a word and a `PAUSE` token. On the
client tile an interrupt routine inputs them and calls what the application has
registered for the port. Any task of the client may set callbacks and enable or
disable interrupts at any time.

A `PAUSE` token frees the route to the other tile and is not delivered.
-/

namespace Gpio

def RTOS_GPIO_TOTAL_PORT_CNT : Nat := 32

def port_valid (port_id : Nat) : Bool := port_id < RTOS_GPIO_TOTAL_PORT_CNT

/-- The callbacks on the host tile: the RPC's for this client, or another client's or application's. -/
inductive Callback
  | rtos_gpio_rpc_host_isr
  | other
deriving DecidableEq

inductive Interrupt
  | disabled
  | enabled
  | disable_pending
deriving DecidableEq

/-- `rtos_gpio_isr_info_t` on the host tile. -/
structure HostInfo where
  callback : Callback
  enabled : Interrupt

/-- `rtos_gpio_isr_info_t` on the client tile, of which only these are used. -/
structure IsrInfo (κ δ : Type*) where
  callback : κ
  isr_app_data : δ
deriving DecidableEq

/-- Where the interrupt routine of a port is: what it does next. -/
inductive HostIsr
  | idle
  | out_byte (value : UInt32)
  | out_word (value : UInt32)
  | out_control_token (value : UInt32)
  | set_trigger_value (value : UInt32)
deriving DecidableEq

/-- Where the client's interrupt routine is. -/
inductive ClientIsr (κ δ : Type*)
  | idle
  | in_word (port_id : Nat)
  | lookup (port_id : Nat) (value : UInt32)
  | callback (port_id : Nat) (value : UInt32) (info : IsrInfo κ δ)

/-- The remote procedures that have to do with interrupts. -/
inductive Request
  | isr_callback_set (port_id : Nat)
  | interrupt_enable (port_id : Nat)
  | interrupt_disable (port_id : Nat)

structure Host where
  isr_info : Nat → Option HostInfo
  /-- Whether the port's trigger is enabled. -/
  trigger : Nat → Bool
  isr : Nat → HostIsr

structure Client (ι κ δ : Type*) where
  isr_info : Nat → Option (IsrInfo κ δ)
  isr : ClientIsr κ δ
  /-- The call that a task is about to make to the host. -/
  request : ι → Option Request
  /-- Set by an access through `NULL` or outside `isr_info`. -/
  fault : Bool

/-- A report that has been sent, and how many times its port's callback had been set before. -/
structure Report where
  port_id : Nat
  value : UInt32
  since : Nat
deriving DecidableEq

structure Call (κ δ : Type*) where
  port_id : Nat
  value : UInt32
  info : IsrInfo κ δ
deriving DecidableEq

/-- What has happened so far. -/
structure Trace (κ δ : Type*) where
  /-- The values for which the RPC's callback was called, of each port. -/
  raised : Nat → List UInt32
  reported : List Report
  /-- The ports with which `isr_info` was indexed by the client's interrupt routine. -/
  indexed : List Nat
  called : List (Call κ δ)
  /-- What has been registered for each port. -/
  registered : Nat → List (IsrInfo κ δ)

structure State (ι κ δ : Type*) where
  host : Host
  /-- The tokens on their way to the client tile. -/
  wire : List UInt8
  client : Client ι κ δ
  trace : Trace κ δ

variable {ι κ δ : Type*} [DecidableEq ι] (core : Nat → Nat)

/-! ## The host tile -/

def gpio_local_isr_callback_set (h : Host) (port_id : Nat) (cb : Callback) : Host :=
  let info := ⟨cb, ((h.isr_info port_id).map HostInfo.enabled).getD .disabled⟩
  { h with isr_info := Function.update h.isr_info port_id (some info) }

def gpio_local_interrupt_enable (h : Host) (port_id : Nat) : Host :=
  match h.isr_info port_id with
  | none => h
  | some info => { h with
      isr_info := Function.update h.isr_info port_id (some { info with enabled := .enabled })
      trigger := if info.enabled = .disabled then Function.update h.trigger port_id true else h.trigger }

def gpio_local_interrupt_disable (h : Host) (port_id : Nat) : Host :=
  match h.isr_info port_id with
  | none => h
  | some info =>
    if info.enabled = .disabled then h
    else { h with isr_info := Function.update h.isr_info port_id (some { info with enabled := .disable_pending }) }

/-- The host's RPC thread serves a request. -/
def Host.serve (h : Host) : Request → Host
  | .isr_callback_set port_id => gpio_local_isr_callback_set h port_id .rtos_gpio_rpc_host_isr
  | .interrupt_enable port_id => gpio_local_interrupt_enable h port_id
  | .interrupt_disable port_id => gpio_local_interrupt_disable h port_id

/-- No interrupt routine runs on the core that services the port. -/
def Host.CoreIdle (h : Host) (port_id : Nat) : Prop :=
  ∀ p < RTOS_GPIO_TOTAL_PORT_CNT, core p = core port_id → h.isr p = .idle

instance (h : Host) (port_id : Nat) : Decidable (h.CoreIdle core port_id) :=
  inferInstanceAs (Decidable (∀ p < RTOS_GPIO_TOTAL_PORT_CNT, core p = core port_id → h.isr p = .idle))

/-- A port has triggered with `value`: the critical section of `rtos_gpio_isr`. -/
def rtos_gpio_isr (s : State ι κ δ) (port_id : Nat) (value : UInt32) : Option (State ι κ δ) :=
  if port_valid port_id ∧ s.host.trigger port_id ∧ s.host.CoreIdle core port_id then
    match s.host.isr_info port_id with
    | none => none
    | some info =>
      match info.enabled with
      | .disable_pending => some { s with host := { s.host with
          isr_info := Function.update s.host.isr_info port_id (some { info with enabled := .disabled })
          trigger := Function.update s.host.trigger port_id false } }
      | .enabled | .disabled =>
        match info.callback with
        | .rtos_gpio_rpc_host_isr => some { s with
            host := { s.host with isr := Function.update s.host.isr port_id (.out_byte value) }
            trace := { s.trace with
              raised := Function.update s.trace.raised port_id (s.trace.raised port_id ++ [value]) } }
        | .other => some { s with
            host := { s.host with isr := Function.update s.host.isr port_id (.set_trigger_value value) } }
  else none

/-- `chanend_out_word`: the most significant byte first. -/
def word_tokens (value : UInt32) : List UInt8 := Bytes.toBE 4 value.toNat

/-- The next step of `rtos_gpio_rpc_host_isr`, and the end of `rtos_gpio_isr` after it. -/
def rtos_gpio_rpc_host_isr (s : State ι κ δ) (port_id : Nat) : Option (State ι κ δ) :=
  match s.host.isr port_id with
  | .idle => none
  | .out_byte value => some { s with
      host := { s.host with isr := Function.update s.host.isr port_id (.out_word value) }
      wire := s.wire ++ [UInt8.ofNat port_id]
      trace := { s.trace with
        reported := s.trace.reported ++ [⟨port_id, value, (s.trace.registered port_id).length⟩] } }
  | .out_word value => some { s with
      host := { s.host with isr := Function.update s.host.isr port_id (.out_control_token value) }
      wire := s.wire ++ word_tokens value }
  | .out_control_token value => some { s with
      host := { s.host with isr := Function.update s.host.isr port_id (.set_trigger_value value) } }
  | .set_trigger_value _ => some { s with
      host := { s.host with isr := Function.update s.host.isr port_id .idle } }

/-! ## The client tile -/

/-- The critical section of `gpio_remote_isr_callback_set`. -/
def gpio_remote_isr_callback_set (s : State ι κ δ) (t : ι) (port_id : Nat) (info : IsrInfo κ δ) :
    Option (State ι κ δ) :=
  match s.client.request t with
  | some _ => none
  | none =>
    if port_valid port_id then some { s with
      client := { s.client with
        isr_info := Function.update s.client.isr_info port_id (some info)
        request := Function.update s.client.request t (some (.isr_callback_set port_id)) }
      trace := { s.trace with
        registered := Function.update s.trace.registered port_id (s.trace.registered port_id ++ [info]) } }
    else none

/-- A task calls `gpio_remote_interrupt_enable` or `gpio_remote_interrupt_disable`,
for a port whose callback it has set before. -/
def gpio_remote_interrupt (s : State ι κ δ) (t : ι) (port_id : Nat) (request : Request) : Option (State ι κ δ) :=
  match s.client.request t with
  | some _ => none
  | none =>
    if port_valid port_id ∧ (s.host.isr_info port_id).isSome then
      some { s with client := { s.client with request := Function.update s.client.request t (some request) } }
    else none

/-- The call that a task is about to make is served. -/
def rpc_client_call (s : State ι κ δ) (t : ι) : Option (State ι κ δ) :=
  (s.client.request t).map fun request => { s with
    host := s.host.serve request
    client := { s.client with request := Function.update s.client.request t none } }

/-- The next step of the client's interrupt routine. -/
def rtos_gpio_rpc_client_isr (s : State ι κ δ) : Option (State ι κ δ) :=
  match s.client.isr with
  | .idle =>
    match s.wire with
    | [] => none
    | b :: wire => some { s with wire, client := { s.client with isr := .in_word b.toNat } }
  | .in_word port_id =>
    if 4 ≤ s.wire.length then some { s with
      wire := s.wire.drop 4
      client := { s.client with isr := .lookup port_id (UInt32.ofNat (Bytes.ofBE (s.wire.take 4))) } }
    else none
  | .lookup port_id value =>
    let trace := { s.trace with indexed := s.trace.indexed ++ [port_id] }
    match if port_valid port_id then s.client.isr_info port_id else none with
    | none => some { s with client := { s.client with isr := .idle, fault := true }, trace }
    | some info => some { s with client := { s.client with isr := .callback port_id value info }, trace }
  | .callback port_id value info => some { s with
      client := { s.client with isr := .idle }
      trace := { s.trace with called := s.trace.called ++ [⟨port_id, value, info⟩] } }

/-! ## Runs -/

inductive Action (ι κ δ : Type*)
  | isr_callback_set (t : ι) (port_id : Nat) (info : IsrInfo κ δ)
  | interrupt_enable (t : ι) (port_id : Nat)
  | interrupt_disable (t : ι) (port_id : Nat)
  | rpc (t : ι)
  /-- The host's application or another client sets the callback of a port. -/
  | other_callback_set (port_id : Nat)
  | isr (port_id : Nat) (value : UInt32)
  | host (port_id : Nat)
  | client

def step (s : State ι κ δ) : Action ι κ δ → Option (State ι κ δ)
  | .isr_callback_set t port_id info => gpio_remote_isr_callback_set s t port_id info
  | .interrupt_enable t port_id => gpio_remote_interrupt s t port_id (.interrupt_enable port_id)
  | .interrupt_disable t port_id => gpio_remote_interrupt s t port_id (.interrupt_disable port_id)
  | .rpc t => rpc_client_call s t
  | .other_callback_set port_id => some { s with host := gpio_local_isr_callback_set s.host port_id .other }
  | .isr port_id value => rtos_gpio_isr core s port_id value
  | .host port_id => rtos_gpio_rpc_host_isr s port_id
  | .client => rtos_gpio_rpc_client_isr s

def State.init : State ι κ δ where
  host := ⟨fun _ => none, fun _ => false, fun _ => .idle⟩
  wire := []
  client := ⟨fun _ => none, .idle, fun _ => none, false⟩
  trace := ⟨fun _ => [], [], [], [], fun _ => []⟩

/-- Interrupts on the host tile, `core` says which core services a port's, and the
tasks `ι` of the client tile. -/
def machine : Machine (State ι κ δ) (Action ι κ δ) where
  init s := s = .init
  step := step core

end Gpio
