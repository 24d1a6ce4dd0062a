import XcoreSdk.Lib.Machine
/-!
# Bringing the WF200's interfaces up and down

The station and the soft access point each have three bits of the event group: one
that says that the interface is up, and two that report that it went down or could not
be brought up. The callbacks, which the receive task calls for the module's
events, set and clear them, one operation after the other. A task that brings an
interface up or down sends a command and waits for the bits. It holds the WiFi lock
meanwhile, so there is one such call at a time, with calls nested in it.

The functions of the two interfaces differ in the bits only.
-/

namespace Wfx
namespace Interfaces

inductive Interface
  | station
  | ap
deriving DecidableEq

/-- The mode that `WIFI_SetMode` leaves is the other interface's. -/
def Interface.other : Interface → Interface
  | .station => .ap
  | .ap => .station

/-- `SL_WFX_CONNECT`, `SL_WFX_DISCONNECT` and `SL_WFX_CONNECT_FAIL`, or `SL_WFX_START_AP`,
`SL_WFX_STOP_AP` and `SL_WFX_START_AP_FAIL`. -/
structure Bits where
  up : Bool
  down : Bool
  fail : Bool
deriving DecidableEq

/-- What the module reports of an interface. -/
inductive Event
  | success
  | failure
  | down
deriving DecidableEq

/-- What happened, in order: events, each when its callback first touches the bits, and resets,
which clear all bits. -/
inductive Handled
  | event (i : Interface) (event : Event)
  | reset
deriving DecidableEq

/-- Where the receive task is: the operation on the bits that its callback has yet to do. -/
inductive Receive
  | idle
  /-- After a success, the down bit is to be cleared. -/
  | clear_down (i : Interface)
  | set_fail (i : Interface)
  | set_down (i : Interface)
  /-- After a reset, the disconnect callback is to be called. -/
  | disconnect_callback
deriving DecidableEq

/-- Where a task is in `xEventGroupWaitBits`. -/
inductive Wait
  | call
  | waiting
  | timed_out
  | woken (bits : Bits)
deriving DecidableEq

/-- Where a task is in `WIFI_ConnectAP` or `WIFI_StartAP`; `since` is how much had happened when the
command was sent. -/
inductive Connect
  | set_mode
  | check
  | clear
  | send
  | wait (since : Nat) (wait : Wait)
deriving DecidableEq

/-- Where a task is in `WIFI_Disconnect` or `WIFI_StopAP`. -/
inductive Disconnect
  | check
  | send
  | wait (since : Nat) (wait : Wait)
deriving DecidableEq

/-- Who has called `WIFI_Disconnect` or `WIFI_StopAP`: the application, `WIFI_SetMode` for the other
interface, or `WIFI_ConnectAP` or `WIFI_StartAP` of the same one. -/
inductive Within
  | application
  | set_mode
  | connect
deriving DecidableEq

/-- The call that holds the WiFi lock. -/
inductive Call
  | idle
  | connect (i : Interface) (pos : Connect)
  | disconnect (i : Interface) (within : Within) (pos : Disconnect)
  /-- In `WIFI_Reset`: before `WIFI_Off` clears the bits, or before `WIFI_On` does. -/
  | reset (off : Bool)
deriving DecidableEq

/-- What the driver between the two sides returns. -/
inductive Status
  | SL_STATUS_OK
  | SL_STATUS_WIFI_WRONG_STATE
  | other
deriving DecidableEq

/-- A call that has returned `eWiFiSuccess`. -/
structure Returned where
  interface : Interface
  /-- It brought the interface up. -/
  connect : Bool
  /-- How much had happened when the command was sent, or when none was found to be needed. -/
  since : Nat
deriving DecidableEq

structure State where
  bits : Interface → Bits
  receive : Receive
  wifi_mode : Interface
  call : Call
  assert_failed : Bool
  handled : List Handled
  returned : List Returned

/-! ## The event group -/

def State.setBits (s : State) (i : Interface) (bits : Bits) : State :=
  { s with bits := Function.update s.bits i bits }

/-- `xEventGroupSetBits`, after the bits have been set: a wait that they end takes them. -/
def State.wake (s : State) : State :=
  match s.call with
  | .connect i (.wait since .waiting) =>
    if (s.bits i).up || (s.bits i).fail then { s with call := .connect i (.wait since (.woken (s.bits i))) } else s
  | .disconnect i within (.wait since .waiting) =>
    if (s.bits i).down then
      { s.setBits i { s.bits i with down := false } with
        call := .disconnect i within (.wait since (.woken (s.bits i))) }
    else s
  | _ => s

/-! ## The receive task -/

/-- The first operation of `sl_wfx_connect_callback` and `sl_wfx_start_ap_callback`, or
of `sl_wfx_disconnect_callback` and `sl_wfx_stop_ap_callback`. -/
def callback (s : State) (i : Interface) (event : Event) : State :=
  let s := { s with handled := s.handled ++ [Handled.event i event] }
  match event with
  | .success => { s.setBits i { s.bits i with up := true } with receive := .clear_down i }.wake
  | .failure => { s.setBits i { s.bits i with up := false } with receive := .set_fail i }
  | .down => { s.setBits i { s.bits i with up := false } with receive := .set_down i }

/-- The second one. -/
def callback_ends (s : State) : Option State :=
  match s.receive with
  | .idle => none
  | .clear_down i => some { s.setBits i { s.bits i with down := false } with receive := .idle }
  | .set_fail i => some { s.setBits i { s.bits i with fail := true } with receive := .idle }.wake
  | .set_down i => some { s.setBits i { s.bits i with down := true } with receive := .idle }.wake
  | .disconnect_callback => some (callback s .station .down)

def sl_wfx_connect_callback (s : State) (connected : Bool) : State :=
  callback s .station (if connected then .success else .failure)

def sl_wfx_start_ap_callback (s : State) (started : Bool) : State :=
  callback s .ap (if started then .success else .failure)

def sl_wfx_disconnect_callback (s : State) : State := callback s .station .down

def sl_wfx_stop_ap_callback (s : State) : State := callback s .ap .down

/-- All bits are cleared. -/
def State.clear (s : State) : State :=
  { s with bits := fun _ => ⟨false, false, false⟩, handled := s.handled ++ [Handled.reset] }

/-! ## Bringing an interface down -/

def State.ret (s : State) (i : Interface) (connect : Bool) (since : Nat) : State :=
  { s with returned := s.returned ++ [⟨i, connect, since⟩] }

/-- `WIFI_Disconnect` or `WIFI_StopAP` returns `eWiFiSuccess` to its caller. -/
def State.down (s : State) (i : Interface) (within : Within) (since : Nat) : State :=
  let s := s.ret i false since
  match within with
  | .application => { s with call := .idle }
  | .set_mode => { s with wifi_mode := i.other, call := .connect i.other .check }
  | .connect => { s with call := .connect i .clear }

/-- The bits that a wait for the down bit gives; a wait that times out gives them too. -/
def State.take_down (s : State) (i : Interface) (within : Within) (since : Nat) : State :=
  { s.setBits i { s.bits i with down := false } with call := .disconnect i within (.wait since (.woken (s.bits i))) }

/-- The next step of `WIFI_Disconnect` or `WIFI_StopAP`; `status` is what the driver returns, or
whether the lock is taken with the module initialised. -/
def disconnect_step (s : State) (i : Interface) (within : Within) (status : Status) : Disconnect → Option State
  | .check =>
    if status = .SL_STATUS_OK then
      if (s.bits i).up then some { s with call := .disconnect i within .send }
      else some (s.down i within s.handled.length)
    else some { s with call := .idle }
  | .send =>
    match status with
    | .SL_STATUS_OK => some { s with call := .disconnect i within (.wait s.handled.length .call) }
    | .SL_STATUS_WIFI_WRONG_STATE => some { s with call := .reset true }
    | .other => some { s with call := .idle }
  | .wait since .call =>
    if (s.bits i).down then some (s.take_down i within since)
    else some { s with call := .disconnect i within (.wait since .waiting) }
  | .wait _ .waiting => none
  | .wait since .timed_out => some (s.take_down i within since)
  | .wait since (.woken bits) =>
    if bits.down then some (s.down i within since) else some { s with call := .reset true }

/-! ## Bringing an interface up -/

/-- The next step of `WIFI_ConnectAP` or `WIFI_StartAP`. -/
def connect_step (s : State) (i : Interface) (status : Status) : Connect → Option State
  | .set_mode =>
    if status = .SL_STATUS_OK then
      if s.wifi_mode = i then some { s with call := .connect i .check }
      else some { s with call := .disconnect i.other .set_mode .check }
    else some { s with call := .idle }
  | .check =>
    if (s.bits i).up then some { s with call := .disconnect i .connect .check }
    else some { s with call := .connect i .clear }
  | .clear => some { s.setBits i { s.bits i with fail := false } with
      call := .connect i .send
      assert_failed := s.assert_failed || (s.bits i).up }
  | .send =>
    match status with
    | .SL_STATUS_OK => some { s with call := .connect i (.wait s.handled.length .call) }
    | .SL_STATUS_WIFI_WRONG_STATE => some { s with call := .reset true }
    | .other => some { s with call := .idle }
  | .wait since .call =>
    if (s.bits i).up || (s.bits i).fail then some { s with call := .connect i (.wait since (.woken (s.bits i))) }
    else some { s with call := .connect i (.wait since .waiting) }
  | .wait _ .waiting => none
  | .wait since .timed_out => some { s with call := .connect i (.wait since (.woken (s.bits i))) }
  | .wait since (.woken bits) =>
    if bits.up then some { s.ret i true since with call := .idle }
    else if bits.fail then some { s with call := .idle }
    else some { s with call := .reset true }

/-- The next step of the call that holds the lock. `WIFI_Off` and `WIFI_On` clear the bits only where
they get that far. -/
def call_step (s : State) (status : Status) : Option State :=
  match s.call with
  | .idle => none
  | .connect i pos => connect_step s i status pos
  | .disconnect i within pos => disconnect_step s i within status pos
  | .reset true => some { (if status = .SL_STATUS_OK then s.clear else s) with call := .reset false }
  | .reset false =>
    if status = .SL_STATUS_OK then some { s.clear with call := .idle, wifi_mode := .station }
    else some { s with call := .idle }

def wait_timeout (s : State) : Option State :=
  match s.call with
  | .connect i (.wait since .waiting) => some { s with call := .connect i (.wait since .timed_out) }
  | .disconnect i within (.wait since .waiting) =>
    some { s with call := .disconnect i within (.wait since .timed_out) }
  | _ => none

/-! ## The calls -/

def begins (s : State) (call : Call) : Option State :=
  if s.call = .idle then some { s with call } else none

def WIFI_ConnectAP (s : State) : Option State := begins s (.connect .station .set_mode)

def WIFI_StartAP (s : State) : Option State := begins s (.connect .ap .set_mode)

def WIFI_Disconnect (s : State) : Option State := begins s (.disconnect .station .application .check)

def WIFI_StopAP (s : State) : Option State := begins s (.disconnect .ap .application .check)

def WIFI_Reset (s : State) : Option State := begins s (.reset true)

/-! ## Runs -/

inductive Action
  | WIFI_ConnectAP
  | WIFI_StartAP
  | WIFI_Disconnect
  | WIFI_StopAP
  | WIFI_Reset
  | call (status : Status)
  | timeout
  | connect_event (connected : Bool)
  | start_ap_event (started : Bool)
  | disconnect_event
  | stop_ap_event
  /-- The receive task resets the module, which starts it anew and clears the bits. -/
  | reset
  | receive

/-- The receive task takes the next event. -/
def State.receives (s : State) (s' : State) : Option State :=
  if s.receive = .idle then some s' else none

def step (s : State) : Action → Option State
  | .WIFI_ConnectAP => WIFI_ConnectAP s
  | .WIFI_StartAP => WIFI_StartAP s
  | .WIFI_Disconnect => WIFI_Disconnect s
  | .WIFI_StopAP => WIFI_StopAP s
  | .WIFI_Reset => WIFI_Reset s
  | .call status => call_step s status
  | .timeout => wait_timeout s
  | .connect_event connected => s.receives (sl_wfx_connect_callback s connected)
  | .start_ap_event started => s.receives (sl_wfx_start_ap_callback s started)
  | .disconnect_event => s.receives (sl_wfx_disconnect_callback s)
  | .stop_ap_event => s.receives (sl_wfx_stop_ap_callback s)
  | .reset => s.receives { s.clear with receive := .disconnect_callback }
  | .receive => callback_ends s

def State.init : State :=
  ⟨fun _ => ⟨false, false, false⟩, .idle, .station, .idle, false, [], []⟩

/-- The tasks that call the WiFi functions, and the receive task. -/
def machine : Machine State Action where
  init s := s = .init
  step := step

end Interfaces
end Wfx
