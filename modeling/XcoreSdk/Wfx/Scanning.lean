import XcoreSdk.Lib.Machine
/-!
# Scanning for access points

`WIFI_Scan` leaves the address and the size of its caller's buffer in static variables,
sends the command and waits for `SL_WFX_SCAN_COMPLETE`. The receive task calls one callback
for each result, which writes to the buffer that the variables say, and one at
the end of the scan, which sets the bit. The variables and the bit outlive the call.

Scans are numbered in the order in which their commands are sent.
-/

namespace Wfx
namespace Scanning

/-! ## Results -/

/-- The security modes of a result; `other` says that a bit is set that nothing asks for. -/
structure SecurityMode where
  wep : Bool
  wpa : Bool
  wpa2 : Bool
  psk : Bool
  eap : Bool
  other : Bool
deriving DecidableEq

/-- What the callback reads of `sl_wfx_scan_result_ind_body_t`. -/
structure Body where
  ssid : List UInt8
  ssid_length : Nat
  mac : List UInt8
  channel : BitVec 16
  rcpi : BitVec 16
  security_mode : SecurityMode
deriving DecidableEq

inductive WIFISecurity_t
  | eWiFiSecurityOpen
  | eWiFiSecurityWEP
  | eWiFiSecurityWPA
  | eWiFiSecurityWPA2
  | eWiFiSecurityWPA2_ent
  | eWiFiSecurityNotSupported
deriving DecidableEq

structure WIFIScanResult_t where
  cSSID : List UInt8
  ucBSSID : List UInt8
  xSecurity : WIFISecurity_t
  cRSSI : BitVec 8
  cChannel : BitVec 8
  ucHidden : UInt8
deriving DecidableEq

def wificonfigMAX_SSID_LEN : Nat := 32

def wificonfigMAX_BSSID_LEN : Nat := 6

/-- What `memset` leaves. -/
def WIFIScanResult_t.zero : WIFIScanResult_t :=
  ⟨List.replicate (wificonfigMAX_SSID_LEN + 1) 0, List.replicate wificonfigMAX_BSSID_LEN 0, .eWiFiSecurityOpen, 0, 0, 0⟩

/-- `memcpy` to the beginning of an array. -/
def memcpy (dest src : List UInt8) (len : Nat) : List UInt8 := src.take len ++ dest.drop len

def SecurityMode.xSecurity (mode : SecurityMode) : WIFISecurity_t :=
  if mode = ⟨false, false, false, false, false, false⟩ then .eWiFiSecurityOpen
  else
    let xSecurity := .eWiFiSecurityNotSupported
    let xSecurity := if mode.wep then .eWiFiSecurityWEP else xSecurity
    let xSecurity := if mode.wpa then .eWiFiSecurityWPA else xSecurity
    if mode.wpa2 then
      if mode.psk then .eWiFiSecurityWPA2 else if mode.eap then .eWiFiSecurityWPA2_ent else xSecurity
    else xSecurity

/-- What the callback makes of one element of the buffer. -/
def WIFIScanResult_t.take (old : WIFIScanResult_t) (scan_result : Body) : WIFIScanResult_t :=
  let ssid_len := min scan_result.ssid_length wificonfigMAX_SSID_LEN
  { cSSID := memcpy old.cSSID scan_result.ssid ssid_len
    ucBSSID := memcpy old.ucBSSID scan_result.mac wificonfigMAX_BSSID_LEN
    cChannel := scan_result.channel.setWidth 8
    ucHidden := if ssid_len = 0 then 1 else 0
    cRSSI := BitVec.ofInt 8 ((scan_result.rcpi.toInt - 220).tdiv 2)
    xSecurity := scan_result.security_mode.xSecurity }

/-! ## The state -/

/-- An indication that has been handled, with its scan's number. -/
inductive Handled
  | result (scan : Nat) (body : Body)
  | complete (scan : Nat)
deriving DecidableEq

/-- Where the receive task is in `sl_wfx_scan_result_callback`, after it has found room. -/
inductive Receive
  | idle
  | write (scan : Nat) (body : Body)
  | count (scan : Nat) (body : Body)
deriving DecidableEq

/-- Where the task is in `xEventGroupWaitBits`, and in the end whether it was given the bit. -/
inductive Wait
  | call
  | waiting
  | timed_out
  | woken (complete : Bool)
deriving DecidableEq

/-- Where the task is in `WIFI_Scan`. -/
inductive Pos
  | set_results
  | set_max_count
  | set_count
  | clear
  | send
  /-- The module has the command. -/
  | sent (scan : Nat)
  | wait (scan : Nat) (wait : Wait)
deriving DecidableEq

/-- The call that holds the lock. -/
structure Call where
  pxBuffer : Nat
  ucNumNetworks : UInt8
  pos : Pos
deriving DecidableEq

/-- A call that has returned `eWiFiSuccess`, with what its buffer held and how many indications had
been handled. -/
structure Returned where
  scan : Nat
  ucNumNetworks : UInt8
  contents : List WIFIScanResult_t
  handled : Nat
deriving DecidableEq

/-- A write of the callback, with the call that was there. -/
structure Write where
  address : Nat
  call : Option Call
deriving DecidableEq

structure State where
  /-- Addresses count elements. -/
  scan_results : Nat
  scan_result_max_count : UInt8
  scan_count : Nat
  /-- `SL_WFX_SCAN_COMPLETE`. -/
  complete : Bool
  memory : Nat → WIFIScanResult_t
  receive : Receive
  call : Option Call
  /-- Commands that have been sent. -/
  sent : Nat
  handled : List Handled
  writes : List Write
  returned : List Returned

/-! ## The receive task -/

/-- Up to where the callback has found room. -/
def sl_wfx_scan_result_callback (s : State) (scan : Nat) (scan_result : Body) : State :=
  if s.scan_count < s.scan_result_max_count.toNat then { s with receive := .write scan scan_result }
  else { s with handled := s.handled ++ [Handled.result scan scan_result] }

/-- The rest of the callback. -/
def scan_result_step (s : State) : Option State :=
  match s.receive with
  | .idle => none
  | .write scan body =>
    let address := s.scan_results + s.scan_count
    some { s with
      memory := Function.update s.memory address ((s.memory address).take body)
      writes := s.writes ++ [⟨address, s.call⟩]
      receive := .count scan body }
  | .count scan body =>
    some { s with
      scan_count := s.scan_count + 1
      handled := s.handled ++ [Handled.result scan body]
      receive := .idle }

/-- `xEventGroupSetBits` clears the bit for a task that waits for it. -/
def sl_wfx_scan_complete_callback (s : State) (scan : Nat) : State :=
  let s := { s with handled := s.handled ++ [Handled.complete scan] }
  match s.call with
  | some ⟨pxBuffer, ucNumNetworks, .wait current .waiting⟩ =>
    { s with complete := false, call := some ⟨pxBuffer, ucNumNetworks, .wait current (.woken true)⟩ }
  | _ => { s with complete := true }

/-! ## `WIFI_Scan` -/

/-- It takes the lock. -/
def WIFI_Scan (s : State) (pxBuffer : Nat) (ucNumNetworks : UInt8) : Option State :=
  if s.call = none then some { s with call := some ⟨pxBuffer, ucNumNetworks, .set_results⟩ } else none

/-- A wait, or one that has timed out, takes the bit. -/
def State.take_complete (s : State) (call : Call) (scan : Nat) : State :=
  { s with complete := false, call := some { call with pos := .wait scan (.woken s.complete) } }

def State.contents (s : State) (call : Call) : List WIFIScanResult_t :=
  (List.range call.ucNumNetworks.toNat).map fun i => s.memory (call.pxBuffer + i)

/-- The next step of the call; `ok` says whether the command was confirmed. -/
def scan_step (s : State) (call : Call) (ok : Bool) : Option State :=
  match call.pos with
  | .set_results =>
    some { s with scan_results := call.pxBuffer, call := some { call with pos := .set_max_count } }
  | .set_max_count =>
    some { s with scan_result_max_count := call.ucNumNetworks, call := some { call with pos := .set_count } }
  | .set_count => some { s with scan_count := 0, call := some { call with pos := .clear } }
  | .clear => some { s with
      memory := fun address =>
        if call.pxBuffer ≤ address ∧ address < call.pxBuffer + call.ucNumNetworks.toNat then .zero else s.memory address
      call := some { call with pos := .send } }
  | .send => some { s with sent := s.sent + 1, call := some { call with pos := .sent s.sent } }
  | .sent scan =>
    if ok then some { s with call := some { call with pos := .wait scan .call } } else some { s with call := none }
  | .wait scan .call =>
    if s.complete then some (s.take_complete call scan)
    else some { s with call := some { call with pos := .wait scan .waiting } }
  | .wait _ .waiting => none
  | .wait scan .timed_out => some (s.take_complete call scan)
  | .wait scan (.woken complete) =>
    if complete then some { s with
      returned := s.returned ++ [⟨scan, call.ucNumNetworks, s.contents call, s.handled.length⟩]
      call := none }
    else some { s with call := none }

def wait_timeout (s : State) (call : Call) : Option State :=
  match call.pos with
  | .wait scan .waiting => some { s with call := some { call with pos := .wait scan .timed_out } }
  | _ => none

/-! ## Runs -/

inductive Action
  | WIFI_Scan (pxBuffer : Nat) (ucNumNetworks : UInt8)
  | call (ok : Bool)
  | timeout
  /-- An indication of a scan whose command has been sent. -/
  | result (scan : Nat) (body : Body)
  | complete (scan : Nat)
  | receive
  /-- A reset clears all bits. -/
  | reset

def step (s : State) : Action → Option State
  | .WIFI_Scan pxBuffer ucNumNetworks => WIFI_Scan s pxBuffer ucNumNetworks
  | .call ok => s.call.bind fun call => scan_step s call ok
  | .timeout => s.call.bind fun call => wait_timeout s call
  | .result scan body =>
    if s.receive = .idle ∧ scan < s.sent then some (sl_wfx_scan_result_callback s scan body) else none
  | .complete scan =>
    if s.receive = .idle ∧ scan < s.sent then some (sl_wfx_scan_complete_callback s scan) else none
  | .receive => scan_result_step s
  | .reset => some { s with complete := false }

/-- Any memory, and no call yet. -/
def State.init (memory : Nat → WIFIScanResult_t) : State :=
  ⟨0, 0, 0, false, memory, .idle, none, 0, [], [], []⟩

/-- The tasks that scan, one at a time, and the receive task. -/
def machine : Machine State Action where
  init s := ∃ memory, s = .init memory
  step := step

end Scanning
end Wfx
