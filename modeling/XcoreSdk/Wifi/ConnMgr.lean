import XcoreSdk.Wifi.ApCache
/-!
# The WiFi connection manager

The loop of the task, between the points where it learns something: a scan, an
attempt to connect, the answer of the application, the signal strength and the
notifications. A pointer to an entry of the cache is the entry's index.
-/

namespace Wifi
namespace ConnMgr

def MAX_CONNECTION_ATTEMPTS_BEFORE_CALLBACK : Nat := 5
def MAX_SCAN_ATTEMPTS : Nat := 3
def POOR_CONNECTION_RSSI_THRESHOLD : Int := -70

inductive Mode
  | STATION
  | SOFT_AP
  deriving DecidableEq

/-- The bits of a notification. -/
structure Bits where
  NOTIFY_NETWORK_DOWN : Bool
  NOTIFY_WIFI_RESET : Bool
  NOTIFY_WIFI_PROFILES_UPDATED : Bool

/-- Where the task is. -/
inductive Pc
  | top
  | scan (scan_attempts : Nat)
  | scanned
  | connect (i : Nat)
  | report
  | signal
  | soft_ap
  | wait
  | network_down
  /-- A null pointer has been followed. -/
  | fault
  deriving DecidableEq

/-- `bssid` is the address last connected to. -/
structure State where
  scan_list : ScanList
  connected_ap : Option Nat
  failed_connection_attempts : Nat
  mode : Mode
  perform_connection : Bool
  poor_signal : Bool
  initiate_disconnect : Bool
  pc : Pc
  bssid : Option Bssid

inductive Act
  | loop
  | scan (scan_results : Option (List ScanResult))
  /-- The outcomes of the calls of `WIFI_ConnectAP`. -/
  | connect (connected : Nat → Bool)
  /-- What the application's callback returns. -/
  | callback (mode : Mode)
  | signal (rcpi : Option UInt32)
  /-- The bits, unless the time is up, and the profiles that `WIFI_NetworkGet` gives. -/
  | notify (bits : Option Bits) (profiles : List Ssid)
  | network_down (WIFI_IsConnected : Bool) (mode : Mode)

/-- Whether one of the entries from `i` on is worth leaving `connected_ap` for. -/
def better_ap (s : ScanList) (connected_ap : Nat) : Nat → Nat → Bool
  | 0, _ => false
  | left + 1, i =>
    if s.sorted_aps i ≠ connected_ap ∧ (s.ap i).connect_failed < MAX_CONNECTION_ATTEMPTS ∧
        (s.ap i).associated_profile ≠ none ∧ (s.ap i).stable = true ∧
        (s.cached_aps connected_ap).rssi + 10 < (s.ap i).rssi then true
    else if (s.ap i).rssi ≤ (s.cached_aps connected_ap).rssi then false
    else better_ap s connected_ap left (i + 1)

/-- `sl_wfx_get_signal_strength` gives an unsigned number of half decibels. -/
def rssi_of (rcpi : UInt32) : Int8 := Int8.ofInt ((int (int rcpi.toNat - 220)).tdiv 2)

/-- From the head of the loop to the scan. -/
def begin_loop (s : State) : State :=
  let s := { s with initiate_disconnect := false }
  match s.mode with
  | .STATION =>
    let perform_connection := s.connected_ap.isNone
    let poor_signal := match s.connected_ap with
      | some p => (s.scan_list.cached_aps p).stable && (s.scan_list.cached_aps p).rssi < POOR_CONNECTION_RSSI_THRESHOLD
      | none => false
    { s with
      perform_connection, poor_signal
      pc := if (perform_connection ∨ poor_signal) ∧ 0 < s.scan_list.saved_profiles.length then .scan 0 else .scanned }
  | .SOFT_AP => { s with pc := .soft_ap }

/-- After the scan, if there was one. -/
def after_scan (s : State) : State :=
  if s.poor_signal then
    match s.connected_ap with
    | some p =>
      if better_ap s.scan_list p s.scan_list.ap_cache_count 0 then
        { s with perform_connection := true, initiate_disconnect := true, connected_ap := none, pc := .connect 0 }
      else { s with pc := if s.perform_connection then .connect 0 else .signal }
    | none => { s with pc := .fault }
  else { s with pc := if s.perform_connection then .connect 0 else .signal }

/-- One attempt to connect, or the end of the loop over the active entries. -/
def attempt (s : State) (i : Nat) (connected : Nat → Bool) : State :=
  if i < s.scan_list.ap_cache_count then
    let (ret, ap) := connect_to_network (s.scan_list.ap i) connected
    let s := { s with scan_list := s.scan_list.set_ap i ap }
    if ret ≠ -1 then
      { s with connected_ap := some (s.scan_list.sorted_aps i), bssid := some ap.bssid, pc := .report }
    else { s with pc := .connect (i + 1) }
  else { s with pc := .report }

/-- The application is told how the attempts have ended. -/
def report (s : State) (mode : Mode) : State :=
  match s.connected_ap with
  | none =>
    if s.failed_connection_attempts + 1 = MAX_CONNECTION_ATTEMPTS_BEFORE_CALLBACK ∨
        s.scan_list.saved_profiles.length = 0 then
      { s with failed_connection_attempts := 0, mode, pc := .soft_ap }
    else { s with failed_connection_attempts := s.failed_connection_attempts + 1, pc := .soft_ap }
  | some p =>
    if (s.scan_list.cached_aps p).associated_profile = none then { s with pc := .fault }
    else { s with failed_connection_attempts := 0, pc := .soft_ap }

def signal_strength (s : State) (rcpi : Option UInt32) : State :=
  match rcpi, s.connected_ap with
  | none, _ => { s with pc := .soft_ap }
  | some _, none => { s with pc := .fault }
  | some rcpi, some p =>
    { s with
      scan_list := { s.scan_list with
        cached_aps := Function.update s.scan_list.cached_aps p (update_ap_rssi (s.scan_list.cached_aps p) (rssi_of rcpi)) }
      pc := .soft_ap }

def notified (s : State) (bits : Bits) (profiles : List Ssid) : State :=
  if bits.NOTIFY_WIFI_RESET then { s with connected_ap := none, pc := .top }
  else
    { s with
      scan_list := if bits.NOTIFY_WIFI_PROFILES_UPDATED then reset_scan_search_list_and_ap_cache profiles else s.scan_list
      pc := if bits.NOTIFY_NETWORK_DOWN then .network_down else .top }

def network_down (s : State) (WIFI_IsConnected : Bool) (mode : Mode) : State :=
  match s.mode with
  | .STATION =>
    if WIFI_IsConnected then { s with pc := .top }
    else if s.initiate_disconnect then { s with connected_ap := none, pc := .top }
    else
      -- the callback is given the SSID of the profile, if there is a connected access point
      match s.connected_ap with
      | some p =>
        if (s.scan_list.cached_aps p).associated_profile = none then { s with pc := .fault }
        else { s with mode, connected_ap := none, pc := .top }
      | none => { s with mode, connected_ap := none, pc := .top }
  | .SOFT_AP =>
    if WIFI_IsConnected then { s with pc := .top }
    else { s with mode, connected_ap := if mode = .SOFT_AP then s.connected_ap else none, pc := .top }

/-- `wifi_conn_mgr`, once the network task is ready and the application has chosen the mode. -/
def wifi_conn_mgr : Machine State Act where
  init s := ∃ profiles mode,
    s = ⟨reset_scan_search_list_and_ap_cache profiles, none, 0, mode, false, false, false, .top, none⟩
  step s a :=
    match s.pc, a with
    | .top, .loop => some (begin_loop s)
    | .scan scan_attempts, .scan scan_results =>
      (scan_networks s.scan_list scan_results).map fun (ret, scan_list) =>
        { s with
          scan_list
          pc := if ret ≠ 0 ∧ scan_attempts + 1 < MAX_SCAN_ATTEMPTS then .scan (scan_attempts + 1) else .scanned }
    | .scanned, .loop => some (after_scan s)
    | .connect i, .connect connected => some (attempt s i connected)
    | .report, .callback mode => some (report s mode)
    | .signal, .signal rcpi => some (signal_strength s rcpi)
    | .soft_ap, .loop => some { s with pc := .wait }
    | .wait, .notify none _ => some { s with pc := .top }
    | .wait, .notify (some bits) profiles => some (notified s bits profiles)
    | .network_down, .network_down WIFI_IsConnected mode => some (network_down s WIFI_IsConnected mode)
    | _, _ => none

end ConnMgr
end Wifi
