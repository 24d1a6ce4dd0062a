import XcoreSdk.Lib.Machine
import XcoreSdk.Wifi.Heapsort
/-!
# The access points that the WiFi connection manager knows

The cache is an array of entries and an array of pointers to them, the active
ones first. A pointer is the index of its entry. An `int` that overflows is taken
to wrap around.
-/

namespace Wifi

def MAX_SCAN_COUNT : Nat := 20
def MAX_CONNECTION_ATTEMPTS : Nat := 3
def CACHED_AP_COUNT : Nat := 2 * MAX_SCAN_COUNT
def AP_CACHE_ENTRY_MAX_AGE : Int := 5
def RSSI_HISTORY_LENGTH : Nat := 16
def wificonfigMAX_SSID_LEN : Nat := 32

/-- The value of an `int` expression. -/
def int (x : Int) : Int := x.bmod (2 ^ 32)

abbrev Bssid := Vector UInt8 6

def no_bssid : Bssid := Vector.replicate 6 0

/-- A string, in a buffer that may be longer. -/
abbrev Ssid := List UInt8

/-- Whether `strncmp` finds no difference. -/
def strncmp_eq (s t : Ssid) (n : Nat) : Bool :=
  (s.take n).takeWhile (· ≠ 0) == (t.take n).takeWhile (· ≠ 0)

/-- `ap_info_t`. -/
structure ApInfo where
  age : Int
  associated_profile : Option Nat
  rssi_hist : List Int8
  rssi : Int
  rrsi_index : Nat
  stable : Bool
  bssid : Bssid
  channel : Int8
  connect_failed : Nat
deriving DecidableEq

/-- `WIFIScanResult_t`. -/
structure ScanResult where
  cSSID : Ssid
  ucBSSID : Bssid
  cRSSI : Int8
  cChannel : Int8
deriving DecidableEq

/-- `scan_list_t`. -/
structure ScanList where
  ap_cache_count : Nat
  saved_profiles : List Ssid
  cached_aps : Nat → ApInfo
  sorted_aps : Nat → Nat

/-- The entry that a pointer points to. -/
def ScanList.ap (s : ScanList) (i : Nat) : ApInfo := s.cached_aps (s.sorted_aps i)

/-- The entry is written through the pointer. -/
def ScanList.set_ap (s : ScanList) (i : Nat) (ap : ApInfo) : ScanList :=
  { s with cached_aps := Function.update s.cached_aps (s.sorted_aps i) ap }

/-! ## Order -/

def ap_cmp (s : ScanList) (a b : Nat) : Int :=
  if (s.ap a).age = 0 then 1
  else if (s.ap b).age = 0 then -1
  else if (s.ap a).rssi > (s.ap b).rssi then -1
  else 1

def ap_swap (s : ScanList) (a b : Nat) : ScanList :=
  { s with sorted_aps := Function.update (Function.update s.sorted_aps a (s.sorted_aps b)) b (s.sorted_aps a) }

/-! ## Entries -/

def find_ap_in_cache (s : ScanList) (scan_result : ScanResult) : Option Nat :=
  (List.range s.ap_cache_count).find? fun i => (s.ap i).age > 0 ∧ scan_result.ucBSSID = (s.ap i).bssid

def update_ap_rssi (ap : ApInfo) (rssi : Int8) : ApInfo :=
  let rssi_hist := ap.rssi_hist.set ap.rrsi_index rssi
  let full := ap.rrsi_index + 1 = RSSI_HISTORY_LENGTH
  { ap with
    rssi_hist
    rrsi_index := if full then 0 else ap.rrsi_index + 1
    stable := full ∨ ap.stable
    rssi := (rssi_hist.map Int8.toInt).sum.tdiv RSSI_HISTORY_LENGTH }

def update_ap_in_cache (s : ScanList) (scan_result : ScanResult) (cache_index : Nat) : ScanList :=
  s.set_ap cache_index
    (update_ap_rssi { s.ap cache_index with age := 1, channel := scan_result.cChannel } scan_result.cRSSI)

def add_ap_to_cache (s : ScanList) (scan_result : ScanResult) : ScanList :=
  match (List.range CACHED_AP_COUNT).find? fun i => (s.ap i).age = 0 with
  | none => s
  | some i => s.set_ap i
    { bssid := scan_result.ucBSSID
      rssi_hist := List.replicate RSSI_HISTORY_LENGTH scan_result.cRSSI
      rssi := scan_result.cRSSI.toInt
      rrsi_index := 0
      channel := scan_result.cChannel
      connect_failed := 0
      stable := false
      age := 1
      associated_profile := s.saved_profiles.findIdx? fun cSSID => strncmp_eq scan_result.cSSID cSSID wificonfigMAX_SSID_LEN }

/-! ## A scan -/

/-- The active entries grow older. `none`: the assertion has failed. -/
def age_aps : Nat → ScanList → Option ScanList
  | 0, s => some s
  | i + 1, s => (age_aps i s).bind fun s =>
    if (s.ap i).age > 0 then some (s.set_ap i { s.ap i with age := int ((s.ap i).age + 1) }) else none

/-- The results up to the first without an address. -/
def scanned (scan_results : List ScanResult) : List ScanResult :=
  (scan_results.take MAX_SCAN_COUNT).takeWhile (·.ucBSSID ≠ no_bssid)

def take_result (s : ScanList) (scan_result : ScanResult) : ScanList :=
  match find_ap_in_cache s scan_result with
  | some i => update_ap_in_cache s scan_result i
  | none => add_ap_to_cache s scan_result

/-- Too old entries become inactive, up to the first that is inactive. -/
def expire_aps : Nat → Nat → ScanList → Nat × ScanList
  | 0, i, s => (i, s)
  | left + 1, i, s =>
    if (s.ap i).age > AP_CACHE_ENTRY_MAX_AGE then expire_aps left (i + 1) (s.set_ap i { s.ap i with age := 0 })
    else if (s.ap i).age = 0 then (i, s)
    else expire_aps left (i + 1) s

def count_aps (s : ScanList) : Nat := ((List.range CACHED_AP_COUNT).takeWhile fun i => (s.ap i).age > 0).length

/-- `scan_networks` with what `WIFI_Scan` gives, if it succeeds. -/
def scan_networks (s : ScanList) (scan_results : Option (List ScanResult)) : Option (Int × ScanList) :=
  (age_aps s.ap_cache_count s).map fun s =>
    match scan_results with
    | none => (-1, s)
    | some scan_results =>
      let (i, s) := expire_aps CACHED_AP_COUNT 0 ((scanned scan_results).foldl take_result s)
      let s := heapsort ap_cmp ap_swap s i
      (0, { s with ap_cache_count := count_aps s })

/-! ## The connection manager -/

/-- With the outcomes of the calls of `WIFI_ConnectAP`. -/
def connect_to_network (ap : ApInfo) (connected : Nat → Bool) : Int × ApInfo :=
  if ap.associated_profile ≠ none ∧ ap.connect_failed < MAX_CONNECTION_ATTEMPTS then
    if (List.range MAX_CONNECTION_ATTEMPTS).any connected then (0, { ap with connect_failed := 0 })
    else if ap.age = 1 then (-1, { ap with connect_failed := ap.connect_failed + 1 })
    else (-1, { ap with age := AP_CACHE_ENTRY_MAX_AGE })
  else (-1, ap)

def zeroed : ApInfo := ⟨0, none, List.replicate RSSI_HISTORY_LENGTH 0, 0, 0, false, no_bssid, 0, 0⟩

/-- With the profiles that `WIFI_NetworkGet` gives. -/
def reset_scan_search_list_and_ap_cache (profiles : List Ssid) : ScanList :=
  ⟨0, profiles.take MAX_SCAN_COUNT, fun _ => zeroed, id⟩

inductive Act
  | scan (scan_results : Option (List ScanResult))
  /-- An attempt to connect to an active entry. -/
  | connect (i : Nat) (connected : Nat → Bool)
  /-- The signal strength of the entry that was connected to, which may be any by now. -/
  | signal (p : Nat) (rssi : Int8)
  | reload (profiles : List Ssid)

def manager : Machine ScanList Act where
  init s := ∃ profiles, s = reset_scan_search_list_and_ap_cache profiles
  step s
    | .scan scan_results => (scan_networks s scan_results).map Prod.snd
    | .connect i connected =>
      if i < s.ap_cache_count then some (s.set_ap i (connect_to_network (s.ap i) connected).2) else none
    | .signal p rssi =>
      if p < CACHED_AP_COUNT then
        some { s with cached_aps := Function.update s.cached_aps p (update_ap_rssi (s.cached_aps p) rssi) }
      else none
    | .reload profiles => some (reset_scan_search_list_and_ap_cache profiles)

end Wifi
