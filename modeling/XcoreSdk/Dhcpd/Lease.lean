import XcoreSdk.Dhcpd.Pool
/-!
# Selecting an address

`dhcpd_client_ip_address_lease`, cut where the source has its two halves:
`lease_known` is the branch for a MAC address that is in the pool, which
either returns or falls through with the requested address to honour, and
`lease_new` is the rest.
-/

namespace Dhcpd
variable (cfg : Config) (env : Env)

/-- DHCP message types, the values of option 53. -/
def DHCP_DISCOVER : Nat := 1
def DHCP_OFFER : Nat := 2
def DHCP_REQUEST : Nat := 3
def DHCP_DECLINE : Nat := 4
def DHCP_ACK : Nat := 5
def DHCP_NAK : Nat := 6
def DHCP_RELEASE : Nat := 7
def DHCP_INFORM : Nat := 8

def zero_ip : in_addr := INADDR_ANY
def bad_ip : in_addr := INADDR_BROADCAST

/-- How a branch of `dhcpd_client_ip_address_lease` ends. -/
inductive Flow
  | ret (ip : in_addr) (s : Server)
  | fall (requested_ip : in_addr) (s : Server)

/-- Marks an address found in use: the entry forgets its MAC address. -/
def mark_unavailable (s : Server) (client : Nat) : Server :=
  dhcp_client_update env (set_mac s client 0) client .UNAVAILABLE cfg.unavailable_ip_probe_interval

/-- The probe before an address is handed out, when probing is enabled. -/
def probe_new (s : Server) : Bool × Server :=
  if cfg.probe_new_ip_addresses then dhcpd_ip_address_in_use env s else (false, s)

def offer (s : Server) (client : Nat) (mac : MACAddress_t) : Server :=
  dhcp_client_update env (set_mac s client mac) client .OFFERED cfg.offer_expiration_time

/-- The client was previously assigned the address of entry `client`. -/
def lease_known (s : Server) (client : Nat) (requested_ip : in_addr) (request_type : Nat) : Flow :=
  let ip := (s.dhcp_ip_infos client).ip
  if request_type = DHCP_REQUEST ∧ ip ≠ requested_ip then .ret bad_ip s
  else if request_type ≠ DHCP_INFORM then
    let expiration := if request_type = DHCP_DISCOVER then cfg.offer_expiration_time else cfg.lease_time
    let state := if request_type = DHCP_DISCOVER then IpState.OFFERED else .LEASED
    let (in_use, s) :=
      if request_type = DHCP_DISCOVER ∧ (s.dhcp_ip_infos client).state ≠ .LEASED then probe_new cfg env s
      else (false, s)
    if in_use then
      .fall (if requested_ip = ip then zero_ip else requested_ip) (mark_unavailable cfg env s client)
    else .ret ip (dhcp_client_update env s client state expiration)
  else if ip = requested_ip then .ret ip (dhcp_client_update env s client .STATIC 0)
  else .fall requested_ip (dhcp_client_update env (set_mac s client 0) client .AVAILABLE 0)

/-- The `for (;;)` loop: offer the oldest disconnected address that is not in
use. Every pass that does not return makes one available entry unavailable. -/
def offer_oldest_loop (mac : MACAddress_t) : Nat → Server → in_addr × Server
  | 0, s => (zero_ip, s)
  | fuel + 1, s =>
    match dhcp_client_get_oldest_disconnected s with
    | none => (zero_ip, s)
    | some client =>
      let (in_use, s) := probe_new cfg env s
      if in_use then offer_oldest_loop mac fuel (mark_unavailable cfg env s client)
      else ((s.dhcp_ip_infos client).ip, offer cfg env s client mac)

/-- One more pass than there are entries. -/
def offer_oldest (mac : MACAddress_t) (s : Server) : in_addr × Server :=
  offer_oldest_loop cfg env mac (s.dhcp_ip_pool.length + 1) s

/-- The requested address, when it is in the pool and available. -/
def requested_client (s : Server) (requested_ip : in_addr) : Option Nat :=
  if requested_ip ≠ zero_ip then
    (dhcp_client_lookup_by_ip s requested_ip).filter fun client => (s.dhcp_ip_infos client).state = .AVAILABLE
  else none

/-- An address has not yet been assigned to this client's MAC address. -/
def lease_new (s : Server) (mac : MACAddress_t) (requested_ip : in_addr) (request_type : Nat) :
    in_addr × Server :=
  if request_type = DHCP_DISCOVER then
    match requested_client s requested_ip with
    | some client =>
      let (in_use, s) := probe_new cfg env s
      if in_use then offer_oldest cfg env mac (mark_unavailable cfg env s client)
      else ((s.dhcp_ip_infos client).ip, offer cfg env s client mac)
    | none => offer_oldest cfg env mac s
  else if request_type = DHCP_INFORM then
    match requested_client s requested_ip with
    | some client =>
      -- the state passed is the value of the comparison `request_type == DHCP_IP_STATE_STATIC`
      ((s.dhcp_ip_infos client).ip,
        dhcp_client_update env (set_mac s client mac) client
          (.ofInt (if request_type = DHCP_IP_STATE_STATIC then 1 else 0)) 0)
    | none => (zero_ip, s)
  else (zero_ip, s)

def dhcpd_client_ip_address_lease (s : Server) (mac : MACAddress_t) (requested_ip : in_addr)
    (request_type : Nat) : in_addr × Server :=
  match dhcp_client_lookup_by_mac s mac with
  | some client =>
    match lease_known cfg env s client requested_ip request_type with
    | .ret ip s => (ip, s)
    | .fall requested_ip s => lease_new cfg env s mac requested_ip request_type
  | none => lease_new cfg env s mac requested_ip request_type

end Dhcpd
