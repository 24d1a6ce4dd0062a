import XcoreSdk.FreeRtos.List
import XcoreSdk.Lib.Bytes
import Mathlib.Data.List.Nodup
import Mathlib.Data.List.Perm.Basic
/-!
# The DHCP server's address pool

The data of `dhcpd.c` and the functions that read and move pool entries.
`dhcp_ip_infos` is an array of entries, and `dhcp_ip_pool` is the FreeRTOS
list of their indices: an index plays the part of a `dhcp_ip_info_t *`.

Time and the network are the environment `Env`. The clock advances by any
amount before each `rtos_time_get` (a probe may take seconds, an idle server
may wait for hours), so the server only ever sees `Server.now` when it reads
it; each `dhcpd_ip_address_in_use` consumes the next probe outcome.
-/

namespace Dhcpd

/-- An IPv4 address, the first octet being the most significant byte. -/
abbrev in_addr := BitVec 32
abbrev MACAddress_t := BitVec 48

def INADDR_ANY : in_addr := 0
def INADDR_BROADCAST : in_addr := BitVec.allOnes 32

/-- `DHCP_IP_STATE_*`. -/
inductive IpState
  | AVAILABLE | LEASED | OFFERED | STATIC | UNAVAILABLE
deriving DecidableEq, Repr

/-- The state an `int` denotes. -/
def IpState.ofInt : Nat → IpState
  | 0 => .AVAILABLE
  | 1 => .LEASED
  | 2 => .OFFERED
  | 3 => .STATIC
  | _ => .UNAVAILABLE

/-- `DHCP_IP_STATE_STATIC` as the `int` it is. -/
def DHCP_IP_STATE_STATIC : Nat := 3

structure dhcp_ip_info_t where
  ip : in_addr
  state : IpState
  mac : MACAddress_t
  /-- The value of the entry's list item: when the entry expires. -/
  item_value : Nat
deriving DecidableEq, Repr

/-- The macros of `dhcpd.h` and the network configuration. -/
structure Config where
  lease_time : Nat := 600
  offer_expiration_time : Nat := 10
  probe_new_ip_addresses : Bool := true
  unavailable_ip_probe_interval : Nat := 300
  network_mtu : Nat := 1500
  server_ip : in_addr
  netmask : in_addr
  gateway : in_addr
  dns : in_addr × in_addr
  ip_pool_start : in_addr
  ip_pool_end : in_addr

/-- How far the clock advances before each reading, and what each probe finds. -/
structure Env where
  elapsed : Nat → Nat
  in_use : Nat → Bool

/-- The server's state, and how much of the environment it has seen. -/
structure Server where
  dhcp_ip_infos : Nat → dhcp_ip_info_t
  dhcp_ip_pool : List Nat
  now : Nat
  readings : Nat
  probes : Nat

variable (cfg : Config) (env : Env)

/-- The seconds of `rtos_time_get()`. -/
def rtos_time_get (s : Server) : Nat × Server :=
  (s.now + env.elapsed s.readings, { s with now := s.now + env.elapsed s.readings, readings := s.readings + 1 })

def dhcpd_ip_address_in_use (s : Server) : Bool × Server :=
  (env.in_use s.probes, { s with probes := s.probes + 1 })

def Server.setInfo (s : Server) (client : Nat) (info : dhcp_ip_info_t) : Server :=
  { s with dhcp_ip_infos := Function.update s.dhcp_ip_infos client info }

/-- `client->mac = mac` (or its `memset` to zero). -/
def set_mac (s : Server) (client : Nat) (mac : MACAddress_t) : Server :=
  s.setInfo client { s.dhcp_ip_infos client with mac := mac }

/-- The item values the list is sorted by. -/
def Server.value (s : Server) (client : Nat) : Nat := (s.dhcp_ip_infos client).item_value

def dhcp_client_update (s : Server) (client : Nat) (state : IpState) (expiration : Nat) : Server :=
  let (now, s) := rtos_time_get env s
  let s := s.setInfo client
    { s.dhcp_ip_infos client with item_value := (now + expiration) % 2 ^ 32, state := state }
  { s with dhcp_ip_pool := FreeRtos.vListInsert s.value client (FreeRtos.uxListRemove client s.dhcp_ip_pool) }

/-- The first pool entry that satisfies `p`: the loop of the three lookups. -/
def Server.lookup (s : Server) (p : dhcp_ip_info_t → Bool) : Option Nat :=
  s.dhcp_ip_pool.find? fun client => p (s.dhcp_ip_infos client)

def dhcp_client_lookup_by_mac (s : Server) (mac : MACAddress_t) : Option Nat :=
  s.lookup fun client => client.mac = mac

def dhcp_client_lookup_by_ip (s : Server) (ip : in_addr) : Option Nat :=
  s.lookup fun client => client.ip = ip

def dhcp_client_get_oldest_disconnected (s : Server) : Option Nat :=
  s.lookup fun client => client.state = .AVAILABLE

/-- One pass of the loop of `dhcp_client_release_expired_leases`, at the
cursor `item`. At the end marker the loop reads an owner that is not there:
harmless while the marker's value lies in the future, else `none`. -/
def release_expired_visit (now : Nat) (s : Server) (item : Option Nat) : Option Server :=
  if FreeRtos.listGET_LIST_ITEM_VALUE s.value item ≤ now then
    match item with
    | none => none
    | some client =>
      let info := s.dhcp_ip_infos client
      if info.state = .LEASED ∨ info.state = .OFFERED then
        some (s.setInfo client { info with state := .AVAILABLE })
      else if cfg.unavailable_ip_probe_interval ≠ 0 ∧ info.state = .UNAVAILABLE then
        let (in_use, s) := dhcpd_ip_address_in_use env s
        if in_use then
          some (dhcp_client_update env s client .UNAVAILABLE cfg.unavailable_ip_probe_interval)
        else
          some (s.setInfo client { info with state := .AVAILABLE })
      else some s
  else some s

/-- The loop: `n` more passes from the cursor `item`. The successor of an
item is read after its pass, in the list as the pass left it. -/
def release_expired_loop (now : Nat) : Nat → Server → Option Nat → Option Server
  | 0, s, _ => some s
  | n + 1, s, item =>
    (release_expired_visit cfg env now s item).bind fun s =>
      release_expired_loop now n s (FreeRtos.listGET_NEXT s.dhcp_ip_pool item)

def dhcp_client_release_expired_leases (s : Server) : Option Server :=
  let (now, s) := rtos_time_get env s
  release_expired_loop cfg env now s.dhcp_ip_pool.length s (FreeRtos.listGET_HEAD_ENTRY s.dhcp_ip_pool)

/-! ## Creating the pool -/

/-- Addresses that `dhcpd_ip_address_pool_next_valid` skips. -/
def Config.skips (ip : in_addr) : Bool :=
  ip.toNat % 256 = 0 || ip.toNat % 256 = 255 || ip = cfg.server_ip || ip = cfg.gateway ||
    ip = cfg.dns.1 || ip = cfg.dns.2

/-- The `for` loop of `dhcpd_ip_address_pool_next_valid` at `ipval`: the valid
address found and the new `*pool`, or `INADDR_ANY` past the end of the pool.
`none` when `fuel` passes were not enough; the `uint32_t` counter wraps. -/
def next_valid_loop (pool : in_addr) : Nat → BitVec 32 → Option (in_addr × in_addr)
  | 0, _ => none
  | fuel + 1, ipval =>
    if ipval ≤ cfg.ip_pool_end then
      if ipval < cfg.ip_pool_start then
        -- `ipval` becomes the start less one, and the loop's increment undoes that
        next_valid_loop pool fuel (cfg.ip_pool_start - 1 + 1)
      else if cfg.skips ipval then next_valid_loop pool fuel (ipval + 1)
      else some (ipval, ipval + 1)
    else some (INADDR_ANY, pool)

/-- Two rounds of the counter: enough for every search that ends. -/
def next_valid_fuel : Nat := 2 ^ 33

def dhcpd_ip_address_pool_next_valid (pool : in_addr) : Option (in_addr × in_addr) :=
  next_valid_loop cfg pool next_valid_fuel pool

/-- `n` more passes of the loop of `dhcpd_ip_pool_init`, at entry `i`. -/
def ip_pool_init_loop : Nat → Nat → in_addr → Server → Option Server
  | 0, _, _, s => some s
  | n + 1, i, pool, s =>
    let (now, s) := rtos_time_get env s
    (dhcpd_ip_address_pool_next_valid cfg pool).bind fun (ip, pool) =>
      if ip = INADDR_ANY then some s
      else
        let s := s.setInfo i ⟨ip, .AVAILABLE, 0, now % 2 ^ 32⟩
        ip_pool_init_loop n (i + 1) pool { s with dhcp_ip_pool := FreeRtos.vListInsert s.value i s.dhcp_ip_pool }

/-- The zeroed `dhcp_ip_infos` and the empty list, at time `now`. -/
def Server.zeroed (now : Nat) : Server := ⟨fun _ => ⟨0, .AVAILABLE, 0, 0⟩, [], now, 0, 0⟩

/-- The pool of `cfg`, created at time `now`; `none` when the search for the
next valid address never ends. -/
def dhcpd_ip_pool_init (now : Nat) : Option Server :=
  ip_pool_init_loop cfg env (cfg.ip_pool_end - cfg.ip_pool_start).toNat 0 cfg.ip_pool_start (.zeroed now)

/-- No one bit behind the first zero bit, from the most significant bit on. -/
def netmask_valid (netmask : in_addr) : Bool :=
  (((List.range 32).reverse.map fun i => netmask.getLsbD i).dropWhile (· = true)).all (· = false)

def ip_netmask_compare (addr1 addr2 mask : in_addr) : Bool := addr1 &&& mask = addr2 &&& mask

/-- The server's state once `dhcpd_start` has checked the configuration and
created the pool, at time `now`. -/
def dhcpd_start (now : Nat) : Option Server :=
  if netmask_valid cfg.netmask ∧ ip_netmask_compare cfg.gateway cfg.ip_pool_start cfg.netmask ∧
      ip_netmask_compare cfg.ip_pool_start cfg.ip_pool_end cfg.netmask ∧ cfg.ip_pool_start ≤ cfg.ip_pool_end then
    dhcpd_ip_pool_init cfg env now
  else none

end Dhcpd
