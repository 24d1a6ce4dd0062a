import XcoreSdk.Dhcpd.Invariant
/-!
# Creating the pool

`dhcpd_ip_pool_init` walks the addresses from the pool's start upwards. As
long as the walk does not wrap (`Config.Ascending`) every entry gets a larger
address than the one before it, and the invariant holds of the new pool and
so in every state the server reaches.

The counter of `dhcpd_ip_address_pool_next_valid` wraps when the pool ends at
255.255.255.255: the walk then starts over, and gives addresses out twice when
there are entries left to fill.
-/

namespace Dhcpd
variable {cfg : Config} {env : Env}

/-- The walk over the pool never wraps: its end is not the last address there
is, or it fills every entry before it gets there. -/
def Config.Ascending (cfg : Config) : Prop :=
  cfg.ip_pool_end ≠ INADDR_BROADCAST ∨
    ∀ ip, cfg.ip_pool_start ≤ ip → ip < cfg.ip_pool_end → cfg.skips ip = false

/-- The walk at `pool`, with `n` entries to fill. -/
structure Ahead (cfg : Config) (n : Nat) (pool : in_addr) : Prop where
  start : cfg.ip_pool_start ≤ pool
  safe : cfg.ip_pool_end ≠ INADDR_BROADCAST ∨
    pool.toNat + n = cfg.ip_pool_end.toNat ∧
      ∀ ip, cfg.ip_pool_start ≤ ip → ip < cfg.ip_pool_end → cfg.skips ip = false

theorem toNat_succ {p : in_addr} (h : p ≠ INADDR_BROADCAST) : (p + 1).toNat = p.toNat + 1 := by
  have hne : p.toNat ≠ 2 ^ 32 - 1 := fun heq => h (BitVec.eq_of_toNat_eq heq)
  have hlt := p.isLt
  rw [BitVec.toNat_add, show (1 : in_addr).toNat = 1 from rfl]
  omega

/-- A search returns an address not below where it starts, and moves `*pool`
behind it. -/
theorem next_valid_loop_up {n fuel : Nat} {pool pool' ipval ip : in_addr} (h : Ahead cfg (n + 1) ipval)
    (hr : next_valid_loop cfg pool fuel ipval = some (ip, pool')) (h0 : ip ≠ INADDR_ANY) :
    ipval ≤ ip ∧ pool'.toNat = ip.toNat + 1 ∧ Ahead cfg n pool' := by
  induction fuel generalizing ipval with
  | zero => cases hr
  | succ fuel ih =>
    unfold next_valid_loop at hr
    split at hr
    · rename_i hend
      have hne : ipval ≠ INADDR_BROADCAST := by
        rintro rfl
        rcases h.safe with hs | ⟨hs, -⟩
        · refine hs (BitVec.eq_of_toNat_eq ?_)
          have := cfg.ip_pool_end.isLt
          rw [BitVec.le_def] at hend
          simp only [INADDR_BROADCAST, BitVec.toNat_allOnes] at hend ⊢
          omega
        · have := cfg.ip_pool_end.isLt
          simp only [INADDR_BROADCAST, BitVec.toNat_allOnes] at hs
          omega
      have hsucc := toNat_succ hne
      have hstart : cfg.ip_pool_start ≤ ipval + 1 := by
        have := h.start
        rw [BitVec.le_def] at this ⊢
        omega
      split at hr
      · rename_i hlt
        exact absurd h.start (by simpa using hlt)
      · split at hr
        · rename_i hskip
          rcases h.safe with hs | ⟨hs, hall⟩
          · obtain ⟨h1, h2, h3⟩ := ih ⟨hstart, .inl hs⟩ hr
            refine ⟨?_, h2, h3⟩
            rw [BitVec.le_def] at h1 ⊢
            omega
          · have hlt : ipval < cfg.ip_pool_end := by rw [BitVec.lt_def]; omega
            rw [hall ipval h.start hlt] at hskip
            cases hskip
        · cases hr
          refine ⟨BitVec.le_refl _, hsucc, hstart, ?_⟩
          exact h.safe.imp_right fun ⟨hs, hall⟩ => ⟨by omega, hall⟩
    · cases hr; exact absurd rfl h0

/-- What holds after `i` entries, the walk being at `pool`. -/
structure InitInv (cfg : Config) (n i : Nat) (pool : in_addr) (s : Server) : Prop where
  perm : s.dhcp_ip_pool.Perm (List.range i)
  sorted : FreeRtos.Sorted s.value s.dhcp_ip_pool
  below : ∀ j < i, (s.dhcp_ip_infos j).ip < pool
  address : ∀ j < i, ∀ k < i, (s.dhcp_ip_infos j).ip = (s.dhcp_ip_infos k).ip → j = k
  mac : ∀ j, (s.dhcp_ip_infos j).mac = 0
  ahead : Ahead cfg n pool

theorem InitInv.poolInv {n i : Nat} {pool : in_addr} {s : Server} (h : InitInv cfg n i pool s) : PoolInv s s where
  perm := .refl _
  nodup := h.perm.nodup_iff.2 List.nodup_range
  sorted := h.sorted
  ips _ := rfl
  address j hj k hk := by
    rw [h.perm.mem_iff, List.mem_range] at hj hk
    exact h.address j hj k hk
  mac j _ k _ _ h0 := absurd (h.mac j) h0
  clock := le_rfl

/-- Adding the next entry. -/
theorem InitInv.add {n i : Nat} {pool pool' ip : in_addr} {s : Server} (v : Nat) (h : InitInv cfg (n + 1) i pool s)
    (hle : pool ≤ ip) (hsucc : pool'.toNat = ip.toNat + 1) (ha : Ahead cfg n pool') :
    InitInv cfg n (i + 1) pool'
      { s.setInfo i ⟨ip, .AVAILABLE, 0, v⟩ with
        dhcp_ip_pool := FreeRtos.vListInsert (s.setInfo i ⟨ip, .AVAILABLE, 0, v⟩).value i s.dhcp_ip_pool } := by
  have hlt : ∀ j, j < i → ((s.dhcp_ip_infos j).ip).toNat < ip.toNat := by
    intro j hj
    have := h.below j hj
    rw [BitVec.lt_def] at this
    rw [BitVec.le_def] at hle
    omega
  have hip : ∀ j, j < i + 1 → ((s.setInfo i ⟨ip, .AVAILABLE, 0, v⟩).dhcp_ip_infos j).ip =
      if j = i then ip else (s.dhcp_ip_infos j).ip := by
    intro j _
    split
    · rename_i hj; subst hj; simp
    · rename_i hj; rw [setInfo_of_ne _ hj]
  refine ⟨?_, ?_, ?_, ?_, ?_, ha⟩
  · rw [List.range_succ]
    exact (FreeRtos.vListInsert_perm _ _ _).trans ((h.perm.cons i).trans (List.perm_append_singleton i _).symm)
  · refine FreeRtos.vListInsert_sorted _ _ _ (h.sorted.imp_of_mem fun {a b} ha hb hab => ?_)
    have hne : ∀ x ∈ s.dhcp_ip_pool, x ≠ i := by
      intro x hx
      rw [h.perm.mem_iff, List.mem_range] at hx
      omega
    simp only [Server.value, setInfo_of_ne _ (hne a ha), setInfo_of_ne _ (hne b hb)]
    exact hab
  · intro j hj
    rw [hip j hj, BitVec.lt_def, hsucc]
    split
    · omega
    · exact Nat.lt_succ_of_lt (hlt j (by omega))
  · intro j hj k hk hjk
    rw [hip j hj, hip k hk] at hjk
    split at hjk <;> split at hjk
    · omega
    · have := hlt k (by omega)
      rw [← hjk] at this
      omega
    · have := hlt j (by omega)
      rw [hjk] at this
      omega
    · exact h.address j (by omega) k (by omega) hjk
  · intro j
    by_cases hj : j = i
    · subst hj; simp
    · rw [setInfo_of_ne _ hj]; exact h.mac j

theorem ip_pool_init_loop_inv (n i : Nat) (pool : in_addr) (s s' : Server) (h : InitInv cfg n i pool s)
    (hl : ip_pool_init_loop cfg env n i pool s = some s') : PoolInv s' s' := by
  induction n generalizing i pool s with
  | zero => cases hl; exact h.poolInv
  | succ n ih =>
    have ht : InitInv cfg (n + 1) i pool (rtos_time_get env s).2 := ⟨h.1, h.2, h.3, h.4, h.5, h.6⟩
    obtain ⟨⟨ip, pool'⟩, hv, hl⟩ := Option.bind_eq_some_iff.1 hl
    simp only at hl
    split at hl
    · cases hl; exact ht.poolInv
    · rename_i h0
      obtain ⟨hle, hsucc, ha⟩ := next_valid_loop_up h.ahead hv h0
      exact ih _ _ _ (ht.add _ hle hsucc ha) hl

theorem start_inv (hcfg : cfg.Ascending) {now : Nat} {s₀ : Server} (h : dhcpd_start cfg env now = some s₀) :
    PoolInv s₀ s₀ := by
  unfold dhcpd_start at h
  split at h
  · rename_i hassert
    have hrange := hassert.2.2.2
    have hzero : InitInv cfg (cfg.ip_pool_end - cfg.ip_pool_start).toNat 0 cfg.ip_pool_start (.zeroed now) := by
      refine ⟨.refl _, List.Pairwise.nil, nofun, nofun, fun _ => rfl, BitVec.le_refl _, ?_⟩
      refine hcfg.imp_right fun hall => ⟨?_, hall⟩
      rw [BitVec.toNat_sub_of_le hrange]
      have := BitVec.le_def.1 hrange
      omega
    exact ip_pool_init_loop_inv _ _ _ _ _ hzero h
  · cases h

theorem PoolInv.lookup_by_mac_unique {s₀ s : Server} (h : PoolInv s₀ s) {mac : MACAddress_t} (h0 : mac ≠ 0)
    {client : Nat} (hl : dhcp_client_lookup_by_mac s mac = some client) :
    ∀ j ∈ s.dhcp_ip_pool, (s.dhcp_ip_infos j).mac = mac → j = client := by
  obtain ⟨hc, hm⟩ := lookup_by_mac_some hl
  exact fun j hj hjm => h.mac j hj client hc (hjm.trans hm.symm) (hjm ▸ h0)

theorem PoolInv.lookup_by_ip_unique {s₀ s : Server} (h : PoolInv s₀ s) {ip : in_addr} {client : Nat}
    (hl : dhcp_client_lookup_by_ip s ip = some client) :
    ∀ j ∈ s.dhcp_ip_pool, (s.dhcp_ip_infos j).ip = ip → j = client := by
  obtain ⟨hc, hi⟩ := lookup_by_ip_some hl
  exact fun j hj hji => h.address j hj client hc (hji.trans hi.symm)

/-- In every state the server reaches the pool is the one it started with,
sorted, no address is in it twice and no MAC address holds two entries; so a
lookup has at most one answer. -/
theorem pool_representation (hcfg : cfg.Ascending) {now : Nat} {s₀ s : Server} {es : List Event}
    (h0 : dhcpd_start cfg env now = some s₀) (hr : (dhcpd cfg env).Run Machine.Free s₀ es s) :
    PoolInv s₀ s ∧
    (∀ mac client, mac ≠ 0 → dhcp_client_lookup_by_mac s mac = some client →
      ∀ j ∈ s.dhcp_ip_pool, (s.dhcp_ip_infos j).mac = mac → j = client) ∧
    (∀ ip client, dhcp_client_lookup_by_ip s ip = some client →
      ∀ j ∈ s.dhcp_ip_pool, (s.dhcp_ip_infos j).ip = ip → j = client) := by
  have h : PoolInv s₀ s := hr.inv (fun _ _ _ h _ hs => step_inv h hs) (start_inv hcfg h0)
  exact ⟨h, fun _ _ h0 hl => h.lookup_by_mac_unique h0 hl, fun _ _ hl => h.lookup_by_ip_unique hl⟩

/-! ## A pool of four addresses at the end of a private network -/

/-- The server's own address comes first and is skipped. -/
def smallConfig : Config where
  server_ip := 0xC0A80001
  netmask := 0xFFFFFF00
  gateway := 0xC0A80001
  dns := (0xC0A80001, 0xC0A80001)
  ip_pool_start := 0xC0A80001
  ip_pool_end := 0xC0A80004

/-- A clock that stands still, on a network where every probe is silent. -/
def stillEnv : Env := ⟨fun _ => 0, fun _ => false⟩

theorem smallConfig_ascending : smallConfig.Ascending := .inl (by decide)

/-- A client's message with the given options. -/
def client_message (chaddr : MACAddress_t) (options : List (UInt8 × List UInt8)) : dhcp_message_t where
  op := BOOTREQUEST
  htype := 1
  hlen := 6
  hops := 0
  xid := 0
  secs := 0
  flags := 0
  ciaddr := 0
  yiaddr := 0
  siaddr := 0
  giaddr := 0
  chaddr := chaddr
  sname := []
  file := []
  magic_cookie := DHCP_MAGIC_COOKIE
  options := (options_written (options ++ [(DHCP_OPTION_END, [])])).getD []

def discover_message (chaddr : MACAddress_t) (ip : in_addr) : dhcp_message_t :=
  client_message chaddr [(DHCP_OPTION_DHCP_MESSAGE_TYPE, [1]), (DHCP_OPTION_REQUESTED_IP_ADDRESS, in_addr.octets ip)]

def request_message (chaddr : MACAddress_t) (ip server_ip : in_addr) : dhcp_message_t :=
  client_message chaddr [(DHCP_OPTION_DHCP_MESSAGE_TYPE, [3]), (DHCP_OPTION_REQUESTED_IP_ADDRESS, in_addr.octets ip),
    (DHCP_OPTION_SERVER_IDENTIFIER, in_addr.octets server_ip)]

/-- The run of `es` from a start at time 0, and the state it ends in. -/
def runFrom (cfg : Config) (env : Env) (es : List Event) : Option Server :=
  (dhcpd_start cfg env 0).bind ((dhcpd cfg env).exec Machine.Free · es)

def stateAfter (cfg : Config) (env : Env) (es : List Event) : Server := (runFrom cfg env es).getD (.zeroed 0)

theorem runFrom_eq {es : List Event} (h : (runFrom cfg env es).isSome) :
    runFrom cfg env es = some (stateAfter cfg env es) := by
  obtain ⟨s, hs⟩ := Option.isSome_iff_exists.1 h
  rw [stateAfter, hs, Option.getD_some]

theorem stateAfter_reachable {es : List Event} (h : (runFrom cfg env es).isSome) :
    (dhcpd cfg env).Reachable Machine.Free (stateAfter cfg env es) := by
  obtain ⟨s₀, h0, hex⟩ := Option.bind_eq_some_iff.1 (runFrom_eq h)
  exact Machine.exec_reachable ⟨0, h0⟩ hex

theorem stateAfter_step {es : List Event} {e : Event} (h : (runFrom cfg env es).isSome)
    (h' : (runFrom cfg env (es ++ [e])).isSome) :
    (dhcpd cfg env).step (stateAfter cfg env es) e = some (stateAfter cfg env (es ++ [e])) := by
  have hes := runFrom_eq h
  have hese := runFrom_eq h'
  obtain ⟨s₀, h0, hex⟩ := Option.bind_eq_some_iff.1 hes
  simp only [runFrom, h0, Option.bind_some, Machine.exec_append, hex] at hese
  obtain ⟨t, hstep, ht⟩ := Option.bind_eq_some_iff.1 hese
  cases ht
  exact hstep

def decline_message (chaddr : MACAddress_t) (ip server_ip : in_addr) : dhcp_message_t :=
  client_message chaddr [(DHCP_OPTION_DHCP_MESSAGE_TYPE, [4]), (DHCP_OPTION_REQUESTED_IP_ADDRESS, in_addr.octets ip),
    (DHCP_OPTION_SERVER_IDENTIFIER, in_addr.octets server_ip)]

/-- The clock jumps by 700 seconds at the sweep; 192.168.0.2 is in use when it is probed first, 192.168.0.4 the third time. -/
def declineEnv : Env := ⟨fun reading => if reading = 9 then 700 else 0, fun probe => probe = 0 ∨ probe = 3⟩

/-- A asks for 192.168.0.2, which is in use, and gets 192.168.0.3; B gets 192.168.0.4 and declines it. -/
def declineEvents : List Event :=
  [.recv (discover_message 0xA 0xC0A80002), .recv (request_message 0xA 0xC0A80003 0xC0A80001),
    .recv (discover_message 0xB 0xC0A80004), .recv (request_message 0xB 0xC0A80004 0xC0A80001),
    .recv (decline_message 0xB 0xC0A80004 0xC0A80001), .sweep]

theorem pool_representation_declined : ∃ s₀ s, dhcpd_start smallConfig declineEnv 0 = some s₀ ∧
    (dhcpd smallConfig declineEnv).Run Machine.Free s₀ declineEvents s ∧ s.dhcp_ip_pool = [2, 1, 0] ∧
    [0, 1, 2].map (fun client => (s.dhcp_ip_infos client).state) = [.UNAVAILABLE, .LEASED, .AVAILABLE] ∧ PoolInv s₀ s ∧
    dhcp_client_lookup_by_mac s 0xA = some 1 ∧ ∀ j ∈ s.dhcp_ip_pool, (s.dhcp_ip_infos j).mac = 0xA → j = 1 := by
  have hrun : (runFrom smallConfig declineEnv declineEvents).map (fun s => (s.dhcp_ip_pool,
      [0, 1, 2].map fun client => (s.dhcp_ip_infos client).state, dhcp_client_lookup_by_mac s 0xA)) =
      some ([2, 1, 0], [.UNAVAILABLE, .LEASED, .AVAILABLE], some 1) := by decide +kernel
  obtain ⟨s, hs, hobs⟩ := Option.map_eq_some_iff.1 hrun
  simp only [Prod.mk.injEq] at hobs
  obtain ⟨hpool, hstates, hlookup⟩ := hobs
  obtain ⟨s₀, h0, hex⟩ := Option.bind_eq_some_iff.1 hs
  obtain ⟨hinv, hmac, -⟩ := pool_representation smallConfig_ascending h0 (Machine.exec_run hex)
  exact ⟨s₀, s, h0, Machine.exec_run hex, hpool, hstates, hinv, hlookup, hmac 0xA 1 (by decide) hlookup⟩

/-- The same pool at the end of the address space: the walk wraps. -/
def wrapConfig : Config where
  server_ip := 0xFFFFFFFC
  netmask := 0xFFFFFF00
  gateway := 0xFFFFFFFC
  dns := (0xFFFFFFFC, 0xFFFFFFFC)
  ip_pool_start := 0xFFFFFFFC
  ip_pool_end := 0xFFFFFFFF

theorem pool_representation_wraps :
    ∃ s₀ s, (dhcpd wrapConfig stillEnv).init s₀ ∧ (dhcpd wrapConfig stillEnv).Run Machine.Free s₀ [] s ∧
      (0 ∈ s.dhcp_ip_pool ∧ 2 ∈ s.dhcp_ip_pool ∧ (s.dhcp_ip_infos 0).ip = (s.dhcp_ip_infos 2).ip) ∧
      ¬ PoolInv s₀ s := by
  have hs : (dhcpd_start wrapConfig stillEnv 0).map (fun s => (s.dhcp_ip_pool, (s.dhcp_ip_infos 0).ip,
      (s.dhcp_ip_infos 2).ip)) = some ([0, 1, 2], 0xFFFFFFFD, 0xFFFFFFFD) := by decide +kernel
  obtain ⟨s, h0, hp⟩ := Option.map_eq_some_iff.1 hs
  obtain ⟨hpool, hip0, hip2⟩ := by simpa only [Prod.mk.injEq] using hp
  have h0mem : 0 ∈ s.dhcp_ip_pool := by rw [hpool]; decide
  have h2mem : 2 ∈ s.dhcp_ip_pool := by rw [hpool]; decide
  have hip : (s.dhcp_ip_infos 0).ip = (s.dhcp_ip_infos 2).ip := by rw [hip0, hip2]
  refine ⟨s, s, ⟨0, h0⟩, .nil s, ⟨h0mem, h2mem, hip⟩, fun h => ?_⟩
  exact absurd (h.address 0 h0mem 2 h2mem hip) (by decide)

end Dhcpd
