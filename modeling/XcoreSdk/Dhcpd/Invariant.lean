import XcoreSdk.Dhcpd.Request
/-!
# The pool's representation invariant

`PoolInv s₀ s` relates a state to the one `dhcpd_ip_pool_init` created. Every
operation on an entry keeps it, `set_mac` under the condition that no other
entry holds the MAC address; so every message and every sweep keeps it.
-/

namespace Dhcpd
variable {cfg : Config} {env : Env} {s s₀ : Server}

/-! ## What the operations change -/

@[simp] theorem setInfo_pool (client : Nat) (info : dhcp_ip_info_t) :
    (s.setInfo client info).dhcp_ip_pool = s.dhcp_ip_pool := rfl

@[simp] theorem setInfo_now (client : Nat) (info : dhcp_ip_info_t) : (s.setInfo client info).now = s.now := rfl

@[simp] theorem setInfo_self (client : Nat) (info : dhcp_ip_info_t) :
    (s.setInfo client info).dhcp_ip_infos client = info := by simp [Server.setInfo]

theorem setInfo_of_ne {client j : Nat} (info : dhcp_ip_info_t) (h : j ≠ client) :
    (s.setInfo client info).dhcp_ip_infos j = s.dhcp_ip_infos j := by simp [Server.setInfo, h]

@[simp] theorem set_mac_pool (client : Nat) (mac : MACAddress_t) :
    (set_mac s client mac).dhcp_ip_pool = s.dhcp_ip_pool := rfl

@[simp] theorem set_mac_now (client : Nat) (mac : MACAddress_t) : (set_mac s client mac).now = s.now := rfl

@[simp] theorem set_mac_self (client : Nat) (mac : MACAddress_t) :
    (set_mac s client mac).dhcp_ip_infos client = { s.dhcp_ip_infos client with mac := mac } := by simp [set_mac]

theorem set_mac_of_ne {client j : Nat} (mac : MACAddress_t) (h : j ≠ client) :
    (set_mac s client mac).dhcp_ip_infos j = s.dhcp_ip_infos j := setInfo_of_ne _ h

@[simp] theorem set_mac_ip (client j : Nat) (mac : MACAddress_t) :
    ((set_mac s client mac).dhcp_ip_infos j).ip = (s.dhcp_ip_infos j).ip := by
  by_cases h : j = client
  · subst h; simp
  · rw [set_mac_of_ne mac h]

/-- The clock reading an update uses is the one it leaves behind. -/
theorem update_self (client : Nat) (state : IpState) (expiration : Nat) :
    (dhcp_client_update env s client state expiration).dhcp_ip_infos client =
      { s.dhcp_ip_infos client with
        state := state, item_value := ((dhcp_client_update env s client state expiration).now + expiration) % 2 ^ 32 } := by
  simp [dhcp_client_update, rtos_time_get, Server.setInfo]

theorem update_of_ne {client j : Nat} (state : IpState) (expiration : Nat) (h : j ≠ client) :
    (dhcp_client_update env s client state expiration).dhcp_ip_infos j = s.dhcp_ip_infos j := by
  simp [dhcp_client_update, rtos_time_get, Server.setInfo, h]

@[simp] theorem update_ip (client j : Nat) (state : IpState) (expiration : Nat) :
    ((dhcp_client_update env s client state expiration).dhcp_ip_infos j).ip = (s.dhcp_ip_infos j).ip := by
  by_cases h : j = client
  · subst h; rw [update_self]
  · rw [update_of_ne _ _ h]

@[simp] theorem update_mac (client j : Nat) (state : IpState) (expiration : Nat) :
    ((dhcp_client_update env s client state expiration).dhcp_ip_infos j).mac = (s.dhcp_ip_infos j).mac := by
  by_cases h : j = client
  · subst h; rw [update_self]
  · rw [update_of_ne _ _ h]

theorem update_value_of_ne {client j : Nat} (state : IpState) (expiration : Nat) (h : j ≠ client) :
    (dhcp_client_update env s client state expiration).value j = s.value j := by
  rw [Server.value, update_of_ne _ _ h, Server.value]

/-- An update moves the entry to the place of its new expiration. -/
theorem update_pool (client : Nat) (state : IpState) (expiration : Nat) :
    (dhcp_client_update env s client state expiration).dhcp_ip_pool =
      FreeRtos.vListInsert (dhcp_client_update env s client state expiration).value client
        (FreeRtos.uxListRemove client s.dhcp_ip_pool) := rfl

theorem update_perm {client : Nat} (state : IpState) (expiration : Nat) (h : client ∈ s.dhcp_ip_pool) :
    (dhcp_client_update env s client state expiration).dhcp_ip_pool.Perm s.dhcp_ip_pool :=
  FreeRtos.reinsert_perm _ _ _ h

theorem update_mem {client j : Nat} (state : IpState) (expiration : Nat) (h : client ∈ s.dhcp_ip_pool) :
    j ∈ (dhcp_client_update env s client state expiration).dhcp_ip_pool ↔ j ∈ s.dhcp_ip_pool :=
  (update_perm state expiration h).mem_iff

theorem update_now (client : Nat) (state : IpState) (expiration : Nat) :
    s.now ≤ (dhcp_client_update env s client state expiration).now := Nat.le_add_right _ _

/-- A probe reads the network and nothing else. -/
theorem probe_new_frame (cfg : Config) (env : Env) (s : Server) :
    (probe_new cfg env s).2.dhcp_ip_infos = s.dhcp_ip_infos ∧
    (probe_new cfg env s).2.dhcp_ip_pool = s.dhcp_ip_pool ∧ (probe_new cfg env s).2.now = s.now := by
  unfold probe_new
  split <;> exact ⟨rfl, rfl, rfl⟩

theorem probe_if_frame {p : Prop} [Decidable p] {in_use : Bool} {s' : Server}
    (h : (if p then probe_new cfg env s else (false, s)) = (in_use, s')) :
    s'.dhcp_ip_infos = s.dhcp_ip_infos ∧ s'.dhcp_ip_pool = s.dhcp_ip_pool ∧ s'.now = s.now := by
  split at h
  · have hf := probe_new_frame cfg env s
    rwa [h] at hf
  · cases h
    exact ⟨rfl, rfl, rfl⟩

/-! ## Lookups -/

theorem lookup_some {p : dhcp_ip_info_t → Bool} {client : Nat} (h : s.lookup p = some client) :
    client ∈ s.dhcp_ip_pool ∧ p (s.dhcp_ip_infos client) := by
  have hp := List.find?_some h
  exact ⟨List.mem_of_find?_eq_some h, hp⟩

theorem lookup_none {p : dhcp_ip_info_t → Bool} (h : s.lookup p = none) :
    ∀ client ∈ s.dhcp_ip_pool, ¬ p (s.dhcp_ip_infos client) := by
  simpa [Server.lookup] using h

theorem lookup_by_mac_some {mac : MACAddress_t} {client : Nat} (h : dhcp_client_lookup_by_mac s mac = some client) :
    client ∈ s.dhcp_ip_pool ∧ (s.dhcp_ip_infos client).mac = mac := by
  simpa using lookup_some h

theorem lookup_by_mac_none {mac : MACAddress_t} (h : dhcp_client_lookup_by_mac s mac = none) :
    ∀ client ∈ s.dhcp_ip_pool, (s.dhcp_ip_infos client).mac ≠ mac := by
  simpa using lookup_none h

theorem lookup_by_ip_some {ip : in_addr} {client : Nat} (h : dhcp_client_lookup_by_ip s ip = some client) :
    client ∈ s.dhcp_ip_pool ∧ (s.dhcp_ip_infos client).ip = ip := by
  simpa using lookup_some h

theorem oldest_some {client : Nat} (h : dhcp_client_get_oldest_disconnected s = some client) :
    client ∈ s.dhcp_ip_pool ∧ (s.dhcp_ip_infos client).state = .AVAILABLE := by
  simpa using lookup_some h

theorem requested_client_some {requested_ip : in_addr} {client : Nat}
    (h : requested_client s requested_ip = some client) :
    client ∈ s.dhcp_ip_pool ∧ (s.dhcp_ip_infos client).state = .AVAILABLE := by
  unfold requested_client at h
  split at h
  · obtain ⟨hl, hs⟩ := Option.filter_eq_some_iff.1 h
    exact ⟨(lookup_by_ip_some hl).1, by simpa using hs⟩
  · cases h

theorem requested_client_ip {requested_ip : in_addr} {client : Nat}
    (h : requested_client s requested_ip = some client) : (s.dhcp_ip_infos client).ip = requested_ip := by
  unfold requested_client at h
  split at h
  · exact (lookup_by_ip_some (Option.filter_eq_some_iff.1 h).1).2
  · cases h

/-! ## The invariant -/

/-- The pool of `s` is the one that was created as `s₀`, sorted, without a
duplicate address or MAC address; and the clock has not gone back. -/
structure PoolInv (s₀ s : Server) : Prop where
  perm : s.dhcp_ip_pool.Perm s₀.dhcp_ip_pool
  nodup : s.dhcp_ip_pool.Nodup
  sorted : FreeRtos.Sorted s.value s.dhcp_ip_pool
  ips : ∀ client, (s.dhcp_ip_infos client).ip = (s₀.dhcp_ip_infos client).ip
  address : ∀ i ∈ s.dhcp_ip_pool, ∀ j ∈ s.dhcp_ip_pool, (s.dhcp_ip_infos i).ip = (s.dhcp_ip_infos j).ip → i = j
  mac : ∀ i ∈ s.dhcp_ip_pool, ∀ j ∈ s.dhcp_ip_pool,
    (s.dhcp_ip_infos i).mac = (s.dhcp_ip_infos j).mac → (s.dhcp_ip_infos i).mac ≠ 0 → i = j
  clock : s₀.now ≤ s.now

/-- No entry holds the MAC address, the zero one apart. -/
def Unused (s : Server) (mac : MACAddress_t) : Prop :=
  mac = 0 ∨ ∀ client ∈ s.dhcp_ip_pool, (s.dhcp_ip_infos client).mac ≠ mac

namespace PoolInv

theorem update {client : Nat} (h : PoolInv s₀ s) (hc : client ∈ s.dhcp_ip_pool) (state : IpState)
    (expiration : Nat) : PoolInv s₀ (dhcp_client_update env s client state expiration) where
  perm := (update_perm state expiration hc).trans h.perm
  nodup := (update_perm state expiration hc).nodup_iff.2 h.nodup
  sorted := by
    rw [update_pool]
    exact FreeRtos.reinsert_sorted h.nodup (fun j hj => update_value_of_ne state expiration hj) h.sorted
  ips j := by rw [update_ip, h.ips]
  address i hi j hj hij := by
    rw [update_mem _ _ hc] at hi hj
    simp only [update_ip] at hij
    exact h.address i hi j hj hij
  mac i hi j hj hij h0 := by
    rw [update_mem _ _ hc] at hi hj
    simp only [update_mac] at hij h0
    exact h.mac i hi j hj hij h0
  clock := h.clock.trans (update_now client state expiration)

/-- A change of an entry that is not about its address, MAC or value. -/
theorem setState {client : Nat} (h : PoolInv s₀ s) (state : IpState) :
    PoolInv s₀ (s.setInfo client { s.dhcp_ip_infos client with state := state }) := by
  have hi : ∀ j, ∃ st, (s.setInfo client { s.dhcp_ip_infos client with state := state }).dhcp_ip_infos j =
      { s.dhcp_ip_infos j with state := st } := by
    intro j
    by_cases hj : j = client
    · subst hj; exact ⟨state, by simp⟩
    · exact ⟨(s.dhcp_ip_infos j).state, by rw [setInfo_of_ne _ hj]⟩
  have hip : ∀ j, ((s.setInfo client { s.dhcp_ip_infos client with state := state }).dhcp_ip_infos j).ip =
      (s.dhcp_ip_infos j).ip := fun j => by obtain ⟨st, h⟩ := hi j; rw [h]
  have hmac : ∀ j, ((s.setInfo client { s.dhcp_ip_infos client with state := state }).dhcp_ip_infos j).mac =
      (s.dhcp_ip_infos j).mac := fun j => by obtain ⟨st, h⟩ := hi j; rw [h]
  have hval : (s.setInfo client { s.dhcp_ip_infos client with state := state }).value = s.value :=
    funext fun j => by obtain ⟨st, h⟩ := hi j; rw [Server.value, h, Server.value]
  exact {
    perm := h.perm, nodup := h.nodup, clock := h.clock
    sorted := by rw [hval]; exact h.sorted
    ips := fun j => by rw [hip, h.ips]
    address := fun i hi j hj hij => h.address i hi j hj (by rwa [hip, hip] at hij)
    mac := fun i hi j hj hij h0 => h.mac i hi j hj (by rwa [hmac, hmac] at hij) (by rwa [hmac] at h0) }

theorem set_mac {client : Nat} {mac : MACAddress_t} (h : PoolInv s₀ s) (hm : Unused s mac) :
    PoolInv s₀ (set_mac s client mac) where
  perm := h.perm
  nodup := h.nodup
  sorted := by
    have hval : (Dhcpd.set_mac s client mac).value = s.value := by
      funext j
      by_cases hj : j = client
      · subst hj; simp [Server.value]
      · simp [Server.value, set_mac_of_ne mac hj]
    rw [hval]; exact h.sorted
  ips j := by rw [set_mac_ip, h.ips]
  address i hi j hj hij := h.address i hi j hj (by simpa using hij)
  mac i hi j hj hij h0 := by
    simp only [set_mac_pool] at hi hj
    by_cases hic : i = client <;> by_cases hjc : j = client
    · rw [hic, hjc]
    · subst hic
      rw [set_mac_of_ne mac hjc, set_mac_self] at hij
      rw [set_mac_self] at h0
      exact absurd hij.symm ((hm.resolve_left h0) j hj)
    · subst hjc
      rw [set_mac_of_ne mac hic] at hij h0
      rw [set_mac_self] at hij
      have hm0 : mac ≠ 0 := fun h => h0 (hij.trans h)
      exact absurd hij ((hm.resolve_left hm0) i hi)
    · rw [set_mac_of_ne mac hic] at hij h0
      rw [set_mac_of_ne mac hjc] at hij
      exact h.mac i hi j hj hij h0
  clock := h.clock

theorem congr {s' : Server} (h : PoolInv s₀ s) (hi : s'.dhcp_ip_infos = s.dhcp_ip_infos)
    (hp : s'.dhcp_ip_pool = s.dhcp_ip_pool) (hn : s.now ≤ s'.now) : PoolInv s₀ s' := by
  obtain ⟨h1, h2, h3, h4, h5, h6, h7⟩ := h
  have hv : s'.value = s.value := by funext j; simp only [Server.value, hi]
  refine ⟨?_, ?_, ?_, ?_, ?_, ?_, h7.trans hn⟩ <;> simpa only [hi, hp, hv]

/-- The invariant of the pool as it is now. -/
theorem self (h : PoolInv s₀ s) : PoolInv s s :=
  ⟨.refl _, h.nodup, h.sorted, fun _ => rfl, h.address, h.mac, Nat.le_refl _⟩

theorem mark_unavailable {client : Nat} (h : PoolInv s₀ s) (hc : client ∈ s.dhcp_ip_pool) :
    PoolInv s₀ (mark_unavailable cfg env s client) :=
  (h.set_mac (.inl rfl)).update hc _ _

theorem offer {client : Nat} {mac : MACAddress_t} (h : PoolInv s₀ s) (hc : client ∈ s.dhcp_ip_pool)
    (hm : Unused s mac) : PoolInv s₀ (offer cfg env s client mac) :=
  (h.set_mac hm).update hc _ _

end PoolInv

theorem Unused.update {client : Nat} {mac : MACAddress_t} (h : Unused s mac) (hc : client ∈ s.dhcp_ip_pool)
    (state : IpState) (expiration : Nat) : Unused (dhcp_client_update env s client state expiration) mac := by
  refine h.imp_right fun h j hj => ?_
  rw [update_mem _ _ hc] at hj
  rw [update_mac]
  exact h j hj

theorem Unused.forget {client : Nat} {mac : MACAddress_t}
    (h : mac = 0 ∨ ∀ j ∈ s.dhcp_ip_pool, j ≠ client → (s.dhcp_ip_infos j).mac ≠ mac) :
    Unused (set_mac s client 0) mac := by
  by_cases h0 : mac = 0
  · exact .inl h0
  · refine .inr fun j hj => ?_
    by_cases hjc : j = client
    · subst hjc
      rw [set_mac_self]
      exact fun h => h0 h.symm
    · rw [set_mac_of_ne _ hjc]
      exact h.resolve_left h0 j hj hjc

theorem Unused.congr {s' : Server} {mac : MACAddress_t} (h : Unused s mac)
    (hi : s'.dhcp_ip_infos = s.dhcp_ip_infos) (hp : s'.dhcp_ip_pool = s.dhcp_ip_pool) : Unused s' mac := by
  unfold Unused
  rw [hi, hp]
  exact h

theorem Unused.mark_unavailable {client : Nat} {mac : MACAddress_t} (h : Unused s mac)
    (hc : client ∈ s.dhcp_ip_pool) : Unused (mark_unavailable cfg env s client) mac :=
  (Unused.forget (h.imp_right fun h j hj _ => h j hj)).update hc _ _

/-! ## Every operation keeps it -/

theorem offer_oldest_loop_inv (mac : MACAddress_t) (fuel : Nat) (s : Server) (h : PoolInv s₀ s)
    (hm : Unused s mac) : PoolInv s₀ (offer_oldest_loop cfg env mac fuel s).2 := by
  induction fuel generalizing s with
  | zero => exact h
  | succ fuel ih =>
    unfold offer_oldest_loop
    split
    · exact h
    · rename_i client hold
      obtain ⟨hi, hp, hn⟩ := probe_new_frame cfg env s
      have hc : client ∈ (probe_new cfg env s).2.dhcp_ip_pool := by rw [hp]; exact (oldest_some hold).1
      have h' := h.congr hi hp hn.ge
      have hm' := hm.congr hi hp
      simp only
      split
      · exact ih _ (h'.mark_unavailable hc) (hm'.mark_unavailable hc)
      · exact h'.offer hc hm'

theorem lease_new_inv {mac : MACAddress_t} {requested_ip : in_addr} {request_type : Nat} (h : PoolInv s₀ s)
    (hm : Unused s mac) : PoolInv s₀ (lease_new cfg env s mac requested_ip request_type).2 := by
  unfold lease_new
  split
  · split
    · rename_i client hreq
      obtain ⟨hi, hp, hn⟩ := probe_new_frame cfg env s
      have hc : client ∈ (probe_new cfg env s).2.dhcp_ip_pool := by rw [hp]; exact (requested_client_some hreq).1
      have h' := h.congr hi hp hn.ge
      have hm' := hm.congr hi hp
      simp only
      split
      · exact offer_oldest_loop_inv _ _ _ (h'.mark_unavailable hc) (hm'.mark_unavailable hc)
      · exact h'.offer hc hm'
    · exact offer_oldest_loop_inv _ _ _ h hm
  · split
    · split
      · rename_i client hreq
        exact (h.set_mac hm).update (requested_client_some hreq).1 _ _
      · exact h
    · exact h

/-- What the branch for a known client leaves: the invariant, and a MAC address
that no entry holds any more when the rest of the function is still to run. -/
def FlowInv (s₀ : Server) (mac : MACAddress_t) : Flow → Prop
  | .ret _ s => PoolInv s₀ s
  | .fall _ s => PoolInv s₀ s ∧ Unused s mac

theorem lease_known_inv {mac : MACAddress_t} {client : Nat} {requested_ip : in_addr} {request_type : Nat}
    (h : PoolInv s₀ s) (hl : dhcp_client_lookup_by_mac s mac = some client) :
    FlowInv s₀ mac (lease_known cfg env s client requested_ip request_type) := by
  obtain ⟨hc, hmac⟩ := lookup_by_mac_some hl
  have hother : mac = 0 ∨ ∀ j ∈ s.dhcp_ip_pool, j ≠ client → (s.dhcp_ip_infos j).mac ≠ mac := by
    by_cases h0 : mac = 0
    · exact .inl h0
    · exact .inr fun j hj hne hj' => hne (h.mac j hj client hc (hj'.trans hmac.symm) (hj' ▸ h0))
  have hforget : Unused (set_mac s client 0) mac := .forget hother
  unfold lease_known
  simp only
  split
  · exact h
  · split
    · generalize hr : (if request_type = DHCP_DISCOVER ∧ (s.dhcp_ip_infos client).state ≠ .LEASED
        then probe_new cfg env s else (false, s)) = r
      obtain ⟨in_use, s'⟩ := r
      obtain ⟨hi, hp, hn⟩ := probe_if_frame hr
      have h' := h.congr hi hp hn.ge
      have hc' : client ∈ s'.dhcp_ip_pool := by rw [hp]; exact hc
      split
      · refine ⟨h'.mark_unavailable hc', Unused.update (Unused.forget ?_) hc' _ _⟩
        rw [hi, hp]
        exact hother
      · exact h'.update hc' _ _
    · split
      · exact h.update hc _ _
      · exact ⟨(h.set_mac (.inl rfl)).update hc _ _, hforget.update hc _ _⟩

theorem lease_inv {mac : MACAddress_t} {requested_ip : in_addr} {request_type : Nat} (h : PoolInv s₀ s) :
    PoolInv s₀ (dhcpd_client_ip_address_lease cfg env s mac requested_ip request_type).2 := by
  unfold dhcpd_client_ip_address_lease
  split
  · rename_i client hl
    have hf : FlowInv s₀ mac (lease_known cfg env s client requested_ip request_type) := lease_known_inv h hl
    split
    · rename_i hk; rw [hk] at hf; exact hf
    · rename_i hk; rw [hk] at hf; exact lease_new_inv hf.1 hf.2
  · rename_i hl
    exact lease_new_inv h (.inr (lookup_by_mac_none hl))

theorem client_state_client_mem {m : dhcp_message_t} {o : ReqOptions} {client : Nat}
    (h : (client_state cfg m o).dhcp_client s = some client) : client ∈ s.dhcp_ip_pool := by
  unfold client_state at h
  simp only at h
  split_ifs at h <;> first
    | cases h
    | exact (lookup_by_mac_some h).1
    | exact (lookup_by_ip_some h).1

theorem release_or_decline_inv {m : dhcp_message_t} {o : ReqOptions} (h : PoolInv s₀ s) :
    PoolInv s₀ (release_or_decline cfg env s (client_state cfg m o)) := by
  unfold release_or_decline
  split
  · exact h
  · rename_i client hl
    have hc := client_state_client_mem hl
    have h' : PoolInv s₀ (if (client_state cfg m o).ciaddr = 0 then set_mac s client 0 else s) := by
      split
      · exact h.set_mac (.inl rfl)
      · exact h
    have hc' : client ∈ (if (client_state cfg m o).ciaddr = 0 then set_mac s client 0 else s).dhcp_ip_pool := by
      split <;> exact hc
    simp only
    split
    · exact h'.update hc' _ _
    · exact h'.update hc' _ _

theorem nak_update_inv {chaddr : MACAddress_t} (h : PoolInv s₀ s) : PoolInv s₀ (nak_update env s chaddr) := by
  unfold nak_update
  split
  · exact h
  · rename_i client hl
    exact h.update (lookup_by_mac_some hl).1 _ _

theorem handle_inv {s' : Server} {m : dhcp_message_t} {r : Option dhcp_message_t} (h : PoolInv s₀ s)
    (hh : dhcpd_handle_op_request cfg env s m = some (s', r)) : PoolInv s₀ s' := by
  obtain ⟨o, -, ⟨-, rfl⟩ | ⟨-, rfl⟩ | ⟨-, rfl⟩⟩ := handle_cases hh
  · exact release_or_decline_inv h
  · exact h
  · have hy : PoolInv s₀ (set_yiaddr cfg env s m o).2 := by
      unfold set_yiaddr
      simp only
      split
      · exact h
      · exact lease_inv h
    split
    · exact nak_update_inv hy
    · exact hy

/-! ## The sweep -/

theorem visit_inv {now : Nat} {s' : Server} {item : Option Nat} (h : PoolInv s₀ s)
    (hm : ∀ client ∈ item, client ∈ s.dhcp_ip_pool) (hv : release_expired_visit cfg env now s item = some s') :
    PoolInv s₀ s' := by
  unfold release_expired_visit at hv
  split at hv
  · cases item with
    | none => cases hv
    | some client =>
      simp only at hv
      split at hv
      · cases hv; exact h.setState _
      · split at hv
        · have hprobe : PoolInv s₀ (dhcpd_ip_address_in_use env s).2 := h.congr rfl rfl le_rfl
          split at hv <;> cases hv
          · exact hprobe.update (hm client rfl) _ _
          · exact hprobe.setState _
        · cases hv; exact h
  · cases hv; exact h

theorem next_mem {ι : Type*} [DecidableEq ι] {list : List ι} {item : Option ι} :
    ∀ i ∈ FreeRtos.listGET_NEXT list item, i ∈ list := by
  intro i hi
  cases item with
  | none => exact List.mem_of_mem_head? hi
  | some item => exact (List.dropWhile_sublist _).mem (List.mem_of_mem_tail (List.mem_of_mem_head? hi))

theorem release_expired_loop_inv (now n : Nat) (s s' : Server) (item : Option Nat) (h : PoolInv s₀ s)
    (hm : ∀ client ∈ item, client ∈ s.dhcp_ip_pool)
    (hl : release_expired_loop cfg env now n s item = some s') : PoolInv s₀ s' := by
  induction n generalizing s item with
  | zero => cases hl; exact h
  | succ n ih =>
    obtain ⟨t, hv, hl⟩ := Option.bind_eq_some_iff.1 hl
    exact ih t _ (visit_inv h hm hv) next_mem hl

theorem sweep_inv {s' : Server} (h : PoolInv s₀ s) (hs : dhcp_client_release_expired_leases cfg env s = some s') :
    PoolInv s₀ s' := by
  have h' : PoolInv s₀ (rtos_time_get env s).2 := h.congr rfl rfl (Nat.le_add_right _ _)
  exact release_expired_loop_inv _ _ _ _ _ h' (fun _ hc => List.mem_of_mem_head? hc) hs

/-- One step of the server keeps the representation invariant. -/
theorem step_inv {s' : Server} {e : Event} (h : PoolInv s₀ s) (hs : (dhcpd cfg env).step s e = some s') :
    PoolInv s₀ s' := by
  cases e with
  | recv m =>
    simp only [dhcpd, dhcpd_recv] at hs
    split at hs
    · obtain ⟨⟨t, r⟩, hh, rfl⟩ := Option.map_eq_some_iff.1 hs
      exact handle_inv h hh
    · cases hs; exact h
  | sweep => exact sweep_inv h hs

end Dhcpd
