import XcoreSdk.Dhcpd.PoolInit
/-!
# A leased address is leased to one client

`Held` is what makes an address `X` the client's own until `limit`: its entry
carries the client's MAC address and is static or leased for long enough. A
lookup by another MAC address or another address never finds that entry, and
a search for an available one passes it over; so no other client's message
touches it, and neither does a sweep before `limit`.
-/

namespace Dhcpd
variable {cfg : Config} {env : Env} {s s' : Server} {A B : MACAddress_t} {X : in_addr} {limit i : Nat}

/-- Entry `i` is the one with address `X`, and it belongs to `A` until `limit`. -/
structure Held (A : MACAddress_t) (X : in_addr) (limit i : Nat) (s : Server) : Prop where
  mem : i ∈ s.dhcp_ip_pool
  ip : (s.dhcp_ip_infos i).ip = X
  alone : ∀ j ∈ s.dhcp_ip_pool, (s.dhcp_ip_infos j).ip = X → j = i
  mac : (s.dhcp_ip_infos i).mac = A
  state : (s.dhcp_ip_infos i).state = .STATIC ∨
    (s.dhcp_ip_infos i).state = .LEASED ∧ limit ≤ (s.dhcp_ip_infos i).item_value

namespace Held

theorem not_available (h : Held A X limit i s) : (s.dhcp_ip_infos i).state ≠ .AVAILABLE := by
  rcases h.state with hs | ⟨hs, -⟩ <;> rw [hs] <;> decide

theorem congr (h : Held A X limit i s) (hi : s'.dhcp_ip_infos = s.dhcp_ip_infos)
    (hp : s'.dhcp_ip_pool = s.dhcp_ip_pool) : Held A X limit i s' := by
  obtain ⟨h1, h2, h3, h4, h5⟩ := h
  constructor <;> simpa only [hi, hp]

/-! Entries other than `i` may change in any way. -/

theorem setInfo {client : Nat} {info : dhcp_ip_info_t} (h : Held A X limit i s) (hne : client ≠ i)
    (hip : info.ip = (s.dhcp_ip_infos client).ip) : Held A X limit i (s.setInfo client info) := by
  have hi : (s.setInfo client info).dhcp_ip_infos i = s.dhcp_ip_infos i := setInfo_of_ne info hne.symm
  refine ⟨h.mem, by rw [hi, h.ip], fun j hj hjX => ?_, by rw [hi, h.mac], by rw [hi]; exact h.state⟩
  by_cases hjc : j = client
  · subst hjc
    rw [setInfo_self, hip] at hjX
    exact h.alone j hj hjX
  · rw [setInfo_of_ne _ hjc] at hjX
    exact h.alone j hj hjX

theorem set_mac {client : Nat} {mac : MACAddress_t} (h : Held A X limit i s) (hne : client ≠ i) :
    Held A X limit i (set_mac s client mac) :=
  h.setInfo hne rfl

theorem update {client : Nat} (h : Held A X limit i s) (hc : client ∈ s.dhcp_ip_pool) (hne : client ≠ i)
    (state : IpState) (expiration : Nat) : Held A X limit i (dhcp_client_update env s client state expiration) := by
  have hi : (dhcp_client_update env s client state expiration).dhcp_ip_infos i = s.dhcp_ip_infos i :=
    update_of_ne state expiration hne.symm
  refine ⟨(update_mem _ _ hc).2 h.mem, by rw [hi, h.ip], fun j hj hjX => ?_, by rw [hi, h.mac],
    by rw [hi]; exact h.state⟩
  rw [update_mem _ _ hc] at hj
  rw [update_ip] at hjX
  exact h.alone j hj hjX

theorem mark_unavailable {client : Nat} (h : Held A X limit i s) (hc : client ∈ s.dhcp_ip_pool) (hne : client ≠ i) :
    Held A X limit i (mark_unavailable cfg env s client) :=
  (h.set_mac hne).update hc hne _ _

theorem offer {client : Nat} {mac : MACAddress_t} (h : Held A X limit i s) (hc : client ∈ s.dhcp_ip_pool)
    (hne : client ≠ i) : Held A X limit i (offer cfg env s client mac) :=
  (h.set_mac hne).update hc hne _ _

/-- Another entry has another address. -/
theorem ip_ne {client : Nat} (h : Held A X limit i s) (hc : client ∈ s.dhcp_ip_pool) (hne : client ≠ i) :
    (s.dhcp_ip_infos client).ip ≠ X :=
  fun hX => hne (h.alone client hc hX)

/-- An available entry is another one. -/
theorem ne_of_available {client : Nat} (h : Held A X limit i s)
    (ha : (s.dhcp_ip_infos client).state = .AVAILABLE) : client ≠ i := by
  rintro rfl
  exact h.not_available ha

/-! The entry `i` itself, when its client renews the lease or declares the
address its own. -/

theorem renew {expiration : Nat} (h : Held A X limit i s) (state : IpState)
    (hs : state = .STATIC ∨ state = .LEASED ∧
      limit ≤ ((dhcp_client_update env s i state expiration).now + expiration) % 2 ^ 32) :
    Held A X limit i (dhcp_client_update env s i state expiration) := by
  refine ⟨(update_mem _ _ h.mem).2 h.mem, by rw [update_ip, h.ip], fun j hj hjX => ?_, by rw [update_mac, h.mac], ?_⟩
  · rw [update_mem _ _ h.mem] at hj
    rw [update_ip] at hjX
    exact h.alone j hj hjX
  · rw [update_self]
    exact hs

end Held

/-! ## The lease of another client -/

/-- The call returned another address, and the entry is still held. -/
def Apart (A : MACAddress_t) (X : in_addr) (limit i : Nat) (r : in_addr × Server) : Prop :=
  r.1 ≠ X ∧ Held A X limit i r.2

theorem offer_oldest_loop_apart (mac : MACAddress_t) (fuel : Nat) (s : Server) (h : Held A X limit i s)
    (h0 : X ≠ zero_ip) : Apart A X limit i (offer_oldest_loop cfg env mac fuel s) := by
  induction fuel generalizing s with
  | zero => exact ⟨h0.symm, h⟩
  | succ fuel ih =>
    unfold offer_oldest_loop
    split
    · exact ⟨h0.symm, h⟩
    · rename_i client hold
      obtain ⟨hc, ha⟩ := oldest_some hold
      have hne := h.ne_of_available ha
      obtain ⟨hi, hp, -⟩ := probe_new_frame cfg env s
      have h' := h.congr hi hp
      rw [← hp] at hc
      simp only
      split
      · exact ih _ (h'.mark_unavailable hc hne)
      · exact ⟨h'.ip_ne hc hne, h'.offer hc hne⟩

theorem lease_new_apart {mac : MACAddress_t} {requested_ip : in_addr} {request_type : Nat}
    (h : Held A X limit i s) (h0 : X ≠ zero_ip) :
    Apart A X limit i (lease_new cfg env s mac requested_ip request_type) := by
  unfold lease_new
  split
  · split
    · rename_i client hreq
      obtain ⟨hc, ha⟩ := requested_client_some hreq
      have hne := h.ne_of_available ha
      obtain ⟨hi, hp, -⟩ := probe_new_frame cfg env s
      have h' := h.congr hi hp
      rw [← hp] at hc
      simp only
      split
      · exact offer_oldest_loop_apart _ _ _ (h'.mark_unavailable hc hne) h0
      · exact ⟨h'.ip_ne hc hne, h'.offer hc hne⟩
    · exact offer_oldest_loop_apart _ _ _ h h0
  · split
    · split
      · rename_i client hreq
        obtain ⟨hc, ha⟩ := requested_client_some hreq
        have hne := h.ne_of_available ha
        exact ⟨h.ip_ne hc hne, (h.set_mac hne).update hc hne _ _⟩
      · exact ⟨h0.symm, h⟩
    · exact ⟨h0.symm, h⟩

def FlowApart (A : MACAddress_t) (X : in_addr) (limit i : Nat) : Flow → Prop
  | .ret ip s => Apart A X limit i (ip, s)
  | .fall _ s => Held A X limit i s

/-- `lease_known` on another entry. -/
theorem lease_known_apart {client : Nat} {requested_ip : in_addr} {request_type : Nat} (h : Held A X limit i s)
    (hc : client ∈ s.dhcp_ip_pool) (hne : client ≠ i) (hb : X ≠ bad_ip) :
    FlowApart A X limit i (lease_known cfg env s client requested_ip request_type) := by
  unfold lease_known
  simp only
  split
  · exact ⟨hb.symm, h⟩
  · split
    · generalize hr : (if request_type = DHCP_DISCOVER ∧ (s.dhcp_ip_infos client).state ≠ .LEASED
        then probe_new cfg env s else (false, s)) = r
      obtain ⟨in_use, s'⟩ := r
      obtain ⟨hi, hp, -⟩ := probe_if_frame hr
      have h' := h.congr hi hp
      have hc' : client ∈ s'.dhcp_ip_pool := by rw [hp]; exact hc
      split
      · exact h'.mark_unavailable hc' hne
      · exact ⟨h.ip_ne hc hne, h'.update hc' hne _ _⟩
    · split
      · exact ⟨h.ip_ne hc hne, h.update hc hne _ _⟩
      · exact (h.set_mac hne).update hc hne _ _

/-- Whatever another client asks for, it does not get the held address. -/
theorem lease_apart {requested_ip : in_addr} {request_type : Nat} (h : Held A X limit i s) (hB : B ≠ A)
    (h0 : X ≠ zero_ip) (hb : X ≠ bad_ip) :
    Apart A X limit i (dhcpd_client_ip_address_lease cfg env s B requested_ip request_type) := by
  unfold dhcpd_client_ip_address_lease
  split
  · rename_i client hl
    obtain ⟨hc, hm⟩ := lookup_by_mac_some hl
    have hne : client ≠ i := by
      rintro rfl
      exact hB (hm.symm.trans h.mac)
    have hk : FlowApart A X limit i (lease_known cfg env s client requested_ip request_type) :=
      lease_known_apart h hc hne hb
    split <;> rename_i hk' <;> rw [hk'] at hk
    · exact hk
    · exact lease_new_apart hk h0
  · exact lease_new_apart h h0

/-! ## The client's own messages -/

theorem lookup_own (h : Held A X limit i s) : ∃ client, dhcp_client_lookup_by_mac s A = some client := by
  cases hl : dhcp_client_lookup_by_mac s A with
  | some client => exact ⟨client, rfl⟩
  | none => exact absurd h.mac (lookup_by_mac_none hl i h.mem)

/-- A REQUEST that is not refused renews the lease. -/
theorem lease_request_own {requested_ip : in_addr} (h : Held A X limit i s) (hl : limit ≤ s.now + cfg.lease_time)
    (hnak : (dhcpd_client_ip_address_lease cfg env s A requested_ip DHCP_REQUEST).1 ≠ bad_ip)
    (hover : (dhcpd_client_ip_address_lease cfg env s A requested_ip DHCP_REQUEST).2.now + cfg.lease_time < 2 ^ 32) :
    Held A X limit i (dhcpd_client_ip_address_lease cfg env s A requested_ip DHCP_REQUEST).2 := by
  obtain ⟨client, hcl⟩ := lookup_own h
  by_cases hip : (s.dhcp_ip_infos client).ip = requested_ip
  · have hres : dhcpd_client_ip_address_lease cfg env s A requested_ip DHCP_REQUEST =
        ((s.dhcp_ip_infos client).ip, dhcp_client_update env s client .LEASED cfg.lease_time) := by
      simp [dhcpd_client_ip_address_lease, hcl, lease_known, hip, DHCP_REQUEST, DHCP_INFORM, DHCP_DISCOVER]
    rw [hres] at hover ⊢
    simp only at hover ⊢
    by_cases hc : client = i
    · subst hc
      refine h.renew _ (.inr ⟨rfl, ?_⟩)
      have hnow : s.now ≤ (dhcp_client_update env s client .LEASED cfg.lease_time).now := update_now _ _ _
      rw [Nat.mod_eq_of_lt hover]
      omega
    · exact h.update (lookup_by_mac_some hcl).1 hc _ _
  · refine absurd ?_ hnak
    simp [dhcpd_client_ip_address_lease, hcl, lease_known, hip]

/-- An INFORM of the held address makes it static. -/
theorem lease_inform_own (h : Held A X limit i s) (hb : X ≠ bad_ip) :
    (dhcpd_client_ip_address_lease cfg env s A X DHCP_INFORM).1 ≠ bad_ip ∧
      Held A X limit i (dhcpd_client_ip_address_lease cfg env s A X DHCP_INFORM).2 := by
  obtain ⟨client, hcl⟩ := lookup_own h
  obtain ⟨hc, -⟩ := lookup_by_mac_some hcl
  by_cases hip : (s.dhcp_ip_infos client).ip = X
  · have hci := h.alone client hc hip
    subst hci
    have hres : dhcpd_client_ip_address_lease cfg env s A X DHCP_INFORM =
        ((s.dhcp_ip_infos client).ip, dhcp_client_update env s client .STATIC 0) := by
      simp [dhcpd_client_ip_address_lease, hcl, lease_known, hip, DHCP_REQUEST, DHCP_INFORM]
    rw [hres]
    exact ⟨by rw [hip]; exact hb, h.renew _ (.inl rfl)⟩
  · have hne : client ≠ i := by
      rintro rfl
      exact hip h.ip
    have h' : Held A X limit i (dhcp_client_update env (set_mac s client 0) client .AVAILABLE 0) :=
      (h.set_mac hne).update hc hne _ _
    have hres : dhcpd_client_ip_address_lease cfg env s A X DHCP_INFORM =
        lease_new cfg env (dhcp_client_update env (set_mac s client 0) client .AVAILABLE 0) A X DHCP_INFORM := by
      simp [dhcpd_client_ip_address_lease, hcl, lease_known, hip, DHCP_REQUEST, DHCP_INFORM]
    rw [hres]
    -- the entry of `X` is not available, so the rest of the function finds nothing to hand out
    unfold lease_new
    rw [if_neg (by decide), if_pos rfl]
    split
    · rename_i c hreq
      unfold requested_client at hreq
      split at hreq
      · obtain ⟨hlook, ha⟩ := Option.filter_eq_some_iff.1 hreq
        obtain ⟨hm, hX⟩ := lookup_by_ip_some hlook
        have hci := h'.alone c hm hX
        subst hci
        exact absurd (by simpa using ha) h'.not_available
      · cases hreq
    · have hzb : zero_ip ≠ bad_ip := by decide
      exact ⟨hzb, h'⟩

end Dhcpd
