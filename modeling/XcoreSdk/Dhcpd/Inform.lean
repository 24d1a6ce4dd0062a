import XcoreSdk.Dhcpd.LeaseRun
/-!
# Addresses claimed by an INFORM

A client that configured its address itself tells the server with an INFORM,
and the server takes the address out of circulation: its entry becomes static
and carries the client's MAC address. The branch for an address the client
already had does that; the branch for a newly claimed one passes the value of
a comparison as the state, and leaves the entry available.
-/

namespace Dhcpd
variable (cfg : Config) (env : Env)

/-- There is one entry of `X`; it is static and bound to `A`. -/
def StaticFor (A : MACAddress_t) (X : in_addr) (s : Server) : Prop :=
  ∃ i ∈ s.dhcp_ip_pool, (s.dhcp_ip_infos i).ip = X ∧ (∀ j ∈ s.dhcp_ip_pool, (s.dhcp_ip_infos j).ip = X → j = i) ∧
    (s.dhcp_ip_infos i).mac = A ∧ (s.dhcp_ip_infos i).state = .STATIC

/-- A message of `A`, or a RELEASE or a DECLINE that names `X`, changes the entry. -/
def Unreserves (A : MACAddress_t) (X : in_addr) (s : Server) : Event → Prop
  | .sweep => False
  | .recv m => (m.chaddr = A ∨ ∃ o, parse_options m.options = some o ∧ Frees cfg X m o) ∧
      ∀ s' ∈ (dhcpd cfg env).step s (.recv m), ¬ StaticFor A X s'

/-- The server's answer to the message offers or acknowledges `X`. The acknowledgement of an INFORM carries no
address: it is of the one that the client has. -/
def Grants (s : Server) (m : dhcp_message_t) (X : in_addr) : Prop :=
  Accepted m ∧ ∃ o s' r, parse_options m.options = some o ∧ dhcpd_handle_op_request cfg env s m = some (s', some r) ∧
    (r.yiaddr = X ∨ (client_state cfg m o).state = .INFORMING ∧ m.ciaddr = X)

/-- A REQUEST of `X` as the dhcping program sends it. -/
def Pings (X : in_addr) (m : dhcp_message_t) : Prop :=
  Accepted m ∧ ∃ o, parse_options m.options = some o ∧ o.dhcp_msg_type = DHCP_REQUEST ∧ o.requested_ip = some X ∧
    o.server_identifier = none ∧ m.ciaddr ≠ 0

/-- The address is reserved all through the run `es`: its entry is static and
bound to `A`, and no other client is offered or granted it. -/
def Reserved (A : MACAddress_t) (X : in_addr) : Server → List Event → Prop
  | s, [] => StaticFor A X s
  | s, .sweep :: es => StaticFor A X s ∧ ∀ s' ∈ (dhcpd cfg env).step s .sweep, Reserved A X s' es
  | s, .recv m :: es => StaticFor A X s ∧ (m.chaddr ≠ A → ¬ Grants cfg env s m X) ∧
      ∀ s' ∈ (dhcpd cfg env).step s (.recv m), Reserved A X s' es

/-- The server knew the client under this address, its only entry. -/
def Known (A : MACAddress_t) (X : in_addr) (s : Server) : Prop :=
  ∃ client, dhcp_client_lookup_by_mac s A = some client ∧ (s.dhcp_ip_infos client).ip = X ∧
    ∀ j ∈ s.dhcp_ip_pool, (s.dhcp_ip_infos j).ip = X → j = client

variable {cfg env} {s s' : Server} {A B : MACAddress_t} {X : in_addr} {limit i : Nat}

/-! ## A static entry is held for ever -/

theorem Held.mono {limit' : Nat} (h : Held A X limit' i s) (hle : limit ≤ limit') : Held A X limit i s :=
  { h with state := h.state.imp_right fun ⟨hs, hl⟩ => ⟨hs, hle.trans hl⟩ }

theorem staticFor_iff : StaticFor A X s ↔ ∃ i, ∀ limit, Held A X limit i s := by
  constructor
  · rintro ⟨i, hm, hip, hone, hmac, hst⟩
    exact ⟨i, fun limit => ⟨hm, hip, hone, hmac, .inl hst⟩⟩
  · rintro ⟨i, h⟩
    have hi := h ((s.dhcp_ip_infos i).item_value + 1)
    refine ⟨i, hi.mem, hi.ip, hi.alone, hi.mac, hi.state.resolve_right ?_⟩
    rintro ⟨-, hle⟩
    omega

theorem handle_held_other {m : dhcp_message_t} {r : Option dhcp_message_t} (h : Held A X limit i s)
    (h0 : X ≠ zero_ip) (hb : X ≠ bad_ip) (hmac : m.chaddr ≠ A)
    (hf : ∀ o, parse_options m.options = some o → ¬ Frees cfg X m o)
    (hh : dhcpd_handle_op_request cfg env s m = some (s', r)) : Held A X limit i s' := by
  apply handle_held_of h _ _ hh
  · intro o ho
    exact ⟨hf o ho, fun hm => absurd hm hmac⟩
  · intro o ho hr hnow
    exact ⟨set_yiaddr_held_other h hmac h0 hb, fun hm => absurd hm hmac⟩

theorem recv_static {m : dhcp_message_t} (h : StaticFor A X s) (h0 : X ≠ zero_ip) (hb : X ≠ bad_ip)
    (hq : ¬ Unreserves cfg env A X s (.recv m)) (hs : (dhcpd cfg env).step s (.recv m) = some s') :
    StaticFor A X s' := by
  by_cases hx : m.chaddr = A ∨ ∃ o, parse_options m.options = some o ∧ Frees cfg X m o
  · by_contra hn
    refine hq ⟨hx, fun t ht => ?_⟩
    obtain rfl := Option.some.inj (hs.symm.trans ht)
    exact hn
  · obtain ⟨hmac, hf⟩ := not_or.1 hx
    obtain ⟨i, hi⟩ := staticFor_iff.1 h
    rw [staticFor_iff]
    refine ⟨i, fun limit => ?_⟩
    simp only [dhcpd, dhcpd_recv] at hs
    split at hs
    · obtain ⟨⟨t, r⟩, hh, rfl⟩ := Option.map_eq_some_iff.1 hs
      exact handle_held_other (hi limit) h0 hb hmac (fun o ho hfr => hf ⟨o, ho, hfr⟩) hh
    · cases hs
      exact hi limit

theorem sweep_static (h : StaticFor A X s) (hs : dhcp_client_release_expired_leases cfg env s = some s') :
    StaticFor A X s' := by
  obtain ⟨i, hi⟩ := staticFor_iff.1 h
  rw [staticFor_iff]
  refine ⟨i, fun limit => ?_⟩
  -- the entry is held beyond the one clock reading the sweep compares with
  have hread : Held A X (max limit ((rtos_time_get env s).1 + 1)) i (rtos_time_get env s).2 := (hi _).congr rfl rfl
  have hhead : ∀ client ∈ FreeRtos.listGET_HEAD_ENTRY (rtos_time_get env s).2.dhcp_ip_pool,
      client ∈ (rtos_time_get env s).2.dhcp_ip_pool := fun _ hc => List.mem_of_mem_head? hc
  have hnow : (rtos_time_get env s).1 < max limit ((rtos_time_get env s).1 + 1) := lt_max_of_lt_right (Nat.lt_succ_self _)
  exact (release_expired_loop_held _ _ _ _ _ hread hnow hhead hs).mono (le_max_left _ _)

theorem run_static {es : List Event} (h : StaticFor A X s) (h0 : X ≠ zero_ip) (hb : X ≠ bad_ip)
    (hr : (dhcpd cfg env).Run (fun s e => ¬ Unreserves cfg env A X s e) s es s') : StaticFor A X s' := by
  apply hr.inv _ h
  intro t e t' ht hq hs
  cases e with
  | recv m => exact recv_static ht h0 hb hq hs
  | sweep => exact sweep_static ht hs

/-! ## The answers to the other clients -/

theorem lease_inform_ip (s : Server) (A : MACAddress_t) (ip : in_addr) :
    (dhcpd_client_ip_address_lease cfg env s A ip DHCP_INFORM).1 = ip ∨
      (dhcpd_client_ip_address_lease cfg env s A ip DHCP_INFORM).1 = zero_ip := by
  have hnew : ∀ s : Server, (lease_new cfg env s A ip DHCP_INFORM).1 = ip ∨
      (lease_new cfg env s A ip DHCP_INFORM).1 = zero_ip := by
    intro s
    unfold lease_new
    rw [if_neg (by decide), if_pos rfl]
    split
    · rename_i client hreq
      exact .inl (requested_client_ip hreq)
    · exact .inr rfl
  unfold dhcpd_client_ip_address_lease
  split
  · rename_i client hclient
    by_cases hip : (s.dhcp_ip_infos client).ip = ip
    · simp [lease_known, hip, DHCP_REQUEST, DHCP_INFORM]
    · simpa [lease_known, hip, DHCP_REQUEST, DHCP_INFORM] using hnew _
  · exact hnew s

/-- The address that an INFORM is answered with is the client's own. -/
theorem inform_yiaddr {m : dhcp_message_t} {o : ReqOptions} (hi : (client_state cfg m o).state = .INFORMING) :
    (set_yiaddr cfg env s m o).1 = m.ciaddr ∨ (set_yiaddr cfg env s m o).1 = zero_ip := by
  rcases client_state_cases cfg m o with h | ⟨h, -⟩ | ⟨h, -⟩ | ⟨-, ht, hc⟩ | ⟨h, -⟩ | ⟨h, -⟩ | ⟨h, -⟩
  · cases hi.symm.trans h
  · cases hi.symm.trans h
  · rcases h with h | h | h | h <;> cases hi.symm.trans h
  · simp only [set_yiaddr, hi, reduceCtorEq, if_false, ht, hc]
    exact lease_inform_ip s m.chaddr m.ciaddr
  · cases hi.symm.trans h
  · cases hi.symm.trans h
  · cases hi.symm.trans h

/-- The address that an answer offers or acknowledges is the one that the handler has settled on. -/
theorem settled_of_grants {m : dhcp_message_t} (h0 : X ≠ zero_ip) (hb : X ≠ bad_ip) (h : Grants cfg env s m X) :
    Accepted m ∧ ∃ o, parse_options m.options = some o ∧ (client_state cfg m o).state.Replies ∧
      (set_yiaddr cfg env s m o).1 = X := by
  obtain ⟨hp, o, s', r, ho, hh, hX⟩ := h
  refine ⟨hp, o, ho, ?_⟩
  simp only [dhcpd_handle_op_request, ho, Option.bind_eq_bind, Option.bind_some] at hh
  split at hh
  · cases hh
  rename_i hfree
  split at hh
  · cases hh
  rename_i hnone
  refine ⟨⟨fun h => hfree (.inl h), fun h => hfree (.inr h), hnone⟩, ?_⟩
  split at hh
  · rename_i hy
    obtain ⟨options, -, hr⟩ := Option.bind_eq_some_iff.1 hh
    cases hr
    rcases hX with hX | ⟨hi, rfl⟩
    · simp only [reply] at hX
      split at hX
      · exact absurd hX.symm h0
      · exact hX
    · exact (inform_yiaddr hi).resolve_right hy.1
  · split at hh
    · rename_i hbroadcast
      obtain ⟨options, -, hr⟩ := Option.bind_eq_some_iff.1 hh
      cases hr
      rcases hX with hX | ⟨hi, rfl⟩
      · exact absurd hX.symm h0
      · rcases inform_yiaddr hi with h | h
        · exact absurd (h.symm.trans hbroadcast) hb
        · exact absurd (h.symm.trans hbroadcast) (by decide)
    · cases hh

theorem grants_of_settled {m : dhcp_message_t} {o : ReqOptions} (h0 : X ≠ zero_ip) (hb : X ≠ bad_ip) (hp : Accepted m)
    (ho : parse_options m.options = some o) (hr : (client_state cfg m o).state.Replies)
    (hX : (set_yiaddr cfg env s m o).1 = X) : Grants cfg env s m X := by
  obtain ⟨options, hw⟩ := Option.isSome_iff_exists.1
    (ack_options_written cfg (client_state cfg m o).state o.requested_params)
  have hfree : ¬ ((client_state cfg m o).state = .DECLINING ∨ (client_state cfg m o).state = .RELEASING) :=
    not_or.2 ⟨hr.1, hr.2.1⟩
  have hy : (set_yiaddr cfg env s m o).1 ≠ INADDR_ANY ∧ (set_yiaddr cfg env s m o).1 ≠ INADDR_BROADCAST := by
    rw [hX]
    exact ⟨h0, hb⟩
  refine ⟨hp, o, _, _, ho, by
    simp only [dhcpd_handle_op_request, ho, Option.bind_eq_bind, Option.bind_some, if_neg hfree, if_neg hr.2.2,
      if_pos hy, hw]
    rfl, ?_⟩
  by_cases hi : (client_state cfg m o).state = .INFORMING
  · exact .inr ⟨hi, ((inform_yiaddr hi).resolve_right fun h => h0 (hX.symm.trans h)).symm.trans hX⟩
  · refine .inl ?_
    simp only [reply, if_neg hi]
    exact hX

theorem pinging_iff {m : dhcp_message_t} {o : ReqOptions} : (client_state cfg m o).state = .PINGING ↔
    o.dhcp_msg_type = DHCP_REQUEST ∧ o.requested_ip.isSome ∧ o.server_identifier = none ∧ m.ciaddr ≠ 0 := by
  unfold client_state
  simp only
  split_ifs <;> simp_all [DHCP_DISCOVER, DHCP_REQUEST, DHCP_INFORM, DHCP_DECLINE, DHCP_RELEASE]

theorem pinging_ip {m : dhcp_message_t} {o : ReqOptions} (h : (client_state cfg m o).state = .PINGING) :
    (client_state cfg m o).requested_ip = o.requested_ip.getD INADDR_ANY := by
  unfold client_state at h ⊢
  simp only at h ⊢
  split_ifs at h ⊢
  rfl

/-- What a pinging client asks for is acknowledged. -/
theorem grants_of_pings {m : dhcp_message_t} (h0 : X ≠ zero_ip) (hb : X ≠ bad_ip) (h : Pings X m) :
    Grants cfg env s m X := by
  obtain ⟨hp, o, ho, ht, hX, hid, hc⟩ := h
  have hping : (client_state cfg m o).state = .PINGING := pinging_iff.2 ⟨ht, by rw [hX]; rfl, hid, hc⟩
  refine grants_of_settled h0 hb hp ho ?_ ?_
  · rw [hping]
    decide
  · simp only [set_yiaddr, hping, if_true, pinging_ip hping, hX, Option.getD_some]

/-- While the entry is static, no other client is granted the address, unless it pings. -/
theorem pings_of_grants {m : dhcp_message_t} (h : StaticFor A X s) (h0 : X ≠ zero_ip) (hb : X ≠ bad_ip)
    (hmac : m.chaddr ≠ A) (hg : Grants cfg env s m X) : Pings X m := by
  obtain ⟨hp, o, ho, -, hX⟩ := settled_of_grants h0 hb hg
  simp only [set_yiaddr] at hX
  split at hX
  · rename_i hping
    obtain ⟨ht, hip, hid, hc⟩ := pinging_iff.1 hping
    obtain ⟨ip, hip⟩ := Option.isSome_iff_exists.1 hip
    refine ⟨hp, o, ho, ht, ?_, hid, hc⟩
    rw [← hX, pinging_ip hping, hip, Option.getD_some]
  · obtain ⟨i, hi⟩ := staticFor_iff.1 h
    exact absurd hX (lease_apart (hi 0) hmac h0 hb).1

/-- A static entry is reserved as long as nobody else pings. -/
theorem reserved_iff {es : List Event} (h0 : X ≠ zero_ip) (hb : X ≠ bad_ip)
    (hr : (dhcpd cfg env).Run (fun s e => ¬ Unreserves cfg env A X s e) s es s') : Reserved cfg env A X s es ↔
      StaticFor A X s ∧ ∀ m, .recv m ∈ es → m.chaddr ≠ A → ¬ Pings X m := by
  induction hr with
  | nil => simp [Reserved]
  | @cons s t u e es hq hs hr ih =>
    have hnext : (∀ s' ∈ (dhcpd cfg env).step s e, Reserved cfg env A X s' es) ↔ Reserved cfg env A X t es := by
      rw [hs]
      simp
    cases e with
    | sweep =>
      simp only [Reserved, hnext, ih, List.mem_cons, reduceCtorEq, false_or]
      exact ⟨fun h => ⟨h.1, h.2.2⟩, fun h => ⟨h.1, sweep_static h.1 hs, h.2⟩⟩
    | recv m =>
      simp only [Reserved, hnext, ih, List.mem_cons, Event.recv.injEq, forall_eq_or_imp]
      constructor
      · rintro ⟨h, hm, -, hes⟩
        exact ⟨h, fun hmac hping => hm hmac (grants_of_pings h0 hb hping), hes⟩
      · rintro ⟨h, hm, hes⟩
        exact ⟨h, fun hmac hg => hm hmac (pings_of_grants h h0 hb hmac hg), recv_static h h0 hb hq hs, hes⟩

/-! ## What the INFORM does to the entry -/

/-- An answered lease attempt leaves the state of the lease function. -/
theorem leases_step {m : dhcp_message_t} {request_type : Nat} (hA : Leases cfg env s m A request_type X)
    (hb : X ≠ bad_ip) (hs : (dhcpd cfg env).step s (.recv m) = some s') :
    ∃ o, parse_options m.options = some o ∧ o.dhcp_msg_type = request_type ∧
      (dhcpd_client_ip_address_lease cfg env s A (client_state cfg m o).requested_ip request_type) = (X, s') := by
  obtain ⟨hp, o, ho, hr, hping, hmac, ht, hX⟩ := hA
  refine ⟨o, ho, ht, ?_⟩
  have hy : set_yiaddr cfg env s m o =
      dhcpd_client_ip_address_lease cfg env s A (client_state cfg m o).requested_ip request_type := by
    unfold set_yiaddr
    simp only
    rw [if_neg hping, hmac, ht]
  have hyX : ¬ (set_yiaddr cfg env s m o).1 = INADDR_BROADCAST := by rw [hy, hX]; exact hb
  simp only [dhcpd, dhcpd_recv, if_pos hp] at hs
  obtain ⟨⟨t, r⟩, hh, rfl⟩ := Option.map_eq_some_iff.1 hs
  obtain ⟨o', ho', hcases⟩ := handle_cases hh
  obtain rfl : o = o' := Option.some.inj (ho.symm.trans ho')
  rcases hcases with ⟨hs, -⟩ | ⟨hs, -⟩ | ⟨-, ht'⟩
  · exact absurd hs (not_or.2 ⟨hr.1, hr.2.1⟩)
  · exact absurd hs hr.2.2
  · rw [← hX, ht', if_neg hyX, hy]

/-- A newly claimed address is the requested one, and ends up available. -/
theorem lease_new_inform {requested_ip : in_addr} (hl : lease_new cfg env s A requested_ip DHCP_INFORM = (X, s'))
    (h0 : X ≠ zero_ip) : X = requested_ip ∧ ¬ StaticFor A X s' := by
  unfold lease_new at hl
  rw [if_neg (by decide), if_pos rfl] at hl
  split at hl
  · rename_i client hreq
    obtain ⟨hc, -⟩ := requested_client_some hreq
    obtain ⟨hX, rfl⟩ := Prod.mk.inj hl
    have hmem : client ∈ (set_mac s client A).dhcp_ip_pool := hc
    refine ⟨hX.symm.trans (requested_client_ip hreq), ?_⟩
    rintro ⟨i, -, -, hone, -, hst⟩
    obtain rfl : client = i := by
      apply hone
      · rw [update_mem _ _ hmem]; exact hmem
      · rw [update_ip, set_mac_ip]; exact hX
    rw [update_self] at hst
    -- `DHCP_INFORM` is not the number of the static state
    have hst' : IpState.ofInt (if DHCP_INFORM = DHCP_IP_STATE_STATIC then 1 else 0) = .STATIC := hst
    exact absurd hst' (by decide)
  · exact absurd (Prod.mk.inj hl).1.symm h0

/-- The lease function makes the entry static exactly if it is the one the
client already had. -/
theorem lease_inform_static {requested_ip : in_addr}
    (hl : dhcpd_client_ip_address_lease cfg env s A requested_ip DHCP_INFORM = (X, s')) (h0 : X ≠ zero_ip) :
    StaticFor A X s' ↔ Known A X s := by
  unfold dhcpd_client_ip_address_lease at hl
  split at hl
  · rename_i client hclient
    obtain ⟨hc, hmac⟩ := lookup_by_mac_some hclient
    by_cases hip : (s.dhcp_ip_infos client).ip = requested_ip
    · have hk : lease_known cfg env s client requested_ip DHCP_INFORM =
          .ret (s.dhcp_ip_infos client).ip (dhcp_client_update env s client .STATIC 0) := by
        simp [lease_known, hip, DHCP_REQUEST, DHCP_INFORM]
      rw [hk] at hl
      obtain ⟨hX, rfl⟩ := Prod.mk.inj hl
      simp only [StaticFor, update_mem _ _ hc, update_ip, update_mac]
      constructor
      · rintro ⟨i, hi, hiX, hone, -, -⟩
        obtain rfl := hone client hc hX
        exact ⟨client, hclient, hX, hone⟩
      · rintro ⟨j, hj, -, hone⟩
        obtain rfl := Option.some.inj (hclient.symm.trans hj)
        exact ⟨client, hc, hX, hone, hmac, by rw [update_self]⟩
    · have hk : lease_known cfg env s client requested_ip DHCP_INFORM =
          .fall requested_ip (dhcp_client_update env (set_mac s client 0) client .AVAILABLE 0) := by
        simp [lease_known, hip, DHCP_REQUEST, DHCP_INFORM]
      rw [hk] at hl
      obtain ⟨hX, hn⟩ := lease_new_inform hl h0
      refine iff_of_false hn ?_
      rintro ⟨j, hj, hjX, -⟩
      obtain rfl := Option.some.inj (hclient.symm.trans hj)
      exact hip (hjX.trans hX)
  · rename_i hclient
    refine iff_of_false (lease_new_inform hl h0).2 ?_
    rintro ⟨j, hj, -⟩
    rw [hclient] at hj
    cases hj

/-- An address that the server acknowledged an INFORM for is reserved, in whatever way the server goes on, exactly
if it was the client's already and no other client pings. -/
theorem inform_reserved {m : dhcp_message_t} {es : List Event} {t : Server} (hA : Leases cfg env s m A DHCP_INFORM X)
    (h0 : X ≠ zero_ip) (hb : X ≠ bad_ip) (hs : (dhcpd cfg env).step s (.recv m) = some s')
    (hr : (dhcpd cfg env).Run (fun s e => ¬ Unreserves cfg env A X s e) s' es t) :
    Reserved cfg env A X s' es ↔ Known A X s ∧ ∀ m, .recv m ∈ es → m.chaddr ≠ A → ¬ Pings X m := by
  obtain ⟨o, -, -, hl⟩ := leases_step hA hb hs
  rw [← lease_inform_static hl h0]
  exact reserved_iff h0 hb hr

def inform_message (chaddr : MACAddress_t) (ip : in_addr) : dhcp_message_t :=
  { client_message chaddr [(DHCP_OPTION_DHCP_MESSAGE_TYPE, [8])] with ciaddr := ip }

def ping_message (chaddr : MACAddress_t) (ciaddr ip : in_addr) : dhcp_message_t :=
  { client_message chaddr [(DHCP_OPTION_DHCP_MESSAGE_TYPE, [3]), (DHCP_OPTION_REQUESTED_IP_ADDRESS, in_addr.octets ip)] with
    ciaddr := ciaddr }

/-- What another client sends to get or check an address is no reason for the entry to change. -/
theorem not_unreserves {m : dhcp_message_t} {o : ReqOptions} (hmac : m.chaddr ≠ A) (ho : parse_options m.options = some o)
    (hd : (client_state cfg m o).state ≠ .DECLINING) (hr : (client_state cfg m o).state ≠ .RELEASING) :
    ¬ Unreserves cfg env A X s (.recv m) := by
  rintro ⟨h | ⟨o', ho', hfree⟩, -⟩
  · exact hmac h
  · obtain rfl := Option.some.inj (ho.symm.trans ho')
    rcases hfree with ⟨h, -⟩ | ⟨h, -⟩
    · exact hr h
    · exact hd h

/-- A has leased 192.168.0.2 when it declares the address its own. -/
def informEvents : List Event := leaseEvents 0xC0A80002 0xC0A80001 ++ [.recv (inform_message 0xA 0xC0A80002)]

/-- B is not offered the address when it asks for it, but has it acknowledged when it pings. -/
theorem inform_reserved_known :
    Reserved smallConfig stillEnv 0xA 0xC0A80002 (stateAfter smallConfig stillEnv informEvents)
        [.recv (discover_message 0xB 0xC0A80002), .sweep] ∧
      ¬ Reserved smallConfig stillEnv 0xA 0xC0A80002 (stateAfter smallConfig stillEnv informEvents)
        [.recv (ping_message 0xB 0xC0A80003 0xC0A80002)] := by
  have h1 : (runFrom smallConfig stillEnv (leaseEvents 0xC0A80002 0xC0A80001)).isSome := by decide +kernel
  have h2 : (runFrom smallConfig stillEnv informEvents).isSome := by decide +kernel
  have h3 : (runFrom smallConfig stillEnv (informEvents ++ [.recv (discover_message 0xB 0xC0A80002)])).isSome := by
    decide +kernel
  have h4 : (runFrom smallConfig stillEnv (informEvents ++ [.recv (discover_message 0xB 0xC0A80002)] ++ [.sweep])).isSome := by
    decide +kernel
  have h5 : (runFrom smallConfig stillEnv (informEvents ++ [.recv (ping_message 0xB 0xC0A80003 0xC0A80002)])).isSome := by
    decide +kernel
  have hA : Leases smallConfig stillEnv (stateAfter smallConfig stillEnv (leaseEvents 0xC0A80002 0xC0A80001))
      (inform_message 0xA 0xC0A80002) 0xA DHCP_INFORM 0xC0A80002 :=
    leases_of _ _ ⟨8, none, none, default_params⟩ (by decide +kernel) (by decide +kernel)
      (by decide +kernel) (by decide +kernel) (by decide +kernel)
  have hdiscover : parse_options (discover_message 0xB 0xC0A80002).options =
      some ⟨1, some 0xC0A80002, none, default_params⟩ := by decide +kernel
  have hping : parse_options (ping_message 0xB 0xC0A80003 0xC0A80002).options =
      some ⟨3, some 0xC0A80002, none, default_params⟩ := by decide +kernel
  have hknown : Known 0xA 0xC0A80002 (stateAfter smallConfig stillEnv (leaseEvents 0xC0A80002 0xC0A80001)) :=
    ⟨0, by decide +kernel, by decide +kernel, by decide +kernel⟩
  constructor
  · apply (inform_reserved hA (by decide) (by decide) (stateAfter_step h1 h2)
      (.cons (not_unreserves (by decide) hdiscover (by decide) (by decide)) (stateAfter_step h2 h3)
        (.cons id (stateAfter_step h3 h4) (.nil _)))).2
    refine ⟨hknown, fun m hm _ hp => ?_⟩
    obtain ⟨-, o, ho, ht, -⟩ := hp
    rcases List.mem_cons.1 hm with heq | hm
    · cases heq
      obtain rfl := Option.some.inj (hdiscover.symm.trans ho)
      exact absurd ht (by decide)
    · cases List.mem_singleton.1 hm
  · intro h
    obtain ⟨-, hno⟩ := (inform_reserved hA (by decide) (by decide) (stateAfter_step h1 h2)
      (.cons (not_unreserves (by decide) hping (by decide) (by decide)) (stateAfter_step h2 h5) (.nil _))).1 h
    exact hno _ List.mem_cons_self (by decide) ⟨by decide +kernel, _, hping, by decide, by decide, by decide, by decide⟩

/-- A declares 192.168.0.2 its own, which the server has given to no one yet;
its entry is left available, and B is offered the address. -/
theorem inform_leaves_available :
    ∃ s s' : Server, (dhcpd smallConfig stillEnv).Reachable Machine.Free s ∧
      Leases smallConfig stillEnv s (inform_message 0xA 0xC0A80002) 0xA DHCP_INFORM 0xC0A80002 ∧
      (dhcpd smallConfig stillEnv).step s (.recv (inform_message 0xA 0xC0A80002)) = some s' ∧
      (s'.dhcp_ip_infos 0).ip = 0xC0A80002 ∧ (s'.dhcp_ip_infos 0).state = .AVAILABLE ∧
      Grants smallConfig stillEnv s' (discover_message 0xB 0xC0A80002) 0xC0A80002 ∧
      ¬ Pings 0xC0A80002 (discover_message 0xB 0xC0A80002) ∧
      ¬ Reserved smallConfig stillEnv 0xA 0xC0A80002 s' [.recv (discover_message 0xB 0xC0A80002)] := by
  have h1 : (runFrom smallConfig stillEnv []).isSome := by decide +kernel
  have h2 : (runFrom smallConfig stillEnv ([] ++ [Event.recv (inform_message 0xA 0xC0A80002)])).isSome := by
    decide +kernel
  have hdiscover : parse_options (discover_message 0xB 0xC0A80002).options =
      some ⟨1, some 0xC0A80002, none, default_params⟩ := by decide +kernel
  have hB : Grants smallConfig stillEnv
      (stateAfter smallConfig stillEnv ([] ++ [Event.recv (inform_message 0xA 0xC0A80002)]))
      (discover_message 0xB 0xC0A80002) 0xC0A80002 :=
    grants_of_settled (by decide) (by decide) (by decide +kernel) hdiscover (by decide) (by decide +kernel)
  refine ⟨_, _, stateAfter_reachable h1, ?_, stateAfter_step h1 h2, by decide +kernel, by decide +kernel, hB, ?_, ?_⟩
  · exact leases_of _ _ ⟨8, none, none, default_params⟩ (by decide +kernel) (by decide +kernel)
      (by decide +kernel) (by decide +kernel) (by decide +kernel)
  · rintro ⟨-, o, ho, ht, -⟩
    obtain rfl := Option.some.inj (hdiscover.symm.trans ho)
    exact absurd ht (by decide)
  · rintro ⟨-, hno, -⟩
    exact hno (by decide) hB

end Dhcpd
