import XcoreSdk.Dhcpd.Exclusive
/-!
# Leases over a run

`Leases` and `Disturbs` say when a message makes the server lease an address
and when it may end a lease early. Between the two, and before the lease
expires, every step keeps the entry held.
-/

namespace Dhcpd
variable (cfg : Config) (env : Env)

/-- Handling `m` calls `dhcpd_client_ip_address_lease` for `mac` with this type
of request, and the call returns `X`. -/
def Leases (s : Server) (m : dhcp_message_t) (mac : MACAddress_t) (request_type : Nat) (X : in_addr) : Prop :=
  Accepted m ∧ ∃ o, parse_options m.options = some o ∧
    (client_state cfg m o).state.Replies ∧ (client_state cfg m o).state ≠ .PINGING ∧
    m.chaddr = mac ∧ o.dhcp_msg_type = request_type ∧
    (dhcpd_client_ip_address_lease cfg env s mac (client_state cfg m o).requested_ip request_type).1 = X

/-- The reply to the message is a NAK. -/
def Naked (s : Server) (m : dhcp_message_t) (o : ReqOptions) : Prop :=
  (client_state cfg m o).state.Replies ∧ (set_yiaddr cfg env s m o).1 = INADDR_BROADCAST

/-- A RELEASE or DECLINE of `X` is handled, or `A` itself sends a DISCOVER, a
REQUEST that is refused or selects another server, or an INFORM of a
different address. -/
def Disturbs (A : MACAddress_t) (X : in_addr) (s : Server) : Event → Prop
  | .sweep => False
  | .recv m => Accepted m ∧ ∃ o, parse_options m.options = some o ∧
      ((client_state cfg m o).state = .RELEASING ∧ o.dhcp_msg_type = DHCP_RELEASE ∧ m.ciaddr = X ∨
        (client_state cfg m o).state = .DECLINING ∧ o.requested_ip = some X ∨
        m.chaddr = A ∧
          ((client_state cfg m o).state = .DISCOVER ∨
            o.dhcp_msg_type = DHCP_REQUEST ∧
              (Naked cfg env s m o ∨ (client_state cfg m o).state = .RELEASING) ∨
            (client_state cfg m o).state = .INFORMING ∧ m.ciaddr ≠ X))

/-- A RELEASE or a DECLINE that names `X`. -/
def Frees (X : in_addr) (m : dhcp_message_t) (o : ReqOptions) : Prop :=
  (client_state cfg m o).state = .RELEASING ∧ o.dhcp_msg_type = DHCP_RELEASE ∧ m.ciaddr = X ∨
    (client_state cfg m o).state = .DECLINING ∧ o.requested_ip = some X

variable {cfg env} {s s' : Server} {A B : MACAddress_t} {X : in_addr} {limit i : Nat}

/-! ## Steps that keep an entry held -/

theorem release_or_decline_held {c : Client} (h : Held A X limit i s)
    (hc : ∀ client, c.dhcp_client s = some client → client ∈ s.dhcp_ip_pool ∧ client ≠ i) :
    Held A X limit i (release_or_decline cfg env s c) := by
  unfold release_or_decline
  split
  · exact h
  · rename_i client hcl
    obtain ⟨hm, hne⟩ := hc client hcl
    have h' : Held A X limit i (if c.ciaddr = 0 then set_mac s client 0 else s) := by
      split
      · exact h.set_mac hne
      · exact h
    have hm' : client ∈ (if c.ciaddr = 0 then set_mac s client 0 else s).dhcp_ip_pool := by split <;> exact hm
    simp only
    split
    · exact h'.update hm' hne _ _
    · exact h'.update hm' hne _ _

theorem lookup_by_mac_ne {mac : MACAddress_t} {client : Nat} (h : Held A X limit i s) (hmac : mac ≠ A)
    (hl : dhcp_client_lookup_by_mac s mac = some client) : client ∈ s.dhcp_ip_pool ∧ client ≠ i := by
  obtain ⟨hm, hcm⟩ := lookup_by_mac_some hl
  refine ⟨hm, ?_⟩
  rintro rfl
  exact hmac (hcm.symm.trans h.mac)

theorem lookup_by_ip_ne {ip : in_addr} {client : Nat} (h : Held A X limit i s) (hip : ip ≠ X)
    (hl : dhcp_client_lookup_by_ip s ip = some client) : client ∈ s.dhcp_ip_pool ∧ client ≠ i := by
  obtain ⟨hm, hci⟩ := lookup_by_ip_some hl
  refine ⟨hm, ?_⟩
  rintro rfl
  exact hip (hci.symm.trans h.ip)

theorem nak_update_held {chaddr : MACAddress_t} (h : Held A X limit i s) (hmac : chaddr ≠ A) :
    Held A X limit i (nak_update env s chaddr) := by
  unfold nak_update
  split
  · exact h
  · rename_i client hl
    obtain ⟨hm, hne⟩ := lookup_by_mac_ne h hmac hl
    exact h.update hm hne _ _

/-- The lease attempt of another client. -/
theorem set_yiaddr_held_other {m : dhcp_message_t} {o : ReqOptions} (h : Held A X limit i s) (hmac : m.chaddr ≠ A)
    (h0 : X ≠ zero_ip) (hb : X ≠ bad_ip) : Held A X limit i (set_yiaddr cfg env s m o).2 := by
  unfold set_yiaddr
  simp only
  split
  · exact h
  · exact (lease_apart h hmac h0 hb).2

/-- The lease attempt of a message that does not disturb the entry. The clock
condition is about the state the attempt leaves. -/
theorem set_yiaddr_held {m : dhcp_message_t} {o : ReqOptions} (h : Held A X limit i s)
    (h0 : X ≠ zero_ip) (hb : X ≠ bad_ip) (hp : Accepted m) (ho : parse_options m.options = some o)
    (hr : (client_state cfg m o).state.Replies) (hq : ¬ Disturbs cfg env A X s (.recv m))
    (hl : limit ≤ s.now + cfg.lease_time)
    (hover : (set_yiaddr cfg env s m o).2.now + cfg.lease_time < 2 ^ 32) :
    Held A X limit i (set_yiaddr cfg env s m o).2 ∧
      (m.chaddr = A → (set_yiaddr cfg env s m o).1 ≠ INADDR_BROADCAST) := by
  by_cases hmac : m.chaddr = A
  · have hquiet : ∀ p, (p → Disturbs cfg env A X s (.recv m)) → ¬ p := fun p hp' h' => hq (hp' h')
    have hnd : (client_state cfg m o).state ≠ .DISCOVER :=
      hquiet _ fun hs => ⟨hp, o, ho, .inr (.inr ⟨hmac, .inl hs⟩)⟩
    rcases client_state_cases cfg m o with hs | ⟨hs, -⟩ | ⟨hs, ht⟩ | ⟨hs, ht, hip⟩ | ⟨hs, -⟩ | ⟨hs, -⟩ | ⟨hs, -⟩
    · exact absurd hs hr.2.2
    · exact absurd hs hnd
    · have hnn : ¬ (set_yiaddr cfg env s m o).1 = INADDR_BROADCAST := fun hn =>
        hq ⟨hp, o, ho, .inr (.inr ⟨hmac, .inr (.inl ⟨ht, .inl ⟨hr, hn⟩⟩)⟩)⟩
      refine ⟨?_, fun _ => hnn⟩
      unfold set_yiaddr at hnn hover ⊢
      simp only at hnn hover ⊢
      split at hnn
      · rename_i hping
        rw [if_pos hping]
        exact h
      · rename_i hping
        rw [if_neg hping] at hover ⊢
        rw [hmac, ht] at hnn hover ⊢
        exact lease_request_own h hl hnn hover
    · have hX : m.ciaddr = X := by
        by_contra hX
        exact hq ⟨hp, o, ho, .inr (.inr ⟨hmac, .inr (.inr ⟨hs, hX⟩)⟩)⟩
      have hy : set_yiaddr cfg env s m o = dhcpd_client_ip_address_lease cfg env s A X DHCP_INFORM := by
        unfold set_yiaddr
        simp only
        rw [if_neg (by rw [hs]; decide), hmac, hip, hX, ht]
      rw [hy]
      obtain ⟨hne, hheld⟩ := lease_inform_own h hb
      exact ⟨hheld, fun _ => hne⟩
    · exact absurd hs hr.2.1
    · exact absurd hs hr.2.1
    · exact absurd hs hr.1
  · exact ⟨set_yiaddr_held_other h hmac h0 hb, fun hm => absurd hm hmac⟩

/-- The entry a RELEASE, a DECLINE or a selection of another server lets go of. -/
theorem released_ne {m : dhcp_message_t} {o : ReqOptions} {client : Nat} (h : Held A X limit i s)
    (hs : (client_state cfg m o).state = .DECLINING ∨ (client_state cfg m o).state = .RELEASING)
    (hown : m.chaddr = A → o.dhcp_msg_type = DHCP_REQUEST → (client_state cfg m o).state ≠ .RELEASING)
    (hx : ¬ Frees cfg X m o) (hc : (client_state cfg m o).dhcp_client s = some client) :
    client ∈ s.dhcp_ip_pool ∧ client ≠ i := by
  rcases releasing_cases hs with ⟨hs', ht, hcl⟩ | ⟨hs', ht, hcl⟩ | ⟨hs', ip, hip, hcl⟩
  · rw [hcl] at hc
    exact lookup_by_mac_ne h (fun hm => hown hm ht hs') hc
  · rw [hcl] at hc
    exact lookup_by_ip_ne h (fun hX => hx (.inl ⟨hs', ht, hX⟩)) hc
  · rw [hcl] at hc
    exact lookup_by_ip_ne h (fun hX => hx (.inr ⟨hs', hX ▸ hip⟩)) hc

/-- A handled message keeps the entry if it does not let go of it and its
lease attempt keeps it. -/
theorem handle_held_of {m : dhcp_message_t} {r : Option dhcp_message_t} (h : Held A X limit i s)
    (hrel : ∀ o, parse_options m.options = some o → ¬ Frees cfg X m o ∧
      (m.chaddr = A → o.dhcp_msg_type = DHCP_REQUEST → (client_state cfg m o).state ≠ .RELEASING))
    (hy : ∀ o, parse_options m.options = some o → (client_state cfg m o).state.Replies →
      (set_yiaddr cfg env s m o).2.now ≤ s'.now → Held A X limit i (set_yiaddr cfg env s m o).2 ∧
        (m.chaddr = A → (set_yiaddr cfg env s m o).1 ≠ INADDR_BROADCAST))
    (hh : dhcpd_handle_op_request cfg env s m = some (s', r)) : Held A X limit i s' := by
  obtain ⟨o, ho, ⟨hs, rfl⟩ | ⟨-, rfl⟩ | ⟨hr, rfl⟩⟩ := handle_cases hh
  · obtain ⟨hx, hown⟩ := hrel o ho
    exact release_or_decline_held h fun client hc => released_ne h hs hown hx hc
  · exact h
  · by_cases hn : (set_yiaddr cfg env s m o).1 = INADDR_BROADCAST
    · rw [if_pos hn] at hy ⊢
      have hnow : (set_yiaddr cfg env s m o).2.now ≤ (nak_update env (set_yiaddr cfg env s m o).2 m.chaddr).now := by
        unfold nak_update
        split
        · exact le_rfl
        · exact update_now _ _ _
      obtain ⟨hheld, hne⟩ := hy o ho hr hnow
      exact nak_update_held hheld fun hm => hne hm hn
    · rw [if_neg hn] at hy ⊢
      exact (hy o ho hr le_rfl).1

theorem handle_held {m : dhcp_message_t} {r : Option dhcp_message_t} (h : Held A X limit i s)
    (h0 : X ≠ zero_ip) (hb : X ≠ bad_ip) (hp : Accepted m) (hq : ¬ Disturbs cfg env A X s (.recv m))
    (hl : limit ≤ s.now + cfg.lease_time) (hh : dhcpd_handle_op_request cfg env s m = some (s', r))
    (hover : s'.now + cfg.lease_time < 2 ^ 32) : Held A X limit i s' := by
  apply handle_held_of h _ _ hh
  · intro o ho
    refine ⟨?_, fun hm ht hs => hq ⟨hp, o, ho, .inr (.inr ⟨hm, .inr (.inl ⟨ht, .inr hs⟩)⟩)⟩⟩
    rintro (hx | hx)
    · exact hq ⟨hp, o, ho, .inl hx⟩
    · exact hq ⟨hp, o, ho, .inr (.inl hx)⟩
  · intro o ho hr hnow
    exact set_yiaddr_held h h0 hb hp ho hr hq hl (by omega)

theorem visit_held {now : Nat} {item : Option Nat} (h : Held A X limit i s) (hlim : now < limit)
    (hm : ∀ client ∈ item, client ∈ s.dhcp_ip_pool) (hv : release_expired_visit cfg env now s item = some s') :
    Held A X limit i s' := by
  unfold release_expired_visit at hv
  split at hv
  · rename_i hexp
    cases item with
    | none => cases hv
    | some client =>
      simp only at hv
      by_cases hc : client = i
      · subst hc
        have hexp' : (s.dhcp_ip_infos client).item_value ≤ now := hexp
        rcases h.state with hs | ⟨-, hle⟩
        · simp only [hs, reduceCtorEq, or_self, and_false, if_false, Option.some.injEq] at hv
          exact hv ▸ h
        · omega
      · split at hv
        · cases hv; exact h.setInfo hc rfl
        · split at hv
          · have hprobe : Held A X limit i (dhcpd_ip_address_in_use env s).2 := h.congr rfl rfl
            split at hv <;> cases hv
            · exact hprobe.update (hm client rfl) hc _ _
            · exact hprobe.setInfo hc rfl
          · cases hv; exact h
  · cases hv; exact h

theorem release_expired_loop_held (now n : Nat) (s s' : Server) (item : Option Nat) (h : Held A X limit i s)
    (hlim : now < limit) (hm : ∀ client ∈ item, client ∈ s.dhcp_ip_pool)
    (hl : release_expired_loop cfg env now n s item = some s') : Held A X limit i s' := by
  induction n generalizing s item with
  | zero => cases hl; exact h
  | succ n ih =>
    obtain ⟨t, hv, hl⟩ := Option.bind_eq_some_iff.1 hl
    exact ih t _ (visit_held h hlim hm hv) next_mem hl

/-- A sweep reads the clock once, at its beginning. -/
theorem sweep_held {s₀ : Server} (hi : PoolInv s₀ s) (h : Held A X limit i s) (hlim : s'.now < limit)
    (hs : dhcp_client_release_expired_leases cfg env s = some s') : Held A X limit i s' := by
  have hread₀ : PoolInv s₀ (rtos_time_get env s).2 := hi.congr rfl rfl (Nat.le_add_right _ _)
  have hread : PoolInv (rtos_time_get env s).2 (rtos_time_get env s).2 := hread₀.self
  have hhead : ∀ client ∈ FreeRtos.listGET_HEAD_ENTRY (rtos_time_get env s).2.dhcp_ip_pool,
      client ∈ (rtos_time_get env s).2.dhcp_ip_pool := fun _ hc => List.mem_of_mem_head? hc
  have hnow : (rtos_time_get env s).1 ≤ s'.now := (release_expired_loop_inv _ _ _ _ _ hread hhead hs).clock
  have hheld : Held A X limit i (rtos_time_get env s).2 := h.congr rfl rfl
  exact release_expired_loop_held _ _ _ _ _ hheld (hnow.trans_lt hlim) hhead hs

/-- One step before the lease expires. -/
theorem step_held {s₀ : Server} {e : Event} (hi : PoolInv s₀ s) (h : Held A X limit i s) (h0 : X ≠ zero_ip)
    (hb : X ≠ bad_ip) (hl : limit ≤ s.now + cfg.lease_time) (hq : ¬ Disturbs cfg env A X s e)
    (hs : (dhcpd cfg env).step s e = some s') (hlim : s'.now < limit)
    (hover : s'.now + cfg.lease_time < 2 ^ 32) : Held A X limit i s' := by
  cases e with
  | recv m =>
    simp only [dhcpd, dhcpd_recv] at hs
    split at hs
    · rename_i hp
      obtain ⟨⟨t, r⟩, hh, rfl⟩ := Option.map_eq_some_iff.1 hs
      exact handle_held h h0 hb hp hq hl hh hover
    · cases hs; exact h
  | sweep => exact sweep_held hi h hlim hs

theorem run_now {s₀ : Server} {C : Server → Event → Prop} {es : List Event} (hi : PoolInv s₀ s)
    (hr : (dhcpd cfg env).Run C s es s') : s.now ≤ s'.now := by
  have hs : PoolInv s s' := hr.inv (fun _ _ _ h _ hs => step_inv h hs) hi.self
  exact hs.clock

/-- A run that does not disturb the entry, up to a state before the lease expires. -/
theorem run_held {s₀ : Server} {es : List Event} (hi : PoolInv s₀ s) (h : Held A X limit i s) (h0 : X ≠ zero_ip)
    (hb : X ≠ bad_ip) (hl : limit ≤ s.now + cfg.lease_time)
    (hr : (dhcpd cfg env).Run (fun s e => ¬ Disturbs cfg env A X s e) s es s') (hlim : s'.now < limit)
    (hover : s'.now + cfg.lease_time < 2 ^ 32) : Held A X limit i s' := by
  induction hr with
  | nil => exact h
  | cons hq hs hr ih =>
    have hi' := step_inv hi hs
    have hstep := (step_inv hi.self hs).clock
    have hrun := run_now hi' hr
    exact ih hi' (step_held hi h h0 hb hl hq hs (by omega) (by omega)) (by omega) hlim hover

/-- A REQUEST that leases `X` to `A` leaves the entry held for a lease time. -/
theorem leases_held {s₀ : Server} {m : dhcp_message_t} (hi : PoolInv s₀ s)
    (hA : Leases cfg env s m A DHCP_REQUEST X) (h0 : X ≠ zero_ip) (hb : X ≠ bad_ip)
    (hs : (dhcpd cfg env).step s (.recv m) = some s') (hover : s'.now + cfg.lease_time < 2 ^ 32) :
    ∃ i, Held A X (s'.now + cfg.lease_time) i s' := by
  obtain ⟨hp, o, ho, hr, hping, hmac, ht, hX⟩ := hA
  simp only [dhcpd, dhcpd_recv, if_pos hp] at hs
  obtain ⟨⟨t, r⟩, hh, rfl⟩ := Option.map_eq_some_iff.1 hs
  have hy : set_yiaddr cfg env s m o =
      dhcpd_client_ip_address_lease cfg env s A (client_state cfg m o).requested_ip DHCP_REQUEST := by
    unfold set_yiaddr
    simp only
    rw [if_neg hping, hmac, ht]
  have ht' : t = (dhcpd_client_ip_address_lease cfg env s A (client_state cfg m o).requested_ip DHCP_REQUEST).2 := by
    obtain ⟨o', ho', hcases⟩ := handle_cases hh
    obtain rfl : o = o' := Option.some.inj (ho.symm.trans ho')
    rcases hcases with ⟨hs, -⟩ | ⟨hs, -⟩ | ⟨-, ht'⟩
    · rcases hs with hs | hs
      · exact absurd hs hr.1
      · exact absurd hs hr.2.1
    · exact absurd hs hr.2.2
    · have hyX : ¬ (set_yiaddr cfg env s m o).1 = INADDR_BROADCAST := by rw [hy, hX]; exact hb
      rw [ht', if_neg hyX, hy]
  cases hl : dhcp_client_lookup_by_mac s A with
  | none =>
    -- an unknown client's REQUEST gets no address
    refine absurd ?_ h0
    rw [← hX]
    simp [dhcpd_client_ip_address_lease, hl, lease_new, DHCP_REQUEST, DHCP_DISCOVER, DHCP_INFORM]
  | some client =>
    obtain ⟨hc, hm⟩ := lookup_by_mac_some hl
    by_cases hip : (s.dhcp_ip_infos client).ip = (client_state cfg m o).requested_ip
    · have hres : dhcpd_client_ip_address_lease cfg env s A (client_state cfg m o).requested_ip DHCP_REQUEST =
          ((s.dhcp_ip_infos client).ip, dhcp_client_update env s client .LEASED cfg.lease_time) := by
        simp [dhcpd_client_ip_address_lease, hl, lease_known, hip, DHCP_REQUEST, DHCP_INFORM, DHCP_DISCOVER]
      rw [hres] at hX ht'
      simp only at hX ht' hover
      subst ht'
      refine ⟨client, ?_⟩
      refine ⟨(update_mem _ _ hc).2 hc, by rw [update_ip, hX], fun j hj hjX => ?_, by rw [update_mac, hm],
        .inr ⟨by rw [update_self], ?_⟩⟩
      · rw [update_mem _ _ hc] at hj
        rw [update_ip] at hjX
        exact hi.address j hj client hc (hjX.trans hX.symm)
      · rw [update_self]
        simp only
        rw [Nat.mod_eq_of_lt hover]
    · refine absurd ?_ hb
      rw [← hX]
      simp [dhcpd_client_ip_address_lease, hl, lease_known, hip]

/-- Once a REQUEST has leased `X` to `A`, no other client is given `X` before
the lease time has passed, unless a message in between disturbs the lease. -/
theorem lease_exclusive (hcfg : cfg.Ascending) {s₁ s₂ s₃ : Server} {m₁ m₂ : dhcp_message_t} {es : List Event}
    {request_type : Nat} (hreach : (dhcpd cfg env).Reachable Machine.Free s₁)
    (hA : Leases cfg env s₁ m₁ A DHCP_REQUEST X) (h0 : X ≠ zero_ip) (hb : X ≠ bad_ip)
    (h12 : (dhcpd cfg env).step s₁ (.recv m₁) = some s₂)
    (h23 : (dhcpd cfg env).Run (fun s e => ¬ Disturbs cfg env A X s e) s₂ es s₃)
    (hB : Leases cfg env s₃ m₂ B request_type X) (hAB : B ≠ A)
    (hover : s₃.now + cfg.lease_time < 2 ^ 32) : s₂.now + cfg.lease_time ≤ s₃.now := by
  by_contra hlt
  obtain ⟨s₀, es₀, ⟨t₀, hinit⟩, hr₀⟩ := hreach
  have hi₁ : PoolInv s₀ s₁ := hr₀.inv (fun _ _ _ h _ hs => step_inv h hs) (start_inv hcfg hinit)
  have hi₂ : PoolInv s₀ s₂ := step_inv hi₁ h12
  have h23now := run_now hi₂ h23
  obtain ⟨i, hheld⟩ := leases_held hi₁ hA h0 hb h12 (by omega)
  have hheld₃ : Held A X (s₂.now + cfg.lease_time) i s₃ := run_held hi₂ hheld h0 hb le_rfl h23 (by omega) hover
  obtain ⟨-, o, -, -, -, -, -, hX⟩ := hB
  exact (lease_apart hheld₃ hAB h0 hb).1 hX

/-! ## Two clients and one address -/

theorem leases_of (s : Server) (m : dhcp_message_t) (o : ReqOptions) (hp : Accepted m)
    (ho : parse_options m.options = some o) (hr : (client_state cfg m o).state.Replies)
    (hping : (client_state cfg m o).state ≠ .PINGING)
    (hX : (dhcpd_client_ip_address_lease cfg env s m.chaddr (client_state cfg m o).requested_ip
      o.dhcp_msg_type).1 = X) :
    Leases cfg env s m m.chaddr o.dhcp_msg_type X :=
  ⟨hp, o, ho, hr, hping, rfl, rfl, hX⟩

/-- In the first run the clock jumps by 600 seconds when it is read for the sixth time. -/
def leaseEnv : Env := ⟨fun reading => if reading = 5 then 600 else 0, fun _ => false⟩

/-- A gets 192.168.0.2. -/
def leaseEvents (ip server_ip : in_addr) : List Event := [.recv (discover_message 0xA ip), .recv (request_message 0xA ip server_ip)]

/-- The lease of 192.168.0.2 to A has expired, is swept, and B is offered the address. -/
theorem lease_exclusive_expired :
    ∃ s₂ s₃, (dhcpd smallConfig leaseEnv).step s₂ .sweep = some s₃ ∧
      Leases smallConfig leaseEnv s₃ (discover_message 0xB 0xC0A80002) 0xB DHCP_DISCOVER 0xC0A80002 ∧
      s₂.now + smallConfig.lease_time ≤ s₃.now := by
  have h1 : (runFrom smallConfig leaseEnv [.recv (discover_message 0xA 0xC0A80002)]).isSome := by decide +kernel
  have h2 : (runFrom smallConfig leaseEnv (leaseEvents 0xC0A80002 0xC0A80001)).isSome := by decide +kernel
  have h3 : (runFrom smallConfig leaseEnv (leaseEvents 0xC0A80002 0xC0A80001 ++ [Event.sweep])).isSome := by
    decide +kernel
  have hA : Leases smallConfig leaseEnv (stateAfter smallConfig leaseEnv [.recv (discover_message 0xA 0xC0A80002)])
      (request_message 0xA 0xC0A80002 0xC0A80001) 0xA DHCP_REQUEST 0xC0A80002 :=
    leases_of _ _ ⟨3, some 0xC0A80002, some 0xC0A80001, default_params⟩ (by decide +kernel) (by decide +kernel)
      (by decide +kernel) (by decide +kernel) (by decide +kernel)
  have hB : Leases smallConfig leaseEnv (stateAfter smallConfig leaseEnv (leaseEvents 0xC0A80002 0xC0A80001 ++ [Event.sweep]))
      (discover_message 0xB 0xC0A80002) 0xB DHCP_DISCOVER 0xC0A80002 :=
    leases_of _ _ ⟨1, some 0xC0A80002, none, default_params⟩ (by decide +kernel) (by decide +kernel)
      (by decide +kernel) (by decide +kernel) (by decide +kernel)
  have hsweep := stateAfter_step h2 h3
  refine ⟨_, _, hsweep, hB, ?_⟩
  exact lease_exclusive smallConfig_ascending (stateAfter_reachable h1) hA (by decide) (by decide)
    (stateAfter_step h1 h2) (.cons id hsweep (.nil _)) hB (by decide) (by decide +kernel)

/-- The pool whose walk wraps holds 255.255.255.253 twice: while A has it for
another 600 seconds, B is offered it too. -/
theorem lease_exclusive_wraps :
    ∃ s₁ s₂ : Server, (dhcpd wrapConfig stillEnv).Reachable Machine.Free s₁ ∧
      Leases wrapConfig stillEnv s₁ (request_message 0xA 0xFFFFFFFD 0xFFFFFFFC) 0xA DHCP_REQUEST 0xFFFFFFFD ∧
      (dhcpd wrapConfig stillEnv).step s₁ (.recv (request_message 0xA 0xFFFFFFFD 0xFFFFFFFC)) = some s₂ ∧
      Leases wrapConfig stillEnv s₂ (discover_message 0xB 0xFFFFFFFD) 0xB DHCP_DISCOVER 0xFFFFFFFD ∧
      ¬ s₂.now + wrapConfig.lease_time ≤ s₂.now := by
  have h1 : (runFrom wrapConfig stillEnv [.recv (discover_message 0xA 0xFFFFFFFD)]).isSome := by decide +kernel
  have h2 : (runFrom wrapConfig stillEnv (leaseEvents 0xFFFFFFFD 0xFFFFFFFC)).isSome := by decide +kernel
  refine ⟨_, _, stateAfter_reachable h1, ?_, stateAfter_step h1 h2, ?_, by decide +kernel⟩
  · exact leases_of _ _ ⟨3, some 0xFFFFFFFD, some 0xFFFFFFFC, default_params⟩ (by decide +kernel) (by decide +kernel)
      (by decide +kernel) (by decide +kernel) (by decide +kernel)
  · exact leases_of _ _ ⟨1, some 0xFFFFFFFD, none, default_params⟩ (by decide +kernel) (by decide +kernel)
      (by decide +kernel) (by decide +kernel) (by decide +kernel)

end Dhcpd
