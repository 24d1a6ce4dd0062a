import XcoreSdk.Dhcpd.LeaseRun
import XcoreSdk.Dhcpd.Selection
/-!
# Other clients' messages

A lookup by a MAC address finds no entry of another client, and the search for
an available entry finds none that is taken. But a RELEASE and a DECLINE find
their entry by its address, whoever has it.
-/

namespace Dhcpd
variable {cfg : Config} {env : Env} {s s' : Server} {mac : MACAddress_t} {client i : Nat}

/-- The entry is leased or offered to a client, or the client's own. -/
def Taken (info : dhcp_ip_info_t) : Prop := info.state = .LEASED ∨ info.state = .OFFERED ∨ info.state = .STATIC

instance (info : dhcp_ip_info_t) : Decidable (Taken info) := inferInstanceAs (Decidable (_ ∨ _))

/-- The message is a RELEASE or a DECLINE, and the lookup of its address finds the entry. -/
def Names (cfg : Config) (s : Server) (i : Nat) (m : dhcp_message_t) (o : ReqOptions) : Prop :=
  (client_state cfg m o).state = .RELEASING ∧ o.dhcp_msg_type = DHCP_RELEASE ∧
      dhcp_client_lookup_by_ip s m.ciaddr = some i ∨
    (client_state cfg m o).state = .DECLINING ∧
      ∃ ip, o.requested_ip = some ip ∧ dhcp_client_lookup_by_ip s ip = some i

/-- The entry is as it was. -/
def Same (i : Nat) (s s' : Server) : Prop := s'.dhcp_ip_infos i = s.dhcp_ip_infos i

theorem Same.trans {s'' : Server} (h : Same i s s') (h' : Same i s' s'') : Same i s s'' := Eq.trans h' h

theorem Taken.not_available (h : Taken (s.dhcp_ip_infos i)) : (s.dhcp_ip_infos i).state ≠ .AVAILABLE := by
  rcases h with h | h | h <;> rw [h] <;> decide

theorem ne_of_available (h : (s.dhcp_ip_infos i).state ≠ .AVAILABLE)
    (hc : (s.dhcp_ip_infos client).state = .AVAILABLE) : client ≠ i := by
  rintro rfl
  exact h hc

/-! ## Leasing -/

theorem offer_oldest_loop_same (mac : MACAddress_t) (fuel : Nat) (s : Server)
    (h : (s.dhcp_ip_infos i).state ≠ .AVAILABLE) : Same i s (offer_oldest_loop cfg env mac fuel s).2 := by
  induction fuel generalizing s with
  | zero => rfl
  | succ fuel ih =>
    unfold offer_oldest_loop
    split
    · rfl
    · rename_i client hold
      have hne := ne_of_available h (oldest_some hold).2
      obtain ⟨hinfos, -, -⟩ := probe_new_frame cfg env s
      have hprobe : Same i s (probe_new cfg env s).2 := congrFun hinfos i
      dsimp only
      split_ifs
      · have hmark : Same i (probe_new cfg env s).2 (mark_unavailable cfg env (probe_new cfg env s).2 client) :=
          mark_of_ne _ hne.symm
        have hsame := hprobe.trans hmark
        exact hsame.trans (ih _ (by rwa [hsame]))
      · exact hprobe.trans (offer_of_ne _ _ hne.symm)

theorem lease_new_same (mac : MACAddress_t) (requested_ip : in_addr) (request_type : Nat)
    (h : (s.dhcp_ip_infos i).state ≠ .AVAILABLE) : Same i s (lease_new cfg env s mac requested_ip request_type).2 := by
  unfold lease_new
  split
  · split
    · rename_i client hreq
      have hne := ne_of_available h (requested_client_some hreq).2
      obtain ⟨hinfos, -, -⟩ := probe_new_frame cfg env s
      have hprobe : Same i s (probe_new cfg env s).2 := congrFun hinfos i
      dsimp only
      split_ifs
      · have hmark : Same i (probe_new cfg env s).2 (mark_unavailable cfg env (probe_new cfg env s).2 client) :=
          mark_of_ne _ hne.symm
        have hsame := hprobe.trans hmark
        exact hsame.trans (offer_oldest_loop_same mac _ _ (by rwa [hsame]))
      · exact hprobe.trans (offer_of_ne _ _ hne.symm)
    · exact offer_oldest_loop_same mac _ _ h
  · split
    · split
      · rename_i client hreq
        have hne := ne_of_available h (requested_client_some hreq).2
        exact (update_of_ne _ _ hne.symm).trans (set_mac_of_ne _ hne.symm)
      · rfl
    · rfl

def Flow.server : Flow → Server
  | .ret _ s => s
  | .fall _ s => s

theorem lease_known_same (requested_ip : in_addr) (request_type : Nat) (hne : client ≠ i) :
    Same i s (lease_known cfg env s client requested_ip request_type).server := by
  unfold lease_known
  dsimp only
  split
  · rfl
  · split
    · generalize hr : (if request_type = DHCP_DISCOVER ∧ (s.dhcp_ip_infos client).state ≠ .LEASED
        then probe_new cfg env s else (false, s)) = r
      obtain ⟨in_use, s'⟩ := r
      have hprobe : Same i s s' := congrFun (probe_if_frame hr).1 i
      split
      · exact hprobe.trans (mark_of_ne _ hne.symm)
      · exact hprobe.trans (update_of_ne _ _ hne.symm)
    · split
      · exact update_of_ne _ _ hne.symm
      · exact (update_of_ne _ _ hne.symm).trans (set_mac_of_ne _ hne.symm)

/-- A lease attempt of another client leaves a taken entry alone. -/
theorem lease_same (requested_ip : in_addr) (request_type : Nat) (h : (s.dhcp_ip_infos i).state ≠ .AVAILABLE)
    (hmac : (s.dhcp_ip_infos i).mac ≠ mac) :
    Same i s (dhcpd_client_ip_address_lease cfg env s mac requested_ip request_type).2 := by
  unfold dhcpd_client_ip_address_lease
  split
  · rename_i client hl
    have hne : client ≠ i := by
      rintro rfl
      exact hmac (lookup_by_mac_some hl).2
    have hknown : Same i s (lease_known cfg env s client requested_ip request_type).server :=
      lease_known_same requested_ip request_type hne
    split <;> rename_i heq <;> rw [heq] at hknown
    · exact hknown
    · exact hknown.trans (lease_new_same mac _ request_type (by rwa [hknown]))
  · exact lease_new_same mac requested_ip request_type h

/-! ## Messages -/

theorem nak_update_same (hmac : (s.dhcp_ip_infos i).mac ≠ mac) : Same i s (nak_update env s mac) := by
  unfold nak_update
  split
  · rfl
  · rename_i client hl
    have hne : client ≠ i := by
      rintro rfl
      exact hmac (lookup_by_mac_some hl).2
    exact update_of_ne _ _ hne.symm

theorem release_same {c : Client} (hc : c.dhcp_client s ≠ some i) : Same i s (release_or_decline cfg env s c) := by
  unfold release_or_decline
  split
  · rfl
  · rename_i client hcl
    have hne : i ≠ client := by
      rintro rfl
      exact hc hcl
    have hforget : Same i s (if c.ciaddr = 0 then set_mac s client 0 else s) := by
      split_ifs
      · exact set_mac_of_ne _ hne
      · rfl
    dsimp only
    split_ifs at hforget ⊢ <;> exact hforget.trans (update_of_ne _ _ hne)

/-- What is released or declined is no longer taken. -/
theorem release_frees {c : Client} (hc : c.dhcp_client s = some i) :
    ¬ Taken ((release_or_decline cfg env s c).dhcp_ip_infos i) := by
  unfold release_or_decline
  rw [hc]
  dsimp only
  split_ifs <;> rw [update_self] <;> rintro (h | h | h) <;> cases h

/-- A message lets go of the entry if and only if it names it. -/
theorem dhcp_client_names_iff (m : dhcp_message_t) (o : ReqOptions) (hmac : (s.dhcp_ip_infos i).mac ≠ m.chaddr)
    (hs : (client_state cfg m o).state = .DECLINING ∨ (client_state cfg m o).state = .RELEASING) :
    (client_state cfg m o).dhcp_client s = some i ↔ Names cfg s i m o := by
  unfold Names
  rcases releasing_cases hs with ⟨h, ht, hcl⟩ | ⟨h, ht, hcl⟩ | ⟨h, ip, hip, hcl⟩
  · rw [hcl, h, ht]
    refine iff_of_false (fun hl => hmac (lookup_by_mac_some hl).2) ?_
    rintro (⟨-, ht', -⟩ | ⟨hs', -⟩)
    · exact absurd ht' (by decide)
    · cases hs'
  · rw [hcl, h, ht]
    refine ⟨fun hl => .inl ⟨rfl, rfl, hl⟩, ?_⟩
    rintro (⟨-, -, hl⟩ | ⟨hs', -⟩)
    · exact hl
    · cases hs'
  · rw [hcl, h, hip]
    refine ⟨fun hl => .inr ⟨rfl, ip, rfl, hl⟩, ?_⟩
    rintro (⟨hs', -⟩ | ⟨-, ip', hip', hl⟩)
    · cases hs'
    · rwa [Option.some.inj hip']

/-- A message of another client leaves the entry as it is if and only if it is not a RELEASE or a DECLINE that names
it. -/
theorem other_client_iff {m : dhcp_message_t} {r : Option dhcp_message_t} (h : Taken (s.dhcp_ip_infos i))
    (hmac : (s.dhcp_ip_infos i).mac ≠ m.chaddr) (hh : dhcpd_handle_op_request cfg env s m = some (s', r)) :
    ((s'.dhcp_ip_infos i).state = (s.dhcp_ip_infos i).state ∧ (s'.dhcp_ip_infos i).mac = (s.dhcp_ip_infos i).mac ∧
        (s'.dhcp_ip_infos i).item_value = (s.dhcp_ip_infos i).item_value) ↔
      ¬ ∃ o, parse_options m.options = some o ∧ Names cfg s i m o := by
  have hsame : Same i s s' → (s'.dhcp_ip_infos i).state = (s.dhcp_ip_infos i).state ∧
      (s'.dhcp_ip_infos i).mac = (s.dhcp_ip_infos i).mac ∧
        (s'.dhcp_ip_infos i).item_value = (s.dhcp_ip_infos i).item_value := by
    intro hsame
    rw [hsame]
    exact ⟨rfl, rfl, rfl⟩
  obtain ⟨o, ho, hcases⟩ := handle_cases hh
  have hnames : (∃ o, parse_options m.options = some o ∧ Names cfg s i m o) ↔ Names cfg s i m o := by
    constructor
    · rintro ⟨o', ho', hn⟩
      rwa [Option.some.inj (ho.symm.trans ho')]
    · exact fun hn => ⟨o, ho, hn⟩
  rw [hnames]
  rcases hcases with ⟨hs, rfl⟩ | ⟨hs, rfl⟩ | ⟨hs, rfl⟩
  · rw [← dhcp_client_names_iff m o hmac hs]
    constructor
    · intro hsame' hc
      refine @release_frees cfg env _ _ _ hc ?_
      unfold Taken
      rwa [hsame'.1]
    · exact fun hc => hsame (release_same hc)
  · refine iff_of_true (hsame rfl) ?_
    rintro (⟨hn, -⟩ | ⟨hn, -⟩) <;> rw [hs] at hn <;> cases hn
  · have hyiaddr : Same i s (set_yiaddr cfg env s m o).2 := by
      unfold set_yiaddr
      dsimp only
      split_ifs
      · rfl
      · exact lease_same _ _ h.not_available hmac
    refine iff_of_true (hsame ?_) ?_
    · split_ifs
      · exact hyiaddr.trans (nak_update_same (by rwa [hyiaddr]))
      · exact hyiaddr
    · rintro (⟨hn, -⟩ | ⟨hn, -⟩)
      · exact hs.2.1 hn
      · exact hs.1 hn

/-! ## B releases A's address -/

def release_message (chaddr : MACAddress_t) (ip server_ip : in_addr) : dhcp_message_t :=
  { client_message chaddr [(DHCP_OPTION_DHCP_MESSAGE_TYPE, [7]), (DHCP_OPTION_SERVER_IDENTIFIER, in_addr.octets server_ip)] with
    ciaddr := ip }

/-- A has a lease of 192.168.0.2. -/
def leased_to_A : Server := stateAfter smallConfig stillEnv (leaseEvents 0xC0A80002 0xC0A80001)

theorem leased_to_A_entry : 0 ∈ leased_to_A.dhcp_ip_pool ∧
    leased_to_A.dhcp_ip_infos 0 = ⟨0xC0A80002, .LEASED, 0xA, 600⟩ := by decide +kernel

theorem other_client_release : ∃ s' r,
    dhcpd_handle_op_request smallConfig stillEnv leased_to_A (release_message 0xB 0xC0A80002 0xC0A80001) = some (s', r) ∧
    (((s'.dhcp_ip_infos 0).state = (leased_to_A.dhcp_ip_infos 0).state ∧
        (s'.dhcp_ip_infos 0).mac = (leased_to_A.dhcp_ip_infos 0).mac ∧
          (s'.dhcp_ip_infos 0).item_value = (leased_to_A.dhcp_ip_infos 0).item_value) ↔
      ¬ ∃ o, parse_options (release_message 0xB 0xC0A80002 0xC0A80001).options = some o ∧
        Names smallConfig leased_to_A 0 (release_message 0xB 0xC0A80002 0xC0A80001) o) := by
  obtain ⟨⟨s', r⟩, hh⟩ := Option.isSome_iff_exists.1 (handle_isSome smallConfig stillEnv leased_to_A
    (release_message 0xB 0xC0A80002 0xC0A80001) (by decide +kernel))
  refine ⟨s', r, hh, other_client_iff ?_ ?_ hh⟩
  · rw [leased_to_A_entry.2]
    decide
  · rw [leased_to_A_entry.2]
    decide

/-- The RELEASE of B ends the lease of A. -/
theorem other_client_releases : ¬ ∀ (s s' : Server) (i : Nat) (m : dhcp_message_t) (r : Option dhcp_message_t),
    (dhcpd smallConfig stillEnv).Reachable Machine.Free s → i ∈ s.dhcp_ip_pool → Taken (s.dhcp_ip_infos i) →
    (s.dhcp_ip_infos i).mac ≠ m.chaddr → dhcpd_handle_op_request smallConfig stillEnv s m = some (s', r) →
    (s'.dhcp_ip_infos i).state = (s.dhcp_ip_infos i).state ∧ (s'.dhcp_ip_infos i).mac = (s.dhcp_ip_infos i).mac ∧
      (s'.dhcp_ip_infos i).item_value = (s.dhcp_ip_infos i).item_value := by
  intro hall
  have hreach : (dhcpd smallConfig stillEnv).Reachable Machine.Free leased_to_A :=
    stateAfter_reachable (by decide +kernel)
  have hstate : (dhcpd_handle_op_request smallConfig stillEnv leased_to_A
      (release_message 0xB 0xC0A80002 0xC0A80001)).map (fun r => (r.1.dhcp_ip_infos 0).state) = some .AVAILABLE := by
    decide +kernel
  obtain ⟨⟨s', r⟩, hh, havail⟩ := Option.map_eq_some_iff.1 hstate
  have hsame := (hall leased_to_A s' 0 (release_message 0xB 0xC0A80002 0xC0A80001) r hreach leased_to_A_entry.1
    (by rw [leased_to_A_entry.2]; decide) (by rw [leased_to_A_entry.2]; decide) hh).1
  rw [leased_to_A_entry.2, havail] at hsame
  cases hsame

end Dhcpd
