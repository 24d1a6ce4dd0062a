import XcoreSdk.Dhcpd.Options
import XcoreSdk.Lib.Machine
/-!
# Handling a request

`dhcpd_handle_op_request` reads the options, decides from them and from the
message which state the client is in, and then releases, declines, leases or
stays silent. `dhcpd` is the machine of the server's task: it handles
messages and sweeps expired leases, in any order.
-/

namespace Dhcpd
variable (cfg : Config) (env : Env)

/-- `DHCP_CLIENT_STATE_*`. -/
inductive ClientState
  | NONE | DISCOVER | SELECTING | INIT_REBOOT | RENEWING | REBINDING | INFORMING | RELEASING | DECLINING | PINGING
deriving DecidableEq, Repr

/-- The states whose `case` does not return. -/
def ClientState.Replies (state : ClientState) : Prop := state ≠ .DECLINING ∧ state ≠ .RELEASING ∧ state ≠ .NONE

instance (state : ClientState) : Decidable state.Replies := inferInstanceAs (Decidable (_ ∧ _))

/-- What the `switch (dhcp_msg_type)` leaves behind. The client to release is
looked up before anything is changed, so it is kept as the lookup to do. -/
structure Client where
  state : ClientState
  requested_ip : in_addr
  ciaddr : in_addr
  dhcp_client : Server → Option Nat := fun _ => none

/-- The `switch (dhcp_msg_type)`. -/
def client_state (m : dhcp_message_t) (o : ReqOptions) : Client :=
  let requested_ip := o.requested_ip.getD INADDR_ANY
  let ip_requested := o.requested_ip.isSome
  let server_identified := o.server_identifier.isSome
  if o.dhcp_msg_type = DHCP_DISCOVER then ⟨.DISCOVER, requested_ip, m.ciaddr, fun _ => none⟩
  else if o.dhcp_msg_type = DHCP_REQUEST then
    if ip_requested ∧ server_identified ∧ m.ciaddr = 0 then
      if o.server_identifier = some cfg.server_ip then ⟨.SELECTING, requested_ip, m.ciaddr, fun _ => none⟩
      else ⟨.RELEASING, requested_ip, m.ciaddr, fun s => dhcp_client_lookup_by_mac s m.chaddr⟩
    else if ip_requested ∧ ¬ server_identified ∧ m.ciaddr = 0 then
      ⟨.INIT_REBOOT, requested_ip, m.ciaddr, fun _ => none⟩
    else if ¬ ip_requested ∧ ¬ server_identified ∧ m.ciaddr ≠ 0 then
      ⟨.RENEWING, m.ciaddr, m.ciaddr, fun _ => none⟩
    else if ip_requested ∧ ¬ server_identified ∧ m.ciaddr ≠ 0 then
      ⟨.PINGING, requested_ip, m.ciaddr, fun _ => none⟩
    else ⟨.NONE, requested_ip, m.ciaddr, fun _ => none⟩
  else if o.dhcp_msg_type = DHCP_INFORM then
    if ¬ ip_requested ∧ ¬ server_identified ∧ m.ciaddr ≠ 0 then
      ⟨.INFORMING, m.ciaddr, m.ciaddr, fun _ => none⟩
    else ⟨.NONE, requested_ip, m.ciaddr, fun _ => none⟩
  else if o.dhcp_msg_type = DHCP_DECLINE then
    if ip_requested ∧ server_identified then
      ⟨.DECLINING, requested_ip, 0, fun s => dhcp_client_lookup_by_ip s requested_ip⟩
    else ⟨.NONE, requested_ip, m.ciaddr, fun _ => none⟩
  else if o.dhcp_msg_type = DHCP_RELEASE then
    if ¬ ip_requested ∧ server_identified ∧ m.ciaddr ≠ 0 then
      ⟨.RELEASING, requested_ip, m.ciaddr, fun s => dhcp_client_lookup_by_ip s m.ciaddr⟩
    else ⟨.NONE, requested_ip, m.ciaddr, fun _ => none⟩
  else ⟨.NONE, requested_ip, m.ciaddr, fun _ => none⟩

/-- The RELEASING and DECLINING cases of the `switch (state)`. -/
def release_or_decline (s : Server) (c : Client) : Server :=
  match c.dhcp_client s with
  | none => s
  | some client =>
    let s := if c.ciaddr = 0 then set_mac s client 0 else s
    if c.state = .DECLINING then dhcp_client_update env s client .UNAVAILABLE cfg.unavailable_ip_probe_interval
    else dhcp_client_update env s client .AVAILABLE 0

/-- The options of an OFFER or an ACK. -/
def ack_options (state : ClientState) (requested_params : List UInt8) : List (UInt8 × List UInt8) :=
  let dhcp_msg_type := if state = .DISCOVER then DHCP_OFFER else DHCP_ACK
  let include_opt (code : UInt8) (data : List UInt8) := if code ∈ requested_params then [(code, data)] else []
  [(DHCP_OPTION_DHCP_MESSAGE_TYPE, [UInt8.ofNat dhcp_msg_type]),
    (DHCP_OPTION_SERVER_IDENTIFIER, in_addr.octets cfg.server_ip)] ++
  (if state ≠ .INFORMING then [(DHCP_OPTION_IP_ADDRESS_LEASE_TIME, Bytes.toBE 4 cfg.lease_time)] else []) ++
  include_opt DHCP_OPTION_SUBNET_MASK (in_addr.octets cfg.netmask) ++
  include_opt DHCP_OPTION_ROUTER (in_addr.octets cfg.gateway) ++
  include_opt DHCP_OPTION_DOMAIN_NAME_SERVER (in_addr.octets cfg.dns.1 ++ in_addr.octets cfg.dns.2) ++
  include_opt DHCP_OPTION_INTERFACE_MTU (Bytes.toBE 2 cfg.network_mtu) ++
  include_opt DHCP_OPTION_BROADCAST_ADDRESS (in_addr.octets INADDR_BROADCAST) ++
  include_opt DHCP_OPTION_RENEWAL_TIME_VALUE (Bytes.toBE 4 (cfg.lease_time / 2)) ++
  include_opt DHCP_OPTION_REBINDING_TIME_VALUE (Bytes.toBE 4 (cfg.lease_time * 7 / 8)) ++
  [(DHCP_OPTION_END, [])]

def nak_options : List (UInt8 × List UInt8) :=
  [(DHCP_OPTION_DHCP_MESSAGE_TYPE, [UInt8.ofNat DHCP_NAK]),
    (DHCP_OPTION_SERVER_IDENTIFIER, in_addr.octets cfg.server_ip),
    (DHCP_OPTION_END, [])]

/-- The fields every reply sets alike. -/
def reply (m : dhcp_message_t) (ciaddr yiaddr : in_addr) (options : List UInt8) : dhcp_message_t :=
  { m with
    op := BOOTREPLY, htype := 1, hlen := 6, hops := 0, secs := 0, ciaddr, yiaddr, siaddr := 0,
    sname := List.replicate m.sname.length 0, file := List.replicate m.file.length 0,
    magic_cookie := DHCP_MAGIC_COOKIE, options }

/-- Before a NAK, the address the client has is made available, without
forgetting whose it was. -/
def nak_update (s : Server) (chaddr : MACAddress_t) : Server :=
  match dhcp_client_lookup_by_mac s chaddr with
  | none => s
  | some client => dhcp_client_update env s client .AVAILABLE 0

/-- `dhcp_msg->yiaddr` in the remaining cases: a pinging client gets back what
it asked for, all others try to lease. -/
def set_yiaddr (s : Server) (m : dhcp_message_t) (o : ReqOptions) : in_addr × Server :=
  let c := client_state cfg m o
  if c.state = .PINGING then (c.requested_ip, s)
  else dhcpd_client_ip_address_lease cfg env s m.chaddr c.requested_ip o.dhcp_msg_type

/-- The server's new state and the reply it sends, if any. -/
def dhcpd_handle_op_request (s : Server) (m : dhcp_message_t) : Option (Server × Option dhcp_message_t) := do
  let o ← parse_options m.options
  let c := client_state cfg m o
  if c.state = .DECLINING ∨ c.state = .RELEASING then
    some (release_or_decline cfg env s c, none)
  else if c.state = .NONE then some (s, none)
  else
    let (yiaddr, s) := set_yiaddr cfg env s m o
    if yiaddr ≠ INADDR_ANY ∧ yiaddr ≠ INADDR_BROADCAST then
      let options ← options_written (ack_options cfg c.state o.requested_params)
      some (s, some (reply m (if c.state = .DISCOVER then 0 else c.ciaddr)
        (if c.state = .INFORMING then 0 else yiaddr) options))
    else if yiaddr = INADDR_BROADCAST then
      let options ← options_written (nak_options cfg)
      some (nak_update env s m.chaddr, some (reply m 0 0 options))
    else some (s, none)

/-! ## The server's task -/

inductive Event
  | recv (m : dhcp_message_t)
  | sweep

/-- The messages `dhcpd_listen` hands to the handler. -/
def Accepted (m : dhcp_message_t) : Prop := m.options.length ≥ DHCP_REQUEST_MIN_OPTIONS ∧ m.op = BOOTREQUEST

instance (m : dhcp_message_t) : Decidable (Accepted m) := inferInstanceAs (Decidable (_ ∧ _))

/-- What `dhcpd_listen` does with a received message. -/
def dhcpd_recv (s : Server) (m : dhcp_message_t) : Option Server :=
  if Accepted m then
    (dhcpd_handle_op_request cfg env s m).map Prod.fst
  else some s

/-- The server, started at any time. -/
def dhcpd : Machine Server Event where
  init s := ∃ now, dhcpd_start cfg env now = some s
  step s
    | .recv m => dhcpd_recv cfg env s m
    | .sweep => dhcp_client_release_expired_leases cfg env s

/-! ## Every message is handled -/

@[simp] theorem octets_length (ip : in_addr) : (in_addr.octets ip).length = 4 := by simp [in_addr.octets]

theorem optionsSize_append (as bs : List (UInt8 × List UInt8)) :
    optionsSize (as ++ bs) = optionsSize as + optionsSize bs := by
  simp [optionsSize]

theorem ack_options_written (state : ClientState) (params : List UInt8) :
    (options_written (ack_options cfg state params)).isSome := by
  have one : ∀ (p : Prop) [Decidable p] (o : UInt8 × List UInt8), o.2.length ≤ 8 →
      optionsSize (if p then [o] else []) ≤ 10 := by
    intro p _ o ho
    split <;> simp [optionsSize]
    omega
  apply options_written_isSome
  · intro o ho
    simp only [ack_options, List.mem_append, List.mem_cons, List.not_mem_nil, or_false] at ho
    rcases ho with (((((((((rfl | rfl) | h) | h) | h) | h) | h) | h) | h) | h) | rfl <;>
      first
      | (split at h <;> simp only [List.mem_cons, List.not_mem_nil, or_false] at h; subst h; simp)
      | simp
  · simp only [ack_options, optionsSize_append, DHCP_OPTIONS_LENGTH]
    have hlease := one (state ≠ .INFORMING) (DHCP_OPTION_IP_ADDRESS_LEASE_TIME, Bytes.toBE 4 cfg.lease_time) (by simp)
    have hmask := one (DHCP_OPTION_SUBNET_MASK ∈ params) (DHCP_OPTION_SUBNET_MASK, in_addr.octets cfg.netmask) (by simp)
    have hrouter := one (DHCP_OPTION_ROUTER ∈ params) (DHCP_OPTION_ROUTER, in_addr.octets cfg.gateway) (by simp)
    have hdns := one (DHCP_OPTION_DOMAIN_NAME_SERVER ∈ params)
      (DHCP_OPTION_DOMAIN_NAME_SERVER, in_addr.octets cfg.dns.1 ++ in_addr.octets cfg.dns.2) (by simp)
    have hmtu := one (DHCP_OPTION_INTERFACE_MTU ∈ params)
      (DHCP_OPTION_INTERFACE_MTU, Bytes.toBE 2 cfg.network_mtu) (by simp)
    have hbcast := one (DHCP_OPTION_BROADCAST_ADDRESS ∈ params)
      (DHCP_OPTION_BROADCAST_ADDRESS, in_addr.octets INADDR_BROADCAST) (by simp)
    have hrenew := one (DHCP_OPTION_RENEWAL_TIME_VALUE ∈ params)
      (DHCP_OPTION_RENEWAL_TIME_VALUE, Bytes.toBE 4 (cfg.lease_time / 2)) (by simp)
    have hrebind := one (DHCP_OPTION_REBINDING_TIME_VALUE ∈ params)
      (DHCP_OPTION_REBINDING_TIME_VALUE, Bytes.toBE 4 (cfg.lease_time * 7 / 8)) (by simp)
    simp only [optionsSize, List.map_cons, List.map_nil, List.sum_cons, List.sum_nil, List.length_cons,
      List.length_nil, octets_length] at *
    omega

theorem nak_options_written : (options_written (nak_options cfg)).isSome := by
  apply options_written_isSome
  · intro o ho
    simp only [nak_options, List.mem_cons, List.not_mem_nil, or_false] at ho
    rcases ho with rfl | rfl | rfl <;> simp
  · simp [optionsSize, nak_options, DHCP_OPTIONS_LENGTH]

/-- The handler runs to its end on every message that is long enough. -/
theorem handle_isSome (s : Server) (m : dhcp_message_t) (h : 0 < m.options.length) :
    (dhcpd_handle_op_request cfg env s m).isSome := by
  obtain ⟨o, ho⟩ := Option.isSome_iff_exists.1 (parse_options_isSome m.options h)
  obtain ⟨ack, hack⟩ := Option.isSome_iff_exists.1
    (ack_options_written cfg (client_state cfg m o).state o.requested_params)
  obtain ⟨nak, hnak⟩ := Option.isSome_iff_exists.1 (nak_options_written cfg)
  simp only [dhcpd_handle_op_request, ho, hack, hnak, Option.bind_eq_bind, Option.bind_some]
  split_ifs <;> rfl

/-- What the states say about the message. -/
theorem client_state_cases (cfg : Config) (m : dhcp_message_t) (o : ReqOptions) :
    (client_state cfg m o).state = .NONE ∨
    (client_state cfg m o).state = .DISCOVER ∧ o.dhcp_msg_type = DHCP_DISCOVER ∨
    ((client_state cfg m o).state = .SELECTING ∨ (client_state cfg m o).state = .INIT_REBOOT ∨
      (client_state cfg m o).state = .RENEWING ∨ (client_state cfg m o).state = .PINGING) ∧
      o.dhcp_msg_type = DHCP_REQUEST ∨
    (client_state cfg m o).state = .INFORMING ∧ o.dhcp_msg_type = DHCP_INFORM ∧
      (client_state cfg m o).requested_ip = m.ciaddr ∨
    (client_state cfg m o).state = .RELEASING ∧ o.dhcp_msg_type = DHCP_REQUEST ∧
      (client_state cfg m o).dhcp_client = (dhcp_client_lookup_by_mac · m.chaddr) ∨
    (client_state cfg m o).state = .RELEASING ∧ o.dhcp_msg_type = DHCP_RELEASE ∧
      (client_state cfg m o).dhcp_client = (dhcp_client_lookup_by_ip · m.ciaddr) ∨
    (client_state cfg m o).state = .DECLINING ∧
      ∃ ip, o.requested_ip = some ip ∧ (client_state cfg m o).dhcp_client = (dhcp_client_lookup_by_ip · ip) := by
  by_cases hdecline : o.dhcp_msg_type = DHCP_DECLINE ∧ o.requested_ip.isSome ∧ o.server_identifier.isSome
  · obtain ⟨ht, hip, hid⟩ := hdecline
    obtain ⟨ip, hip⟩ := Option.isSome_iff_exists.1 hip
    simp [client_state, ht, hip, hid, DHCP_DISCOVER, DHCP_REQUEST, DHCP_INFORM, DHCP_DECLINE]
  · unfold client_state
    simp only
    split_ifs <;> simp_all

/-- What a client lets go of, and how it is looked up. -/
theorem releasing_cases {cfg : Config} {m : dhcp_message_t} {o : ReqOptions}
    (h : (client_state cfg m o).state = .DECLINING ∨ (client_state cfg m o).state = .RELEASING) :
    (client_state cfg m o).state = .RELEASING ∧ o.dhcp_msg_type = DHCP_REQUEST ∧
      (client_state cfg m o).dhcp_client = (dhcp_client_lookup_by_mac · m.chaddr) ∨
    (client_state cfg m o).state = .RELEASING ∧ o.dhcp_msg_type = DHCP_RELEASE ∧
      (client_state cfg m o).dhcp_client = (dhcp_client_lookup_by_ip · m.ciaddr) ∨
    (client_state cfg m o).state = .DECLINING ∧
      ∃ ip, o.requested_ip = some ip ∧ (client_state cfg m o).dhcp_client = (dhcp_client_lookup_by_ip · ip) := by
  rcases client_state_cases cfg m o with hs | ⟨hs, -⟩ | ⟨hs, -⟩ | ⟨hs, -, -⟩ | hmac | hciaddr | hip
  · rw [hs] at h
    rcases h with h | h <;> cases h
  · rw [hs] at h
    rcases h with h | h <;> cases h
  · rcases hs with hs | hs | hs | hs <;> rw [hs] at h <;> rcases h with h | h <;> cases h
  · rw [hs] at h
    rcases h with h | h <;> cases h
  · exact .inl hmac
  · exact .inr (.inl hciaddr)
  · exact .inr (.inr hip)

/-- All that the handler can do to the pool. -/
theorem handle_cases {cfg : Config} {env : Env} {s s' : Server} {m : dhcp_message_t} {r : Option dhcp_message_t}
    (h : dhcpd_handle_op_request cfg env s m = some (s', r)) :
    ∃ o, parse_options m.options = some o ∧
      (((client_state cfg m o).state = .DECLINING ∨ (client_state cfg m o).state = .RELEASING) ∧
          s' = release_or_decline cfg env s (client_state cfg m o) ∨
        (client_state cfg m o).state = .NONE ∧ s' = s ∨
        (client_state cfg m o).state.Replies ∧
          s' = (if (set_yiaddr cfg env s m o).1 = INADDR_BROADCAST
            then nak_update env (set_yiaddr cfg env s m o).2 m.chaddr else (set_yiaddr cfg env s m o).2)) := by
  obtain ⟨o, ho, h⟩ := Option.bind_eq_some_iff.1 h
  refine ⟨o, ho, ?_⟩
  simp only at h
  split at h
  · rename_i hc
    cases h
    exact .inl ⟨hc, rfl⟩
  · rename_i hc
    obtain ⟨hd, hr⟩ := not_or.1 hc
    split at h
    · rename_i hn
      cases h
      exact .inr (.inl ⟨hn, rfl⟩)
    · rename_i hn
      refine .inr (.inr ⟨⟨hd, hr, hn⟩, ?_⟩)
      split at h
      · rename_i hy
        obtain ⟨_, -, h⟩ := Option.bind_eq_some_iff.1 h
        cases h
        rw [if_neg hy.2]
      · split at h
        · rename_i hy
          obtain ⟨_, -, h⟩ := Option.bind_eq_some_iff.1 h
          cases h
          rw [if_pos hy]
        · rename_i hy
          cases h
          rw [if_neg hy]

end Dhcpd
