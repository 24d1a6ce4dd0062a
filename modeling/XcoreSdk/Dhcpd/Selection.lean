import XcoreSdk.Dhcpd.PoolContents
import XcoreSdk.Lib.Loop
/-!
# The address that a DISCOVER gets

`candidates` are the entries in the order in which the server is to try them:
the client's own, the requested one, and the other available ones. Trying a
candidate that is in use takes it out and leaves the others as they were; so
the search goes on with the rest of the list, and the loop ends with it.
-/

namespace Dhcpd
open FreeRtos (vListInsert uxListRemove)
variable (cfg : Config) (env : Env)

/-- A round of the `for (;;)` loop. -/
def offer_round (mac : MACAddress_t) (s : Server) : Server ⊕ (in_addr × Server) :=
  match dhcp_client_get_oldest_disconnected s with
  | none => .inr (zero_ip, s)
  | some client =>
    let (in_use, s) := probe_new cfg env s
    if in_use then .inl (mark_unavailable cfg env s client)
    else .inr ((s.dhcp_ip_infos client).ip, offer cfg env s client mac)

/-- The available entries, in list order. -/
def available (s : Server) : List Nat := s.dhcp_ip_pool.filter fun c => (s.dhcp_ip_infos c).state = .AVAILABLE

/-- The entry that is bound to a MAC address. -/
def bound (s : Server) (mac : MACAddress_t) : List Nat :=
  s.dhcp_ip_pool.filter fun c => (s.dhcp_ip_infos c).mac = mac

def candidates (s : Server) (mac : MACAddress_t) (requested_ip : in_addr) : List Nat :=
  let free := (available s).filter fun c => (s.dhcp_ip_infos c).mac ≠ mac
  bound s mac ++ free.filter (fun c => (s.dhcp_ip_infos c).ip = requested_ip) ++
    free.filter fun c => (s.dhcp_ip_infos c).ip ≠ requested_ip

/-- The candidates `used` were probed and are in use; then come `rest`, of which the first is handed out: after a probe,
unless it is leased. -/
structure Tried (env : Env) (mac : MACAddress_t) (s : Server) (used rest : List Nat) (r : in_addr × Server) : Prop where
  in_use : ∀ i < used.length, env.in_use (s.probes + i) = true
  not_leased : ∀ c ∈ used, (s.dhcp_ip_infos c).state ≠ .LEASED
  free : ∀ c ∈ rest.head?, (s.dhcp_ip_infos c).state = .LEASED ∨ env.in_use (s.probes + used.length) = false
  probes : r.2.probes = s.probes + used.length + if ∀ c ∈ rest.head?, (s.dhcp_ip_infos c).state = .LEASED then 0 else 1
  address : r.1 = (rest.head?.map fun c => (s.dhcp_ip_infos c).ip).getD zero_ip
  unavailable : ∀ c ∈ used, (r.2.dhcp_ip_infos c).state = .UNAVAILABLE ∧ (r.2.dhcp_ip_infos c).mac = 0
  offered : ∀ c ∈ rest.head?, (r.2.dhcp_ip_infos c).state = .OFFERED ∧ (r.2.dhcp_ip_infos c).mac = mac
  others : ∀ c, c ∉ used → c ∉ rest.head? → r.2.dhcp_ip_infos c = s.dhcp_ip_infos c
  ips : ∀ c, (r.2.dhcp_ip_infos c).ip = (s.dhcp_ip_infos c).ip

/-- The candidates are tried in their order. -/
def Tries (env : Env) (mac : MACAddress_t) (s : Server) (cs : List Nat) (r : in_addr × Server) : Prop :=
  ∃ used rest, cs = used ++ rest ∧ Tried env mac s used rest r

variable {cfg env} {s s₀ : Server} {mac : MACAddress_t} {requested_ip : in_addr} {client c : Nat} {cs : List Nat}
  {r : in_addr × Server}

/-! ## Trying a candidate -/

theorem probe_new_eq (h : cfg.probe_new_ip_addresses = true) (s : Server) :
    probe_new cfg env s = (env.in_use s.probes, { s with probes := s.probes + 1 }) := if_pos h

theorem mark_self (cfg : Config) (env : Env) (s : Server) (client : Nat) :
    ((mark_unavailable cfg env s client).dhcp_ip_infos client).state = .UNAVAILABLE ∧
      ((mark_unavailable cfg env s client).dhcp_ip_infos client).mac = 0 := by
  unfold mark_unavailable
  rw [update_self, set_mac_self]
  exact ⟨rfl, rfl⟩

theorem mark_of_ne (s : Server) {client j : Nat} (h : j ≠ client) :
    (mark_unavailable cfg env s client).dhcp_ip_infos j = s.dhcp_ip_infos j := by
  unfold mark_unavailable
  rw [update_of_ne _ _ h, set_mac_of_ne _ h]

theorem mark_ip (s : Server) (client j : Nat) :
    ((mark_unavailable cfg env s client).dhcp_ip_infos j).ip = (s.dhcp_ip_infos j).ip := by
  unfold mark_unavailable
  rw [update_ip, set_mac_ip]

theorem offer_self (cfg : Config) (env : Env) (s : Server) (client : Nat) (mac : MACAddress_t) :
    ((offer cfg env s client mac).dhcp_ip_infos client).state = .OFFERED ∧
      ((offer cfg env s client mac).dhcp_ip_infos client).mac = mac := by
  unfold offer
  rw [update_self, set_mac_self]
  exact ⟨rfl, rfl⟩

theorem offer_of_ne (s : Server) {client j : Nat} (mac : MACAddress_t) (h : j ≠ client) :
    (offer cfg env s client mac).dhcp_ip_infos j = s.dhcp_ip_infos j := by
  unfold offer
  rw [update_of_ne _ _ h, set_mac_of_ne _ h]

theorem offer_ip (s : Server) (client j : Nat) (mac : MACAddress_t) :
    ((offer cfg env s client mac).dhcp_ip_infos j).ip = (s.dhcp_ip_infos j).ip := by
  unfold offer
  rw [update_ip, set_mac_ip]

theorem Tries.nil (s : Server) : Tries env mac s [] (zero_ip, s) :=
  ⟨[], [], rfl, nofun, nofun, nofun, rfl, rfl, nofun, nofun, fun _ _ _ => rfl, fun _ => rfl⟩

/-- The first candidate is handed out. -/
theorem Tries.offered (hfree : (s.dhcp_ip_infos c).state = .LEASED ∧ r.2.probes = s.probes ∨
      (s.dhcp_ip_infos c).state ≠ .LEASED ∧ env.in_use s.probes = false ∧ r.2.probes = s.probes + 1)
    (haddress : r.1 = (s.dhcp_ip_infos c).ip) (hstate : (r.2.dhcp_ip_infos c).state = .OFFERED)
    (hmac : (r.2.dhcp_ip_infos c).mac = mac) (hothers : ∀ j, j ≠ c → r.2.dhcp_ip_infos j = s.dhcp_ip_infos j)
    (hips : ∀ j, (r.2.dhcp_ip_infos j).ip = (s.dhcp_ip_infos j).ip) : Tries env mac s (c :: cs) r := by
  refine ⟨[], c :: cs, rfl, nofun, nofun, ?_, ?_, haddress, nofun, ?_, ?_, hips⟩
  · intro j hj
    obtain rfl := Option.some.inj hj
    exact hfree.imp And.left fun h => h.2.1
  · rcases hfree with ⟨hleased, hprobes⟩ | ⟨hleased, -, hprobes⟩
    · rw [hprobes, if_pos fun j hj => Option.some.inj hj ▸ hleased]
      rfl
    · rw [hprobes, if_neg fun h => hleased (h c rfl)]
      rfl
  · intro j hj
    obtain rfl := Option.some.inj hj
    exact ⟨hstate, hmac⟩
  · exact fun j _ hj => hothers j fun heq => hj (heq ▸ rfl)

/-- The first candidate is in use, and the search goes on with the others. -/
theorem Tries.in_use (hleased : (s.dhcp_ip_infos c).state ≠ .LEASED) (huse : env.in_use s.probes = true) (hnot : c ∉ cs)
    (h : Tries env mac (mark_unavailable cfg env { s with probes := s.probes + 1 } c) cs r) :
    Tries env mac s (c :: cs) r := by
  obtain ⟨used, rest, rfl, h⟩ := h
  have hprobes : (mark_unavailable cfg env { s with probes := s.probes + 1 } c).probes = s.probes + 1 := rfl
  have hused : ∀ j ∈ used, j ≠ c := by
    rintro j hj rfl
    exact hnot (List.mem_append_left _ hj)
  have hrest : ∀ j ∈ rest.head?, j ≠ c := by
    rintro j hj rfl
    exact hnot (List.mem_append_right _ (List.mem_of_mem_head? hj))
  have hsame : ∀ j ≠ c, (mark_unavailable cfg env { s with probes := s.probes + 1 } c).dhcp_ip_infos j =
      s.dhcp_ip_infos j := fun j hj => mark_of_ne _ hj
  have hshift : ∀ i, s.probes + 1 + i = s.probes + (i + 1) := fun i => by omega
  refine ⟨c :: used, rest, rfl, ?_, ?_, ?_, ?_, ?_, ?_, h.offered, ?_, ?_⟩
  · intro i hi
    rcases i with _ | i
    · exact huse
    · have hi' := h.in_use i (Nat.lt_of_succ_lt_succ hi)
      rwa [hprobes, hshift] at hi'
  · intro j hj
    rcases List.mem_cons.1 hj with rfl | hj
    · exact hleased
    · have hj' := h.not_leased j hj
      rwa [hsame j (hused j hj)] at hj'
  · intro j hj
    have hj' := h.free j hj
    rwa [hsame j (hrest j hj), hprobes, hshift] at hj'
  · have hif : (∀ j ∈ rest.head?, ((mark_unavailable cfg env { s with probes := s.probes + 1 } c).dhcp_ip_infos j).state =
        .LEASED) ↔ ∀ j ∈ rest.head?, (s.dhcp_ip_infos j).state = .LEASED :=
      forall₂_congr fun j hj => by rw [hsame j (hrest j hj)]
    rw [h.probes, hprobes, hshift, List.length_cons, if_congr hif rfl rfl]
  · rw [h.address]
    simp only [mark_ip]
  · intro j hj
    rcases List.mem_cons.1 hj with rfl | hj
    · rw [h.others j (fun hj => hused j hj rfl) fun hj => hrest j hj rfl]
      exact mark_self _ _ _ _
    · exact h.unavailable j hj
  · intro j hj hhead
    rw [List.mem_cons, not_or] at hj
    rw [h.others j hj.2 hhead, hsame j hj.1]
  · intro j
    rw [h.ips, mark_ip]

/-! ## The available entries after it -/

theorem filter_reinsert (value : Nat → Nat) {p : Nat → Bool} {list : List Nat} (hp : p client = false) :
    (vListInsert value client (uxListRemove client list)).filter p = list.filter p := by
  have hinsert : ∀ l : List Nat, (vListInsert value client l).filter p = l.filter p := by
    intro l
    induction l with
    | nil => simp [vListInsert, hp]
    | cons a l ih =>
      unfold vListInsert at ih ⊢
      rw [List.orderedInsert_cons]
      split
      · exact List.filter_cons_of_neg (by rw [hp]; exact Bool.false_ne_true)
      · rw [List.filter_cons, ih, List.filter_cons]
  have herase : (list.erase client).filter p = list.filter p := by
    induction list with
    | nil => rfl
    | cons a l ih =>
      rw [List.erase_cons]
      split
      · rename_i heq
        rw [eq_of_beq heq, List.filter_cons_of_neg (by rw [hp]; exact Bool.false_ne_true)]
      · rw [List.filter_cons, ih, List.filter_cons]
  rw [hinsert, uxListRemove, herase]

/-- Of the entries without `client`, those that satisfy a predicate are the same ones as before. -/
theorem filter_mark (p : dhcp_ip_info_t → Bool) (s : Server) (client : Nat)
    (hp : ∀ info : dhcp_ip_info_t, info.state = .UNAVAILABLE → info.mac = 0 → p info = false) :
    (mark_unavailable cfg env s client).dhcp_ip_pool.filter (fun c =>
        p ((mark_unavailable cfg env s client).dhcp_ip_infos c)) =
      (s.dhcp_ip_pool.filter fun c => p (s.dhcp_ip_infos c)).filter (· ≠ client) := by
  obtain ⟨hstate, hmac⟩ := mark_self cfg env s client
  have hpool : (mark_unavailable cfg env s client).dhcp_ip_pool =
      vListInsert (mark_unavailable cfg env s client).value client (uxListRemove client s.dhcp_ip_pool) := rfl
  rw [hpool, filter_reinsert _ (hp _ hstate hmac), List.filter_filter]
  refine List.filter_congr fun j _ => ?_
  by_cases hj : j = client
  · rw [hj, hp _ hstate hmac]
    simp
  · rw [mark_of_ne _ hj]
    simp [hj]

theorem available_mark (s : Server) (client : Nat) :
    available (mark_unavailable cfg env s client) = (available s).filter (· ≠ client) :=
  filter_mark (fun info => info.state = .AVAILABLE) s client fun info hinfo _ => by
    rw [hinfo]
    rfl

theorem filter_eq_tail {list : List Nat} (hn : (c :: list).Nodup) : (c :: list).filter (· ≠ c) = list := by
  rw [List.filter_cons_of_neg (by simp), List.filter_eq_self]
  rintro j hj
  have hne : j ≠ c := by
    rintro rfl
    exact (List.nodup_cons.1 hn).1 hj
  simpa using hne

theorem filter_singleton {list : List Nat} {p : Nat → Prop} [DecidablePred p] (hn : list.Nodup) (hc : c ∈ list)
    (h : ∀ j ∈ list, p j ↔ j = c) : list.filter p = [c] := by
  rw [List.filter_congr (q := fun j => decide (j = c)) fun j hj => decide_eq_decide.2 (h j hj), List.filter_eq,
    List.count_eq_one_of_mem hn hc]
  rfl

/-! ## The loop -/

theorem oldest_eq_head (s : Server) : dhcp_client_get_oldest_disconnected s = (available s).head? :=
  List.head?_filter.symm

/-- The loop tries the available entries and leaves. -/
theorem offer_oldest_loop_tries (env : Env) (hprobe : cfg.probe_new_ip_addresses = true) (mac : MACAddress_t) (fuel : Nat)
    (s : Server) (hfuel : (available s).length < fuel) :
    Loop.Ends (offer_round cfg env mac) s (offer_oldest_loop cfg env mac fuel s) ∧
      ((available s).Nodup → Tries env mac s (available s) (offer_oldest_loop cfg env mac fuel s)) := by
  induction fuel generalizing s with
  | zero => exact absurd hfuel (Nat.not_lt_zero _)
  | succ fuel ih =>
    unfold offer_oldest_loop
    have hhead := oldest_eq_head s
    rcases havail : available s with _ | ⟨client, cs⟩
    · rw [havail] at hhead
      rw [hhead]
      refine ⟨Loop.ends_inr ?_, fun _ => Tries.nil s⟩
      unfold offer_round
      rw [hhead]
      rfl
    · rw [havail] at hhead hfuel
      have hclient : (s.dhcp_ip_infos client).state = .AVAILABLE := (oldest_some hhead).2
      have hleased : (s.dhcp_ip_infos client).state ≠ .LEASED := by
        rw [hclient]
        decide
      rw [hhead, List.head?_cons]
      dsimp only
      have hround : offer_round cfg env mac s = if env.in_use s.probes
          then .inl (mark_unavailable cfg env { s with probes := s.probes + 1 } client)
          else .inr ((s.dhcp_ip_infos client).ip, offer cfg env { s with probes := s.probes + 1 } client mac) := by
        unfold offer_round
        rw [hhead, List.head?_cons]
        dsimp only
        rw [probe_new_eq hprobe]
      rw [probe_new_eq hprobe]
      dsimp only
      split_ifs with huse
      · have hmark : available (mark_unavailable cfg env { s with probes := s.probes + 1 } client) =
            (client :: cs).filter (· ≠ client) := by
          rw [available_mark, ← havail]
          rfl
        have hlen : (available (mark_unavailable cfg env { s with probes := s.probes + 1 } client)).length < fuel := by
          have hle := List.length_filter_le (fun j => decide (j ≠ client)) cs
          rw [hmark, List.filter_cons_of_neg (by simp)]
          rw [List.length_cons] at hfuel
          omega
        obtain ⟨hends, htries⟩ := ih _ hlen
        rw [if_pos huse] at hround
        refine ⟨Loop.ends_inl hround hends, fun hn => ?_⟩
        rw [hmark, filter_eq_tail hn] at htries
        exact Tries.in_use hleased huse (List.nodup_cons.1 hn).1 (htries (List.nodup_cons.1 hn).2)
      · rw [if_neg huse] at hround
        refine ⟨Loop.ends_inr hround, fun _ => ?_⟩
        obtain ⟨hstate, hmac⟩ := offer_self cfg env { s with probes := s.probes + 1 } client mac
        exact Tries.offered (.inr ⟨hleased, Bool.eq_false_iff.2 huse, rfl⟩) rfl hstate hmac
          (fun j hj => offer_of_ne _ mac hj) fun j => offer_ip _ client j mac

theorem available_length (s : Server) : (available s).length < s.dhcp_ip_pool.length + 1 :=
  Nat.lt_succ_of_le (List.length_filter_le _ _)

/-! ## The requested address -/

theorem mem_available : c ∈ available s ↔ c ∈ s.dhcp_ip_pool ∧ (s.dhcp_ip_infos c).state = .AVAILABLE := by
  simp [available]

theorem requested_client_eq_some (h : PoolInv s₀ s) (hc : c ∈ available s) (hip : (s.dhcp_ip_infos c).ip = requested_ip)
    (h0 : requested_ip ≠ zero_ip) : requested_client s requested_ip = some c := by
  obtain ⟨hmem, hstate⟩ := mem_available.1 hc
  have hlook : dhcp_client_lookup_by_ip s requested_ip = some c := by
    rcases hl : dhcp_client_lookup_by_ip s requested_ip with _ | j
    · exact absurd (decide_eq_true hip) (lookup_none hl c hmem)
    · rw [h.lookup_by_ip_unique hl c hmem hip]
  unfold requested_client
  rw [if_pos h0, hlook]
  exact Option.filter_eq_some_iff.2 ⟨rfl, decide_eq_true hstate⟩

/-- What a DISCOVER of an unknown client tries. -/
theorem lease_new_tries (env : Env) (hprobe : cfg.probe_new_ip_addresses = true) (h : PoolInv s₀ s)
    (hzero : ∀ c ∈ s.dhcp_ip_pool, (s.dhcp_ip_infos c).ip ≠ zero_ip) (mac : MACAddress_t) (requested_ip : in_addr) :
    Tries env mac s ((available s).filter (fun c => (s.dhcp_ip_infos c).ip = requested_ip) ++
      (available s).filter fun c => (s.dhcp_ip_infos c).ip ≠ requested_ip)
      (lease_new cfg env s mac requested_ip DHCP_DISCOVER) := by
  have hn : (available s).Nodup := h.nodup.filter _
  unfold lease_new
  rw [if_pos rfl]
  rcases hreq : requested_client s requested_ip with _ | client
  · have hnone : ∀ c ∈ available s, (s.dhcp_ip_infos c).ip ≠ requested_ip := by
      intro c hc hip
      have h0 : requested_ip ≠ zero_ip := hip ▸ hzero c (mem_available.1 hc).1
      rw [requested_client_eq_some h hc hip h0] at hreq
      cases hreq
    rw [List.filter_eq_nil_iff.2 fun c hc => by simpa using hnone c hc,
      List.filter_eq_self.2 fun c hc => decide_eq_true (hnone c hc)]
    exact (offer_oldest_loop_tries env hprobe mac _ s (available_length s)).2 hn
  · obtain ⟨hmem, hstate⟩ := requested_client_some hreq
    have hip := requested_client_ip hreq
    have hclient : client ∈ available s := mem_available.2 ⟨hmem, hstate⟩
    have hiff : ∀ c ∈ available s, (s.dhcp_ip_infos c).ip = requested_ip ↔ c = client := fun c hc =>
      ⟨fun hc' => h.address c (mem_available.1 hc).1 client hmem (hc'.trans hip.symm), fun hc' => hc' ▸ hip⟩
    have hwanted : (available s).filter (fun c => (s.dhcp_ip_infos c).ip = requested_ip) = [client] :=
      filter_singleton hn hclient hiff
    have hothers : (available s).filter (fun c => (s.dhcp_ip_infos c).ip ≠ requested_ip) =
        (available s).filter (· ≠ client) :=
      List.filter_congr fun c hc => decide_eq_decide.2 (not_congr (hiff c hc))
    have hleased : (s.dhcp_ip_infos client).state ≠ .LEASED := by
      rw [hstate]
      decide
    rw [hwanted, hothers, List.singleton_append]
    dsimp only
    rw [probe_new_eq hprobe]
    dsimp only
    split_ifs with huse
    · have hmark : available (mark_unavailable cfg env { s with probes := s.probes + 1 } client) =
          (available s).filter (· ≠ client) := available_mark _ _
      have htries := (offer_oldest_loop_tries env hprobe mac _
        (mark_unavailable cfg env { s with probes := s.probes + 1 } client) (available_length _)).2
      rw [hmark] at htries
      exact Tries.in_use hleased huse (by simp) (htries (hn.filter _))
    · obtain ⟨hstate', hmac⟩ := offer_self cfg env { s with probes := s.probes + 1 } client mac
      exact Tries.offered (.inr ⟨hleased, Bool.eq_false_iff.2 huse, rfl⟩) rfl hstate' hmac
        (fun j hj => offer_of_ne _ mac hj) fun j => offer_ip _ client j mac

/-! ## The whole selection -/

/-- The client's own entry is handed out, or it is in use and forgotten. -/
theorem lease_known_tries (hprobe : cfg.probe_new_ip_addresses = true) (h : PoolInv s₀ s) (hmac0 : mac ≠ 0)
    (hzero : ∀ c ∈ s.dhcp_ip_pool, (s.dhcp_ip_infos c).ip ≠ zero_ip)
    (hl : dhcp_client_lookup_by_mac s mac = some client) :
    Tries env mac s (candidates s mac requested_ip)
      (dhcpd_client_ip_address_lease cfg env s mac requested_ip DHCP_DISCOVER) := by
  obtain ⟨hmem, hmac⟩ := lookup_by_mac_some hl
  have hiff : ∀ c ∈ s.dhcp_ip_pool, (s.dhcp_ip_infos c).mac = mac ↔ c = client := fun c hc =>
    ⟨fun hc' => h.lookup_by_mac_unique hmac0 hl c hc hc', fun hc' => hc' ▸ hmac⟩
  have hbound : bound s mac = [client] := filter_singleton h.nodup hmem hiff
  have hfree : (available s).filter (fun c => (s.dhcp_ip_infos c).mac ≠ mac) = (available s).filter (· ≠ client) :=
    List.filter_congr fun c hc => decide_eq_decide.2 (not_congr (hiff c (mem_available.1 hc).1))
  unfold candidates
  rw [hbound, hfree, List.append_assoc, List.singleton_append]
  have hupdate : ∀ s' : Server, s'.dhcp_ip_infos = s.dhcp_ip_infos →
      ((s.dhcp_ip_infos client).state = .LEASED ∧ s'.probes = s.probes ∨ (s.dhcp_ip_infos client).state ≠ .LEASED ∧
        env.in_use s.probes = false ∧ s'.probes = s.probes + 1) → ∀ cs, Tries env mac s (client :: cs)
        ((s.dhcp_ip_infos client).ip, dhcp_client_update env s' client .OFFERED cfg.offer_expiration_time) := by
    intro s' hinfos hcase cs
    refine Tries.offered hcase rfl ?_ ?_ (fun j hj => ?_) fun j => ?_
    · exact congrArg dhcp_ip_info_t.state (update_self client .OFFERED cfg.offer_expiration_time)
    · rw [update_mac, hinfos, hmac]
    · rw [update_of_ne _ _ hj, hinfos]
    · rw [update_ip, hinfos]
  have hlease : dhcpd_client_ip_address_lease cfg env s mac requested_ip DHCP_DISCOVER =
      if (s.dhcp_ip_infos client).state = .LEASED then
        ((s.dhcp_ip_infos client).ip, dhcp_client_update env s client .OFFERED cfg.offer_expiration_time)
      else if env.in_use s.probes then
        lease_new cfg env (mark_unavailable cfg env { s with probes := s.probes + 1 } client) mac
          (if requested_ip = (s.dhcp_ip_infos client).ip then zero_ip else requested_ip) DHCP_DISCOVER
      else ((s.dhcp_ip_infos client).ip,
        dhcp_client_update env { s with probes := s.probes + 1 } client .OFFERED cfg.offer_expiration_time) := by
    unfold dhcpd_client_ip_address_lease
    rw [hl]
    dsimp only
    unfold lease_known
    rw [probe_new_eq hprobe]
    by_cases hleased : (s.dhcp_ip_infos client).state = .LEASED <;> by_cases huse : env.in_use s.probes = true <;>
      simp [hleased, huse, DHCP_DISCOVER, DHCP_REQUEST, DHCP_INFORM]
  rw [hlease]
  by_cases hleased : (s.dhcp_ip_infos client).state = .LEASED
  · rw [if_pos hleased]
    exact hupdate s rfl (.inl ⟨hleased, rfl⟩) _
  · rw [if_neg hleased]
    by_cases huse : env.in_use s.probes = true
    · rw [if_pos huse]
      have hprobed : PoolInv s₀ { s with probes := s.probes + 1 } := h.congr rfl rfl (Nat.le_refl _)
      have hinv : PoolInv s₀ (mark_unavailable cfg env { s with probes := s.probes + 1 } client) :=
        hprobed.mark_unavailable hmem
      have havail : available (mark_unavailable cfg env { s with probes := s.probes + 1 } client) =
          (available s).filter (· ≠ client) := available_mark _ _
      have hpool : ∀ c ∈ (mark_unavailable cfg env { s with probes := s.probes + 1 } client).dhcp_ip_pool,
          ((mark_unavailable cfg env { s with probes := s.probes + 1 } client).dhcp_ip_infos c).ip ≠ zero_ip := by
        intro c hc
        rw [mark_ip]
        exact hzero c ((hinv.perm.trans h.perm.symm).mem_iff.1 hc)
      have htries := lease_new_tries env hprobe hinv hpool mac
        (if requested_ip = (s.dhcp_ip_infos client).ip then zero_ip else requested_ip)
      rw [havail] at htries
      -- an address that is not the client's is wanted if and only if it still is
      have hwanted : ∀ c ∈ (available s).filter (· ≠ client),
          ((mark_unavailable cfg env { s with probes := s.probes + 1 } client).dhcp_ip_infos c).ip =
              (if requested_ip = (s.dhcp_ip_infos client).ip then zero_ip else requested_ip) ↔
            (s.dhcp_ip_infos c).ip = requested_ip := by
        intro c hc
        obtain ⟨hc, hne⟩ := List.mem_filter.1 hc
        have hcp := (mem_available.1 hc).1
        rw [mark_ip]
        split_ifs with hown
        · refine iff_of_false (hzero c hcp) fun hip => of_decide_eq_true hne ?_
          exact h.address c hcp client hmem (hip.trans hown)
        · exact Iff.rfl
      rw [List.filter_congr fun c hc => decide_eq_decide.2 (hwanted c hc),
        List.filter_congr fun c hc => decide_eq_decide.2 (not_congr (hwanted c hc))] at htries
      exact Tries.in_use hleased huse (by simp) htries
    · rw [if_neg huse]
      exact hupdate { s with probes := s.probes + 1 } rfl (.inr ⟨hleased, Bool.eq_false_iff.2 huse, rfl⟩) _

theorem candidates_unknown (hl : dhcp_client_lookup_by_mac s mac = none) : candidates s mac requested_ip =
    (available s).filter (fun c => (s.dhcp_ip_infos c).ip = requested_ip) ++
      (available s).filter fun c => (s.dhcp_ip_infos c).ip ≠ requested_ip := by
  have hnone := lookup_by_mac_none hl
  have hbound : bound s mac = [] := List.filter_eq_nil_iff.2 fun c hc => by simpa using hnone c hc
  have hfree : (available s).filter (fun c => (s.dhcp_ip_infos c).mac ≠ mac) = available s :=
    List.filter_eq_self.2 fun c hc => decide_eq_true (hnone c (mem_available.1 hc).1)
  unfold candidates
  rw [hbound, hfree]
  rfl

theorem lease_tries (env : Env) (hprobe : cfg.probe_new_ip_addresses = true) (h : PoolInv s₀ s) (hmac0 : mac ≠ 0)
    (hzero : ∀ c ∈ s.dhcp_ip_pool, (s.dhcp_ip_infos c).ip ≠ zero_ip) (requested_ip : in_addr) :
    Tries env mac s (candidates s mac requested_ip)
      (dhcpd_client_ip_address_lease cfg env s mac requested_ip DHCP_DISCOVER) := by
  rcases hl : dhcp_client_lookup_by_mac s mac with _ | client
  · have hlease : dhcpd_client_ip_address_lease cfg env s mac requested_ip DHCP_DISCOVER =
        lease_new cfg env s mac requested_ip DHCP_DISCOVER := by
      unfold dhcpd_client_ip_address_lease
      rw [hl]
    rw [hlease, candidates_unknown hl]
    exact lease_new_tries env hprobe h hzero mac requested_ip
  · exact lease_known_tries hprobe h hmac0 hzero hl

theorem available_subset_candidates (hc : c ∈ available s) : c ∈ candidates s mac requested_ip := by
  obtain ⟨hmem, -⟩ := mem_available.1 hc
  unfold candidates
  by_cases hmac : (s.dhcp_ip_infos c).mac = mac
  · exact List.mem_append_left _ (List.mem_append_left _ (List.mem_filter.2 ⟨hmem, decide_eq_true hmac⟩))
  · have hfree : c ∈ (available s).filter fun c => (s.dhcp_ip_infos c).mac ≠ mac :=
      List.mem_filter.2 ⟨hc, decide_eq_true hmac⟩
    by_cases hip : (s.dhcp_ip_infos c).ip = requested_ip
    · exact List.mem_append_left _ (List.mem_append_right _ (List.mem_filter.2 ⟨hfree, decide_eq_true hip⟩))
    · exact List.mem_append_right _ (List.mem_filter.2 ⟨hfree, decide_eq_true hip⟩)

theorem candidates_subset_pool (hc : c ∈ candidates s mac requested_ip) : c ∈ s.dhcp_ip_pool := by
  unfold candidates at hc
  rw [List.append_assoc, List.mem_append, List.mem_append] at hc
  have havail : ∀ p : Nat → Bool, c ∈ ((available s).filter fun c => (s.dhcp_ip_infos c).mac ≠ mac).filter p →
      c ∈ s.dhcp_ip_pool := fun p hc => (mem_available.1 (List.mem_filter.1 (List.mem_filter.1 hc).1).1).1
  rcases hc with hc | hc | hc
  · exact (List.mem_filter.1 hc).1
  · exact havail _ hc
  · exact havail _ hc

/-! ## The pool has no address zero -/

theorem init_loop_nonzero (n i : Nat) (pool : in_addr) (s s' : Server)
    (h : ∀ c ∈ s.dhcp_ip_pool, (s.dhcp_ip_infos c).ip ≠ zero_ip) (hl : ip_pool_init_loop cfg env n i pool s = some s') :
    ∀ c ∈ s'.dhcp_ip_pool, (s'.dhcp_ip_infos c).ip ≠ zero_ip := by
  induction n generalizing i pool s with
  | zero =>
    cases hl
    exact h
  | succ n ih =>
    obtain ⟨⟨ip, pool'⟩, -, hl⟩ := Option.bind_eq_some_iff.1 hl
    dsimp only at hl
    split_ifs at hl with h0
    · cases hl
      exact h
    · refine ih _ _ _ (fun c hc => ?_) hl
      by_cases hci : c = i
      · subst hci
        show ((Server.setInfo _ c _).dhcp_ip_infos c).ip ≠ zero_ip
        rw [setInfo_self]
        exact h0
      · show ((Server.setInfo _ i _).dhcp_ip_infos c).ip ≠ zero_ip
        rw [setInfo_of_ne _ hci]
        exact h c ((List.mem_cons.1 ((FreeRtos.vListInsert_perm _ _ _).mem_iff.1 hc)).resolve_left hci)

theorem start_nonzero {now : Nat} (h : dhcpd_start cfg env now = some s₀) :
    ∀ c ∈ s₀.dhcp_ip_pool, (s₀.dhcp_ip_infos c).ip ≠ zero_ip := by
  unfold dhcpd_start at h
  split_ifs at h
  exact init_loop_nonzero _ _ _ _ _ (fun _ hc => absurd hc List.not_mem_nil) h

/-- What `dhcpd_client_ip_address_lease` makes of a DISCOVER. The search always ends; it returns the address of the
first candidate that is leased to the client or not in use, and zero where all are in use. -/
theorem discover_selects (env : Env) {env₀ : Env} {now : Nat} (hprobe : cfg.probe_new_ip_addresses = true)
    (hstart : dhcpd_start cfg env₀ now = some s₀) (h : PoolInv s₀ s) (hmac0 : mac ≠ 0) (requested_ip : in_addr) :
    (∀ s', Loop.Ends (offer_round cfg env mac) s' (offer_oldest cfg env mac s')) ∧
      ∃ used rest, candidates s mac requested_ip = used ++ rest ∧
        Tried env mac s used rest (dhcpd_client_ip_address_lease cfg env s mac requested_ip DHCP_DISCOVER) ∧
        ((dhcpd_client_ip_address_lease cfg env s mac requested_ip DHCP_DISCOVER).1 = zero_ip →
          ∀ c ∈ available s, c ∈ used) := by
  have hzero : ∀ c ∈ s.dhcp_ip_pool, (s.dhcp_ip_infos c).ip ≠ zero_ip := by
    intro c hc
    rw [h.ips]
    exact start_nonzero hstart c (h.perm.mem_iff.1 hc)
  obtain ⟨used, rest, hcs, htried⟩ := lease_tries env hprobe h hmac0 hzero requested_ip
  refine ⟨fun s' => (offer_oldest_loop_tries env hprobe mac _ s' (available_length s')).1, used, rest, hcs, htried, ?_⟩
  intro hret c hc
  have hmem : c ∈ used ++ rest := hcs ▸ available_subset_candidates hc
  rcases rest with _ | ⟨client, rest⟩
  · rwa [List.append_nil] at hmem
  · have hclient : client ∈ candidates s mac requested_ip := hcs ▸ List.mem_append_right _ List.mem_cons_self
    exact absurd (htried.address.symm.trans hret) (hzero client (candidates_subset_pool hclient))

/-- The first probe finds the address in use. -/
theorem discover_selects_small : ∃ s, dhcpd_start smallConfig stillEnv 0 = some s ∧
    ∃ used rest, candidates s 7 0xC0A80003 = used ++ rest ∧
      Tried ⟨fun _ => 0, fun n => n = 0⟩ 7 s used rest
        (dhcpd_client_ip_address_lease smallConfig ⟨fun _ => 0, fun n => n = 0⟩ s 7 0xC0A80003 DHCP_DISCOVER) := by
  have hs : (dhcpd_start smallConfig stillEnv 0).map Server.dhcp_ip_pool = some [0, 1, 2] := by decide +kernel
  obtain ⟨s, hstart, -⟩ := Option.map_eq_some_iff.1 hs
  obtain ⟨-, used, rest, hcs, htried, -⟩ := discover_selects ⟨fun _ => 0, fun n => n = 0⟩ rfl hstart
    (start_inv smallConfig_ascending hstart) (show (7 : MACAddress_t) ≠ 0 by decide) 0xC0A80003
  exact ⟨s, hstart, used, rest, hcs, htried⟩

end Dhcpd
