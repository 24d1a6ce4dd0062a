import XcoreSdk.Dhcpd.LeaseRun
/-!
# The sweep of expired leases

The loop of `dhcp_client_release_expired_leases` makes as many passes as the pool
has entries and goes from an entry to the one behind it. An address that is still
in use is put back with a later expiration before the loop goes on, so it goes on
from the entry's new place: what it has been moved past is left out, and behind
the last entry comes the end marker.
-/

namespace Dhcpd

/-! ## Passes -/

section Passes
variable (cfg : Config) (env : Env) (now : Nat)

/-- The state and the cursor of each pass. -/
def release_expired_passes : Nat → Server → Option Nat → List (Server × Option Nat)
  | 0, _, _ => []
  | n + 1, s, item =>
    (s, item) :: (release_expired_visit cfg env now s item).elim [] fun s' =>
      release_expired_passes n s' (FreeRtos.listGET_NEXT s'.dhcp_ip_pool item)

def sweep_passes (s : Server) : List (Server × Option Nat) :=
  release_expired_passes cfg env (rtos_time_get env s).1 s.dhcp_ip_pool.length (rtos_time_get env s).2
    (FreeRtos.listGET_HEAD_ENTRY s.dhcp_ip_pool)

/-- A pass at this entry probes its address. -/
def Probed (s : Server) (client : Nat) : Prop :=
  s.value client ≤ now ∧ (s.dhcp_ip_infos client).state = .UNAVAILABLE ∧ cfg.unavailable_ip_probe_interval ≠ 0

instance (s : Server) (client : Nat) : Decidable (Probed cfg now s client) := inferInstanceAs (Decidable (_ ∧ _))

/-- The entry that a pass probes. -/
def probed_entry (pass : Server × Option Nat) : Option Nat := pass.2.filter fun client => Probed cfg now pass.1 client

/-- The entries that the sweep probes, in order. -/
def sweep_probes (s : Server) : List Nat :=
  (sweep_passes cfg env s).filterMap (probed_entry cfg (rtos_time_get env s).1)

/-- Some passes from one state and cursor to another. -/
inductive Passes : List (Server × Option Nat) → Server → Option Nat → Server → Option Nat → Prop
  | nil (s : Server) (item : Option Nat) : Passes [] s item s item
  | cons {passes : List (Server × Option Nat)} {s s' s'' : Server} {item item'' : Option Nat} :
      release_expired_visit cfg env now s item = some s' →
      Passes passes s' (FreeRtos.listGET_NEXT s'.dhcp_ip_pool item) s'' item'' →
      Passes ((s, item) :: passes) s item s'' item''

end Passes

variable {cfg : Config} {env : Env} {now : Nat} {s s' s'' : Server} {item item' item'' : Option Nat} {client : Nat}
  {passes passes' : List (Server × Option Nat)} {done entries rest : List Nat}

theorem Passes.append (h : Passes cfg env now passes s item s' item') (h' : Passes cfg env now passes' s' item' s'' item'') :
    Passes cfg env now (passes ++ passes') s item s'' item'' := by
  induction h with
  | nil => exact h'
  | cons hv _ ih => exact .cons hv (ih h')

theorem Passes.loop (h : Passes cfg env now passes s item s' item') (n : Nat) :
    release_expired_loop cfg env now (passes.length + n) s item = release_expired_loop cfg env now n s' item' := by
  induction h with
  | nil => rw [List.length_nil, Nat.zero_add]
  | cons hv _ ih => rw [List.length_cons, Nat.add_right_comm, release_expired_loop, hv, Option.bind_some, ih]

theorem Passes.of_loop (h : Passes cfg env now passes s item s' item') (n : Nat) :
    release_expired_passes cfg env now (passes.length + n) s item =
      passes ++ release_expired_passes cfg env now n s' item' := by
  induction h with
  | nil => rw [List.length_nil, Nat.zero_add, List.nil_append]
  | cons hv _ ih =>
    rw [List.length_cons, Nat.add_right_comm, release_expired_passes, hv, Option.elim_some, ih, List.cons_append]

/-! ## A pass -/

/-- What passes over these entries do when no address is found in use. -/
structure Walked (cfg : Config) (now : Nat) (entries : List Nat) (s s' : Server) : Prop where
  pool : s'.dhcp_ip_pool = s.dhcp_ip_pool
  clock : s'.now = s.now
  readings : s'.readings = s.readings
  value : s'.value = s.value
  probes : s'.probes = s.probes + (entries.filter fun c => Probed cfg now s c).length
  same : ∀ c, c ∉ entries → s'.dhcp_ip_infos c = s.dhcp_ip_infos c
  unexpired : ∀ c, ¬ s.value c ≤ now → s'.dhcp_ip_infos c = s.dhcp_ip_infos c
  released : ∀ c ∈ entries, s.value c ≤ now → (s.dhcp_ip_infos c).state = .LEASED ∨ (s.dhcp_ip_infos c).state = .OFFERED →
    (s'.dhcp_ip_infos c).state = .AVAILABLE

theorem Walked.refl (s : Server) : Walked cfg now [] s s :=
  ⟨rfl, rfl, rfl, rfl, rfl, fun _ _ => rfl, fun _ _ => rfl, fun _ hc => absurd hc List.not_mem_nil⟩

theorem filter_probed_cons (s : Server) (client : Nat) (entries : List Nat) :
    ((client :: entries).filter fun c => Probed cfg now s c).length =
      (if Probed cfg now s client then 1 else 0) + (entries.filter fun c => Probed cfg now s c).length := by
  rw [List.filter_cons]
  by_cases h : Probed cfg now s client
  · rw [if_pos h, if_pos (decide_eq_true h), List.length_cons, Nat.add_comm]
  · rw [if_neg h, if_neg (by simpa using h), Nat.zero_add]

/-- A pass that changes nothing. -/
theorem Walked.unchanged (h : s.value client ≤ now → (s.dhcp_ip_infos client).state ≠ .LEASED ∧
    (s.dhcp_ip_infos client).state ≠ .OFFERED ∧ ¬ Probed cfg now s client) : Walked cfg now [client] s s := by
  refine ⟨rfl, rfl, rfl, rfl, ?_, fun _ _ => rfl, fun _ _ => rfl, fun c hc hexp hstate => ?_⟩
  · rw [filter_probed_cons, if_neg fun hp => (h hp.1).2.2 hp]
    rfl
  · rw [List.mem_singleton.1 hc] at hexp hstate
    exact absurd hstate (not_or.2 ⟨(h hexp).1, (h hexp).2.1⟩)

variable (cfg) in
/-- A pass that makes an expired entry available. -/
theorem Walked.available (hexp : s.value client ≤ now) :
    Walked cfg now [client] s { s.setInfo client { s.dhcp_ip_infos client with state := .AVAILABLE } with
      probes := s.probes + if Probed cfg now s client then 1 else 0 } := by
  refine ⟨rfl, rfl, rfl, funext fun c => ?_, ?_, fun c hc => ?_, fun c hc => ?_, fun c hc _ _ => ?_⟩
  · by_cases hc : c = client
    · simp [Server.value, Server.setInfo, hc]
    · simp [Server.value, Server.setInfo, hc]
  · rw [filter_probed_cons]
    rfl
  · exact setInfo_of_ne _ fun heq => hc (heq ▸ List.mem_cons_self)
  · exact setInfo_of_ne _ fun heq => hc (heq ▸ hexp)
  · rw [List.mem_singleton.1 hc]
    simp [Server.setInfo]

variable (cfg env now s client) in
/-- A pass at an entry whose address is not found in use. -/
theorem visit_walked (hquiet : Probed cfg now s client → env.in_use s.probes = false) :
    ∃ s', release_expired_visit cfg env now s (some client) = some s' ∧ Walked cfg now [client] s s' := by
  unfold release_expired_visit
  rw [FreeRtos.listGET_LIST_ITEM_VALUE]
  by_cases hexp : s.value client ≤ now
  · rw [if_pos hexp]
    simp only
    have havailable := Walked.available cfg hexp
    by_cases hleased : (s.dhcp_ip_infos client).state = .LEASED ∨ (s.dhcp_ip_infos client).state = .OFFERED
    · rw [if_pos hleased]
      refine ⟨_, rfl, ?_⟩
      rwa [if_neg fun hp => ?_] at havailable
      rcases hleased with h | h <;> exact absurd (h.symm.trans hp.2.1) (by decide)
    · rw [if_neg hleased]
      by_cases hprobed : Probed cfg now s client
      · rw [if_pos ⟨hprobed.2.2, hprobed.2.1⟩, dhcpd_ip_address_in_use, hquiet hprobed]
        rw [if_pos hprobed] at havailable
        exact ⟨_, rfl, havailable⟩
      · rw [if_neg fun h => hprobed ⟨hexp, h.2, h.1⟩]
        exact ⟨s, rfl, Walked.unchanged fun _ => ⟨(not_or.1 hleased).1, (not_or.1 hleased).2, hprobed⟩⟩
  · rw [if_neg hexp]
    exact ⟨s, rfl, Walked.unchanged fun h => absurd h hexp⟩

theorem Walked.probed_iff (h : Walked cfg now entries s s') {c : Nat} (hc : c ∉ entries) :
    Probed cfg now s' c ↔ Probed cfg now s c := by
  unfold Probed
  rw [h.value, h.same c hc]

theorem Walked.filter_eq (h : Walked cfg now entries s s') (hrest : ∀ c ∈ rest, c ∉ entries) :
    (rest.filter fun c => Probed cfg now s' c) = rest.filter fun c => Probed cfg now s c :=
  List.filter_congr fun c hc => decide_eq_decide.2 (h.probed_iff (hrest c hc))

theorem Walked.cons (h : Walked cfg now [client] s s') (h' : Walked cfg now entries s' s'') (hnot : client ∉ entries) :
    Walked cfg now (client :: entries) s s'' := by
  have hother : ∀ c ∈ entries, c ∉ [client] := fun c hc heq => hnot (List.mem_singleton.1 heq ▸ hc)
  refine ⟨h'.pool.trans h.pool, h'.clock.trans h.clock, h'.readings.trans h.readings, h'.value.trans h.value, ?_,
    fun c hc => ?_, fun c hc => ?_, fun c hc hexp hstate => ?_⟩
  · rw [h'.probes, h.probes, h.filter_eq hother, filter_probed_cons, filter_probed_cons s client entries, Nat.add_assoc]
    rfl
  · obtain ⟨hne, hc⟩ := not_or.1 (mt List.mem_cons.2 hc)
    rw [h'.same c hc, h.same c fun heq => hne (List.mem_singleton.1 heq)]
  · rw [h'.unexpired c (h.value ▸ hc), h.unexpired c hc]
  · rcases List.mem_cons.1 hc with rfl | hc
    · rw [h'.same c hnot]
      exact h.released c List.mem_cons_self hexp hstate
    · rw [← h.same c (hother c hc)] at hstate
      exact h'.released c hc (h.value ▸ hexp) hstate

variable (cfg env now) in
/-- Passes over entries that follow each other, none of them found in use. -/
theorem walk (done entries rest : List Nat) (hpool : s.dhcp_ip_pool = done ++ (entries ++ rest)) (hn : s.dhcp_ip_pool.Nodup)
    (hquiet : ∀ i < (entries.filter fun c => Probed cfg now s c).length, env.in_use (s.probes + i) = false) :
    ∃ s' passes, Passes cfg env now passes s (entries ++ rest).head? s' rest.head? ∧ Walked cfg now entries s s' ∧
      passes.map Prod.snd = entries.map some ∧
      passes.filterMap (probed_entry cfg now) = entries.filter fun c => Probed cfg now s c := by
  induction entries generalizing s done with
  | nil => exact ⟨s, [], .nil _ _, Walked.refl s, rfl, rfl⟩
  | cons client entries ih =>
    have hnot : client ∉ entries := fun hc => by
      rw [hpool] at hn
      exact (List.nodup_cons.1 (List.nodup_append.1 hn).2.1).1 (List.mem_append_left _ hc)
    have hother : ∀ c ∈ entries, c ∉ [client] := fun c hc heq => hnot (List.mem_singleton.1 heq ▸ hc)
    rw [filter_probed_cons] at hquiet
    obtain ⟨s₁, hvisit, hwalked⟩ := visit_walked cfg env now s client fun hp => by
      have h := hquiet 0 (by rw [if_pos hp]; omega)
      rwa [Nat.add_zero] at h
    have hpool₁ : s₁.dhcp_ip_pool = done ++ [client] ++ (entries ++ rest) := by
      rw [hwalked.pool, hpool, List.append_assoc]
      rfl
    obtain ⟨s₂, passes, hpasses, hwalked₂, hcursors, hprobes⟩ := ih _ hpool₁ (hwalked.pool ▸ hn) fun i hi => by
      rw [hwalked.filter_eq hother] at hi
      rw [hwalked.probes, filter_probed_cons, Nat.add_assoc]
      exact hquiet _ (Nat.add_lt_add_left hi _)
    have hnext : FreeRtos.listGET_NEXT s₁.dhcp_ip_pool (some client) = (entries ++ rest).head? := by
      have hn₁ := hwalked.pool ▸ hn
      rw [hpool₁, List.append_assoc] at hn₁ ⊢
      exact FreeRtos.listGET_NEXT_append hn₁
    refine ⟨s₂, (s, some client) :: passes, .cons hvisit (hnext ▸ hpasses), hwalked.cons hwalked₂ hnot, ?_, ?_⟩
    · rw [List.map_cons, hcursors]
      rfl
    · rw [List.filterMap_cons, hprobes, hwalked.filter_eq hother, List.filter_cons, probed_entry, Option.filter_some]
      split <;> split <;> simp_all

/-- A pass at an entry whose address is found in use. -/
theorem visit_in_use (hp : Probed cfg now s client) (huse : env.in_use s.probes = true) :
    release_expired_visit cfg env now s (some client) =
      some (dhcp_client_update env { s with probes := s.probes + 1 } client .UNAVAILABLE cfg.unavailable_ip_probe_interval) := by
  unfold release_expired_visit
  rw [FreeRtos.listGET_LIST_ITEM_VALUE, if_pos hp.1]
  simp only
  rw [if_neg, if_pos ⟨hp.2.2, hp.2.1⟩, dhcpd_ip_address_in_use, huse]
  · rfl
  · rw [hp.2.1]
    decide

/-! ## The first address found in use -/

/-- When an entry that is put back now is to expire. -/
def expires_again (cfg : Config) (env : Env) (s : Server) : Nat :=
  (rtos_time_get env s).1 + cfg.unavailable_ip_probe_interval

/-- The entry goes behind those that expire no later than it does now. -/
theorem visit_put_back {moved : List Nat} (hp : Probed cfg now s client) (huse : env.in_use s.probes = true)
    (hpool : s.dhcp_ip_pool = done ++ client :: (moved ++ rest)) (hn : s.dhcp_ip_pool.Nodup)
    (hclock : expires_again cfg env s < 2 ^ 32) (hbefore : ∀ c ∈ done ++ moved, s.value c ≤ expires_again cfg env s)
    (hafter : ∀ c ∈ rest, expires_again cfg env s < s.value c) :
    ∃ s', release_expired_visit cfg env now s (some client) = some s' ∧
      s'.dhcp_ip_pool = done ++ moved ++ client :: rest ∧ ∀ c, c ≠ client → s'.dhcp_ip_infos c = s.dhcp_ip_infos c := by
  rw [hpool] at hn
  obtain ⟨s', hs'⟩ : ∃ s', s' = dhcp_client_update env { s with probes := s.probes + 1 } client .UNAVAILABLE
      cfg.unavailable_ip_probe_interval := ⟨_, rfl⟩
  have hput : s'.dhcp_ip_pool = FreeRtos.vListInsert s'.value client (FreeRtos.uxListRemove client s.dhcp_ip_pool) := by
    rw [hs']
    exact update_pool _ _ _
  have hsame : ∀ c, c ≠ client → s'.dhcp_ip_infos c = s.dhcp_ip_infos c := by
    intro c hc
    rw [hs']
    exact update_of_ne _ _ hc
  have hself : s'.value client = expires_again cfg env s := by
    rw [Server.value, hs', update_self]
    exact Nat.mod_eq_of_lt hclock
  have hvalue : ∀ c ∈ done ++ (moved ++ rest), s'.value c = s.value c := by
    intro c hc
    rw [Server.value, hsame c, Server.value]
    rintro rfl
    exact (List.nodup_cons.1 (List.nodup_middle.1 hn)).1 hc
  refine ⟨s', hs' ▸ visit_in_use hp huse, ?_, hsame⟩
  rw [hput, hpool]
  refine FreeRtos.reinsert_eq hn (fun c hc => ?_) fun c hc => ?_
  · rw [hself, hvalue c (by rw [← List.append_assoc]; exact List.mem_append_left _ hc)]
    exact hbefore c hc
  · rw [hself, hvalue c (List.mem_append_right _ (List.mem_append_right _ hc))]
    exact hafter c hc

/-- The passes up to the end of the list, where the first address found in use is that of `client`, which
is put back behind `moved`. -/
theorem walk_first (moved : List Nat) (hpool : s.dhcp_ip_pool = done ++ client :: (moved ++ rest))
    (hn : s.dhcp_ip_pool.Nodup) (hp : Probed cfg now s client)
    (huse : env.in_use (s.probes + (done.filter fun c => Probed cfg now s c).length) = true)
    (hfirst : ∀ i < (done.filter fun c => Probed cfg now s c).length, env.in_use (s.probes + i) = false)
    (hnow : now ≤ expires_again cfg env s) (hclock : expires_again cfg env s < 2 ^ 32)
    (hbefore : ∀ c ∈ done ++ moved, s.value c ≤ expires_again cfg env s)
    (hafter : ∀ c ∈ rest, expires_again cfg env s < s.value c) :
    ∃ s' passes, Passes cfg env now passes s s.dhcp_ip_pool.head? s' none ∧
      passes.map Prod.snd = (done ++ client :: rest).map some ∧
      passes.filterMap (probed_entry cfg now) = (done ++ [client]).filter (fun c => Probed cfg now s c) ∧
      (∀ c ∈ done, s.value c ≤ now → (s.dhcp_ip_infos c).state = .LEASED ∨ (s.dhcp_ip_infos c).state = .OFFERED →
        (s'.dhcp_ip_infos c).state = .AVAILABLE) ∧
      ∀ c, ¬ s.value c ≤ now → s'.dhcp_ip_infos c = s.dhcp_ip_infos c := by
  have hn' := hn
  rw [hpool] at hn'
  have hnot := (List.nodup_cons.1 (List.nodup_middle.1 hn')).1
  have hclient : client ∉ done := fun hc => hnot (List.mem_append_left _ hc)
  obtain ⟨s₁, passes₁, hpasses₁, hwalked₁, hcursors₁, hprobes₁⟩ := walk cfg env now [] done _ hpool hn hfirst
  have hagain : expires_again cfg env s₁ = expires_again cfg env s := by
    rw [expires_again, expires_again, rtos_time_get, rtos_time_get, hwalked₁.clock, hwalked₁.readings]
  obtain ⟨s₂, hvisit, hpool₂, hsame₂⟩ := visit_put_back ((hwalked₁.probed_iff hclient).2 hp) (hwalked₁.probes ▸ huse)
    (hwalked₁.pool.trans hpool) (hwalked₁.pool ▸ hn) (hagain ▸ hclock) (by rwa [hagain, hwalked₁.value])
    (by rwa [hagain, hwalked₁.value])
  -- nothing behind the entry has expired, so the other passes leave everything as it is
  have hne : ∀ c ∈ done ++ (moved ++ rest), c ≠ client := by
    rintro c hc rfl
    exact hnot hc
  have hinfo : ∀ c ∈ rest, s₂.dhcp_ip_infos c = s.dhcp_ip_infos c := fun c hc => by
    rw [hsame₂ c (hne c (List.mem_append_right _ (List.mem_append_right _ hc)))]
    exact hwalked₁.unexpired c fun hle => absurd (hafter c hc) (Nat.not_lt_of_le (Nat.le_trans hle hnow))
  have hexpired : ∀ c ∈ rest, ¬ Probed cfg now s c := fun c hc h =>
    absurd (hafter c hc) (Nat.not_lt_of_le (Nat.le_trans h.1 hnow))
  have hnone : (rest.filter fun c => Probed cfg now s₂ c) = [] := by
    rw [List.filter_eq_nil_iff]
    intro c hc h
    refine hexpired c hc ?_
    have h' := of_decide_eq_true h
    unfold Probed Server.value at h' ⊢
    rwa [hinfo c hc] at h'
  have hn₂ : s₂.dhcp_ip_pool.Nodup := by
    rw [hpool₂, List.nodup_middle, List.append_assoc]
    exact List.nodup_middle.1 hn'
  obtain ⟨s₃, passes₃, hpasses₃, hwalked₃, hcursors₃, hprobes₃⟩ :=
    walk cfg env now (done ++ moved ++ [client]) rest []
      (by rw [hpool₂, List.append_nil, List.append_assoc _ [client]]; rfl) hn₂ fun i hi => by
        rw [hnone] at hi
        exact absurd hi (Nat.not_lt_zero i)
  have hnext : FreeRtos.listGET_NEXT s₂.dhcp_ip_pool (some client) = (rest ++ []).head? := by
    rw [List.append_nil]
    rw [hpool₂] at hn₂ ⊢
    exact FreeRtos.listGET_NEXT_append hn₂
  refine ⟨s₃, passes₁ ++ (s₁, some client) :: passes₃, ?_, ?_, ?_, fun c hc hexp hstate => ?_, fun c hexp => ?_⟩
  · rw [hpool]
    exact hpasses₁.append (.cons hvisit (hnext ▸ hpasses₃))
  · rw [List.map_append, List.map_cons, hcursors₁, hcursors₃, List.map_append, List.map_cons]
  · have hentry : probed_entry cfg now (s₁, some client) = some client := by
      rw [probed_entry, Option.filter_some, if_pos (decide_eq_true ((hwalked₁.probed_iff hclient).2 hp))]
    have hsingle : ([client].filter fun c => Probed cfg now s c) = [client] := by simp [hp]
    rw [List.filterMap_append, List.filterMap_cons, hentry, hprobes₁, hprobes₃, hnone, List.filter_append, hsingle]
  · have hc' : c ∉ rest := fun hr => (List.nodup_append.1 hn').2.2 c hc c
      (List.mem_cons_of_mem _ (List.mem_append_right _ hr)) rfl
    rw [hwalked₃.same c hc', hsame₂ c (hne c (List.mem_append_left _ hc))]
    exact hwalked₁.released c hc hexp hstate
  · have hc : c ≠ client := by
      rintro rfl
      exact hexp hp.1
    have hinfo₂ : s₂.dhcp_ip_infos c = s.dhcp_ip_infos c := (hsame₂ c hc).trans (hwalked₁.unexpired c hexp)
    rw [hwalked₃.unexpired c (by rwa [Server.value, hinfo₂]), hinfo₂]

/-! ## The whole sweep -/

/-- The sweep is complete, probes each address once and stays within the pool. -/
structure Swept (cfg : Config) (env : Env) (s : Server) : Prop where
  result : ∃ s', dhcp_client_release_expired_leases cfg env s = some s' ∧
    (∀ c ∈ s.dhcp_ip_pool, s.value c ≤ (rtos_time_get env s).1 →
      (s.dhcp_ip_infos c).state = .LEASED ∨ (s.dhcp_ip_infos c).state = .OFFERED → (s'.dhcp_ip_infos c).state = .AVAILABLE) ∧
    ∀ c ∈ s.dhcp_ip_pool, ¬ s.value c ≤ (rtos_time_get env s).1 → s'.dhcp_ip_infos c = s.dhcp_ip_infos c
  probed : ∀ c ∈ s.dhcp_ip_pool, s.value c ≤ (rtos_time_get env s).1 → (s.dhcp_ip_infos c).state = .UNAVAILABLE →
    (sweep_probes cfg env s).count c = 1
  visits : ∀ pass ∈ sweep_passes cfg env s, ∃ c ∈ s.dhcp_ip_pool, pass.2 = some c

/-- The first probe that finds an address in use is that of `client`, which is behind `done` in the list. -/
structure FoundFirst (cfg : Config) (env : Env) (s : Server) (done : List Nat) (client : Nat) : Prop where
  probed : Probed cfg (rtos_time_get env s).1 s client
  in_use : env.in_use (s.probes + (done.filter fun c => Probed cfg (rtos_time_get env s).1 s c).length) = true
  first : ∀ i < (done.filter fun c => Probed cfg (rtos_time_get env s).1 s c).length, env.in_use (s.probes + i) = false

/-- The new expiration of an entry that is put back. -/
def put_back_until (cfg : Config) (env : Env) (s : Server) : Nat := expires_again cfg env (rtos_time_get env s).2

/-- An entry that is put back stays where it is. Without probing no entry waits for a probe. -/
structure StaysInPlace (cfg : Config) (env : Env) (s : Server) : Prop where
  enabled : ∀ c ∈ s.dhcp_ip_pool, s.value c ≤ (rtos_time_get env s).1 → (s.dhcp_ip_infos c).state = .UNAVAILABLE →
    cfg.unavailable_ip_probe_interval ≠ 0
  last : ∀ done client rest, s.dhcp_ip_pool = done ++ client :: rest → FoundFirst cfg env s done client →
    put_back_until cfg env s < 2 ^ 32 ∧ ∀ c ∈ rest, put_back_until cfg env s < s.value c

/-- The n-th of the elements that satisfy a predicate. -/
theorem exists_filter_split {α : Type*} (p : α → Bool) (l : List α) {n : Nat} (h : n < (l.filter p).length) :
    ∃ before a after, l = before ++ a :: after ∧ p a ∧ (before.filter p).length = n := by
  induction l generalizing n with
  | nil => exact absurd h (Nat.not_lt_zero n)
  | cons b l ih =>
    by_cases hb : p b
    · rcases n with _ | n
      · exact ⟨[], b, l, rfl, hb, rfl⟩
      · rw [List.filter_cons_of_pos hb, List.length_cons, Nat.add_lt_add_iff_right] at h
        obtain ⟨before, a, after, rfl, ha, hlen⟩ := ih h
        exact ⟨b :: before, a, after, rfl, ha, by rw [List.filter_cons_of_pos hb, List.length_cons, hlen]⟩
    · rw [List.filter_cons_of_neg hb] at h
      obtain ⟨before, a, after, rfl, ha, hlen⟩ := ih h
      exact ⟨b :: before, a, after, rfl, ha, by rw [List.filter_cons_of_neg hb, hlen]⟩

/-- Either no probe of the sweep finds an address in use, or there is a first one. -/
theorem quiet_or_first (cfg : Config) (env : Env) (s : Server) :
    (∀ i < (s.dhcp_ip_pool.filter fun c => Probed cfg (rtos_time_get env s).1 s c).length,
      env.in_use (s.probes + i) = false) ∨
    ∃ done client rest, s.dhcp_ip_pool = done ++ client :: rest ∧ FoundFirst cfg env s done client := by
  by_cases h : ∃ i, i < (s.dhcp_ip_pool.filter fun c => Probed cfg (rtos_time_get env s).1 s c).length ∧
      env.in_use (s.probes + i) = true
  · obtain ⟨hlt, huse⟩ := Nat.find_spec h
    obtain ⟨done, client, rest, hpool, hp, hlen⟩ := exists_filter_split _ _ hlt
    refine .inr ⟨done, client, rest, hpool, of_decide_eq_true hp, hlen ▸ huse, fun i hi => ?_⟩
    rw [hlen] at hi
    exact Bool.eq_false_iff.2 fun hi' => Nat.find_min h hi ⟨Nat.lt_trans hi hlt, hi'⟩
  · exact .inl fun i hi => Bool.eq_false_iff.2 fun hi' => h ⟨i, hi, hi'⟩

/-- Passes over all the entries. -/
theorem swept_of_walk (hpasses : Passes cfg env (rtos_time_get env s).1 passes (rtos_time_get env s).2 s.dhcp_ip_pool.head? s' item')
    (hcursors : passes.map Prod.snd = s.dhcp_ip_pool.map some)
    (hprobes : passes.filterMap (probed_entry cfg (rtos_time_get env s).1) =
      entries.filter fun c => Probed cfg (rtos_time_get env s).1 s c)
    (hentries : ∀ c ∈ s.dhcp_ip_pool, s.value c ≤ (rtos_time_get env s).1 →
      (s.dhcp_ip_infos c).state = .UNAVAILABLE → c ∈ entries ∧ cfg.unavailable_ip_probe_interval ≠ 0)
    (hnodup : entries.Nodup)
    (hreleased : ∀ c ∈ s.dhcp_ip_pool, s.value c ≤ (rtos_time_get env s).1 →
      (s.dhcp_ip_infos c).state = .LEASED ∨ (s.dhcp_ip_infos c).state = .OFFERED → (s'.dhcp_ip_infos c).state = .AVAILABLE)
    (hunexpired : ∀ c, ¬ s.value c ≤ (rtos_time_get env s).1 → s'.dhcp_ip_infos c = s.dhcp_ip_infos c) :
    Swept cfg env s := by
  have hlen : passes.length = s.dhcp_ip_pool.length := by
    rw [← List.length_map (f := Prod.snd), hcursors, List.length_map]
  have hall : sweep_passes cfg env s = passes := by
    rw [sweep_passes, ← hlen, FreeRtos.listGET_HEAD_ENTRY, ← Nat.add_zero passes.length, hpasses.of_loop 0]
    exact List.append_nil passes
  refine ⟨⟨s', ?_, hreleased, fun c _ => hunexpired c⟩, fun c hc hexp hstate => ?_, fun pass hp => ?_⟩
  · have hloop := hpasses.loop 0
    rw [Nat.add_zero, hlen] at hloop
    exact hloop
  · obtain ⟨hmem, hne⟩ := hentries c hc hexp hstate
    rw [sweep_probes, hall, hprobes]
    refine List.count_eq_one_of_mem (hnodup.filter _) (List.mem_filter.2 ⟨hmem, ?_⟩)
    exact decide_eq_true ⟨hexp, hstate, hne⟩
  · rw [hall] at hp
    have hmem := List.mem_map_of_mem (f := Prod.snd) hp
    rw [hcursors] at hmem
    obtain ⟨c, hc, heq⟩ := List.mem_map.1 hmem
    exact ⟨c, hc, heq.symm⟩

/-- What stands before an entry that has expired expires before that entry is to expire again. -/
theorem sorted_before (hsorted : FreeRtos.Sorted s.value s.dhcp_ip_pool) (hpool : s.dhcp_ip_pool = done ++ client :: rest)
    (hexp : s.value client ≤ now) : ∀ c ∈ done, s.value c ≤ now := by
  intro c hc
  rw [hpool] at hsorted
  exact Nat.le_trans ((List.pairwise_append.1 hsorted).2.2 c hc client List.mem_cons_self) hexp

theorem le_put_back_until (cfg : Config) (env : Env) (s : Server) : (rtos_time_get env s).1 ≤ put_back_until cfg env s :=
  Nat.le_trans (Nat.le_add_right _ _) (Nat.le_add_right _ _)

theorem swept_of_stays (hsorted : FreeRtos.Sorted s.value s.dhcp_ip_pool) (hn : s.dhcp_ip_pool.Nodup) (h : StaysInPlace cfg env s) : Swept cfg env s := by
  rcases quiet_or_first cfg env s with hquiet | ⟨done, client, rest, hpool, hfirst⟩
  · obtain ⟨s', passes, hpasses, hwalked, hcursors, hprobes⟩ :=
      walk cfg env (rtos_time_get env s).1 [] s.dhcp_ip_pool [] (s := (rtos_time_get env s).2)
        (List.append_nil _).symm hn hquiet
    rw [List.append_nil] at hpasses
    exact swept_of_walk hpasses hcursors hprobes (fun c hc hexp hstate => ⟨hc, h.enabled c hc hexp hstate⟩) hn
      hwalked.released hwalked.unexpired
  · have hbefore := sorted_before hsorted hpool hfirst.probed.1
    obtain ⟨hclock, hafter⟩ := h.last done client rest hpool hfirst
    obtain ⟨s', passes, hpasses, hcursors, hprobes, hreleased, hunexpired⟩ :=
      walk_first (s := (rtos_time_get env s).2) [] hpool hn hfirst.probed hfirst.in_use hfirst.first
        (le_put_back_until cfg env s) hclock
        (fun c hc => by
          rw [List.append_nil] at hc
          exact Nat.le_trans (hbefore c hc) (le_put_back_until cfg env s)) hafter
    -- what has expired stands before the entry that was put back, or is that entry
    have hentries : ∀ c ∈ s.dhcp_ip_pool, s.value c ≤ (rtos_time_get env s).1 → c ∈ done ++ [client] := by
      intro c hc hexp
      rw [hpool] at hc
      rcases List.mem_append.1 hc with hc | hc
      · exact List.mem_append_left _ hc
      · rcases List.mem_cons.1 hc with rfl | hc
        · exact List.mem_append_right _ List.mem_cons_self
        · have hlt := hafter c hc
          have hle := le_put_back_until cfg env s
          omega
    refine swept_of_walk hpasses (hpool ▸ hcursors) hprobes
      (fun c hc hexp hstate => ⟨hentries c hc hexp, h.enabled c hc hexp hstate⟩) ?_ (fun c hc hexp hstate => ?_) hunexpired
    · rw [hpool] at hn
      exact hn.sublist ((List.singleton_sublist.2 List.mem_cons_self).append_left done)
    · rcases List.mem_append.1 (hentries c hc hexp) with hc | hc
      · exact hreleased c hc hexp hstate
      · rw [List.mem_singleton.1 hc, hfirst.probed.2.1] at hstate
        rcases hstate with hstate | hstate <;> exact absurd hstate (by decide)

theorem stays_of_swept (hsorted : FreeRtos.Sorted s.value s.dhcp_ip_pool) (hn : s.dhcp_ip_pool.Nodup)
    (hclock : put_back_until cfg env s < 2 ^ 32) (h : Swept cfg env s) : StaysInPlace cfg env s := by
  constructor
  · intro c hc hexp hstate hzero
    have hcount := h.probed c hc hexp hstate
    have hnone : sweep_probes cfg env s = [] := by
      rw [sweep_probes, List.filterMap_eq_nil_iff]
      intro pass _
      rw [probed_entry, Option.filter_eq_none_iff]
      exact fun a _ hp => (of_decide_eq_true hp).2.2 hzero
    rw [hnone] at hcount
    cases hcount
  · intro done client rest hpool hfirst
    refine ⟨hclock, fun c hc => ?_⟩
    by_contra hle
    have hrest : FreeRtos.Sorted s.value rest := by
      rw [hpool] at hsorted
      exact (List.pairwise_cons.1 (List.pairwise_append.1 hsorted).2.1).2
    obtain ⟨low, high, rfl, hlow, hhigh⟩ := hrest.split (put_back_until cfg env s)
    have hbefore := sorted_before hsorted hpool hfirst.probed.1
    obtain ⟨s', passes, hpasses, hcursors, -⟩ :=
      walk_first (s := (rtos_time_get env s).2) low hpool hn hfirst.probed hfirst.in_use hfirst.first
        (le_put_back_until cfg env s) hclock
        (fun c hc => by
          rcases List.mem_append.1 hc with hc | hc
          · exact Nat.le_trans (hbefore c hc) (le_put_back_until cfg env s)
          · exact hlow c hc) hhigh
    -- `low`, with `c`, is passed over, and so many passes are left at the end marker
    have hpos : 0 < low.length := by
      rcases List.mem_append.1 hc with hc | hc
      · exact List.length_pos_of_mem hc
      · exact absurd (hhigh c hc) hle
    have hlen : s.dhcp_ip_pool.length = passes.length + low.length := by
      rw [← List.length_map (f := Prod.snd), hcursors, List.length_map, hpool]
      simp only [List.length_append, List.length_cons]
      omega
    have hmarker : (s', none) ∈ sweep_passes cfg env s := by
      obtain ⟨k, hk⟩ := Nat.exists_eq_succ_of_ne_zero (Nat.ne_of_gt hpos)
      rw [sweep_passes, hlen, FreeRtos.listGET_HEAD_ENTRY]
      have hof := hpasses.of_loop low.length
      rw [hk] at hof ⊢
      rw [show s.dhcp_ip_pool = (rtos_time_get env s).2.dhcp_ip_pool from rfl, hof]
      exact List.mem_append_right _ List.mem_cons_self
    obtain ⟨c, -, heq⟩ := h.visits _ hmarker
    cases heq

/-- The sweep is complete if the entry of the first address found in use stays in its place, and only then
unless its new expiration is of more than 32 bits. -/
theorem sweep_complete (hsorted : FreeRtos.Sorted s.value s.dhcp_ip_pool) (hn : s.dhcp_ip_pool.Nodup) :
    (StaysInPlace cfg env s → Swept cfg env s) ∧
      (put_back_until cfg env s < 2 ^ 32 → Swept cfg env s → StaysInPlace cfg env s) :=
  ⟨swept_of_stays hsorted hn, stays_of_swept hsorted hn⟩

/-- Two entries at time 10: the address of the first is unavailable, the second is leased for longer. -/
def unavailable_first : Server where
  dhcp_ip_infos c := if c = 0 then ⟨0xC0A80002, .UNAVAILABLE, 0, 5⟩ else ⟨0xC0A80003, .LEASED, 0xA, 2000⟩
  dhcp_ip_pool := [0, 1]
  now := 10
  readings := 0
  probes := 0

/-- Every probe finds the address in use. -/
def busyEnv : Env := ⟨fun _ => 0, fun _ => true⟩

theorem sweep_complete_unavailable_first : Swept smallConfig busyEnv unavailable_first := by
  refine (sweep_complete (by decide) (by decide)).1 ⟨fun _ _ _ _ => by decide, ?_⟩
  rintro (_ | ⟨a, _ | ⟨b, done⟩⟩) client rest hpool hfirst
  · obtain ⟨rfl, rfl⟩ := List.cons.inj hpool
    decide
  · obtain ⟨rfl, h⟩ := List.cons.inj hpool
    obtain ⟨rfl, rfl⟩ := List.cons.inj h
    exact absurd hfirst.probed.2.1 (by decide)
  · obtain ⟨-, h⟩ := List.cons.inj hpool
    obtain ⟨-, h⟩ := List.cons.inj h
    cases done <;> cases h

/-- The clock jumps by 700 seconds at the sweep, and 192.168.0.3 is in use both times it is probed. -/
def sweepEnv : Env := ⟨fun reading => if reading = 7 then 700 else 0, fun probe => probe = 1 ∨ probe = 3⟩

/-- 192.168.0.2 is leased to A, 192.168.0.3 is found in use and 192.168.0.4 offered to B. -/
def sweepEvents : List Event :=
  [Event.recv (discover_message 0xA 0xC0A80002), Event.recv (request_message 0xA 0xC0A80002 0xC0A80001),
    Event.recv (discover_message 0xB 0xC0A80003)]

/-- 192.168.0.3 is put back behind 192.168.0.2, whose lease has expired and is left as it is. -/
theorem sweep_incomplete : ¬ ∀ s, (dhcpd smallConfig sweepEnv).Reachable Machine.Free s →
    FreeRtos.Sorted s.value s.dhcp_ip_pool → s.dhcp_ip_pool.Nodup → Swept smallConfig sweepEnv s := by
  intro hall
  have hrun : (runFrom smallConfig sweepEnv sweepEvents).isSome := by decide +kernel
  obtain ⟨s', hs', hreleased, -⟩ :=
    (hall _ (stateAfter_reachable hrun) (by decide +kernel) (by decide +kernel)).result
  have hleft : (dhcp_client_release_expired_leases smallConfig sweepEnv (stateAfter smallConfig sweepEnv sweepEvents)).any
      (fun s' => (s'.dhcp_ip_infos 0).state = .LEASED) = true := by
    decide +kernel
  rw [hs', Option.any_some] at hleft
  have havailable := hreleased 0 (by decide +kernel) (by decide +kernel) (.inl (by decide +kernel))
  exact absurd ((of_decide_eq_true hleft).symm.trans havailable) (by decide)

end Dhcpd
