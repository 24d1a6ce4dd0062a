import XcoreSdk.Dispatcher.Counted
/-!
# Adding keeps the counts

A job that may be added is counted by no counter that is still in use.
-/

namespace Dispatcher
open FreeRtos
variable {J G ι κ : Type*} [DecidableEq J] [DecidableEq G] [DecidableEq ι] [DecidableEq κ]
variable {jobs : G → List J} {length : Nat} {s s' : Threads J G ι κ} {place : J × Nat → Place ι κ}

omit [DecidableEq G] [DecidableEq ι] [DecidableEq κ] in
/-- A job that may be added again is in no group that has been added, or in
the one whose counter it has. -/
theorem Counted.settled {j : J} {g : G} (h : Counted jobs s) (hj : Settled s j) (hg : s.group_counter g = true)
    (hmem : j ∈ jobs g) : s.job_counter j = some (.group g) := by
  rcases h.owned g j hg hmem with hc | ⟨-, hpos, hsig⟩
  · exact hc
  · rcases hj with h0 | hd
    · omega
    · exact absurd hd hsig

omit [DecidableEq G] [DecidableEq ι] [DecidableEq κ] in
theorem Counted.settled_latest {j : J} {n : Nat} (h : Counted jobs s) (hj : Settled s j) (hn : 0 < n)
    (hle : n ≤ s.added j) : (j, n) ∈ s.signalled := by
  by_contra hsig
  obtain rfl := h.latest j n hn hle hsig
  rcases hj with h0 | hd
  · omega
  · exact hsig hd

omit [DecidableEq J] [DecidableEq G] [DecidableEq ι] [DecidableEq κ] in
theorem Placed.not_signalled {j : J} (hp : Placed s place) : (j, s.added j + 1) ∉ s.signalled := fun hs => by
  have hnew := (hp.new (j, s.added j + 1)).2 (.inr (Nat.lt_succ_self _))
  rw [(hp.done _).2 hs] at hnew
  cases hnew

omit [DecidableEq κ] in
theorem counted_job_add {i : ι} {j : J} (h : Counted jobs s) (hp : Placed s place) (hj : Settled s j)
    (hg : ∀ g, s.job_counter j ≠ some (.group g)) (hs : dispatcher_job_add s i j = some s') : Counted jobs s' := by
  unfold dispatcher_job_add at hs
  split at hs
  case h_2 => cases hs
  have hnew := hp.not_signalled (j := j)
  have hnot : ∀ g, s.group_counter g = true → j ∉ jobs g := fun g hc hmem => hg g (h.settled hj hc hmem)
  have hold : ∀ j' t, s.job_counter j' = some (.job t) → t ≠ (j, s.added j + 1) := by
    rintro j' t ht rfl
    have := h.job j' _ ht
    simp only [Prod.mk.injEq] at this
    obtain ⟨rfl, hn⟩ := this
    omega
  have hs := Option.some.inj hs
  have hlast : ∀ g, s.group_counter g = true → last jobs s' g = last jobs s g := fun g hc => last_congr fun j' hj' => by
    have hne : j' ≠ j := by rintro rfl; exact hnot g hc hj'
    rw [← hs]
    exact Function.update_of_ne hne _ _
  subst hs
  have hcounters : ∀ g counter, Function.update s.counters (.job (j, s.added j + 1)) counter (.group g) =
      s.counters (.group g) := fun g counter => Function.update_of_ne (fun heq => by cases heq) _ _
  exact {
    latest := by
      intro j' n hn hle hsig
      have := h.latest j' n hn
      have := h.settled_latest (n := n) hj hn
      grind [Function.update_apply]
    handed := by
      intro t ht
      have := h.handed t
      simp only [Handed] at ht this
      grind [Function.update_apply]
    job := by
      intro j' t ht
      have := h.job j' t
      grind [Function.update_apply]
    group := by
      intro j' g ht
      have := h.group j' g
      grind [Function.update_apply]
    nodup := h.nodup
    disjoint := h.disjoint
    owned := by
      intro g j' hc hmem
      have := h.owned g j' hc hmem
      have := hnot g hc
      grind [Function.update_apply]
    adding := by
      intro i' g t ht
      have := h.adding i' g t
      simp only [Function.update_apply] at ht
      split at ht
      · exact ht.elim
      · exact this ht
    job_count := by
      intro j' t ht
      have := h.job_count j' t
      have := hold j' t
      simp only [event_counter_create]
      grind [Function.update_apply]
    group_count := by
      intro g hc
      rw [hlast g hc]
      dsimp only
      rw [hcounters]
      exact h.group_count g hc
    token := by
      intro c hc
      cases c with
      | job t =>
        have := h.token (.job t)
        simp only [members] at this ⊢
        grind [Function.update_apply, event_counter_create]
      | group g =>
        dsimp only at hc
        rw [hcounters] at hc
        by_cases hg' : s.group_counter g = true
        · simp only [members, hlast g hg']
          exact h.token (.group g) hc
        · exact absurd hc (h.no_token (by simpa using hg'))
    bound := by
      intro c
      have := h.bound c
      simp only [event_counter_create]
      grind [Function.update_apply]
    putting := by
      intro c k hk
      have := h.putting c k hk
      simp only [event_counter_create]
      grind [Function.update_apply]
    created := h.created
    used_up := by
      intro g hout
      obtain ⟨h1, h2, h3⟩ := h.used_up g hout
      refine ⟨by dsimp only; rw [hcounters]; exact h1, h2, fun hc => ?_⟩
      rw [hlast g hc]
      exact h3 hc
    waits := by
      intro i' c ts hi
      by_cases hne : i' = i
      · subst hne
        simp only [Function.update_self] at hi
        cases hi
      · simp only [Function.update_of_ne hne] at hi
        obtain ⟨h1, h2⟩ := h.waits i' c ts hi
        refine ⟨h1, fun t ht => ?_⟩
        cases c with
        | job u => exact h2 t ht
        | group g =>
          simp only [members, hlast g (h1 g rfl)]
          exact h2 t ht
    returned := h.returned }

omit [DecidableEq κ] in
theorem counted_group_add {i : ι} {g : G} (h : Counted jobs s) (hp : Placed s place) (hout : s.outstanding g = false)
    (hnd : (jobs g).Nodup)
    (hjobs : ∀ j ∈ jobs g, Settled s j ∧ (s.job_counter j = none ∨ s.job_counter j = some (.group g)))
    (hs : dispatcher_group_add jobs s i g = some s') : Counted jobs s' := by
  unfold dispatcher_group_add at hs
  split at hs
  case h_2 => cases hs
  -- the groups that have been added share no job with this one
  have hdisjoint : ∀ g' j, s.group_counter g' = true → j ∈ jobs g' → j ∈ jobs g → g' = g := by
    intro g' j hc hmem hj
    have hown := h.settled (hjobs j hj).1 hc hmem
    rcases (hjobs j hj).2 with hn | hn
    · rw [hn] at hown; cases hown
    · rw [hn] at hown; cases hown; rfl
  obtain ⟨hsem, hput, hover⟩ := h.used_up g hout
  have hs := Option.some.inj hs
  have hadded : ∀ j ∉ jobs g, s'.added j = s.added j := fun j hj => by rw [← hs]; exact if_neg hj
  have hlast : ∀ g', s.group_counter g' = true → g' ≠ g → last jobs s' g' = last jobs s g' := fun g' hc hne =>
    last_congr fun j hj => hadded j fun hmem => hne (hdisjoint g' j hc hj hmem)
  have hlast' : ∀ t ∈ last jobs s' g, t ∉ s.signalled := by
    intro t ht
    obtain ⟨j, hj, rfl⟩ := List.mem_map.1 ht
    rw [← hs]
    dsimp only
    rw [if_pos hj]
    exact hp.not_signalled
  have hcounter : s'.counters (.group g) = ⟨(jobs g).length, 0⟩ := by
    rw [← hs]
    dsimp only
    rw [Function.update_self]
    simp only [event_counter_init, EventCounter.mk.injEq, true_and]
    split
    · exact hsem
    · rfl
  have hcounters : ∀ c, c ≠ .group g → s'.counters c = s.counters c := fun c hc => by
    rw [← hs]
    exact Function.update_of_ne hc _ _
  have hgc : s'.group_counter = Function.update s.group_counter g true := by rw [← hs]
  have hsig : s'.signalled = s.signalled := by rw [← hs]
  have hjc : s'.job_counter = s.job_counter := by rw [← hs]
  have hworker : s'.worker = s.worker := by rw [← hs]
  have hadded' : ∀ j ∈ jobs g, s'.added j = s.added j + 1 := fun j hj => by rw [← hs]; exact if_pos hj
  have htask : s'.task = Function.update s.task i (.group g ((jobs g).map fun j => (j, s.added j + 1))) := by rw [← hs]
  have houtstanding : s'.outstanding = Function.update s.outstanding g (!(jobs g).isEmpty) := by rw [← hs]
  have hgc' : ∀ g', s'.group_counter g' = true ↔ g' = g ∨ s.group_counter g' = true := fun g' => by
    rw [hgc, Function.update_apply]
    split <;> simp_all
  have hqueue : s'.queue = s.queue := by rw [← hs]
  have hret : s'.returned = s.returned := by rw [← hs]
  clear hs
  exact {
    latest := by
      intro j n hn hle hns
      rw [hsig] at hns
      by_cases hj : j ∈ jobs g
      · have := h.settled_latest (n := n) (hjobs j hj).1 hn
        have := hadded' j hj
        grind
      · rw [hadded j hj] at hle ⊢
        exact h.latest j n hn hle hns
    handed := by
      rw [hjc]
      rintro t (hq | hk | ⟨i', hi⟩)
      · rw [hqueue] at hq
        exact h.handed t (.inl hq)
      · rw [hworker] at hk
        exact h.handed t (.inr (.inl hk))
      · rw [htask, Function.update_apply] at hi
        split at hi
        · rcases hi with hi | ⟨_, _, hi⟩ <;> cases hi
        · exact h.handed t (.inr (.inr ⟨i', hi⟩))
    job := by
      intro j t ht
      rw [hjc] at ht
      have hj : j ∉ jobs g := fun hj => by rcases (hjobs j hj).2 with hn | hn <;> rw [hn] at ht <;> cases ht
      rw [hadded j hj]
      exact h.job j t ht
    group := by
      intro j g' ht
      rw [hjc] at ht
      obtain ⟨hc, hmem⟩ := h.group j g' ht
      exact ⟨(hgc' g').2 (.inr hc), hmem⟩
    nodup := by
      intro g' hc
      rcases (hgc' g').1 hc with rfl | hc
      · exact hnd
      · exact h.nodup g' hc
    disjoint := by
      intro g' g'' j hc hc' hj hj'
      rcases (hgc' g').1 hc with rfl | hc
      · rcases (hgc' g'').1 hc' with rfl | hc'
        · rfl
        · exact (hdisjoint g'' j hc' hj' hj).symm
      · rcases (hgc' g'').1 hc' with rfl | hc'
        · exact hdisjoint g' j hc hj hj'
        · exact h.disjoint g' g'' j hc hc' hj hj'
    owned := by
      intro g' j hc hj
      rw [hjc, hsig]
      by_cases hmem : j ∈ jobs g
      · rw [hadded' j hmem]
        rcases (hjobs j hmem).2 with hn | hn
        · exact .inr ⟨hn, Nat.succ_pos _, hp.not_signalled⟩
        · rcases (hgc' g').1 hc with rfl | hc
          · exact .inl hn
          · rw [hdisjoint g' j hc hj hmem]
            exact .inl hn
      · rw [hadded j hmem]
        rcases (hgc' g').1 hc with rfl | hc
        · exact absurd hj hmem
        · exact h.owned g' j hc hj
    adding := by
      intro i' g' t ht
      have := h.adding i' g' t
      rw [htask, Function.update_apply] at ht
      rw [hgc']
      split at ht
      · obtain ⟨rfl, ht⟩ := ht
        obtain ⟨j, hj, rfl⟩ := List.mem_map.1 ht
        exact ⟨.inl rfl, hj⟩
      · obtain ⟨hc, hmem⟩ := this ht
        exact ⟨.inr hc, hmem⟩
    job_count := by
      intro j t ht
      rw [hjc] at ht
      rw [hcounters _ (by simp), hsig]
      exact h.job_count j t ht
    group_count := by
      intro g' hc
      by_cases hg : g' = g
      · subst hg
        rw [hcounter, hsig, List.filter_eq_self.2 fun t ht => by simpa using hlast' t ht]
        simp [last]
      · have hc := ((hgc' g').1 hc).resolve_left hg
        rw [hcounters _ (by simpa using hg), hlast g' hc hg, hsig]
        exact h.group_count g' hc
    token := by
      intro c hc
      rw [hworker] at hc
      rw [hsig]
      cases c with
      | job t => rw [hcounters _ (by simp)] at hc; exact h.token (.job t) hc
      | group g' =>
        by_cases hg : g' = g
        · subst hg
          rw [hcounter] at hc
          rcases hc with hne | ⟨k, hk⟩
          · exact absurd rfl hne
          · exact absurd hk (hput k)
        · rw [hcounters _ (by simpa using hg)] at hc
          by_cases hg' : s.group_counter g' = true
          · simp only [members, hlast g' hg' hg]
            exact h.token (.group g') hc
          · exact absurd hc (h.no_token (by simpa using hg'))
    bound := by
      intro c
      by_cases hc : c = .group g
      · rw [hc, hcounter]
        exact Nat.zero_le 1
      · rw [hcounters c hc]
        exact h.bound c
    putting := by
      intro c k hk
      rw [hworker] at hk ⊢
      have hc : c ≠ .group g := by rintro rfl; exact hput k hk
      rw [hcounters c hc]
      exact h.putting c k hk
    created := by
      intro g' ho
      rw [hgc']
      by_cases hg : g' = g
      · exact .inl hg
      · rw [houtstanding, Function.update_of_ne hg] at ho
        exact .inr (h.created g' ho)
    used_up := by
      intro g' ho
      rw [hworker, hsig, hgc']
      by_cases hg : g' = g
      · subst hg
        refine ⟨by rw [hcounter], hput, fun _ t ht => ?_⟩
        rw [houtstanding, Function.update_self] at ho
        have hnil : jobs g' = [] := by simpa using ho
        simp [last, hnil] at ht
      · rw [houtstanding, Function.update_of_ne hg] at ho
        obtain ⟨h1, h2, h3⟩ := h.used_up g' ho
        rw [hcounters _ (by simpa using hg)]
        refine ⟨h1, h2, fun hc => ?_⟩
        have hc := hc.resolve_left hg
        rw [hlast g' hc hg]
        exact h3 hc
    waits := by
      intro i' c ts hi
      rw [hsig]
      rw [htask, Function.update_apply] at hi
      split at hi
      · cases hi
      obtain ⟨h1, h2⟩ := h.waits i' c ts hi
      refine ⟨fun g' hc => (hgc' g').2 (.inr (h1 g' hc)), fun t ht => ?_⟩
      cases c with
      | job u => exact h2 t ht
      | group g' =>
        by_cases hg : g' = g
        · subst hg
          rcases h2 t ht with hd | hm
          · exact .inl hd
          · exact .inl (hover (h1 g' rfl) t hm)
        · simp only [members, hlast g' (h1 g' rfl) hg]
          exact h2 t ht
    returned := by
      rw [hsig, hret]
      exact h.returned }

omit [DecidableEq G] [DecidableEq κ] in
/-- The loop of `dispatcher_group_add` gives the next job the group's counter. -/
theorem counted_set {i : ι} {g : G} {t : J × Nat} {ts : List (J × Nat)} (h : Counted jobs s)
    (hpc : s.task i = .group g (t :: ts)) :
    Counted jobs { s with
      job_counter := Function.update s.job_counter t.1 (some (.group g))
      task := Function.update s.task i (.send g t ts) } := by
  have hadds : ∀ u ∈ t :: ts, s.group_counter g = true ∧ u.1 ∈ jobs g := fun u hu =>
    h.adding i g u (by rw [hpc]; exact ⟨rfl, hu⟩)
  obtain ⟨hg, hmem⟩ := hadds t (.head _)
  refine { h with
    handed := ?_, job := ?_, group := ?_, owned := ?_, adding := ?_, job_count := ?_, waits := ?_ }
  · rintro u hu
    by_cases hut : u.1 = t.1
    · dsimp only
      rw [hut, Function.update_self]
      simp
    · dsimp only
      rw [Function.update_of_ne hut]
      rcases hu with hq | hk | ⟨i', hi⟩
      · exact h.handed u (.inl hq)
      · exact h.handed u (.inr (.inl hk))
      · dsimp only at hi
        rw [Function.update_apply] at hi
        split at hi
        · rcases hi with hi | ⟨_, _, hi⟩ <;> cases hi
          exact absurd rfl hut
        · exact h.handed u (.inr (.inr ⟨i', hi⟩))
  · intro j u hu
    have := h.job j u
    grind [Function.update_apply]
  · intro j g' hj
    have := h.group j g'
    grind [Function.update_apply]
  · intro g' j hc hj
    have := h.owned g' j hc hj
    have := h.disjoint g' g j hc hg hj
    grind [Function.update_apply]
  · intro i' g' u hu
    dsimp only at hu
    rw [Function.update_apply] at hu
    split at hu
    · obtain ⟨rfl, hu⟩ := hu
      exact hadds u (.tail _ hu)
    · exact h.adding i' g' u hu
  · intro j u hu
    have := h.job_count j u
    grind [Function.update_apply]
  · intro i' c us hi
    dsimp only at hi
    rw [Function.update_apply] at hi
    split at hi
    · cases hi
    · exact h.waits i' c us hi

end Dispatcher
