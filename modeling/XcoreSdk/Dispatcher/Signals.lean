import XcoreSdk.Dispatcher.Counted
/-!
# Signals and tokens
-/

namespace Dispatcher
open FreeRtos
variable {J G ι κ : Type*} [DecidableEq J] [DecidableEq G] [DecidableEq ι] [DecidableEq κ]
variable {jobs : G → List J} {length : Nat} {s s' : Threads J G ι κ} {place : J × Nat → Place ι κ}

/-! ## Tokens -/

omit [DecidableEq κ] in
/-- A wait takes its counter's token. -/
theorem counted_get {i : ι} {c : Address J G} {ts : List (J × Nat)} {n : Nat} (h : Counted jobs s)
    (hpc : s.task i = .wait c ts) (hn : (s.counters c).semaphore = n + 1) :
    Counted jobs { s with
      counters := Function.update s.counters c { s.counters c with semaphore := n }
      outstanding := waited s.outstanding c
      returned := s.returned ++ ts
      task := Function.update s.task i .idle } := by
  have hcount : ∀ c', (Function.update s.counters c { s.counters c with semaphore := n } c').count = (s.counters c').count := by
    intro c'
    rw [Function.update_apply]
    split
    · rename_i heq; rw [heq]
    · rfl
  have htoken := h.token c (.inl (by omega))
  have hput : ∀ k, s.worker k ≠ .put c := fun k hk => by
    have := (h.putting c k hk).1
    omega
  have hn0 : n = 0 := by
    have := h.bound c
    omega
  have htask : ∀ {i' pc}, pc ≠ .idle → Function.update s.task i .idle i' = pc → s.task i' = pc := by
    intro i' pc hne hi
    rw [Function.update_apply] at hi
    split at hi
    · exact absurd hi.symm hne
    · exact hi
  refine { h with
    handed := ?_, adding := ?_, job_count := ?_, group_count := ?_, token := ?_, bound := ?_, putting := ?_,
    created := ?_, used_up := ?_, waits := ?_, returned := ?_ }
  · rintro u (hq | hk | ⟨i', hi | ⟨g, us, hi⟩⟩)
    · exact h.handed u (.inl hq)
    · exact h.handed u (.inr (.inl hk))
    · exact h.handed u (.inr (.inr ⟨i', .inl (htask nofun hi)⟩))
    · exact h.handed u (.inr (.inr ⟨i', .inr ⟨g, us, htask nofun hi⟩⟩))
  · intro i' g u hu
    dsimp only at hu
    rw [Function.update_apply] at hu
    split at hu
    · exact hu.elim
    · exact h.adding i' g u hu
  · intro j u hu
    rw [hcount]
    exact h.job_count j u hu
  · intro g hg
    rw [hcount]
    exact h.group_count g hg
  · intro c' hc
    by_cases hcc : c' = c
    · subst hcc
      exact htoken
    · dsimp only at hc
      rw [Function.update_of_ne hcc] at hc
      exact h.token c' hc
  · intro c'
    have := h.bound c'
    grind [Function.update_apply]
  · intro c' k hk
    have := h.putting c' k hk
    have := hput k
    grind [Function.update_apply]
  · intro g hg
    refine h.created g ?_
    cases c with
    | job u => exact hg
    | group g' =>
      dsimp only [waited] at hg
      rw [Function.update_apply] at hg
      split at hg
      · cases hg
      · exact hg
  · intro g hg
    by_cases hc : c = .group g
    · subst hc
      exact ⟨by simp [hn0], hput, fun _ => htoken⟩
    · have hg' : s.outstanding g = false := by
        cases c with
        | job u => exact hg
        | group g' =>
          have hne : g ≠ g' := by rintro rfl; exact hc rfl
          exact (Function.update_of_ne hne _ _).symm.trans hg
      dsimp only
      rw [Function.update_of_ne (Ne.symm hc)]
      exact h.used_up g hg'
  · intro i' c' us hi
    exact h.waits i' c' us (htask nofun hi)
  · intro u hu
    rcases List.mem_append.1 hu with hu | hu
    · exact h.returned u hu
    · rcases (h.waits i c ts hpc).2 u hu with hd | hm
      · exact hd
      · exact htoken u hm

theorem semaphore_put_one : rtos_osal_semaphore_put 1 0 = 1 := rfl

omit [DecidableEq ι] in
/-- The worker that brought a counter to zero puts its semaphore. -/
theorem counted_put {k : κ} {c : Address J G} (h : Counted jobs s) (hpc : s.worker k = .put c) :
    Counted jobs { s with
      counters := Function.update s.counters c
        { s.counters c with semaphore := rtos_osal_semaphore_put 1 (s.counters c).semaphore }
      worker := Function.update s.worker k .receive } := by
  obtain ⟨hsem, hunique⟩ := h.putting c k hpc
  have htoken := h.token c (.inr ⟨k, hpc⟩)
  rw [hsem, semaphore_put_one]
  have hcount : ∀ c', (Function.update s.counters c { s.counters c with semaphore := 1 } c').count = (s.counters c').count := by
    intro c'
    rw [Function.update_apply]
    split
    · rename_i heq; rw [heq]
    · rfl
  have hworker : ∀ {k' pc}, pc ≠ .receive → Function.update s.worker k .receive k' = pc → s.worker k' = pc := by
    intro k' pc hne hk
    rw [Function.update_apply] at hk
    split at hk
    · exact absurd hk.symm hne
    · exact hk
  refine { h with
    handed := ?_, job_count := ?_, group_count := ?_, token := ?_, bound := ?_, putting := ?_, used_up := ?_ }
  · rintro u (hq | ⟨k', hk | hk⟩ | hi)
    · exact h.handed u (.inl hq)
    · exact h.handed u (.inr (.inl ⟨k', .inl (hworker nofun hk)⟩))
    · exact h.handed u (.inr (.inl ⟨k', .inr (hworker nofun hk)⟩))
    · exact h.handed u (.inr (.inr hi))
  · intro j u hu
    rw [hcount]
    exact h.job_count j u hu
  · intro g hg
    rw [hcount]
    exact h.group_count g hg
  · intro c' hc
    by_cases hcc : c' = c
    · subst hcc
      exact htoken
    · dsimp only at hc
      rw [Function.update_of_ne hcc] at hc
      exact h.token c' (hc.imp_right fun ⟨k', hk⟩ => ⟨k', hworker nofun hk⟩)
  · intro c'
    have := h.bound c'
    grind [Function.update_apply]
  · intro c' k' hk
    have hk' : s.worker k' = .put c' := hworker nofun hk
    have := h.putting c' k' hk'
    have := hunique k'
    grind [Function.update_apply]
  · intro g hg
    obtain ⟨h1, h2, h3⟩ := h.used_up g hg
    have hc : Address.group g ≠ c := by rintro rfl; exact h2 k hpc
    refine ⟨?_, fun k' hk => h2 k' (hworker nofun hk), h3⟩
    dsimp only
    rw [Function.update_of_ne hc]
    exact h1

/-! ## Signals -/

theorem filter_append_length {l d : List (J × Nat)} {t : J × Nat} (hl : l.Nodup) (ht : t ∈ l) (hd : t ∉ d) :
    (l.filter (· ∉ d)).length = (l.filter (· ∉ d ++ [t])).length + 1 := by
  have herase : l.filter (· ∉ d ++ [t]) = (l.filter (· ∉ d)).erase t := by
    rw [(hl.filter _).erase_eq_filter, List.filter_filter]
    refine List.filter_congr fun u _ => ?_
    by_cases hu : u = t <;> by_cases hud : u ∈ d <;> simp [hu, hud]
  have hmem : t ∈ l.filter (· ∉ d) := List.mem_filter.2 ⟨ht, by simpa using hd⟩
  rw [herase, List.length_erase_of_mem hmem]
  have := List.length_pos_of_mem hmem
  omega

theorem filter_append_of_not_mem {l d : List (J × Nat)} {t : J × Nat} (ht : t ∉ l) :
    l.filter (· ∉ d ++ [t]) = l.filter (· ∉ d) :=
  List.filter_congr fun u hu => by
    have : u ≠ t := by rintro rfl; exact ht hu
    simp [this]

omit [DecidableEq G] [DecidableEq ι] [DecidableEq κ] in
/-- What a job's counter counts. -/
theorem Counted.count {j : J} {c : Address J G} (h : Counted jobs s) (hj : s.job_counter j = some c) :
    (s.counters c).count = ((members jobs s c).filter (· ∉ s.signalled)).length := by
  cases c with
  | job t =>
    rw [h.job_count j t hj]
    by_cases ht : t ∈ s.signalled <;> simp [members, ht]
  | group g => exact h.group_count g (h.group j g hj).1

omit [DecidableEq G] [DecidableEq ι] [DecidableEq κ] in
theorem Counted.members_nodup {j : J} {c : Address J G} (h : Counted jobs s) (hj : s.job_counter j = some c) :
    (members jobs s c).Nodup := by
  cases c with
  | job t => simp [members]
  | group g => exact (h.nodup g (h.group j g hj).1).map fun _ _ heq => (Prod.mk.inj heq).1

theorem signal_eq {counter : EventCounter} {n : Nat} (h : counter.count = n + 1) :
    event_counter_signal counter = (⟨n, counter.semaphore⟩, decide (n = 0)) := by
  simp [event_counter_signal, h]

omit [DecidableEq ι] in
theorem counted_signal {k : κ} {t : J × Nat} {c : Address J G} (h : Counted jobs s) (hp : Placed s place)
    (hpc : s.worker k = .signal t) (hc : s.job_counter t.1 = some c) :
    Counted jobs { s with
      counters := Function.update s.counters c (event_counter_signal (s.counters c)).1
      signalled := s.signalled ++ [t]
      worker := Function.update s.worker k (if (event_counter_signal (s.counters c)).2 then .put c else .receive) } := by
  have hplace := (hp.signalling t k).2 hpc
  have hns : t ∉ s.signalled := fun hd => by
    rw [(hp.done t).2 hd] at hplace
    cases hplace
  have hlatest : t = (t.1, s.added t.1) := by
    have hnew : ¬ (t.2 = 0 ∨ s.added t.1 < t.2) := fun hn => by
      rw [(hp.new t).2 hn] at hplace
      cases hplace
    have hn := h.latest t.1 t.2 (by omega) (by omega) hns
    exact Prod.ext rfl hn
  have hmem : t ∈ members jobs s c := by
    rw [hlatest]
    exact h.member hc
  -- nobody has a token of this counter yet
  have hfree : (s.counters c).semaphore = 0 ∧ ∀ k', s.worker k' ≠ .put c := by
    refine ⟨?_, fun k' hk' => hns (h.token c (.inr ⟨k', hk'⟩) t hmem)⟩
    by_contra hne
    exact hns (h.token c (.inl hne) t hmem)
  have howner : ∀ g, s.group_counter g = true → t ∈ last jobs s g → c = .group g := by
    intro g hg ht
    obtain ⟨j, hj, rfl⟩ := List.mem_map.1 ht
    rcases h.owned g j hg hj with ho | ⟨ho, -⟩
    · rw [ho] at hc; cases hc; rfl
    · rw [ho] at hc; cases hc
  have hlen := filter_append_length (h.members_nodup hc) hmem hns
  rw [← h.count hc] at hlen
  rw [signal_eq hlen]
  obtain ⟨n, hn⟩ : ∃ n, n = ((members jobs s c).filter (· ∉ s.signalled ++ [t])).length := ⟨_, rfl⟩
  rw [← hn] at hlen ⊢
  have hsem : ∀ c', (Function.update s.counters c ⟨n, (s.counters c).semaphore⟩ c').semaphore = (s.counters c').semaphore := by
    intro c'
    rw [Function.update_apply]
    split
    · rename_i heq; rw [heq]
    · rfl
  have hworker : ∀ {k' pc}, pc ≠ .receive → pc ≠ .put c →
      Function.update s.worker k (if decide (n = 0) then .put c else .receive) k' = pc → s.worker k' = pc := by
    intro k' pc hne hne' hk
    rw [Function.update_apply] at hk
    split at hk
    · split at hk
      · exact absurd hk.symm hne'
      · exact absurd hk.symm hne
    · exact hk
  have hputter : ∀ {k'}, Function.update s.worker k (if decide (n = 0) then .put c else .receive) k' = .put c →
      k' = k ∧ n = 0 := by
    intro k' hk
    rw [Function.update_apply] at hk
    split at hk
    · split at hk
      · exact ⟨‹_›, by simpa using ‹decide (n = 0) = true›⟩
      · cases hk
    · exact absurd hk (hfree.2 k')
  refine { h with
    latest := ?_, handed := ?_, owned := ?_, job_count := ?_, group_count := ?_, token := ?_, bound := ?_, putting := ?_,
    used_up := ?_, waits := ?_, returned := fun u hu => List.mem_append_left _ (h.returned u hu) }
  · exact fun j m hm hle hd => h.latest j m hm hle fun hin => hd (List.mem_append_left _ hin)
  · rintro u (hq | ⟨k', hk | hk⟩ | hi)
    · exact h.handed u (.inl hq)
    · exact h.handed u (.inr (.inl ⟨k', .inl (hworker nofun nofun hk)⟩))
    · exact h.handed u (.inr (.inl ⟨k', .inr (hworker nofun nofun hk)⟩))
    · exact h.handed u (.inr (.inr hi))
  · intro g j hg hj
    refine (h.owned g j hg hj).imp_right fun ⟨hnone, hpos, hin⟩ => ⟨hnone, hpos, fun hd => ?_⟩
    rcases List.mem_append.1 hd with hd | hd
    · exact hin hd
    · rw [← List.mem_singleton.1 hd, hnone] at hc
      cases hc
  · intro j u hu
    dsimp only
    by_cases huc : c = .job u
    · have hut : t = u := by
        rw [huc] at hmem
        exact List.mem_singleton.1 hmem
      subst hut
      have hfilter : n = 0 := by rw [hn, huc]; simp [members]
      rw [huc, Function.update_self, if_pos (by simp)]
      exact hfilter
    · have hut : u ≠ t := by
        rintro rfl
        have hjt := h.job j u hu
        rw [hjt] at hc
        exact huc (Option.some.inj (hc.symm.trans hu))
      rw [Function.update_of_ne (Ne.symm huc), h.job_count j u hu]
      simp [hut]
  · intro g hg
    dsimp only
    by_cases hgc : c = .group g
    · rw [← hgc, Function.update_self]
      dsimp only
      rw [hn, hgc]
      rfl
    · have hnot : t ∉ last jobs s g := fun ht => hgc (howner g hg ht)
      rw [Function.update_of_ne (Ne.symm hgc), h.group_count g hg, ← filter_append_of_not_mem hnot]
      rfl
  · intro c' hc' u hu
    dsimp only at hc'
    rw [hsem] at hc'
    by_cases hcc : c' = c
    · subst hcc
      rcases hc' with hne | ⟨k', hk⟩
      · exact absurd hfree.1 hne
      · have hnil := List.eq_nil_of_length_eq_zero (hn.symm.trans (hputter hk).2)
        by_contra hin
        exact List.filter_eq_nil_iff.1 hnil u hu (decide_eq_true hin)
    · refine List.mem_append_left _ (h.token c' (hc'.imp_right fun ⟨k', hk⟩ => ⟨k', ?_⟩) u hu)
      exact hworker nofun (by simpa using hcc) hk
  · intro c'
    rw [hsem]
    exact h.bound c'
  · intro c' k' hk
    rw [hsem]
    by_cases hcc : c' = c
    · subst hcc
      exact ⟨hfree.1, fun k'' hk'' => (hputter hk'').1.trans (hputter hk).1.symm⟩
    · have hne : Worker.put c' ≠ .put c := by simpa using hcc
      obtain ⟨h1, h2⟩ := h.putting c' k' (hworker nofun hne hk)
      exact ⟨h1, fun k'' hk'' => h2 k'' (hworker nofun hne hk'')⟩
  · intro g hg
    obtain ⟨h1, h2, h3⟩ := h.used_up g hg
    have hgc : c ≠ .group g := by
      rintro rfl
      exact hns (h3 (h.group _ _ hc).1 t hmem)
    refine ⟨by rw [hsem]; exact h1, fun k' hk => h2 k' (hworker nofun (by simpa using Ne.symm hgc) hk), fun hg' u hu => ?_⟩
    exact List.mem_append_left _ (h3 hg' u hu)
  · intro i c' us hi
    obtain ⟨h1, h2⟩ := h.waits i c' us hi
    exact ⟨h1, fun u hu => (h2 u hu).imp_left (List.mem_append_left _)⟩

end Dispatcher
