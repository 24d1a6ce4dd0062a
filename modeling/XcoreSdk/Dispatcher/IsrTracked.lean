import XcoreSdk.Dispatcher.Isr
import Mathlib.Algebra.Order.Ring.Nat
import Mathlib.Data.List.Nodup
/-!
# Where the additions are

Each addition of what is outstanding is still to be sent, or on its way to the
worker whose place it has in its work, or finished there. A worker finishes its
additions in the order they were sent to it.
-/

namespace Dispatcher
namespace Isr
variable {J G ι : Type*}

/-- A worker has finished the addition. -/
def Signalled (s : State J G ι) (t : J × Nat) : Prop := ∃ k, t ∈ s.finished k

/-- The additions that a task has still to send. -/
def Task.unsent : Task J G → List (J × Nat)
  | .idle | .wait _ => []
  | .job t => [t]
  | .group _ _ ts => ts
  | .send _ _ t ts => t :: ts

/-- What the adding functions know. -/
def Task.Adding (s : State J G ι) : Task J G → Prop
  | .idle | .wait _ => True
  | .job t => ∃ u ∈ s.outstanding, u.address = .job t ∧ u.additions = [t] ∧ s.job_counter t.1 = some u.address
  | .group g k ts => ts ≠ [] → ∃ u ∈ s.outstanding, u.address = .group g ∧ u.additions.drop k = ts
  | .send g k t ts => ∃ u ∈ s.outstanding, u.address = .group g ∧ u.additions.drop k = t :: ts ∧
      s.job_counter t.1 = some u.address

/-- All its additions are finished. -/
def Work.Finished (s : State J G ι) (u : Work J G) : Prop := ∀ t ∈ u.additions, Signalled s t

/-- Where the additions of what is outstanding are. -/
structure Tracked (s : State J G ι) : Prop where
  current : ∀ u ∈ s.outstanding, ∀ t ∈ u.additions, 0 < t.2 ∧ t.2 = s.added t.1
  nodup : ∀ u ∈ s.outstanding, u.additions.Nodup
  apart : ∀ u ∈ s.outstanding, ∀ v ∈ s.outstanding, ∀ t ∈ u.additions, t ∈ v.additions → u = v
  address : ∀ u ∈ s.outstanding, ∀ v ∈ s.outstanding, u.address = v.address → u = v
  job : ∀ u ∈ s.outstanding, ∀ t, u.address = .job t → t ∈ u.additions
  finished : ∀ t, Signalled s t → t ∈ s.performed ∧ t.2 ≤ s.added t.1
  finished_at : ∀ k, ∀ t ∈ s.finished k, ∀ u ∈ s.outstanding, t ∈ u.additions → u.additions[k]? = some t
  hand : ∀ k t, s.worker k = .signal t → t ∈ s.performed
  pending : ∀ k, ∀ t ∈ s.pending k, ¬ Signalled s t ∧
    ∃ u ∈ s.outstanding, u.additions[k]? = some t ∧ s.job_counter t.1 = some u.address
  pending_nodup : ∀ k, (s.pending k).Nodup
  unsent : ∀ i, ∀ t ∈ (s.task i).unsent, ¬ Signalled s t ∧ (∀ k, t ∉ s.pending k) ∧
    ∀ i', t ∈ (s.task i').unsent → i' = i
  adding : ∀ i, (s.task i).Adding s
  latest : ∀ j, 0 < s.added j → Signalled s (j, s.added j) ∨ ∃ u ∈ s.outstanding, (j, s.added j) ∈ u.additions
  waits : ∀ i ts, s.task i = .wait ts → ∀ t ∈ ts, Signalled s t ∨ ∃ u ∈ s.outstanding, t ∈ u.additions
  returned : ∀ t ∈ s.returned, Signalled s t

variable {s s' : State J G ι}

/-! ## First come, first served -/

/-- Each worker performs what it is sent in order. -/
theorem Tracked.overtaken [DecidableEq J] {u v : Work J G} (h : Tracked s) (hv : v ∈ s.outstanding)
    (hb : Behind s u v) (hf : v.Finished s) : u.Finished s := by
  intro t ht
  obtain ⟨k, hk⟩ := List.mem_iff_getElem?.1 ht
  obtain ⟨t', hk', hlt⟩ := hb k t hk
  have ht' : t' ∈ v.additions := List.mem_of_getElem? hk'
  obtain ⟨k', hfin⟩ := hf t' ht'
  have hkk : v.additions[k']? = v.additions[k]? := (h.finished_at k' t' hfin v hv ht').trans hk'.symm
  obtain ⟨hk'lt, -⟩ := List.getElem?_eq_some_iff.1 (h.finished_at k' t' hfin v hv ht')
  obtain rfl : k' = k := (List.getElem?_inj hk'lt (h.nodup v hv)).1 hkk
  have hidx : (s.sent k').idxOf t' < (s.finished k').length := by
    rw [State.sent, List.idxOf_append_of_mem hfin]
    exact List.idxOf_lt_length_of_mem hfin
  refine ⟨k', ?_⟩
  by_contra hn
  rw [State.sent, List.idxOf_append_of_notMem hn] at hlt
  rw [State.sent] at hidx
  omega

/-- Of two works each of which comes behind the other one has no additions. -/
theorem behind_asymm [DecidableEq J] {u v : Work J G} (huv : Behind s u v) (hvu : Behind s v u) (hu : u.additions ≠ []) : False := by
  obtain ⟨t, ht⟩ : ∃ t, u.additions[0]? = some t := by
    cases hadd : u.additions with
    | nil => exact absurd hadd hu
    | cons t ts => exact ⟨t, rfl⟩
  obtain ⟨t', ht', hlt⟩ := huv 0 t ht
  obtain ⟨t'', ht'', hlt'⟩ := hvu 0 t' ht'
  obtain rfl : t = t'' := Option.some.inj (ht.symm.trans ht'')
  omega

/-! ## Adding -/

/-- A work that may be added, by task `i`, which goes to `pc`. -/
structure Added [DecidableEq ι] (s s' : State J G ι) (i : ι) (pc : Task J G) (w : Work J G) : Prop where
  idle : s.task i = .idle
  task : s'.task = Function.update s.task i pc
  unsent : pc.unsent = w.additions
  not_wait : ∀ ts, pc ≠ .wait ts
  outstanding : s'.outstanding = s.outstanding ++ [w]
  new : ∀ t ∈ w.additions, t.2 = s.added t.1 + 1 ∧ s'.added t.1 = t.2
  old : ∀ j, (∀ t ∈ w.additions, t.1 ≠ j) → s'.added j = s.added j ∧ s'.job_counter j = s.job_counter j
  nodup : w.additions.Nodup
  once : ∀ u ∈ s.outstanding, u.address ≠ w.address ∧ ∀ t ∈ u.additions, ∀ t' ∈ w.additions, t'.1 ≠ t.1
  job : ∀ t, w.address = .job t → t ∈ w.additions
  adding : pc.Adding s'
  finished : s'.finished = s.finished
  worker : s'.worker = s.worker
  isr_chanends : s'.isr_chanends = s.isr_chanends
  performed : s'.performed = s.performed
  returned : s'.returned = s.returned

theorem Tracked.add [DecidableEq ι] {i : ι} {pc : Task J G} {w : Work J G} (h : Tracked s) (ha : Added s s' i pc w) :
    Tracked s' := by
  have hsig : ∀ t, Signalled s' t ↔ Signalled s t := fun t => by rw [Signalled, ha.finished, Signalled]
  have hpend : s'.pending = s.pending := by
    funext k
    rw [State.pending, ha.worker, ha.isr_chanends, State.pending]
  have hmem : ∀ u, u ∈ s'.outstanding ↔ u ∈ s.outstanding ∨ u = w := fun u => by simp [ha.outstanding]
  -- what is outstanding already is about other jobs
  have hother : ∀ u ∈ s.outstanding, ∀ t ∈ u.additions, t ∉ w.additions ∧ s'.added t.1 = s.added t.1 ∧
      s'.job_counter t.1 = s.job_counter t.1 := by
    intro u hu t ht
    have hne := (ha.once u hu).2 t ht
    exact ⟨fun hw => hne t hw rfl, ha.old t.1 hne⟩
  have hnew : ∀ t ∈ w.additions, ¬ Signalled s t ∧ ∀ k, t ∉ s.pending k := by
    intro t ht
    refine ⟨fun hs => ?_, fun k hk => ?_⟩
    · have := (h.finished t hs).2
      have := (ha.new t ht).1
      omega
    · obtain ⟨-, u, hu, hk, -⟩ := h.pending k t hk
      exact (hother u hu t (List.mem_of_getElem? hk)).1 ht
  have hpc : ∀ i', i' ≠ i → s'.task i' = s.task i' := fun i' hi => by rw [ha.task, Function.update_of_ne hi]
  have hself : s'.task i = pc := by rw [ha.task, Function.update_self]
  -- an unsent addition of another task belongs to what is outstanding
  have hunsent : ∀ i', ∀ t ∈ (s.task i').unsent, ∃ u ∈ s.outstanding, t ∈ u.additions := by
    intro i' t ht
    have hadd := h.adding i'
    cases hi : s.task i' with
    | idle | wait ts => rw [hi] at ht; cases ht
    | job t' =>
      rw [hi] at ht hadd
      obtain ⟨u, hu, -, hu', -⟩ := hadd
      exact ⟨u, hu, by rw [hu']; exact ht⟩
    | group g k ts =>
      rw [hi] at ht hadd
      obtain ⟨u, hu, -, hdrop⟩ := hadd (List.ne_nil_of_mem ht)
      exact ⟨u, hu, List.mem_of_mem_drop (hdrop ▸ ht)⟩
    | send g k t' ts =>
      rw [hi] at ht hadd
      obtain ⟨u, hu, -, hdrop, -⟩ := hadd
      refine ⟨u, hu, List.mem_of_mem_drop (i := k) ?_⟩
      rw [hdrop]
      exact ht
  constructor
  · intro u hu t ht
    rcases (hmem u).1 hu with hu | rfl
    · rw [(hother u hu t ht).2.1]
      exact h.current u hu t ht
    · have := ha.new t ht
      omega
  · intro u hu
    rcases (hmem u).1 hu with hu | rfl
    · exact h.nodup u hu
    · exact ha.nodup
  · intro u hu v hv t htu htv
    rcases (hmem u).1 hu with hu | rfl <;> rcases (hmem v).1 hv with hv | rfl
    · exact h.apart u hu v hv t htu htv
    · exact absurd htv (hother u hu t htu).1
    · exact absurd htu (hother v hv t htv).1
    · rfl
  · intro u hu v hv heq
    rcases (hmem u).1 hu with hu | rfl <;> rcases (hmem v).1 hv with hv | rfl
    · exact h.address u hu v hv heq
    · exact absurd heq (ha.once u hu).1
    · exact absurd heq.symm (ha.once v hv).1
    · rfl
  · intro u hu
    rcases (hmem u).1 hu with hu | rfl
    · exact h.job u hu
    · exact ha.job
  · intro t ht
    obtain ⟨hperf, hle⟩ := h.finished t ((hsig t).1 ht)
    rw [ha.performed]
    refine ⟨hperf, hle.trans ?_⟩
    by_cases hj : ∃ t' ∈ w.additions, t'.1 = t.1
    · obtain ⟨t', ht', heq⟩ := hj
      have := ha.new t' ht'
      rw [heq] at this
      omega
    · exact (ha.old t.1 fun t' ht' heq => hj ⟨t', ht', heq⟩).1.ge
  · intro k t ht u hu htu
    rw [ha.finished] at ht
    rcases (hmem u).1 hu with hu | rfl
    · exact h.finished_at k t ht u hu htu
    · exact absurd ⟨k, ht⟩ (hnew t htu).1
  · rw [ha.worker, ha.performed]
    exact h.hand
  · intro k t ht
    rw [hpend] at ht
    obtain ⟨hns, u, hu, hk, hc⟩ := h.pending k t ht
    refine ⟨fun hs => hns ((hsig t).1 hs), u, (hmem u).2 (.inl hu), hk, ?_⟩
    rw [(hother u hu t (List.mem_of_getElem? hk)).2.2]
    exact hc
  · rw [hpend]
    exact h.pending_nodup
  · intro i' t ht
    rw [hpend]
    simp only [hsig]
    by_cases hi : i' = i
    · subst hi
      rw [hself, ha.unsent] at ht
      refine ⟨(hnew t ht).1, (hnew t ht).2, fun i'' hi'' => ?_⟩
      by_contra hne
      rw [hpc i'' hne] at hi''
      obtain ⟨u, hu, htu⟩ := hunsent i'' t hi''
      exact (hother u hu t htu).1 ht
    · rw [hpc i' hi] at ht
      obtain ⟨h1, h2, h3⟩ := h.unsent i' t ht
      refine ⟨h1, h2, fun i'' hi'' => ?_⟩
      by_cases hi' : i'' = i
      · subst hi'
        rw [hself, ha.unsent] at hi''
        obtain ⟨u, hu, htu⟩ := hunsent i' t ht
        exact absurd hi'' (hother u hu t htu).1
      · rw [hpc i'' hi'] at hi''
        exact h3 i'' hi''
  · intro i'
    by_cases hi : i' = i
    · subst hi
      rw [hself]
      exact ha.adding
    · rw [hpc i' hi]
      have hadd := h.adding i'
      cases hi' : s.task i' with
      | idle | wait ts => trivial
      | job t =>
        rw [hi'] at hadd
        obtain ⟨u, hu, h1, h2, h3⟩ := hadd
        refine ⟨u, (hmem u).2 (.inl hu), h1, h2, ?_⟩
        rw [(hother u hu t (by rw [h2]; exact .head _)).2.2]
        exact h3
      | group g k ts =>
        rw [hi'] at hadd
        intro hne
        obtain ⟨u, hu, h1, h2⟩ := hadd hne
        exact ⟨u, (hmem u).2 (.inl hu), h1, h2⟩
      | send g k t ts =>
        rw [hi'] at hadd
        obtain ⟨u, hu, h1, h2, h3⟩ := hadd
        refine ⟨u, (hmem u).2 (.inl hu), h1, h2, ?_⟩
        rw [(hother u hu t (List.mem_of_mem_drop (h2 ▸ List.mem_cons_self))).2.2]
        exact h3
  · intro j hpos
    simp only [hsig]
    by_cases hj : ∃ t ∈ w.additions, t.1 = j
    · obtain ⟨t, ht, rfl⟩ := hj
      refine .inr ⟨w, (hmem w).2 (.inr rfl), ?_⟩
      rw [(ha.new t ht).2]
      exact ht
    · have hold := (ha.old j fun t ht heq => hj ⟨t, ht, heq⟩).1
      rw [hold] at hpos ⊢
      exact (h.latest j hpos).imp_right fun ⟨u, hu, ht⟩ => ⟨u, (hmem u).2 (.inl hu), ht⟩
  · intro i' ts hw t ht
    simp only [hsig]
    by_cases hi : i' = i
    · subst hi
      rw [hself] at hw
      exact absurd hw (ha.not_wait ts)
    · rw [hpc i' hi] at hw
      exact (h.waits i' ts hw t ht).imp_right fun ⟨u, hu, ht⟩ => ⟨u, (hmem u).2 (.inl hu), ht⟩
  · rw [ha.returned]
    simp only [hsig]
    exact h.returned

theorem tracked_job_add [DecidableEq J] [DecidableEq G] [DecidableEq ι] {jobs : G → List J} {i : ι} {j : J} (h : Tracked s)
    (ho : Once jobs s (.job_add i j)) (hs : dispatcher_job_add s i j = some s') :
    Added s s' i (.job (j, s.added j + 1)) ⟨.job (j, s.added j + 1), [(j, s.added j + 1)]⟩ := by
  unfold dispatcher_job_add at hs
  split at hs
  case h_2 => cases hs
  rename_i hidle
  cases hs
  refine ⟨hidle, rfl, rfl, nofun, rfl, ?_, ?_, List.nodup_singleton _, ?_, ?_, ?_, rfl, rfl, rfl, rfl, rfl⟩
  · intro t ht
    obtain rfl := List.mem_singleton.1 ht
    simp
  · intro j' hj
    have hne : j ≠ j' := hj (j, s.added j + 1) (.head _)
    simp [Function.update_of_ne hne.symm]
  · intro u hu
    refine ⟨fun heq => ?_, fun t ht t' ht' heq => ?_⟩
    · exact ho u hu _ (h.job u hu _ heq) rfl
    · obtain rfl := List.mem_singleton.1 ht'
      exact ho u hu t ht heq.symm
  · rintro t ⟨⟩
    exact .head _
  · refine ⟨_, List.mem_append_right _ (.head _), rfl, rfl, ?_⟩
    simp

theorem tracked_group_add [DecidableEq J] [DecidableEq G] [DecidableEq ι] {jobs : G → List J} {i : ι} {g : G}
    (ho : Once jobs s (.group_add i g)) (hs : dispatcher_group_add jobs s i g = some s') :
    Added s s' i (.group g 0 ((jobs g).map fun j => (j, s.added j + 1)))
      ⟨.group g, (jobs g).map fun j => (j, s.added j + 1)⟩ := by
  unfold dispatcher_group_add at hs
  split at hs
  case h_2 => cases hs
  rename_i hidle
  cases hs
  obtain ⟨hnd, ho⟩ := ho
  refine ⟨hidle, rfl, rfl, nofun, rfl, ?_, ?_, hnd.map fun a b hab => (Prod.mk.inj hab).1, ?_, nofun, ?_, rfl, rfl,
    rfl, rfl, rfl⟩
  · intro t ht
    obtain ⟨j, hj, rfl⟩ := List.mem_map.1 ht
    simp [hj]
  · intro j hj
    have hnot : j ∉ jobs g := fun hmem => hj _ (List.mem_map_of_mem hmem) rfl
    simp [hnot]
  · intro u hu
    obtain ⟨h1, h2⟩ := ho u hu
    refine ⟨h1, fun t ht t' ht' heq => ?_⟩
    obtain ⟨j, hj, rfl⟩ := List.mem_map.1 ht'
    exact h2 t ht (heq ▸ hj)
  · intro _
    exact ⟨_, List.mem_append_right _ (.head _), rfl, rfl⟩

/-! ## The other steps of a task -/

/-- A step that only moves a task which has nothing to send. -/
theorem Tracked.move [DecidableEq ι] {i : ι} {pc : Task J G} (h : Tracked s) (hpc : pc.unsent = [])
    (hadding : pc.Adding s) (hwait : ∀ ts, pc = .wait ts → ∀ t ∈ ts, Signalled s t ∨ ∃ u ∈ s.outstanding, t ∈ u.additions) :
    Tracked { s with task := Function.update s.task i pc } := by
  have hself : Function.update s.task i pc i = pc := Function.update_self ..
  have hother : ∀ i', i' ≠ i → Function.update s.task i pc i' = s.task i' := fun i' hi => Function.update_of_ne hi ..
  have hunsent : ∀ i' t, t ∈ (Function.update s.task i pc i').unsent → i' ≠ i ∧ t ∈ (s.task i').unsent := by
    intro i' t ht
    by_cases hi : i' = i
    · subst hi
      rw [hself, hpc] at ht
      cases ht
    · rw [hother i' hi] at ht
      exact ⟨hi, ht⟩
  refine { h with unsent := ?_, adding := ?_, waits := ?_ }
  · intro i' t ht
    obtain ⟨h1, h2, h3⟩ := h.unsent i' t (hunsent i' t ht).2
    exact ⟨h1, h2, fun i'' hi'' => h3 i'' (hunsent i'' t hi'').2⟩
  · intro i'
    by_cases hi : i' = i
    · subst hi
      dsimp only
      rw [hself]
      exact hadding
    · dsimp only
      rw [hother i' hi]
      exact h.adding i'
  · intro i' ts hw
    by_cases hi : i' = i
    · subst hi
      exact hwait ts (hself.symm.trans hw)
    · exact h.waits i' ts ((hother i' hi).symm.trans hw)

/-- `dispatcher_group_add` gives the next job its counter. -/
theorem Tracked.assign [DecidableEq J] [DecidableEq ι] {i : ι} {g : G} {k : Nat} {t : J × Nat} {ts : List (J × Nat)}
    (h : Tracked s) (hi : s.task i = .group g k (t :: ts)) :
    Tracked { s with
      job_counter := Function.update s.job_counter t.1 (some (.group g))
      task := Function.update s.task i (.send g k t ts) } := by
  have hself : Function.update s.task i (.send g k t ts) i = .send g k t ts := Function.update_self ..
  have hother : ∀ i', i' ≠ i → Function.update s.task i (.send g k t ts) i' = s.task i' := fun i' hi => Function.update_of_ne hi ..
  have hadd := h.adding i
  rw [hi] at hadd
  obtain ⟨u, hu, haddr, hdrop⟩ := hadd (List.cons_ne_nil _ _)
  have htu : t ∈ u.additions := List.mem_of_mem_drop (hdrop ▸ List.mem_cons_self)
  have ht := h.unsent i t (by rw [hi]; exact .head _)
  have hunsent : ∀ i', (Function.update s.task i (.send g k t ts) i').unsent = (s.task i').unsent := by
    intro i'
    by_cases hi' : i' = i
    · subst hi'
      rw [hself, hi]
      rfl
    · rw [hother i' hi']
  -- the job's other additions are not outstanding
  have hsame : ∀ v ∈ s.outstanding, ∀ t' ∈ v.additions, t'.1 = t.1 → t' = t := by
    intro v hv t' ht' heq
    have h1 := (h.current v hv t' ht').2
    have h2 := (h.current u hu t htu).2
    rw [heq] at h1
    exact Prod.ext heq (h1.trans h2.symm)
  have hcounter : ∀ v ∈ s.outstanding, ∀ t' ∈ v.additions, t' ≠ t →
      Function.update s.job_counter t.1 (some (.group g)) t'.1 = s.job_counter t'.1 := fun v hv t' ht' hne =>
    Function.update_of_ne (fun heq => hne (hsame v hv t' ht' heq)) ..
  refine { h with pending := ?_, unsent := ?_, adding := ?_, waits := ?_ }
  · intro k' t' ht'
    obtain ⟨hns, v, hv, hk', hc⟩ := h.pending k' t' ht'
    have hne : t' ≠ t := by rintro rfl; exact ht.2.1 k' ht'
    refine ⟨hns, v, hv, hk', ?_⟩
    dsimp only
    rw [hcounter v hv t' (List.mem_of_getElem? hk') hne]
    exact hc
  · intro i' t' ht'
    dsimp only at ht' ⊢
    simp only [hunsent] at ht' ⊢
    exact h.unsent i' t' ht'
  · intro i'
    dsimp only
    by_cases hi' : i' = i
    · subst hi'
      rw [hself]
      refine ⟨u, hu, haddr, hdrop, ?_⟩
      dsimp only
      rw [Function.update_self, haddr]
    · rw [hother i' hi']
      have hne : ∀ t', t' ∈ (s.task i').unsent → t' ≠ t := by
        rintro t' ht' rfl
        exact hi' (ht.2.2 i' ht')
      have hadd := h.adding i'
      cases hpc : s.task i' with
      | idle | wait ts => trivial
      | group g' k' ts' => rw [hpc] at hadd; exact hadd
      | job t' =>
        rw [hpc] at hadd hne
        obtain ⟨v, hv, h1, h2, h3⟩ := hadd
        refine ⟨v, hv, h1, h2, ?_⟩
        dsimp only
        rw [hcounter v hv t' (by rw [h2]; exact .head _) (hne t' (.head _))]
        exact h3
      | send g' k' t' ts' =>
        rw [hpc] at hadd hne
        obtain ⟨v, hv, h1, h2, h3⟩ := hadd
        refine ⟨v, hv, h1, h2, ?_⟩
        dsimp only
        rw [hcounter v hv t' (List.mem_of_mem_drop (h2 ▸ List.mem_cons_self)) (hne t' (.head _))]
        exact h3
  · intro i' ts' hw
    by_cases hi' : i' = i
    · subst hi'
      cases hself.symm.trans hw
    · exact h.waits i' ts' ((hother i' hi').symm.trans hw)

/-- A task sends its next addition to the worker it is for. -/
theorem Tracked.send [DecidableEq ι] {i : ι} {k : Nat} {t : J × Nat} {u : Work J G} (h : Tracked s)
    (pc : Task J G) (hunsent : (s.task i).unsent = t :: pc.unsent) (hnd : t ∉ pc.unsent) (hu : u ∈ s.outstanding)
    (hk : u.additions[k]? = some t) (hc : s.job_counter t.1 = some u.address) (hadding : pc.Adding s)
    (hwait : ∀ ts, pc ≠ .wait ts) :
    Tracked { s with
      isr_chanends := Function.update s.isr_chanends k (s.isr_chanends k ++ [t])
      task := Function.update s.task i pc } := by
  have hself : Function.update s.task i pc i = pc := Function.update_self ..
  have hother : ∀ i', i' ≠ i → Function.update s.task i pc i' = s.task i' := fun i' hi => Function.update_of_ne hi ..
  obtain ⟨hns, hnp, hown⟩ := h.unsent i t (by rw [hunsent]; exact .head _)
  generalize hs' : ({ s with
      isr_chanends := Function.update s.isr_chanends k (s.isr_chanends k ++ [t])
      task := Function.update s.task i pc } : State J G ι) = s'
  have hpend : ∀ k', s'.pending k' = if k' = k then s.pending k ++ [t] else s.pending k' := by
    intro k'
    rw [← hs']
    by_cases hkk : k' = k
    · subst hkk
      simp [State.pending]
    · simp [State.pending, hkk]
  have hmem : ∀ k' t', t' ∈ s'.pending k' → t' ∈ s.pending k' ∨ k' = k ∧ t' = t := by
    intro k' t' ht'
    rw [hpend] at ht'
    split at ht'
    · rename_i hkk
      subst hkk
      rcases List.mem_append.1 ht' with ht' | ht'
      · exact .inl ht'
      · exact .inr ⟨rfl, List.mem_singleton.1 ht'⟩
    · exact .inl ht'
  subst hs'
  refine { h with pending := ?_, pending_nodup := ?_, unsent := ?_, adding := ?_, waits := ?_ }
  · intro k' t' ht'
    rcases hmem k' t' ht' with ht' | ⟨rfl, rfl⟩
    · exact h.pending k' t' ht'
    · exact ⟨hns, u, hu, hk, hc⟩
  · intro k'
    rw [hpend]
    split
    · exact (h.pending_nodup k).append (List.nodup_singleton _) (by simpa using hnp k)
    · exact h.pending_nodup k'
  · intro i' t' ht'
    dsimp only at ht' ⊢
    have hold : t' ≠ t ∧ t' ∈ (s.task i').unsent := by
      by_cases hi : i' = i
      · subst hi
        rw [hself] at ht'
        exact ⟨by rintro rfl; exact hnd ht', by rw [hunsent]; exact .tail _ ht'⟩
      · rw [hother i' hi] at ht'
        refine ⟨?_, ht'⟩
        rintro rfl
        exact hi (hown i' ht')
    obtain ⟨h1, h2, h3⟩ := h.unsent i' t' hold.2
    refine ⟨h1, fun k' hk' => ?_, fun i'' hi'' => ?_⟩
    · rcases hmem k' t' hk' with hk' | ⟨-, heq⟩
      · exact h2 k' hk'
      · exact hold.1 heq
    · by_cases hi : i'' = i
      · subst hi
        rw [hself] at hi''
        exact h3 i'' (by rw [hunsent]; exact .tail _ hi'')
      · rw [hother i'' hi] at hi''
        exact h3 i'' hi''
  · intro i'
    dsimp only
    by_cases hi : i' = i
    · subst hi
      rw [hself]
      exact hadding
    · rw [hother i' hi]
      exact h.adding i'
  · intro i' ts hw
    by_cases hi : i' = i
    · subst hi
      exact absurd (hself.symm.trans hw) (hwait ts)
    · exact h.waits i' ts ((hother i' hi).symm.trans hw)

/-- A wait returns, and what it was for is finished. -/
theorem Tracked.retire [DecidableEq ι] {i : ι} {ts : List (J × Nat)} {p : Work J G → Bool} (h : Tracked s) (chanend : Nat)
    (hp : ∀ u ∈ s.outstanding, p u = false → u.Finished s) (hts : ∀ t ∈ ts, Signalled s t) :
    Tracked { s with
      chanend
      outstanding := s.outstanding.filter p
      returned := s.returned ++ ts
      task := Function.update s.task i .idle } := by
  have hmem : ∀ u, u ∈ s.outstanding.filter p → u ∈ s.outstanding := fun u hu => (List.mem_filter.1 hu).1
  -- an addition that is not finished keeps its work outstanding
  have hkeep : ∀ u ∈ s.outstanding, ∀ t ∈ u.additions, ¬ Signalled s t → u ∈ s.outstanding.filter p := by
    intro u hu t ht hns
    refine List.mem_filter.2 ⟨hu, ?_⟩
    by_contra hf
    exact hns (hp u hu (by simpa using hf) t ht)
  have hstill : ∀ t, (Signalled s t ∨ ∃ u ∈ s.outstanding, t ∈ u.additions) →
      Signalled s t ∨ ∃ u ∈ s.outstanding.filter p, t ∈ u.additions := by
    intro t ht
    by_cases hns : Signalled s t
    · exact .inl hns
    · obtain ⟨u, hu, htu⟩ := ht.resolve_left hns
      exact .inr ⟨u, hkeep u hu t htu hns, htu⟩
  have hbase : Tracked { s with
      chanend
      outstanding := s.outstanding.filter p
      returned := s.returned ++ ts } := by
    constructor
    · exact fun u hu => h.current u (hmem u hu)
    · exact fun u hu => h.nodup u (hmem u hu)
    · exact fun u hu v hv => h.apart u (hmem u hu) v (hmem v hv)
    · exact fun u hu v hv => h.address u (hmem u hu) v (hmem v hv)
    · exact fun u hu => h.job u (hmem u hu)
    · exact h.finished
    · exact fun k t ht u hu => h.finished_at k t ht u (hmem u hu)
    · exact h.hand
    · intro k t ht
      obtain ⟨hns, u, hu, hk, hc⟩ := h.pending k t ht
      exact ⟨hns, u, hkeep u hu t (List.mem_of_getElem? hk) hns, hk, hc⟩
    · exact h.pending_nodup
    · exact h.unsent
    · intro i'
      have hadd := h.adding i'
      have hns := fun t ht => (h.unsent i' t ht).1
      dsimp only
      cases hpc : s.task i' with
      | idle | wait ts => trivial
      | job t =>
        rw [hpc] at hadd hns
        obtain ⟨u, hu, h1, h2, h3⟩ := hadd
        exact ⟨u, hkeep u hu t (by rw [h2]; exact .head _) (hns t (.head _)), h1, h2, h3⟩
      | group g k ts =>
        rw [hpc] at hadd hns
        intro hne
        obtain ⟨u, hu, h1, h2⟩ := hadd hne
        obtain ⟨t, ht⟩ := List.exists_mem_of_ne_nil _ hne
        exact ⟨u, hkeep u hu t (List.mem_of_mem_drop (h2 ▸ ht)) (hns t ht), h1, h2⟩
      | send g k t ts =>
        rw [hpc] at hadd hns
        obtain ⟨u, hu, h1, h2, h3⟩ := hadd
        exact ⟨u, hkeep u hu t (List.mem_of_mem_drop (h2 ▸ List.mem_cons_self)) (hns t (.head _)), h1, h2, h3⟩
    · exact fun j hpos => hstill _ (h.latest j hpos)
    · exact fun i' ts hw t ht => hstill t (h.waits i' ts hw t ht)
    · intro t ht
      rcases List.mem_append.1 ht with ht | ht
      · exact h.returned t ht
      · exact hts t ht
  exact hbase.move rfl trivial nofun

/-! ## The steps of a worker -/

/-- A step of a worker that leaves its pending additions as they are. -/
theorem Tracked.work {k : Nat} (h : Tracked s) (hfin : s'.finished = s.finished) (hpend : s'.pending = s.pending)
    (hout : s'.outstanding = s.outstanding) (htask : s'.task = s.task) (hadded : s'.added = s.added)
    (hcounter : s'.job_counter = s.job_counter) (hret : s'.returned = s.returned)
    (hperf : ∀ t ∈ s.performed, t ∈ s'.performed) (hother : ∀ k', k' ≠ k → s'.worker k' = s.worker k')
    (hhand : ∀ t, s'.worker k = .signal t → t ∈ s'.performed) : Tracked s' := by
  have hsig : ∀ t, Signalled s' t ↔ Signalled s t := fun t => by rw [Signalled, hfin, Signalled]
  constructor
  · rw [hout, hadded]; exact h.current
  · rw [hout]; exact h.nodup
  · rw [hout]; exact h.apart
  · rw [hout]; exact h.address
  · rw [hout]; exact h.job
  · intro t ht
    obtain ⟨h1, h2⟩ := h.finished t ((hsig t).1 ht)
    rw [hadded]
    exact ⟨hperf t h1, h2⟩
  · rw [hout, hfin]; exact h.finished_at
  · intro k' t hk'
    by_cases hkk : k' = k
    · exact hhand t (hkk ▸ hk')
    · rw [hother k' hkk] at hk'
      exact hperf t (h.hand k' t hk')
  · rw [hpend, hout, hcounter]; simp only [hsig]; exact h.pending
  · rw [hpend]; exact h.pending_nodup
  · rw [htask, hpend]; simp only [hsig]; exact h.unsent
  · intro i
    have hadd := h.adding i
    rw [htask]
    cases hpc : s.task i with
    | idle | wait ts => trivial
    | job t => rw [hpc] at hadd; simpa only [Task.Adding, hout, hcounter] using hadd
    | group g k ts => rw [hpc] at hadd; simpa only [Task.Adding, hout] using hadd
    | send g k t ts => rw [hpc] at hadd; simpa only [Task.Adding, hout, hcounter] using hadd
  · rw [hadded, hout]; simp only [hsig]; exact h.latest
  · rw [htask, hout]; simp only [hsig]; exact h.waits
  · rw [hret]; simp only [hsig]; exact h.returned

theorem signalled_update {k : Nat} {t t' : J × Nat}
    (hf : s'.finished = Function.update s.finished k (s.finished k ++ [t])) :
    Signalled s' t' ↔ Signalled s t' ∨ t' = t := by
  rw [Signalled, hf]
  constructor
  · rintro ⟨k', hk'⟩
    by_cases hkk : k' = k
    · subst hkk
      rw [Function.update_self] at hk'
      rcases List.mem_append.1 hk' with hk' | hk'
      · exact .inl ⟨k', hk'⟩
      · exact .inr (List.mem_singleton.1 hk')
    · rw [Function.update_of_ne hkk] at hk'
      exact .inl ⟨k', hk'⟩
  · rintro (⟨k', hk'⟩ | rfl)
    · refine ⟨k', ?_⟩
      by_cases hkk : k' = k
      · subst hkk
        rw [Function.update_self]
        exact List.mem_append_left _ hk'
      · rw [Function.update_of_ne hkk]
        exact hk'
    · exact ⟨k, by simp⟩

/-- A worker signals; its addition is finished. -/
theorem Tracked.signal {k : Nat} {t : J × Nat} {pc : Worker J} {counters : Address J G → EventCounter} (h : Tracked s)
    (hk : s.worker k = .signal t) (hpc : pc.hand = []) (hns : ∀ t, pc ≠ .signal t) :
    Tracked { s with
      counters
      finished := Function.update s.finished k (s.finished k ++ [t])
      worker := Function.update s.worker k pc } := by
  have hpend : s.pending k = t :: s.isr_chanends k := by rw [State.pending, hk]; rfl
  have hin : t ∈ s.pending k := by rw [hpend]; exact .head _
  obtain ⟨-, u, hu, htu, -⟩ := h.pending k t hin
  have hmemu : t ∈ u.additions := List.mem_of_getElem? htu
  have hnd := h.pending_nodup k
  rw [hpend] at hnd
  generalize hs' : ({ s with
      counters
      finished := Function.update s.finished k (s.finished k ++ [t])
      worker := Function.update s.worker k pc } : State J G ι) = s'
  have hsig : ∀ t', Signalled s' t' ↔ Signalled s t' ∨ t' = t := fun t' => signalled_update (by rw [← hs'])
  have hsub : ∀ k' t', t' ∈ s'.pending k' → t' ∈ s.pending k' ∧ t' ≠ t := by
    intro k' t' ht'
    rw [← hs'] at ht'
    by_cases hkk : k' = k
    · subst hkk
      have ht'' : t' ∈ s.isr_chanends k' := by simpa [State.pending, hpc] using ht'
      exact ⟨by rw [hpend]; exact .tail _ ht'', by rintro rfl; exact (List.nodup_cons.1 hnd).1 ht''⟩
    · have ht'' : t' ∈ s.pending k' := by simpa [State.pending, hkk] using ht'
      refine ⟨ht'', ?_⟩
      rintro rfl
      -- an addition is for one worker
      obtain ⟨-, v, hv, hv', -⟩ := h.pending k' t' ht''
      obtain rfl := h.apart u hu v hv t' hmemu (List.mem_of_getElem? hv')
      obtain ⟨hlt, -⟩ := List.getElem?_eq_some_iff.1 hv'
      exact hkk ((List.getElem?_inj hlt (h.nodup u hu)).1 (hv'.trans htu.symm))
  have hpnd : ∀ k', (s'.pending k').Nodup := by
    intro k'
    rw [← hs']
    by_cases hkk : k' = k
    · subst hkk
      simpa [State.pending, hpc] using (List.nodup_cons.1 hnd).2
    · simpa [State.pending, hkk] using h.pending_nodup k'
  have hstill : ∀ t', (Signalled s t' ∨ ∃ u ∈ s.outstanding, t' ∈ u.additions) →
      Signalled s' t' ∨ ∃ u ∈ s.outstanding, t' ∈ u.additions := fun t' => Or.imp_left fun hs => (hsig t').2 (.inl hs)
  have hnot : ∀ i, ∀ t' ∈ (s.task i).unsent, t' ≠ t := by
    rintro i t' ht' rfl
    exact (h.unsent i t' ht').2.1 k hin
  subst hs'
  refine { h with finished := ?_, finished_at := ?_, hand := ?_, pending := ?_, pending_nodup := hpnd, unsent := ?_,
                  latest := ?_, waits := ?_, returned := ?_ }
  · intro t' ht'
    rcases (hsig t').1 ht' with ht' | rfl
    · exact h.finished t' ht'
    · exact ⟨h.hand k t' hk, (h.current u hu t' hmemu).2.le⟩
  · intro k' t' ht' v hv htv
    dsimp only at ht'
    by_cases hkk : k' = k
    · subst hkk
      rw [Function.update_self] at ht'
      rcases List.mem_append.1 ht' with ht' | ht'
      · exact h.finished_at k' t' ht' v hv htv
      · obtain rfl := List.mem_singleton.1 ht'
        obtain rfl := h.apart u hu v hv t' hmemu htv
        exact htu
    · rw [Function.update_of_ne hkk] at ht'
      exact h.finished_at k' t' ht' v hv htv
  · intro k' t' hk'
    dsimp only at hk'
    by_cases hkk : k' = k
    · subst hkk
      rw [Function.update_self] at hk'
      exact absurd hk' (hns t')
    · rw [Function.update_of_ne hkk] at hk'
      exact h.hand k' t' hk'
  · intro k' t' ht'
    obtain ⟨ht', hne⟩ := hsub k' t' ht'
    obtain ⟨h1, h2⟩ := h.pending k' t' ht'
    exact ⟨fun hs => ((hsig t').1 hs).elim h1 hne, h2⟩
  · intro i t' ht'
    obtain ⟨h1, h2, h3⟩ := h.unsent i t' ht'
    exact ⟨fun hs => ((hsig t').1 hs).elim h1 (hnot i t' ht'), fun k' hk' => h2 k' (hsub k' t' hk').1, h3⟩
  · exact fun j hpos => hstill _ (h.latest j hpos)
  · exact fun i ts hw t' ht' => hstill t' (h.waits i ts hw t' ht')
  · exact fun t' ht' => (hsig t').2 (.inl (h.returned t' ht'))

end Isr
end Dispatcher
