import XcoreSdk.Dispatcher.IsrTracked
import Mathlib.Data.Finset.Card
/-!
# What an end token is worth

There are never more end tokens, sent or about to be, than jobs and groups that
are outstanding and finished. So whoever takes a token knows that something
outstanding is finished; when everything else outstanding comes behind, what it
waits for is finished.
-/

namespace Dispatcher
namespace Isr
variable {J G ι : Type*}

/-- The workers that are about to send an end token. -/
def State.signalling [DecidableEq J] (s : State J G ι) (worker_count : Nat) : Finset Nat :=
  (Finset.range worker_count).filter fun k => s.worker k = .token

/-- The counters count what is left, and every token stands for something finished. -/
structure Counted [DecidableEq J] (jobs : G → List J) (worker_count : Nat) (s : State J G ι) : Prop where
  count : ∀ u ∈ s.outstanding, ∃ ts : List (J × Nat), ts.Nodup ∧ (∀ t, t ∈ ts ↔ t ∈ u.additions ∧ ¬ Signalled s t) ∧
    (s.counters u.address).count = ts.length
  tokens : ∃ us : List (Work J G), us.Nodup ∧ (∀ u ∈ us, u ∈ s.outstanding ∧ u.additions ≠ [] ∧ u.Finished s) ∧
    s.chanend + (s.signalling worker_count).card ≤ us.length
  added : ∀ j, s.job_counter j ≠ none → 0 < s.added j
  group_added : ∀ g, s.group_counter g = true → ∀ j ∈ jobs g, 0 < s.added j

variable {jobs : G → List J} {worker_count : Nat} {s s' : State J G ι}

/-! ## Counters and tokens -/

section Counts
variable [DecidableEq J]

/-- A step that changes no counter of what is outstanding, and no token. -/
theorem Counted.frame (h : Counted jobs worker_count s) (hcount : s'.counters = s.counters)
    (hout : s'.outstanding = s.outstanding) (hfin : s'.finished = s.finished) (hchan : s'.chanend = s.chanend)
    (hsig : s'.signalling worker_count = s.signalling worker_count) (hjob : s'.job_counter = s.job_counter)
    (hgroup : s'.group_counter = s.group_counter) (hadded : s'.added = s.added) : Counted jobs worker_count s' := by
  have hs : ∀ t, Signalled s' t ↔ Signalled s t := fun t => by rw [Signalled, hfin, Signalled]
  refine ⟨?_, ?_, by rw [hjob, hadded]; exact h.added, by rw [hgroup, hadded]; exact h.group_added⟩
  · rw [hout, hcount]; simp only [hs]; exact h.count
  · simp only [hout, hchan, hsig, Work.Finished, hs]; exact h.tokens

theorem Counted.add [DecidableEq ι] {i : ι} {pc : Task J G} {w : Work J G} (h : Counted jobs worker_count s)
    (ht : Tracked s) (ha : Added s s' i pc w) (hself : (s'.counters w.address).count = w.additions.length)
    (hother : ∀ c, c ≠ w.address → s'.counters c = s.counters c) (hchan : s'.chanend = s.chanend)
    (hgroup : ∀ g, s'.group_counter g = true → s.group_counter g = true ∨ ∀ j ∈ jobs g, ∃ t ∈ w.additions, t.1 = j) :
    Counted jobs worker_count s' := by
  have hs : ∀ t, Signalled s' t ↔ Signalled s t := fun t => by rw [Signalled, ha.finished, Signalled]
  have hmem : ∀ u, u ∈ s'.outstanding ↔ u ∈ s.outstanding ∨ u = w := fun u => by simp [ha.outstanding]
  have hsig : s'.signalling worker_count = s.signalling worker_count := by
    rw [State.signalling, ha.worker, State.signalling]
  have hpos : ∀ j, 0 < s.added j ∨ (∃ t ∈ w.additions, t.1 = j) → 0 < s'.added j := by
    intro j hj
    by_cases hw : ∃ t ∈ w.additions, t.1 = j
    · obtain ⟨t, ht, rfl⟩ := hw
      have := ha.new t ht
      omega
    · rw [(ha.old j fun t ht heq => hw ⟨t, ht, heq⟩).1]
      exact hj.resolve_right hw
  constructor
  · intro u hu
    rcases (hmem u).1 hu with hu | rfl
    · rw [hother _ (ha.once u hu).1]
      simp only [hs]
      exact h.count u hu
    · refine ⟨u.additions, ha.nodup, fun t => ?_, hself⟩
      rw [hs]
      refine ⟨fun htu => ⟨htu, fun hst => ?_⟩, And.left⟩
      have := (ht.finished t hst).2
      have := (ha.new t htu).1
      omega
  · obtain ⟨us, hnd, hus, hle⟩ := h.tokens
    refine ⟨us, hnd, fun u hu => ?_, by rw [hchan, hsig]; exact hle⟩
    obtain ⟨h1, h2, h3⟩ := hus u hu
    exact ⟨(hmem u).2 (.inl h1), h2, fun t ht => (hs t).2 (h3 t ht)⟩
  · intro j hj
    apply hpos
    by_cases hw : ∃ t ∈ w.additions, t.1 = j
    · exact .inr hw
    · rw [(ha.old j fun t ht heq => hw ⟨t, ht, heq⟩).2] at hj
      exact .inl (h.added j hj)
  · intro g hg j hj
    apply hpos
    rcases hgroup g hg with hold | hnew
    · exact .inl (h.group_added g hold j hj)
    · exact .inr (hnew j hj)

/-- The worker that a signal concerns goes on; whether it owes a token is all that matters. -/
theorem signalling_update {k : Nat} {pc : Worker J} {f : State J G ι} (hf : f.worker = Function.update s.worker k pc)
    (hk : k < worker_count) (hold : s.worker k ≠ .token) (hnew : pc ≠ .token) :
    f.signalling worker_count = s.signalling worker_count := by
  ext k'
  simp only [State.signalling, Finset.mem_filter, Finset.mem_range, hf]
  by_cases hkk : k' = k
  · subst hkk
    simp [hold, hnew]
  · rw [Function.update_of_ne hkk]

theorem signalling_insert {k : Nat} {f : State J G ι} (hf : f.worker = Function.update s.worker k .token)
    (hk : k < worker_count) (hold : s.worker k ≠ .token) :
    (f.signalling worker_count).card = (s.signalling worker_count).card + 1 := by
  have hnot : k ∉ s.signalling worker_count := by simp [State.signalling, hold]
  rw [← Finset.card_insert_of_notMem hnot]
  congr 1
  ext k'
  simp only [State.signalling, Finset.mem_filter, Finset.mem_range, Finset.mem_insert, hf]
  by_cases hkk : k' = k
  · subst hkk
    simp [hk]
  · rw [Function.update_of_ne hkk]
    simp [hkk]

theorem signalling_erase {k : Nat} {f : State J G ι} (hf : f.worker = Function.update s.worker k .idle)
    (hk : k < worker_count) (hold : s.worker k = .token) :
    (f.signalling worker_count).card + 1 = (s.signalling worker_count).card := by
  have hin : k ∈ s.signalling worker_count := by simp [State.signalling, hk, hold]
  rw [← Finset.card_erase_add_one hin]
  congr 2
  ext k'
  simp only [State.signalling, Finset.mem_filter, Finset.mem_range, Finset.mem_erase, hf]
  by_cases hkk : k' = k
  · subst hkk
    simp
  · rw [Function.update_of_ne hkk]
    simp [hkk]

/-- A worker signals the counter of the work its addition belongs to. -/
theorem Counted.signal [DecidableEq G] {k : Nat} {t : J × Nat} {c : Address J G} (h : Counted jobs worker_count s) (ht : Tracked s)
    (hlt : k < worker_count) (hk : s.worker k = .signal t) (hc : s.job_counter t.1 = some c) :
    Counted jobs worker_count { s with
      counters := Function.update s.counters c (event_counter_signal (s.counters c)).1
      finished := Function.update s.finished k (s.finished k ++ [t])
      worker := Function.update s.worker k (if (event_counter_signal (s.counters c)).2 then .token else .idle) } := by
  have hpend : s.pending k = t :: s.isr_chanends k := by rw [State.pending, hk]; rfl
  obtain ⟨hns, u, hu, htu, hcu⟩ := ht.pending k t (by rw [hpend]; exact .head _)
  obtain rfl : c = u.address := Option.some.inj (hc.symm.trans hcu)
  have hmemu : t ∈ u.additions := List.mem_of_getElem? htu
  obtain ⟨ts, hnd, hts, hcount⟩ := h.count u hu
  have htts : t ∈ ts := (hts t).2 ⟨hmemu, hns⟩
  have hpos : 0 < ts.length := List.length_pos_of_mem htts
  have hlen : (ts.erase t).length = ts.length - 1 := List.length_erase_of_mem htts
  have hsigc : event_counter_signal (s.counters u.address) =
      ({ s.counters u.address with count := ts.length - 1 }, decide (ts.length - 1 = 0)) := by
    simp [event_counter_signal, hcount, hpos]
  have hnt : s.worker k ≠ .token := by simp [hk]
  rw [hsigc]
  generalize hs' : ({ s with
      counters := Function.update s.counters u.address { s.counters u.address with count := ts.length - 1 }
      finished := Function.update s.finished k (s.finished k ++ [t])
      worker := Function.update s.worker k (if decide (ts.length - 1 = 0) = true then .token else .idle) } : State J G ι) = s'
  have hsig : ∀ t', Signalled s' t' ↔ Signalled s t' ∨ t' = t := by
    intro t'
    exact signalled_update (by rw [← hs'])
  have hremain : ∀ t', t' ∈ ts.erase t ↔ t' ∈ u.additions ∧ ¬ Signalled s' t' := by
    intro t'
    rw [hnd.mem_erase_iff, hts, hsig]
    tauto
  have hout : s'.outstanding = s.outstanding := by rw [← hs']
  have hworker : s'.worker = Function.update s.worker k (if decide (ts.length - 1 = 0) = true then .token else .idle) := by
    rw [← hs']
  constructor
  · intro v hv
    rw [hout] at hv
    by_cases hvu : v = u
    · subst hvu
      refine ⟨ts.erase t, hnd.erase t, hremain, ?_⟩
      rw [hlen, ← hs']
      simp
    · obtain ⟨ts', hnd', hts', hcount'⟩ := h.count v hv
      refine ⟨ts', hnd', fun t' => ?_, ?_⟩
      · rw [hts', hsig]
        refine and_congr_right fun htv => ?_
        have hne : t' ≠ t := by
          rintro rfl
          exact hvu (ht.apart v hv u hu t' htv hmemu)
        simp [hne]
      · have hne : v.address ≠ u.address := fun heq => hvu (ht.address v hv u hu heq)
        rw [← hs']
        dsimp only
        rw [Function.update_of_ne hne]
        exact hcount'
  · obtain ⟨us, husnd, hus, hle⟩ := h.tokens
    have hchan : s'.chanend = s.chanend := by rw [← hs']
    have hold : ∀ v ∈ us, v ∈ s'.outstanding ∧ v.additions ≠ [] ∧ v.Finished s' := by
      intro v hv
      obtain ⟨h1, h2, h3⟩ := hus v hv
      exact ⟨hout ▸ h1, h2, fun t' ht' => (hsig t').2 (.inl (h3 t' ht'))⟩
    by_cases hzero : ts.length - 1 = 0
    · -- the last one: `u` is finished now, and was not before
      have hu' : u ∉ us := fun hin => hns ((hus u hin).2.2 t hmemu)
      have hempty : ts.erase t = [] := List.eq_nil_of_length_eq_zero (hlen.trans hzero)
      refine ⟨u :: us, List.nodup_cons.2 ⟨hu', husnd⟩, ?_, ?_⟩
      · intro v hv
        rcases List.mem_cons.1 hv with rfl | hv
        · refine ⟨hout ▸ hu, List.ne_nil_of_mem hmemu, fun t' ht' => ?_⟩
          by_contra hn
          have := (hremain t').2 ⟨ht', hn⟩
          rw [hempty] at this
          cases this
        · exact hold v hv
      · rw [signalling_insert (by rw [hworker]; simp [hzero]) hlt hnt, hchan]
        simp only [List.length_cons]
        omega
    · refine ⟨us, husnd, hold, ?_⟩
      rw [signalling_update (s := s) hworker hlt hnt (by simp [hzero]), hchan]
      exact hle
  · rw [← hs']; exact h.added
  · rw [← hs']; exact h.group_added

/-- The end token is sent. -/
theorem Counted.token {k : Nat} (h : Counted jobs worker_count s) (hlt : k < worker_count) (hk : s.worker k = .token) :
    Counted jobs worker_count { s with chanend := s.chanend + 1, worker := Function.update s.worker k .idle } := by
  refine { h with tokens := ?_ }
  obtain ⟨us, hnd, hus, hle⟩ := h.tokens
  refine ⟨us, hnd, hus, ?_⟩
  have hcard := signalling_erase (s := s)
    (f := { s with chanend := s.chanend + 1, worker := Function.update s.worker k .idle }) rfl hlt hk
  dsimp only
  omega

/-- A wait in turn finds finished what it waits for. -/
theorem wait_finished {i : ι} {ts : List (J × Nat)} (h : Tracked s) (hc : Counted jobs worker_count s)
    (hturn : InTurn s (.task i)) (hi : s.task i = .wait ts) (hchan : 0 < s.chanend) :
    ∀ u ∈ s.outstanding, (∃ t ∈ ts, t ∈ u.additions) → u.Finished s := by
  intro u hu hts
  obtain ⟨us, -, hus, hle⟩ := hc.tokens
  obtain ⟨v, hv⟩ : ∃ v, v ∈ us := List.exists_mem_of_length_pos (by omega)
  obtain ⟨h1, -, h3⟩ := hus v hv
  by_cases hvu : v = u
  · exact hvu ▸ h3
  · exact h.overtaken h1 (hturn ts hi u hu hts v h1 hvu) h3

theorem length_le_one {α : Type*} {l : List α} (hnd : l.Nodup) (h : ∀ a ∈ l, ∀ b ∈ l, a = b) : l.length ≤ 1 := by
  cases l with
  | nil => exact Nat.zero_le 1
  | cons a l =>
    cases l with
    | nil => exact Nat.le_refl 1
    | cons b l => exact absurd (h a (.head _) b (.tail _ (.head _))) (List.ne_of_not_mem_cons (List.nodup_cons.1 hnd).1)

/-- The token that a wait takes stood for one of the works. -/
theorem Counted.retire [DecidableEq ι] {i : ι} {ts : List (J × Nat)} {chanend : Nat} (h : Counted jobs worker_count s)
    (hturn : InTurn s (.task i)) (hi : s.task i = .wait ts) (hchan : s.chanend = chanend + 1) :
    Counted jobs worker_count { s with
      chanend
      outstanding := s.outstanding.filter fun u => ∀ t ∈ ts, t ∉ u.additions
      returned := s.returned ++ ts
      task := Function.update s.task i .idle } := by
  have hmem : ∀ u, u ∈ s.outstanding.filter (fun u => ∀ t ∈ ts, t ∉ u.additions) → u ∈ s.outstanding :=
    fun u hu => (List.mem_filter.1 hu).1
  refine { h with count := fun u hu => h.count u (hmem u hu), tokens := ?_ }
  obtain ⟨us, hnd, hus, hle⟩ := h.tokens
  refine ⟨us.filter fun u => ∀ t ∈ ts, t ∉ u.additions, hnd.filter _, ?_, ?_⟩
  · intro u hu
    obtain ⟨hin, hp⟩ := List.mem_filter.1 hu
    obtain ⟨h1, h2, h3⟩ := hus u hin
    exact ⟨List.mem_filter.2 ⟨h1, hp⟩, h2, h3⟩
  · -- two works with an addition waited for would come one behind the other
    have hone : (us.filter fun u => ! decide (∀ t ∈ ts, t ∉ u.additions)).length ≤ 1 := by
      apply length_le_one (hnd.filter _)
      intro u hu v hv
      obtain ⟨huin, hup⟩ := List.mem_filter.1 hu
      obtain ⟨hvin, hvp⟩ := List.mem_filter.1 hv
      have hu' : ∃ t ∈ ts, t ∈ u.additions := by simpa using hup
      have hv' : ∃ t ∈ ts, t ∈ v.additions := by simpa using hvp
      by_contra hne
      have huv := hturn ts hi u (hus u huin).1 hu' v (hus v hvin).1 (Ne.symm hne)
      have hvu := hturn ts hi v (hus v hvin).1 hv' u (hus u huin).1 hne
      exact behind_asymm huv hvu (hus u huin).2.1
    have hsplit := List.length_eq_length_filter_add (l := us) fun u => decide (∀ t ∈ ts, t ∉ u.additions)
    have hcard : (({ s with
      chanend
      outstanding := s.outstanding.filter fun u => ∀ t ∈ ts, t ∉ u.additions
      returned := s.returned ++ ts
      task := Function.update s.task i .idle } : State J G ι).signalling worker_count) = s.signalling worker_count := rfl
    rw [hcard]
    dsimp only
    omega

end Counts

/-! ## All runs -/

section Runs
variable [DecidableEq J] [DecidableEq G] [DecidableEq ι]

omit [DecidableEq G] in
theorem inv_task {i : ι} (ht : Tracked s) (hc : Counted jobs worker_count s) (hturn : InTurn s (.task i))
    (hs : task_step worker_count s i = some s') : Tracked s' ∧ Counted jobs worker_count s' := by
  have hadd := ht.adding i
  unfold task_step at hs
  cases hi : s.task i with
  | idle => rw [hi] at hs; cases hs
  | job t =>
    rw [hi] at hs hadd
    obtain ⟨u, hu, haddr, hts, hcu⟩ := hadd
    simp only [chanend_job_send] at hs
    split at hs
    case isFalse => cases hs
    cases hs
    refine ⟨?_, hc.frame rfl rfl rfl rfl rfl rfl rfl rfl⟩
    exact ht.send .idle (by rw [hi]; rfl) nofun hu (by rw [hts]; rfl) hcu trivial nofun
  | group g k ts =>
    rw [hi] at hs
    cases ts with
    | nil =>
      cases hs
      exact ⟨ht.move rfl trivial nofun, hc.frame rfl rfl rfl rfl rfl rfl rfl rfl⟩
    | cons t ts =>
      cases hs
      refine ⟨ht.assign hi, ?_⟩
      rw [hi] at hadd
      obtain ⟨u, hu, -, hdrop⟩ := hadd (List.cons_ne_nil _ _)
      refine { hc with added := fun j hj => ?_ }
      by_cases hjt : j = t.1
      · subst hjt
        obtain ⟨h1, h2⟩ := ht.current u hu t (List.mem_of_mem_drop (hdrop ▸ List.mem_cons_self))
        dsimp only
        omega
      · dsimp only at hj
        rw [Function.update_of_ne hjt] at hj
        exact hc.added j hj
  | send g k t ts =>
    rw [hi] at hs hadd
    obtain ⟨u, hu, haddr, hdrop, hcu⟩ := hadd
    simp only [chanend_job_send] at hs
    split at hs
    case isFalse => cases hs
    cases hs
    refine ⟨?_, hc.frame rfl rfl rfl rfl rfl rfl rfl rfl⟩
    have hnd : (t :: ts).Nodup := hdrop ▸ (ht.nodup u hu).sublist (List.drop_sublist _ _)
    have hk : u.additions[k]? = some t := by
      have hget : (u.additions.drop k)[0]? = some t := by rw [hdrop]; rfl
      simpa using hget
    refine ht.send (.group g (k + 1) ts) (by rw [hi]; rfl) (List.nodup_cons.1 hnd).1 hu hk hcu ?_ nofun
    intro hne
    refine ⟨u, hu, haddr, ?_⟩
    rw [← List.drop_drop, hdrop]
    rfl
  | wait ts =>
    rw [hi] at hs
    simp only at hs
    split at hs
    case h_1 => cases hs
    rename_i chanend hchan
    cases hs
    have hfin := wait_finished ht hc hturn hi (by omega)
    refine ⟨ht.retire chanend (fun u hu hp => ?_) (fun t htt => ?_), hc.retire hturn hi hchan⟩
    · exact hfin u hu (by simpa using hp)
    · rcases ht.waits i ts hi t htt with hst | ⟨u, hu, htu⟩
      · exact hst
      · exact hfin u hu ⟨t, htt, htu⟩ t htu

omit [DecidableEq ι] in
theorem inv_worker {k : Nat} (ht : Tracked s) (hc : Counted jobs worker_count s)
    (hs : worker_step worker_count s k = some s') : Tracked s' ∧ Counted jobs worker_count s' := by
  unfold worker_step at hs
  split at hs
  case isFalse => cases hs
  rename_i hlt
  cases hk : s.worker k with
  | idle =>
    rw [hk] at hs
    cases hch : s.isr_chanends k with
    | nil => rw [hch] at hs; cases hs
    | cons t ts =>
      rw [hch] at hs
      cases hs
      have hpend : (⟨Function.update s.isr_chanends k ts, Function.update s.worker k (.perform t), s.chanend, s.counters,
          s.job_counter, s.group_counter, s.task, s.added, s.outstanding, s.finished, s.performed, s.returned⟩ :
          State J G ι).pending = s.pending := by
        funext k'
        by_cases hkk : k' = k
        · subst hkk; simp [State.pending, hk, hch, Worker.hand]
        · simp [State.pending, hkk]
      refine ⟨ht.work (k := k) rfl hpend rfl rfl rfl rfl rfl (fun _ => id) (fun k' hkk => by simp [hkk]) ?_, ?_⟩
      · simp
      · exact hc.frame rfl rfl rfl rfl (signalling_update rfl hlt (by simp [hk]) (by simp)) rfl rfl rfl
  | perform t =>
    rw [hk] at hs
    cases hs
    have hpend : (⟨s.isr_chanends, Function.update s.worker k (.signal t), s.chanend, s.counters,
        s.job_counter, s.group_counter, s.task, s.added, s.outstanding, s.finished, s.performed ++ [t], s.returned⟩ :
        State J G ι).pending = s.pending := by
      funext k'
      by_cases hkk : k' = k
      · subst hkk; simp [State.pending, hk, Worker.hand]
      · simp [State.pending, hkk]
    refine ⟨ht.work (k := k) rfl hpend rfl rfl rfl rfl rfl (fun t' ht' => List.mem_append_left _ ht')
      (fun k' hkk => by simp [hkk]) ?_, ?_⟩
    · intro t' ht'
      simp only [Function.update_self, Worker.signal.injEq] at ht'
      subst ht'
      simp
    · exact hc.frame rfl rfl rfl rfl (signalling_update rfl hlt (by simp [hk]) (by simp)) rfl rfl rfl
  | signal t =>
    rw [hk] at hs
    obtain ⟨c, hcounter, rfl⟩ := Option.map_eq_some_iff.1 hs
    refine ⟨ht.signal hk ?_ ?_, hc.signal ht hlt hk hcounter⟩
    · split <;> rfl
    · intro t'
      split <;> simp
  | token =>
    rw [hk] at hs
    cases hs
    have hpend : (⟨s.isr_chanends, Function.update s.worker k .idle, s.chanend + 1, s.counters,
        s.job_counter, s.group_counter, s.task, s.added, s.outstanding, s.finished, s.performed, s.returned⟩ :
        State J G ι).pending = s.pending := by
      funext k'
      by_cases hkk : k' = k
      · subst hkk; simp [State.pending, hk, Worker.hand]
      · simp [State.pending, hkk]
    refine ⟨ht.work (k := k) rfl hpend rfl rfl rfl rfl rfl (fun _ => id) (fun k' hkk => by simp [hkk]) ?_,
      hc.token hlt hk⟩
    simp

theorem inv_step {a : Act J G ι} (ht : Tracked s) (hc : Counted jobs worker_count s) (ho : Once jobs s a)
    (hturn : InTurn s a) (hs : (isrs jobs worker_count).step s a = some s') :
    Tracked s' ∧ Counted jobs worker_count s' := by
  cases a with
  | job_add i j =>
    have ha := tracked_job_add ht ho hs
    refine ⟨ht.add ha, hc.add ht ha ?_ ?_ ?_ ?_⟩ <;> simp only [isrs, dispatcher_job_add, ha.idle] at hs <;> cases hs
    · simp [event_counter_create]
    · exact fun c hne => Function.update_of_ne hne ..
    · rfl
    · exact fun g hg => .inl hg
  | group_add i g =>
    have ha := tracked_group_add ho hs
    refine ⟨ht.add ha, hc.add ht ha ?_ ?_ ?_ ?_⟩ <;> simp only [isrs, dispatcher_group_add, ha.idle] at hs <;> cases hs
    · simp [event_counter_init]
    · exact fun c hne => Function.update_of_ne hne ..
    · rfl
    · intro g' hg'
      by_cases hgg : g' = g
      · subst hgg
        exact .inr fun j hj => ⟨_, List.mem_map_of_mem hj, rfl⟩
      · simp only [Function.update_of_ne hgg] at hg'
        exact .inl hg'
  | job_wait i j =>
    simp only [isrs, dispatcher_job_wait] at hs
    split at hs
    case h_2 => cases hs
    rename_i hcounter
    cases hs
    refine ⟨ht.move rfl trivial ?_, hc.frame rfl rfl rfl rfl rfl rfl rfl rfl⟩
    rintro _ ⟨⟩ t htt
    obtain rfl := List.mem_singleton.1 htt
    exact ht.latest j (hc.added j (by rw [hcounter]; nofun))
  | group_wait i g =>
    simp only [isrs, dispatcher_group_wait] at hs
    split at hs
    case h_2 => cases hs
    rename_i hgroup _
    cases hs
    refine ⟨ht.move rfl trivial ?_, hc.frame rfl rfl rfl rfl rfl rfl rfl rfl⟩
    rintro _ ⟨⟩ t htt
    obtain ⟨j, hj, rfl⟩ := List.mem_map.1 htt
    exact ht.latest j (hc.group_added g hgroup j hj)
  | task i => exact inv_task ht hc hturn hs
  | worker k => exact inv_worker ht hc hs

theorem inv_init (h : (isrs jobs worker_count).init s) : Tracked s ∧ Counted jobs worker_count s := by
  cases h
  refine ⟨⟨nofun, nofun, nofun, nofun, nofun, ?_, nofun, nofun, nofun, ?_, nofun, fun _ => trivial, nofun, nofun, nofun⟩,
    ⟨nofun, ⟨[], .nil, nofun, ?_⟩, ?_, nofun⟩⟩
  · rintro t ⟨k, hk⟩
    cases hk
  · exact fun k => .nil
  · simp [State.signalling]
  · exact fun j hj => absurd rfl hj

def tasks (n : Nat) : List (Act Nat Unit Unit) := List.replicate n (.task ())

/-- After `dispatcher_isr_init`. -/
def started : State Nat Unit Unit := ⟨fun _ => [], fun _ => .idle, 0, fun _ => event_counter_create 0, fun _ => none,
  fun _ => false, fun _ => .idle, fun _ => 0, [], fun _ => [], [], []⟩

end Runs

end Isr
end Dispatcher
