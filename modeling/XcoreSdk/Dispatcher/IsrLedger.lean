import XcoreSdk.Dispatcher.IsrTracked
import XcoreSdk.Lib.Work
/-!
# Where the additions are, without any order

Every addition is with a task, on its way to a worker, with the worker or
performed, and the steps only move it on. This needs no condition on the calls.
-/

namespace Dispatcher
namespace Isr
open scoped BigOperators
variable {J G ι : Type*} [DecidableEq J]

/-! ## The ledger -/

/-- The additions that a call makes. -/
def additions (jobs : G → List J) (s : State J G ι) : Act J G ι → List (J × Nat)
  | .job_add _ j => [(j, s.added j + 1)]
  | .group_add _ g => (jobs g).map fun j => (j, s.added j + 1)
  | .job_wait _ _ | .group_wait _ _ | .task _ | .worker _ => []

variable [DecidableEq G] [DecidableEq ι] [Fintype ι] {jobs : G → List J} {worker_count : Nat} {s s' : State J G ι}

omit [DecidableEq J] [DecidableEq G] [DecidableEq ι] [Fintype ι] in
theorem send_eq_some {k : Nat} {t : J × Nat} : chanend_job_send worker_count s k t = some s' ↔
    k < worker_count ∧ { s with isr_chanends := Function.update s.isr_chanends k (s.isr_chanends k ++ [t]) } = s' := by
  unfold chanend_job_send
  split <;> simp [*]

/-- The loop counter and what is left of the loop. -/
def Task.Within (jobs : G → List J) : Task J G → Prop
  | .group g k ts => k + ts.length = (jobs g).length
  | .send g k _ ts => k + ts.length + 1 = (jobs g).length
  | .idle | .job _ | .wait _ => True

/-- What the task's next step sends. -/
def Task.sending : Task J G → Option (J × Nat)
  | .job t | .send _ _ t _ => some t
  | .idle | .group _ _ _ | .wait _ => none

/-- Whatever has been sent, or is about to be, has a counter. -/
structure Sound (jobs : G → List J) (s : State J G ι) : Prop where
  within : ∀ i, (s.task i).Within jobs
  sending : ∀ i t, (s.task i).sending = some t → s.job_counter t.1 ≠ none
  pending : ∀ k, ∀ t ∈ s.pending k, s.job_counter t.1 ≠ none

omit [DecidableEq J] [DecidableEq G] [DecidableEq ι] [Fintype ι] in
theorem Sound.frame (h : Sound jobs s) (hcounter : ∀ j, s.job_counter j ≠ none → s'.job_counter j ≠ none)
    (htask : ∀ i, s'.task i = s.task i ∨
      (s'.task i).Within jobs ∧ ∀ t, (s'.task i).sending = some t → s'.job_counter t.1 ≠ none)
    (hpending : ∀ k, ∀ t ∈ s'.pending k, (∃ k', t ∈ s.pending k') ∨ ∃ i, (s.task i).sending = some t) : Sound jobs s' where
  within i := by
    rcases htask i with heq | ⟨hw, -⟩
    · rw [heq]; exact h.within i
    · exact hw
  sending i t ht := by
    rcases htask i with heq | ⟨-, hs⟩
    · rw [heq] at ht; exact hcounter _ (h.sending i t ht)
    · exact hs t ht
  pending k t ht := by
    rcases hpending k t ht with ⟨k', hk'⟩ | ⟨i, hi⟩
    · exact hcounter _ (h.pending k' t hk')
    · exact hcounter _ (h.sending i t hi)

omit [DecidableEq J] [DecidableEq G] [Fintype ι] in
/-- A step of one task that sends nothing. -/
theorem Sound.call {i : ι} {pc : Task J G} (h : Sound jobs s)
    (hcounter : ∀ j, s.job_counter j ≠ none → s'.job_counter j ≠ none) (htask : s'.task = Function.update s.task i pc)
    (hpending : s'.pending = s.pending) (hwithin : pc.Within jobs)
    (hsending : ∀ t, pc.sending = some t → s'.job_counter t.1 ≠ none) : Sound jobs s' := by
  refine h.frame hcounter (fun i' => ?_) fun k t ht => .inl ⟨k, hpending ▸ ht⟩
  rw [htask]
  by_cases hi : i' = i
  · subst hi
    rw [Function.update_self]
    exact .inr ⟨hwithin, hsending⟩
  · rw [Function.update_of_ne hi]
    exact .inl rfl

omit [DecidableEq J] [DecidableEq G] [Fintype ι] in
/-- A task sends an addition. -/
theorem Sound.send {i : ι} {pc : Task J G} {k : Nat} {u : J × Nat} (h : Sound jobs s) (hi : (s.task i).sending = some u)
    (hwithin : pc.Within jobs) (hsending : pc.sending = none) :
    Sound jobs { s with
      isr_chanends := Function.update s.isr_chanends k (s.isr_chanends k ++ [u])
      task := Function.update s.task i pc } := by
  refine h.frame (fun _ hj => hj) (fun i' => ?_) fun k' t ht => ?_
  · dsimp only
    by_cases hi' : i' = i
    · subst hi'
      rw [Function.update_self]
      exact .inr ⟨hwithin, fun t ht => by rw [hsending] at ht; cases ht⟩
    · rw [Function.update_of_ne hi']
      exact .inl rfl
  · simp only [State.pending] at ht
    rcases List.mem_append.1 ht with hhand | hchan
    · exact .inl ⟨k', List.mem_append_left _ hhand⟩
    · rw [Function.update_apply] at hchan
      split at hchan
      · rcases List.mem_append.1 hchan with hold | hnew
        · exact .inl ⟨k, List.mem_append_right _ hold⟩
        · rw [List.mem_singleton.1 hnew]
          exact .inr ⟨i, hi⟩
      · exact .inl ⟨k', List.mem_append_right _ hchan⟩

def Worker.work : Worker J → Nat
  | .idle => 0
  | .token => 1
  | .signal _ => 2
  | .perform _ => 3

def Task.work : Task J G → Nat
  | .idle => 0
  | .wait _ => 1
  | .job _ => 5
  | .group _ _ ts => 6 * ts.length + 1
  | .send _ _ _ ts => 6 * ts.length + 6

/-- A bound on the steps that are left without new calls. -/
def State.work (worker_count : Nat) (s : State J G ι) : Nat :=
  ∑ i, (s.task i).work + ∑ k ∈ Finset.range worker_count, 4 * (s.isr_chanends k).length +
    ∑ k ∈ Finset.range worker_count, (s.worker k).work

omit [DecidableEq J] [DecidableEq G] in
theorem work_send {i : ι} {k : Nat} {u : J × Nat} {pc : Task J G} (hk : k < worker_count)
    (hpc : pc.work + 4 < (s.task i).work) :
    State.work worker_count { s with
      isr_chanends := Function.update s.isr_chanends k (s.isr_chanends k ++ [u])
      task := Function.update s.task i pc } < s.work worker_count := by
  have htasks := sum_update s.task Task.work i pc
  have hchan := sum_update_mem s.isr_chanends (fun us => 4 * us.length) (s.isr_chanends k ++ [u]) (Finset.mem_range.2 hk)
  simp only [List.length_append, List.length_singleton] at hchan
  unfold State.work
  dsimp only
  omega

omit [DecidableEq J] [DecidableEq G] in
theorem work_task {i : ι} {pc : Task J G} (hpc : pc.work < (s.task i).work) (htask : s'.task = Function.update s.task i pc)
    (hchan : s'.isr_chanends = s.isr_chanends) (hworker : s'.worker = s.worker) :
    s'.work worker_count < s.work worker_count := by
  have htasks := sum_update s.task Task.work i pc
  unfold State.work
  rw [htask, hchan, hworker]
  omega

omit [DecidableEq G] in
theorem task_step_work {i : ι} (hs : task_step worker_count s i = some s') : s'.work worker_count < s.work worker_count := by
  unfold task_step at hs
  cases hpc : s.task i with
  | idle => rw [hpc] at hs; cases hs
  | job u =>
    rw [hpc] at hs
    obtain ⟨s₁, hsend, rfl⟩ := Option.map_eq_some_iff.1 hs
    obtain ⟨hk, rfl⟩ := send_eq_some.1 hsend
    exact work_send hk (by rw [hpc]; exact Nat.lt_succ_self 4)
  | group g k ts =>
    rw [hpc] at hs
    cases ts with
    | nil =>
      cases hs
      exact work_task (by rw [hpc]; exact Nat.zero_lt_one) rfl rfl rfl
    | cons u ts =>
      cases hs
      exact work_task (by rw [hpc]; exact Nat.lt_succ_self _) rfl rfl rfl
  | send g k u ts =>
    rw [hpc] at hs
    obtain ⟨s₁, hsend, rfl⟩ := Option.map_eq_some_iff.1 hs
    obtain ⟨hk, rfl⟩ := send_eq_some.1 hsend
    exact work_send hk (by rw [hpc]; exact Nat.lt_succ_self _)
  | wait ts =>
    rw [hpc] at hs
    dsimp only at hs
    split at hs
    · cases hs
    · cases hs
      exact work_task (by rw [hpc]; exact Nat.zero_lt_one) rfl rfl rfl

omit [DecidableEq ι] in
theorem worker_step_work {k : Nat} (hs : worker_step worker_count s k = some s') : s'.work worker_count < s.work worker_count := by
  unfold worker_step at hs
  split at hs
  case isFalse => cases hs
  case isTrue hk =>
    have hworker := fun pc => sum_update_mem s.worker Worker.work pc (Finset.mem_range.2 hk)
    have hsame : ∀ pc, s'.worker = Function.update s.worker k pc → s'.isr_chanends = s.isr_chanends → s'.task = s.task →
        pc.work < (s.worker k).work → s'.work worker_count < s.work worker_count := by
      intro pc hw hchan htask hlt
      have hsum := hworker pc
      unfold State.work
      rw [hw, hchan, htask]
      omega
    cases hpc : s.worker k with
    | idle =>
      cases hq : s.isr_chanends k with
      | nil => rw [hpc, hq] at hs; cases hs
      | cons u us =>
        rw [hpc, hq] at hs
        cases hs
        have hw := hworker (.perform u)
        have hchan := sum_update_mem s.isr_chanends (fun us => 4 * us.length) us (Finset.mem_range.2 hk)
        have hperform : (Worker.perform u).work = 3 := rfl
        simp only [hq, List.length_cons] at hchan
        unfold State.work
        dsimp only
        omega
    | perform u =>
      rw [hpc] at hs
      cases hs
      exact hsame _ rfl rfl rfl (by rw [hpc]; exact Nat.lt_succ_self 2)
    | signal u =>
      rw [hpc] at hs
      obtain ⟨c, -, rfl⟩ := Option.map_eq_some_iff.1 hs
      refine hsame _ rfl rfl rfl ?_
      rw [hpc]
      split
      · exact Nat.lt_succ_self 1
      · exact Nat.zero_lt_two
    | token =>
      rw [hpc] at hs
      cases hs
      exact hsame _ rfl rfl rfl (by rw [hpc]; exact Nat.zero_lt_one)

end Isr
end Dispatcher
