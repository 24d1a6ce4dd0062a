import XcoreSdk.Dispatcher.Performed
/-!
# What a wait waits for

A counter's count is the number of its additions that have not been signalled
yet, so the worker that brings it to zero puts the semaphore when all of them
have been performed, and puts it once.
-/

namespace Dispatcher
open FreeRtos
variable {J G ι κ : Type*} [DecidableEq J] [DecidableEq G] [DecidableEq ι] [DecidableEq κ]

/-- The additions that a counter counts. -/
def members (jobs : G → List J) (s : Threads J G ι κ) : Address J G → List (J × Nat)
  | .job t => [t]
  | .group g => last jobs s g

/-- The additions whose job has been given its counter. -/
def Handed (s : Threads J G ι κ) (t : J × Nat) : Prop :=
  t ∈ s.queue ∨ (∃ k, s.worker k = .perform t ∨ s.worker k = .signal t) ∨
    ∃ i, s.task i = .job t ∨ ∃ g ts, s.task i = .send g t ts

/-- The task has still to give this addition of the group its counter. -/
def Task.Adds : Task J G → G → J × Nat → Prop
  | .group g ts, g', t | .send g _ ts, g', t => g = g' ∧ t ∈ ts
  | _, _, _ => False

structure Counted (jobs : G → List J) (s : Threads J G ι κ) : Prop where
  latest : ∀ j n, 0 < n → n ≤ s.added j → (j, n) ∉ s.signalled → n = s.added j
  handed : ∀ t, Handed s t → s.job_counter t.1 ≠ none
  job : ∀ j t, s.job_counter j = some (.job t) → t = (j, s.added j)
  group : ∀ j g, s.job_counter j = some (.group g) → s.group_counter g = true ∧ j ∈ jobs g
  nodup : ∀ g, s.group_counter g = true → (jobs g).Nodup
  disjoint : ∀ g g' j, s.group_counter g = true → s.group_counter g' = true → j ∈ jobs g → j ∈ jobs g' → g = g'
  owned : ∀ g j, s.group_counter g = true → j ∈ jobs g → s.job_counter j = some (.group g) ∨
    (s.job_counter j = none ∧ 0 < s.added j ∧ (j, s.added j) ∉ s.signalled)
  adding : ∀ i g t, (s.task i).Adds g t → s.group_counter g = true ∧ t.1 ∈ jobs g
  job_count : ∀ j t, s.job_counter j = some (.job t) → (s.counters (.job t)).count = if t ∈ s.signalled then 0 else 1
  group_count : ∀ g, s.group_counter g = true →
    (s.counters (.group g)).count = ((last jobs s g).filter (· ∉ s.signalled)).length
  /-- A token is there, or about to be, only when all additions have been signalled. -/
  token : ∀ c, (s.counters c).semaphore ≠ 0 ∨ (∃ k, s.worker k = .put c) → ∀ t ∈ members jobs s c, t ∈ s.signalled
  bound : ∀ c, (s.counters c).semaphore ≤ 1
  putting : ∀ c k, s.worker k = .put c → (s.counters c).semaphore = 0 ∧ ∀ k', s.worker k' = .put c → k' = k
  created : ∀ g, s.outstanding g = true → s.group_counter g = true
  /-- A group that has been waited on has used up its token. -/
  used_up : ∀ g, s.outstanding g = false → (s.counters (.group g)).semaphore = 0 ∧ (∀ k, s.worker k ≠ .put (.group g)) ∧
    (s.group_counter g = true → ∀ t ∈ last jobs s g, t ∈ s.signalled)
  waits : ∀ i c ts, s.task i = .wait c ts → (∀ g, c = .group g → s.group_counter g = true) ∧
    ∀ t ∈ ts, t ∈ s.signalled ∨ t ∈ members jobs s c
  returned : ∀ t ∈ s.returned, t ∈ s.signalled

variable {jobs : G → List J} {length : Nat} {s s' : Threads J G ι κ} {place : J × Nat → Place ι κ}

omit [DecidableEq J] [DecidableEq G] [DecidableEq ι] [DecidableEq κ] in
theorem last_congr {g : G} (h : ∀ j ∈ jobs g, s'.added j = s.added j) : last jobs s' g = last jobs s g :=
  List.map_congr_left fun j hj => by rw [h j hj]

omit [DecidableEq G] [DecidableEq ι] [DecidableEq κ] in
/-- A job's counter counts its last addition. -/
theorem Counted.member {j : J} {c : Address J G} (h : Counted jobs s) (hj : s.job_counter j = some c) :
    (j, s.added j) ∈ members jobs s c := by
  cases c with
  | job t =>
    rw [h.job j t hj]
    exact .head _
  | group g => exact List.mem_map.2 ⟨j, (h.group j g hj).2, rfl⟩

omit [DecidableEq G] [DecidableEq ι] [DecidableEq κ] in
/-- A group that has not been added has no token. -/
theorem Counted.no_token {g : G} (h : Counted jobs s) (hg : s.group_counter g = false) :
    ¬ ((s.counters (.group g)).semaphore ≠ 0 ∨ ∃ k, s.worker k = .put (.group g)) := by
  have hout : s.outstanding g = false := by
    by_contra hne
    rw [h.created g (by simpa using hne)] at hg
    cases hg
  obtain ⟨hsem, hput, -⟩ := h.used_up g hout
  rintro (hne | ⟨k, hk⟩)
  · exact hne hsem
  · exact hput k hk

omit [DecidableEq G] [DecidableEq ι] [DecidableEq κ] in
/-- A step that only moves additions on. -/
theorem Counted.frame (h : Counted jobs s) (hcounters : s'.counters = s.counters)
    (hjob : s'.job_counter = s.job_counter) (hgroup : s'.group_counter = s.group_counter) (hadded : s'.added = s.added)
    (hout : s'.outstanding = s.outstanding) (hsig : s'.signalled = s.signalled) (hret : s'.returned = s.returned)
    (hput : ∀ k c, s'.worker k = .put c ↔ s.worker k = .put c) (hhanded : ∀ t, Handed s' t → Handed s t)
    (hadds : ∀ i g t, (s'.task i).Adds g t → (s.task i).Adds g t)
    (hwait : ∀ i c ts, s'.task i = .wait c ts → s.task i = .wait c ts ∨
      (∃ j, s.job_counter j = some c) ∧ ∀ t ∈ ts, t ∈ members jobs s c) : Counted jobs s' := by
  have hlast : ∀ g, last jobs s' g = last jobs s g := fun g => last_congr fun j _ => by rw [hadded]
  have hmem : ∀ c, members jobs s' c = members jobs s c := fun c => by
    cases c with
    | job t => rfl
    | group g => exact hlast g
  have hw : ∀ i c ts, s'.task i = .wait c ts → (∀ g, c = .group g → s.group_counter g = true) ∧
      ∀ t ∈ ts, t ∈ s.signalled ∨ t ∈ members jobs s c := by
    intro i c ts hi
    rcases hwait i c ts hi with hi | ⟨⟨j, hj⟩, hts⟩
    · exact h.waits i c ts hi
    · refine ⟨?_, fun t ht => .inr (hts t ht)⟩
      rintro g rfl
      exact (h.group j g hj).1
  constructor
  · rw [hadded, hsig]; exact h.latest
  · rw [hjob]; exact fun t ht => h.handed t (hhanded t ht)
  · rw [hjob, hadded]; exact h.job
  · rw [hjob, hgroup]; exact h.group
  · rw [hgroup]; exact h.nodup
  · rw [hgroup]; exact h.disjoint
  · rw [hgroup, hjob, hadded, hsig]; exact h.owned
  · rw [hgroup]; exact fun i g t ht => h.adding i g t (hadds i g t ht)
  · rw [hjob, hcounters, hsig]; exact h.job_count
  · intro g; rw [hgroup, hcounters, hlast, hsig]; exact h.group_count g
  · intro c; rw [hcounters, hmem, hsig]; simp only [hput]; exact h.token c
  · rw [hcounters]; exact h.bound
  · intro c k; rw [hcounters]; simp only [hput]; exact h.putting c k
  · rw [hout, hgroup]; exact h.created
  · intro g; rw [hout, hcounters, hgroup, hlast, hsig]; simp only [ne_eq, hput]; exact h.used_up g
  · rw [hgroup, hsig]; simp only [hmem]; exact hw
  · rw [hret, hsig]; exact h.returned

end Dispatcher
