import XcoreSdk.Dispatcher.Threads
import Mathlib.Data.List.Nodup
/-!
# Additions are performed once

Every addition is in one place at a time: with the task that adds it, in the
queue, with a worker, or done. The steps only move additions from place to
place, so none is lost or performed twice.
-/

namespace Dispatcher
open FreeRtos
variable {J G ι κ : Type*} [DecidableEq J] [DecidableEq G] [DecidableEq ι] [DecidableEq κ]

inductive Place (ι κ : Type*)
  | new
  | unsent (i : ι)
  | queued
  | held (k : κ)
  | signalling (k : κ)
  | done

/-- The additions that a task has still to send. -/
def Task.unsent : Task J G → List (J × Nat)
  | .idle | .wait _ _ => []
  | .job t => [t]
  | .group _ ts => ts
  | .send _ t ts => t :: ts

/-- Where each addition is. -/
structure Placed (s : Threads J G ι κ) (place : J × Nat → Place ι κ) : Prop where
  new : ∀ t, place t = .new ↔ t.2 = 0 ∨ s.added t.1 < t.2
  unsent : ∀ t i, place t = .unsent i ↔ t ∈ (s.task i).unsent
  queued : ∀ t, place t = .queued ↔ t ∈ s.queue
  held : ∀ t k, place t = .held k ↔ s.worker k = .perform t
  signalling : ∀ t k, place t = .signalling k ↔ s.worker k = .signal t
  done : ∀ t, place t = .done ↔ t ∈ s.signalled
  performed : ∀ t, t ∈ s.performed ↔ (∃ k, place t = .signalling k) ∨ place t = .done
  unsent_nodup : ∀ i, (s.task i).unsent.Nodup
  queue_nodup : s.queue.Nodup
  performed_nodup : s.performed.Nodup

variable {jobs : G → List J} {length : Nat} {s s' : Threads J G ι κ} {place : J × Nat → Place ι κ}

omit [DecidableEq J] [DecidableEq G] [DecidableEq κ] in
/-- A step of a task that leaves its unsent additions, and all else that says
where additions are, as they are. -/
theorem Placed.task (h : Placed s place) (i : ι) (pc : Task J G) (hpc : pc.unsent = (s.task i).unsent)
    (htask : s'.task = Function.update s.task i pc) (hadded : s'.added = s.added) (hqueue : s'.queue = s.queue)
    (hworker : s'.worker = s.worker) (hperf : s'.performed = s.performed) (hsig : s'.signalled = s.signalled) :
    Placed s' place := by
  have hunsent : ∀ i', (s'.task i').unsent = (s.task i').unsent := by
    intro i'
    rw [htask]
    by_cases hi : i' = i
    · subst hi; rw [Function.update_self, hpc]
    · rw [Function.update_of_ne hi]
  exact {
    new := fun t => by rw [hadded]; exact h.new t
    unsent := fun t i' => by rw [hunsent]; exact h.unsent t i'
    queued := fun t => by rw [hqueue]; exact h.queued t
    held := fun t k => by rw [hworker]; exact h.held t k
    signalling := fun t k => by rw [hworker]; exact h.signalling t k
    done := fun t => by rw [hsig]; exact h.done t
    performed := fun t => by rw [hperf]; exact h.performed t
    unsent_nodup := fun i' => by rw [hunsent]; exact h.unsent_nodup i'
    queue_nodup := by rw [hqueue]; exact h.queue_nodup
    performed_nodup := by rw [hperf]; exact h.performed_nodup }

omit [DecidableEq G] [DecidableEq κ] in
/-- New additions of different jobs. -/
theorem Placed.add (h : Placed s place) (i : ι) (pc : Task J G) (ts : List (J × Nat)) (hidle : (s.task i).unsent = [])
    (hpc : pc.unsent = ts) (hts : ts.Nodup) (htask : s'.task = Function.update s.task i pc)
    (hadded : ∀ j, s'.added j = if j ∈ ts.map Prod.fst then s.added j + 1 else s.added j)
    (hnew : ∀ t ∈ ts, t.2 = s.added t.1 + 1) (hqueue : s'.queue = s.queue) (hworker : s'.worker = s.worker)
    (hperf : s'.performed = s.performed) (hsig : s'.signalled = s.signalled) :
    Placed s' fun t => if t ∈ ts then .unsent i else place t := by
  have hplace : ∀ t ∈ ts, place t = .new := fun t ht => (h.new t).2 (.inr (by rw [hnew t ht]; omega))
  have hi : ∀ t, place t ≠ .unsent i := fun t ht => by
    have := (h.unsent t i).1 ht
    rw [hidle] at this
    cases this
  have hexists : ∀ j, j ∈ ts.map Prod.fst ↔ (j, s.added j + 1) ∈ ts := by
    intro j
    rw [List.mem_map]
    constructor
    · rintro ⟨⟨j', n⟩, ht, rfl⟩
      obtain rfl : n = s.added j' + 1 := hnew _ ht
      exact ht
    · exact fun ht => ⟨_, ht, rfl⟩
  constructor
  · rintro ⟨j, n⟩
    have h1 := h.new (j, n)
    have h2 := hadded j
    have h3 := hexists j
    have h4 := hnew (j, n)
    grind
  · intro t i'
    have h1 := h.unsent t i'
    have h2 := hi t
    have h3 := hplace t
    rw [htask]
    by_cases hi' : i' = i
    · subst hi'
      rw [Function.update_self, hpc]
      grind
    · rw [Function.update_of_ne hi']
      grind
  · intro t; rw [hqueue]; have := h.queued t; have := hplace t; grind
  · intro t k; rw [hworker]; have := h.held t k; have := hplace t; grind
  · intro t k; rw [hworker]; have := h.signalling t k; have := hplace t; grind
  · intro t; rw [hsig]; have := h.done t; have := hplace t; grind
  · intro t; rw [hperf]; have := h.performed t; have := hplace t; grind
  · intro i'
    rw [htask]
    by_cases hi' : i' = i
    · subst hi'; rw [Function.update_self, hpc]; exact hts
    · rw [Function.update_of_ne hi']; exact h.unsent_nodup i'
  · rw [hqueue]; exact h.queue_nodup
  · rw [hperf]; exact h.performed_nodup

omit [DecidableEq G] [DecidableEq κ] in
/-- A task sends its next addition. -/
theorem Placed.send {i : ι} {pc : Task J G} {t : J × Nat} (h : Placed s place)
    (hpc : (s.task i).unsent = t :: pc.unsent) :
    Placed { s with queue := s.queue ++ [t], task := Function.update s.task i pc } (Function.update place t .queued) := by
  have hnd := h.unsent_nodup i
  rw [hpc] at hnd
  have ht : place t = .unsent i := (h.unsent t i).2 (by rw [hpc]; exact .head _)
  have hqueue : t ∉ s.queue := fun hq => by rw [(h.queued t).2 hq] at ht; cases ht
  constructor
  · intro u; have := h.new u; grind [Function.update_apply]
  · intro u i'
    have h1 := h.unsent u i'
    by_cases hi : i' = i
    · subst hi
      simp only [Function.update_self]
      rw [hpc] at h1
      grind [Function.update_apply]
    · simp only [Function.update_of_ne hi]
      grind [Function.update_apply]
  · intro u; have := h.queued u; grind [Function.update_apply]
  · intro u k; have := h.held u k; grind [Function.update_apply]
  · intro u k; have := h.signalling u k; grind [Function.update_apply]
  · intro u; have := h.done u; grind [Function.update_apply]
  · intro u; have := h.performed u; grind [Function.update_apply]
  · intro i'
    by_cases hi : i' = i
    · subst hi; simp only [Function.update_self]; exact (List.nodup_cons.1 hnd).2
    · simp only [Function.update_of_ne hi]; exact h.unsent_nodup i'
  · have := h.queue_nodup
    grind
  · exact h.performed_nodup

omit [DecidableEq G] [DecidableEq ι] in
theorem Placed.receive {k : κ} {t : J × Nat} {queue : List (J × Nat)} (h : Placed s place)
    (hk : s.worker k = .receive) (hq : s.queue = t :: queue) :
    Placed { s with queue, worker := Function.update s.worker k (.perform t) } (Function.update place t (.held k)) := by
  have hnd := h.queue_nodup
  rw [hq] at hnd
  have ht : place t = .queued := (h.queued t).2 (by rw [hq]; exact .head _)
  constructor
  · intro u; have := h.new u; grind [Function.update_apply]
  · intro u i; have := h.unsent u i; grind [Function.update_apply]
  · intro u; have := h.queued u; grind [Function.update_apply]
  · intro u k'; have := h.held u k'; grind [Function.update_apply]
  · intro u k'; have := h.signalling u k'; grind [Function.update_apply]
  · intro u; have := h.done u; grind [Function.update_apply]
  · intro u; have := h.performed u; grind [Function.update_apply]
  · exact h.unsent_nodup
  · exact (List.nodup_cons.1 hnd).2
  · exact h.performed_nodup

omit [DecidableEq G] [DecidableEq ι] in
theorem Placed.perform {k : κ} {t : J × Nat} (h : Placed s place) (hk : s.worker k = .perform t) :
    Placed { s with performed := s.performed ++ [t], worker := Function.update s.worker k (.signal t) }
      (Function.update place t (.signalling k)) := by
  have ht : place t = .held k := (h.held t k).2 hk
  have hperf : t ∉ s.performed := fun hp => by
    rcases (h.performed t).1 hp with ⟨k', hk'⟩ | hd
    · rw [ht] at hk'; cases hk'
    · rw [ht] at hd; cases hd
  constructor
  · intro u; have := h.new u; grind [Function.update_apply]
  · intro u i; have := h.unsent u i; grind [Function.update_apply]
  · intro u; have := h.queued u; grind [Function.update_apply]
  · intro u k'; have := h.held u k'; have := h.held t k'; grind [Function.update_apply]
  · intro u k'; have := h.signalling u k'; grind [Function.update_apply]
  · intro u; have := h.done u; grind [Function.update_apply]
  · intro u; have := h.performed u; grind [Function.update_apply]
  · exact h.unsent_nodup
  · exact h.queue_nodup
  · have := h.performed_nodup
    grind

omit [DecidableEq G] [DecidableEq ι] in
/-- The end of the worker's signal; the addition is done. -/
theorem Placed.signal {k : κ} {t : J × Nat} {pc : Worker J G} (h : Placed s place) (hk : s.worker k = .signal t)
    (hpc : ∀ u, pc ≠ .perform u ∧ pc ≠ .signal u) (hqueue : s'.queue = s.queue) (htask : s'.task = s.task)
    (hadded : s'.added = s.added) (hworker : s'.worker = Function.update s.worker k pc)
    (hperf : s'.performed = s.performed) (hsig : s'.signalled = s.signalled ++ [t]) :
    Placed s' (Function.update place t .done) := by
  have ht : place t = .signalling k := (h.signalling t k).2 hk
  constructor
  · intro u; rw [hadded]; have := h.new u; grind [Function.update_apply]
  · intro u i; rw [htask]; have := h.unsent u i; grind [Function.update_apply]
  · intro u; rw [hqueue]; have := h.queued u; grind [Function.update_apply]
  · intro u k'; rw [hworker]; have := h.held u k'; have := hpc u; grind [Function.update_apply]
  · intro u k'
    rw [hworker]
    have := h.signalling u k'
    have := h.signalling t k'
    have := hpc u
    grind [Function.update_apply]
  · intro u; rw [hsig]; have := h.done u; grind [Function.update_apply]
  · intro u; rw [hperf]; have := h.performed u; have := h.performed t; grind [Function.update_apply]
  · rw [htask]; exact h.unsent_nodup
  · rw [hqueue]; exact h.queue_nodup
  · rw [hperf]; exact h.performed_nodup

omit [DecidableEq J] [DecidableEq G] [DecidableEq ι] in
/-- A worker that puts a semaphore. -/
theorem Placed.put {k : κ} {c : Address J G} {counters : Address J G → EventCounter} (h : Placed s place)
    (hk : s.worker k = .put c) : Placed { s with counters, worker := Function.update s.worker k .receive } place := by
  refine { h with held := fun u k' => ?_, signalling := fun u k' => ?_ }
  · have := h.held u k'; grind [Function.update_apply]
  · have := h.signalling u k'; grind [Function.update_apply]

/-! ## Every step -/

omit [DecidableEq κ] in
theorem placed_task_step {i : ι} (h : Placed s place) (hs : task_step length s i = some s') :
    ∃ place', Placed s' place' := by
  unfold task_step at hs
  cases hpc : s.task i with
  | idle => rw [hpc] at hs; cases hs
  | job t =>
    rw [hpc] at hs
    obtain ⟨queue, hq, rfl⟩ := Option.map_eq_some_iff.1 hs
    obtain ⟨-, rfl⟩ := queue_send_eq_some.1 hq
    exact ⟨_, h.send (by rw [hpc]; rfl)⟩
  | group g ts =>
    rw [hpc] at hs
    cases ts with
    | nil =>
      cases hs
      exact ⟨place, h.task i .idle (by rw [hpc]; rfl) rfl rfl rfl rfl rfl rfl⟩
    | cons t ts =>
      cases hs
      exact ⟨place, h.task i (.send g t ts) (by rw [hpc]; rfl) rfl rfl rfl rfl rfl rfl⟩
  | send g t ts =>
    rw [hpc] at hs
    obtain ⟨queue, hq, rfl⟩ := Option.map_eq_some_iff.1 hs
    obtain ⟨-, rfl⟩ := queue_send_eq_some.1 hq
    exact ⟨_, h.send (by rw [hpc]; rfl)⟩
  | wait c ts =>
    rw [hpc] at hs
    obtain ⟨n, -, rfl⟩ := Option.map_eq_some_iff.1 hs
    exact ⟨place, h.task i .idle (by rw [hpc]; rfl) rfl rfl rfl rfl rfl rfl⟩

omit [DecidableEq ι] in
theorem placed_worker_step {k : κ} (h : Placed s place) (hs : worker_step s k = some s') :
    ∃ place', Placed s' place' := by
  unfold worker_step at hs
  cases hpc : s.worker k with
  | receive =>
    rw [hpc] at hs
    obtain ⟨⟨t, queue⟩, hq, rfl⟩ := Option.map_eq_some_iff.1 hs
    exact ⟨_, h.receive hpc (queue_receive_eq_some.1 hq)⟩
  | perform t =>
    rw [hpc] at hs
    cases hs
    exact ⟨_, h.perform hpc⟩
  | signal t =>
    rw [hpc] at hs
    obtain ⟨c, -, rfl⟩ := Option.map_eq_some_iff.1 hs
    refine ⟨_, h.signal hpc (fun u => ?_) rfl rfl rfl rfl rfl rfl⟩
    split <;> exact ⟨nofun, nofun⟩
  | put c =>
    rw [hpc] at hs
    cases hs
    exact ⟨place, h.put hpc⟩

omit [DecidableEq κ] in
theorem placed_job_add {i : ι} {j : J} (h : Placed s place) (hs : dispatcher_job_add s i j = some s') :
    ∃ place', Placed s' place' := by
  unfold dispatcher_job_add at hs
  split at hs
  · rename_i hidle
    cases hs
    refine ⟨_, h.add i (.job (j, s.added j + 1)) [(j, s.added j + 1)] (by rw [hidle]; rfl) rfl
      (List.nodup_singleton _) rfl (fun j' => ?_) (by simp) rfl rfl rfl rfl⟩
    by_cases hj : j' = j
    · subst hj; simp
    · simp [hj]
  · cases hs

omit [DecidableEq κ] in
theorem placed_group_add {i : ι} {g : G} (h : Placed s place) (hnd : (jobs g).Nodup)
    (hs : dispatcher_group_add jobs s i g = some s') : ∃ place', Placed s' place' := by
  unfold dispatcher_group_add at hs
  split at hs
  · rename_i hidle
    cases hs
    refine ⟨_, h.add i (.group g ((jobs g).map fun j => (j, s.added j + 1))) ((jobs g).map fun j => (j, s.added j + 1))
      (by rw [hidle]; rfl) rfl
      (hnd.map fun a b hab => (Prod.mk.inj hab).1) rfl (fun j => ?_) ?_ rfl rfl rfl rfl⟩
    · rw [List.map_map, show Prod.fst ∘ (fun j => (j, s.added j + 1)) = id from rfl, List.map_id]
    · simp only [List.mem_map]
      rintro _ ⟨j, -, rfl⟩
      rfl
  · cases hs

theorem placed_step {a : Act J G ι κ} (h : Placed s place) (hc : Once jobs s a)
    (hs : (threads jobs length).step s a = some s') : ∃ place', Placed s' place' := by
  cases a with
  | job_add i j => exact placed_job_add h hs
  | group_add i g => exact placed_group_add h hc.2.1 hs
  | job_wait i j =>
    simp only [threads, dispatcher_job_wait] at hs
    split at hs
    · rename_i c hidle _
      cases hs
      exact ⟨place, h.task i (.wait c [(j, s.added j)]) (by rw [hidle]; rfl) rfl rfl rfl rfl rfl rfl⟩
    · cases hs
  | group_wait i g =>
    simp only [threads, dispatcher_group_wait] at hs
    split at hs
    · rename_i c hidle _ _
      cases hs
      exact ⟨place, h.task i (.wait c (last jobs s g)) (by rw [hidle]; rfl) rfl rfl rfl rfl rfl rfl⟩
    · cases hs
  | task i => exact placed_task_step h hs
  | worker k => exact placed_worker_step h hs

theorem placed_init (h : (threads jobs length).init s) : Placed s fun t => if t.2 = 0 ∨ s.added t.1 < t.2 then .new else .done := by
  obtain rfl := h
  have hnew : ∀ t : J × Nat, t.2 = 0 ∨ 0 < t.2 := fun t => Nat.eq_zero_or_pos t.2
  simp only [if_pos (hnew _)]
  constructor <;> simp [Task.unsent, hnew]

end Dispatcher
