import XcoreSdk.Dispatcher.Adding
import XcoreSdk.Dispatcher.Signals
import XcoreSdk.Lib.Work
/-!
# Exactly once, and no wait too short

Every addition is performed once, and what a wait is for has been performed
when the wait returns.
-/

namespace Dispatcher
open FreeRtos
variable {J G ι κ : Type*} [DecidableEq J] [DecidableEq G] [DecidableEq ι] [DecidableEq κ]
variable {jobs : G → List J} {length : Nat} {s s' : Threads J G ι κ} {place : J × Nat → Place ι κ}

/-! ## Every step keeps the counts -/

omit [DecidableEq G] [DecidableEq κ] in
/-- A task sends an addition. -/
theorem counted_send {i : ι} {pc : Task J G} {t : J × Nat} (h : Counted jobs s)
    (hpc : s.task i = .job t ∨ ∃ g ts, s.task i = .send g t ts)
    (hidle : ∀ u, pc ≠ .job u ∧ ∀ g ts, pc ≠ .send g u ts) (hwait : ∀ c ts, pc ≠ .wait c ts)
    (hadds : ∀ g u, pc.Adds g u → (s.task i).Adds g u) :
    Counted jobs { s with queue := s.queue ++ [t], task := Function.update s.task i pc } := by
  refine h.frame rfl rfl rfl rfl rfl rfl rfl (fun _ _ => Iff.rfl) ?_ (fun i' g u hu => ?_) fun i' c us hi => ?_
  · rintro u (hq | hk | ⟨i', hi⟩)
    · rcases List.mem_append.1 hq with hq | hq
      · exact .inl hq
      · rw [List.mem_singleton.1 hq]
        exact .inr (.inr ⟨i, hpc⟩)
    · exact .inr (.inl hk)
    · dsimp only at hi
      rw [Function.update_apply] at hi
      split at hi
      · rcases hi with hi | ⟨g, ts, hi⟩
        · exact absurd hi (hidle u).1
        · exact absurd hi ((hidle u).2 g ts)
      · exact .inr (.inr ⟨i', hi⟩)
  · dsimp only at hu
    rw [Function.update_apply] at hu
    split at hu
    · subst ‹i' = i›; exact hadds g u hu
    · exact hu
  · dsimp only at hi
    rw [Function.update_apply] at hi
    split at hi
    · exact absurd hi (hwait c us)
    · exact .inl hi

omit [DecidableEq G] [DecidableEq κ] in
/-- A call that starts to wait on a job's counter, or a loop that ends. -/
theorem counted_task {i : ι} {pc : Task J G} (h : Counted jobs s) (hidle : ∀ u, pc ≠ .job u ∧ ∀ g ts, pc ≠ .send g u ts)
    (hadds : ∀ g u, ¬ pc.Adds g u) (hwait : ∀ c ts, pc = .wait c ts → (∃ j, s.job_counter j = some c) ∧
      ∀ t ∈ ts, t ∈ members jobs s c) :
    Counted jobs { s with task := Function.update s.task i pc } := by
  refine h.frame rfl rfl rfl rfl rfl rfl rfl (fun _ _ => Iff.rfl) ?_ (fun i' g u hu => ?_) fun i' c us hi => ?_
  · rintro u (hq | hk | ⟨i', hi⟩)
    · exact .inl hq
    · exact .inr (.inl hk)
    · dsimp only at hi
      rw [Function.update_apply] at hi
      split at hi
      · rcases hi with hi | ⟨g, ts, hi⟩
        · exact absurd hi (hidle u).1
        · exact absurd hi ((hidle u).2 g ts)
      · exact .inr (.inr ⟨i', hi⟩)
  · dsimp only at hu
    rw [Function.update_apply] at hu
    split at hu
    · exact absurd hu (hadds g u)
    · exact hu
  · dsimp only at hi
    rw [Function.update_apply] at hi
    split at hi
    · exact .inr (hwait c us hi)
    · exact .inl hi

omit [DecidableEq G] [DecidableEq ι] in
/-- A worker that takes an addition from the queue, or performs it. -/
theorem counted_worker {k : κ} {pc : Worker J G} {t : J × Nat} {queue performed : List (J × Nat)} (h : Counted jobs s)
    (hpc : pc = .perform t ∨ pc = .signal t) (hold : ∀ c, s.worker k ≠ .put c) (ht : Handed s t)
    (hqueue : ∀ u ∈ queue, u ∈ s.queue) :
    Counted jobs { s with queue, performed, worker := Function.update s.worker k pc } := by
  refine h.frame rfl rfl rfl rfl rfl rfl rfl (fun k' c => ?_) ?_ (fun _ _ _ hu => hu) fun _ _ _ hi => .inl hi
  · by_cases hk : k' = k
    · subst hk
      have hne : pc ≠ .put c := by rcases hpc with rfl | rfl <;> exact fun heq => by cases heq
      simp [hold c, hne]
    · simp [Function.update_of_ne hk]
  · rintro u (hq | ⟨k', hk⟩ | hi)
    · exact .inl (hqueue u hq)
    · dsimp only at hk
      rw [Function.update_apply] at hk
      split at hk
      · have hut : u = t := by rcases hpc with rfl | rfl <;> rcases hk with hk | hk <;> cases hk <;> rfl
        rwa [hut]
      · exact .inr (.inl ⟨k', hk⟩)
    · exact .inr (.inr hi)

theorem counted_step {a : Act J G ι κ} (h : Counted jobs s) (hp : Placed s place) (hc : Once jobs s a)
    (hs : (threads jobs length).step s a = some s') : Counted jobs s' := by
  cases a with
  | job_add i j => exact counted_job_add h hp hc.1 hc.2 hs
  | group_add i g => exact counted_group_add h hp hc.1 hc.2.1 hc.2.2 hs
  | job_wait i j =>
    simp only [threads, dispatcher_job_wait] at hs
    split at hs
    · rename_i c _ hj
      cases hs
      refine counted_task h (fun _ => by simp) (fun _ _ => id) ?_
      rintro _ _ ⟨⟩
      refine ⟨⟨j, hj⟩, fun t ht => ?_⟩
      rw [List.mem_singleton.1 ht]
      exact h.member hj
    · cases hs
  | group_wait i g =>
    simp only [threads, dispatcher_group_wait] at hs
    split at hs
    · rename_i c _ hg hj
      cases hs
      obtain ⟨j, hhead, hj⟩ := Option.bind_eq_some_iff.1 hj
      -- the first job has its group's counter
      obtain rfl : c = .group g := by
        rcases h.owned g j hg (List.mem_of_mem_head? hhead) with ho | ⟨ho, -⟩
        · rw [ho] at hj; cases hj; rfl
        · rw [ho] at hj; cases hj
      refine counted_task h (fun _ => by simp) (fun _ _ => id) ?_
      rintro _ _ ⟨⟩
      exact ⟨⟨j, hj⟩, fun t ht => ht⟩
    · cases hs
  | task i =>
    simp only [threads, task_step] at hs
    cases hpc : s.task i with
    | idle => rw [hpc] at hs; cases hs
    | job t =>
      rw [hpc] at hs
      obtain ⟨queue, hq, rfl⟩ := Option.map_eq_some_iff.1 hs
      obtain ⟨-, rfl⟩ := queue_send_eq_some.1 hq
      exact counted_send h (.inl hpc) (fun _ => by simp) (by rintro _ _ ⟨⟩) fun _ _ => False.elim
    | group g ts =>
      rw [hpc] at hs
      cases ts with
      | nil =>
        cases hs
        exact counted_task h (fun _ => by simp) (fun _ _ => id) (by rintro _ _ ⟨⟩)
      | cons t ts =>
        cases hs
        exact counted_set h hpc
    | send g t ts =>
      rw [hpc] at hs
      obtain ⟨queue, hq, rfl⟩ := Option.map_eq_some_iff.1 hs
      obtain ⟨-, rfl⟩ := queue_send_eq_some.1 hq
      exact counted_send h (.inr ⟨g, ts, hpc⟩) (fun _ => by simp) (by rintro _ _ ⟨⟩) fun _ _ hu => by rw [hpc]; exact hu
    | wait c ts =>
      rw [hpc] at hs
      obtain ⟨n, hn, rfl⟩ := Option.map_eq_some_iff.1 hs
      exact counted_get h hpc (semaphore_get_eq_some.1 hn)
  | worker k =>
    simp only [threads, worker_step] at hs
    cases hpc : s.worker k with
    | receive =>
      rw [hpc] at hs
      obtain ⟨⟨t, queue⟩, hq, rfl⟩ := Option.map_eq_some_iff.1 hs
      have hq := queue_receive_eq_some.1 hq
      refine counted_worker h (.inl rfl) (fun c => by simp [hpc]) (.inl (by rw [hq]; exact .head _)) fun u hu => ?_
      rw [hq]
      exact .tail _ hu
    | perform t =>
      rw [hpc] at hs
      cases hs
      exact counted_worker h (.inr rfl) (fun c => by simp [hpc]) (.inr (.inl ⟨k, .inl hpc⟩)) fun _ hu => hu
    | signal t =>
      rw [hpc] at hs
      obtain ⟨c, hc, rfl⟩ := Option.map_eq_some_iff.1 hs
      exact counted_signal h hp hpc hc
    | put c =>
      rw [hpc] at hs
      cases hs
      exact counted_put h hpc

theorem counted_init (h : (threads jobs length).init s) : Counted jobs s := by
  obtain rfl := h
  constructor <;> simp [Handed, Task.Adds, event_counter_create]

theorem counted_reachable (h : (threads jobs length).Reachable (Once jobs) s) :
    Counted jobs s ∧ ∃ place : J × Nat → Place ι κ, Placed s place :=
  h.inv (I := fun t => Counted jobs t ∧ ∃ place : J × Nat → Place ι κ, Placed t place)
    (fun _ h0 => ⟨counted_init h0, _, placed_init h0⟩)
    fun _ _ _ ⟨hcnt, _, hp⟩ hc hs => ⟨counted_step hcnt hp hc hs, placed_step hp hc hs⟩

instance [Fintype G] (s : Threads J G ι κ) : ∀ a, Decidable (Once jobs s a)
  | .job_add _ j => inferInstanceAs (Decidable ((s.added j = 0 ∨ (j, s.added j) ∈ s.signalled) ∧
      ∀ g, s.job_counter j ≠ some (.group g)))
  | .group_add _ g => inferInstanceAs (Decidable (s.outstanding g = false ∧ (jobs g).Nodup ∧ ∀ j ∈ jobs g,
      (s.added j = 0 ∨ (j, s.added j) ∈ s.signalled) ∧ (s.job_counter j = none ∨ s.job_counter j = some (.group g))))
  | .job_wait _ _ | .group_wait _ _ | .task _ | .worker _ => isTrue trivial

/-! ## Work left -/

def Worker.work : Worker J G → Nat
  | .receive => 0
  | .put _ => 1
  | .signal _ => 2
  | .perform _ => 3

def Task.work : Task J G → Nat
  | .idle => 0
  | .wait _ _ => 1
  | .job _ => 5
  | .group _ ts => 6 * ts.length + 1
  | .send _ _ ts => 6 * ts.length + 6

variable [Fintype ι] [Fintype κ]

/-- A bound on the steps that are left without new calls. -/
def Threads.work (s : Threads J G ι κ) : Nat :=
  ∑ i, (s.task i).work + 4 * s.queue.length + ∑ k, (s.worker k).work

omit [DecidableEq κ] in
theorem task_step_work {i : ι} (hs : task_step length s i = some s') : s'.work < s.work := by
  have hsum := sum_update s.task Task.work i
  unfold task_step at hs
  cases hpc : s.task i with
  | idle => rw [hpc] at hs; cases hs
  | job t =>
    rw [hpc] at hs
    obtain ⟨queue, hq, rfl⟩ := Option.map_eq_some_iff.1 hs
    obtain ⟨-, rfl⟩ := queue_send_eq_some.1 hq
    have := hsum .idle
    simp only [hpc, Task.work, Threads.work, List.length_append, List.length_singleton] at this ⊢
    omega
  | group g ts =>
    rw [hpc] at hs
    cases ts with
    | nil =>
      cases hs
      have := hsum .idle
      simp only [hpc, Task.work, Threads.work, List.length_nil] at this ⊢
      omega
    | cons t ts =>
      cases hs
      have := hsum (.send g t ts)
      simp only [hpc, Task.work, Threads.work, List.length_cons] at this ⊢
      omega
  | send g t ts =>
    rw [hpc] at hs
    obtain ⟨queue, hq, rfl⟩ := Option.map_eq_some_iff.1 hs
    obtain ⟨-, rfl⟩ := queue_send_eq_some.1 hq
    have := hsum (.group g ts)
    simp only [hpc, Task.work, Threads.work, List.length_append, List.length_singleton] at this ⊢
    omega
  | wait c ts =>
    rw [hpc] at hs
    obtain ⟨n, -, rfl⟩ := Option.map_eq_some_iff.1 hs
    have := hsum .idle
    simp only [hpc, Task.work, Threads.work] at this ⊢
    omega

omit [DecidableEq ι] in
theorem worker_step_work {k : κ} (hs : worker_step s k = some s') : s'.work < s.work := by
  have hsum := sum_update s.worker Worker.work k
  unfold worker_step at hs
  cases hpc : s.worker k with
  | receive =>
    rw [hpc] at hs
    obtain ⟨⟨t, queue⟩, hq, rfl⟩ := Option.map_eq_some_iff.1 hs
    have := hsum (.perform t)
    simp only [hpc, queue_receive_eq_some.1 hq, Worker.work, Threads.work, List.length_cons] at this ⊢
    omega
  | perform t =>
    rw [hpc] at hs
    cases hs
    have := hsum (.signal t)
    simp only [hpc, Worker.work, Threads.work] at this ⊢
    omega
  | signal t =>
    rw [hpc] at hs
    obtain ⟨c, -, rfl⟩ := Option.map_eq_some_iff.1 hs
    have := hsum (if (event_counter_signal (s.counters c)).2 then .put c else .receive)
    have hle : (if (event_counter_signal (s.counters c)).2 then Worker.put c else .receive : Worker J G).work ≤ 1 := by
      split
      · exact Nat.le_refl 1
      · exact Nat.zero_le 1
    simp only [hpc, Threads.work] at this ⊢
    simp only [Worker.work] at this hle ⊢
    omega
  | put c =>
    rw [hpc] at hs
    cases hs
    have := hsum .receive
    simp only [hpc, Worker.work, Threads.work] at this ⊢
    omega

/-! ## The dispatcher -/

omit [Fintype ι] [Fintype κ] in
/-- When the workers are idle and no task has anything to send, all is done. -/
theorem Placed.finished [Nonempty κ] (hp : Placed s place) (h : Counted jobs s) (hlength : 0 < length)
    (hworkers : ∀ k, worker_step s k = none) (htasks : ∀ i, (s.task i).unsent ≠ [] → task_step length s i = none)
    {t : J × Nat} (hpos : 0 < t.2) (hle : t.2 ≤ s.added t.1) : t ∈ s.performed := by
  have hreceive : ∀ k, s.worker k = .receive := by
    intro k
    have hk := hworkers k
    unfold worker_step at hk
    cases hpc : s.worker k with
    | receive => rfl
    | perform u => rw [hpc] at hk; cases hk
    | signal u =>
      rw [hpc] at hk
      exact absurd (Option.map_eq_none_iff.1 hk) (h.handed u (.inr (.inl ⟨k, .inr hpc⟩)))
    | put c => rw [hpc] at hk; cases hk
  have hqueue : s.queue = [] := by
    obtain ⟨k⟩ := ‹Nonempty κ›
    have hk := hworkers k
    unfold worker_step at hk
    rw [hreceive k] at hk
    cases hq : s.queue with
    | nil => rfl
    | cons u queue =>
      rw [hq] at hk
      cases hk
  have hsend : ∀ u, rtos_osal_queue_send length s.queue u ≠ none := fun u => by
    simp [rtos_osal_queue_send, hqueue, hlength]
  have hunsent : ∀ i, (s.task i).unsent = [] := by
    intro i
    by_contra hne
    have hi := htasks i hne
    unfold task_step at hi
    cases hpc : s.task i with
    | idle => rw [hpc] at hne; exact hne rfl
    | job u => rw [hpc] at hi; exact hsend u (Option.map_eq_none_iff.1 hi)
    | group g us =>
      cases us with
      | nil => rw [hpc] at hne; exact hne rfl
      | cons u us => rw [hpc] at hi; cases hi
    | send g u us => rw [hpc] at hi; exact hsend u (Option.map_eq_none_iff.1 hi)
    | wait c us => rw [hpc] at hne; exact hne rfl
  rw [hp.performed]
  cases hplace : place t with
  | new => rcases (hp.new t).1 hplace with h0 | hlt <;> omega
  | unsent i =>
    have hmem := (hp.unsent t i).1 hplace
    rw [hunsent i] at hmem
    cases hmem
  | queued =>
    have hmem := (hp.queued t).1 hplace
    rw [hqueue] at hmem
    cases hmem
  | held k =>
    have hk := (hp.held t k).1 hplace
    rw [hreceive k] at hk
    cases hk
  | signalling k => exact .inl ⟨k, rfl⟩
  | done => exact .inr rfl

/-- What the dispatcher promises in a state. -/
structure Dispatched (length : Nat) (s : Threads J G ι κ) : Prop where
  /-- No addition is performed twice, -/
  once : s.performed.Nodup
  added : ∀ t ∈ s.performed, 0 < t.2 ∧ t.2 ≤ s.added t.1
  /-- and all have been performed when no worker, and no task that is adding, can go on, -/
  finished : (∀ k, worker_step s k = none) → (∀ i, (s.task i).unsent ≠ [] → task_step length s i = none) →
    ∀ j n, 0 < n → n ≤ s.added j → (j, n) ∈ s.performed
  /-- which they cannot put off. -/
  steps : (∀ i s', task_step length s i = some s' → s'.work < s.work) ∧ ∀ k s', worker_step s k = some s' → s'.work < s.work
  waited : ∀ t ∈ s.returned, t ∈ s.performed

theorem dispatched_once {J G ι κ : Type*} [DecidableEq J] [DecidableEq G] [DecidableEq ι] [DecidableEq κ] [Fintype ι]
    [Fintype κ] [Nonempty κ] {jobs : G → List J} {length : Nat} {s : Threads J G ι κ} (hlength : 0 < length)
    (h : (threads jobs length).Reachable (Once jobs) s) : Dispatched length s := by
  obtain ⟨hcnt, place, hp⟩ := counted_reachable h
  exact {
    once := hp.performed_nodup
    added := fun t ht => by
      by_contra hne
      have hnew := (hp.new t).2 (by omega)
      rcases (hp.performed t).1 ht with ⟨k, hk⟩ | hd
      · rw [hk] at hnew; cases hnew
      · rw [hd] at hnew; cases hnew
    finished := fun hworkers htasks _ _ hpos hle => hp.finished hcnt hlength hworkers htasks hpos hle
    steps := ⟨fun _ _ => task_step_work, fun _ _ => worker_step_work⟩
    waited := fun t ht => (hp.performed t).2 (.inr ((hp.done t).2 (hcnt.returned t ht))) }

/-- A group of two jobs and a single job, two workers and a queue of length 1. -/
theorem dispatched_once_mixed : ∃ s, (threads (ι := Bool) (κ := Bool) (fun _ : Unit => [0, 1]) 1).Reachable
    (Once fun _ => [0, 1]) s ∧ s.performed = [(0, 1), (1, 1), (2, 1)] ∧ s.returned = [(0, 1), (1, 1), (2, 1)] ∧
    Dispatched 1 s := by
  have hrun : ((threads (ι := Bool) (κ := Bool) (fun _ : Unit => [0, 1]) 1).exec (Once fun _ => [0, 1])
      ⟨[], fun _ => event_counter_create 0, fun _ => none, fun _ => false, fun _ => .idle, fun _ => .receive,
        fun _ => 0, fun _ => false, [], [], []⟩
      [.group_add false (), .task false, .task false, .worker true, .task false, .task false, .task false,
        .group_wait false (), .job_add true 2, .worker false, .task true, .job_wait true 2, .worker true, .worker false,
        .worker true, .worker false, .worker true, .worker false, .task false, .worker true, .worker true, .worker true,
        .task true]).map (fun s => (s.performed, s.returned)) =
      some ([(0, 1), (1, 1), (2, 1)], [(0, 1), (1, 1), (2, 1)]) := by decide +kernel
  obtain ⟨s, hs, hobs⟩ := Option.map_eq_some_iff.1 hrun
  obtain ⟨hperf, hret⟩ := Prod.mk.inj hobs
  have hreach := Machine.exec_reachable rfl hs
  exact ⟨s, hreach, hperf, hret, dispatched_once Nat.one_pos hreach⟩

end Dispatcher
