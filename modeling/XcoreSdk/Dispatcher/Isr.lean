import XcoreSdk.Dispatcher.Threads
/-!
# The dispatcher in ISR mode

Each worker is an interrupt handler on a core, with a channel end of its own.
A job added by itself goes to the first worker, the jobs of a group go to one
worker each. The handler that brings an event counter to zero sends an end
token to the dispatcher's channel end, and a wait takes one token from there.
The token does not say whose it is.
-/

namespace Dispatcher
namespace Isr
variable {J G ι : Type*} [DecidableEq J] [DecidableEq G] [DecidableEq ι]

/-- Where a task is; `k` is the loop counter. -/
inductive Task (J G : Type*)
  | idle
  /-- `dispatcher_job_add` before its send. -/
  | job (t : J × Nat)
  /-- `dispatcher_group_add` at the head of its loop. -/
  | group (g : G) (k : Nat) (ts : List (J × Nat))
  /-- `dispatcher_group_add` before its send. -/
  | send (g : G) (k : Nat) (t : J × Nat) (ts : List (J × Nat))
  /-- Waits for an end token, for the sake of these additions. -/
  | wait (ts : List (J × Nat))
deriving DecidableEq

/-- Where `dispatcher_isr_worker` is. -/
inductive Worker (J : Type*)
  | idle
  | perform (t : J × Nat)
  | signal (t : J × Nat)
  /-- The counter has come to zero; about to send the end token. -/
  | token
deriving DecidableEq

/-- A job or a group that has been added, with the additions that belong to it,
the `k`th of them for worker `k`. -/
structure Work (J G : Type*) where
  address : Address J G
  additions : List (J × Nat)
deriving DecidableEq

structure State (J G ι : Type*) where
  /-- The jobs on their way to each worker. -/
  isr_chanends : Nat → List (J × Nat)
  worker : Nat → Worker J
  /-- The end tokens at the dispatcher's channel end. -/
  chanend : Nat
  counters : Address J G → EventCounter
  /-- `job->event_counter`. -/
  job_counter : J → Option (Address J G)
  /-- Whether `group->event_counter` is set. -/
  group_counter : G → Bool
  task : ι → Task J G
  /-- How often each job has been added. -/
  added : J → Nat
  /-- What has been added and not been waited on since. -/
  outstanding : List (Work J G)
  /-- The additions each worker has finished, in order. -/
  finished : Nat → List (J × Nat)
  performed : List (J × Nat)
  /-- The additions for whose sake a wait has returned. -/
  returned : List (J × Nat)

inductive Act (J G ι : Type*)
  | job_add (i : ι) (j : J)
  | group_add (i : ι) (g : G)
  | job_wait (i : ι) (j : J)
  | group_wait (i : ι) (g : G)
  /-- A task goes on with its call. -/
  | task (i : ι)
  | worker (k : Nat)

def dispatcher_job_add (s : State J G ι) (i : ι) (j : J) : Option (State J G ι) :=
  match s.task i with
  | .idle => some { s with
      counters := Function.update s.counters (.job (j, s.added j + 1)) (event_counter_create 1)
      job_counter := Function.update s.job_counter j (some (.job (j, s.added j + 1)))
      added := Function.update s.added j (s.added j + 1)
      outstanding := s.outstanding ++ [⟨.job (j, s.added j + 1), [(j, s.added j + 1)]⟩]
      task := Function.update s.task i (.job (j, s.added j + 1)) }
  | _ => none

/-- `dispatcher_group_add` up to its loop. -/
def dispatcher_group_add (jobs : G → List J) (s : State J G ι) (i : ι) (g : G) : Option (State J G ι) :=
  match s.task i with
  | .idle =>
    let counter := if s.group_counter g then s.counters (.group g) else event_counter_create (jobs g).length
    let ts := (jobs g).map fun j => (j, s.added j + 1)
    some { s with
      counters := Function.update s.counters (.group g) (event_counter_init counter (jobs g).length)
      group_counter := Function.update s.group_counter g true
      added := fun j => if j ∈ jobs g then s.added j + 1 else s.added j
      outstanding := s.outstanding ++ [⟨.group g, ts⟩]
      task := Function.update s.task i (.group g 0 ts) }
  | _ => none

/-- `dispatcher_job_wait` up to the wait. A job without a counter fails its assertion. -/
def dispatcher_job_wait (s : State J G ι) (i : ι) (j : J) : Option (State J G ι) :=
  match s.task i, s.job_counter j with
  | .idle, some _ => some { s with task := Function.update s.task i (.wait [(j, s.added j)]) }
  | _, _ => none

/-- `dispatcher_group_wait` up to the wait, which asserts that the group and its
first job have a counter. -/
def dispatcher_group_wait (jobs : G → List J) (s : State J G ι) (i : ι) (g : G) : Option (State J G ι) :=
  match s.task i, s.group_counter g, (jobs g).head?.bind s.job_counter with
  | .idle, true, some _ =>
    some { s with task := Function.update s.task i (.wait ((jobs g).map fun j => (j, s.added j))) }
  | _, _, _ => none

/-- `chanend_job_send` to worker `k`, if there is one. -/
def chanend_job_send (worker_count : Nat) (s : State J G ι) (k : Nat) (t : J × Nat) : Option (State J G ι) :=
  if k < worker_count then
    some { s with isr_chanends := Function.update s.isr_chanends k (s.isr_chanends k ++ [t]) }
  else none

/-- The next step of a task's call. -/
def task_step (worker_count : Nat) (s : State J G ι) (i : ι) : Option (State J G ι) :=
  match s.task i with
  | .idle => none
  | .job t => (chanend_job_send worker_count s 0 t).map fun s => { s with task := Function.update s.task i .idle }
  | .group _ _ [] => some { s with task := Function.update s.task i .idle }
  | .group g k (t :: ts) => some { s with
      job_counter := Function.update s.job_counter t.1 (some (.group g))
      task := Function.update s.task i (.send g k t ts) }
  | .send g k t ts => (chanend_job_send worker_count s k t).map fun s =>
      { s with task := Function.update s.task i (.group g (k + 1) ts) }
  | .wait ts =>
    match s.chanend with
    | 0 => none
    | chanend + 1 => some { s with
        chanend
        outstanding := s.outstanding.filter fun u => ∀ t ∈ ts, t ∉ u.additions
        returned := s.returned ++ ts
        task := Function.update s.task i .idle }

/-- `dispatcher_isr_worker` on worker `k`. -/
def worker_step (worker_count : Nat) (s : State J G ι) (k : Nat) : Option (State J G ι) :=
  if k < worker_count then
    match s.worker k, s.isr_chanends k with
    | .idle, [] => none
    | .idle, t :: ts => some { s with
        isr_chanends := Function.update s.isr_chanends k ts
        worker := Function.update s.worker k (.perform t) }
    | .perform t, _ => some { s with
        performed := s.performed ++ [t], worker := Function.update s.worker k (.signal t) }
    | .signal t, _ => (s.job_counter t.1).map fun c => { s with
        counters := Function.update s.counters c (event_counter_signal (s.counters c)).1
        finished := Function.update s.finished k (s.finished k ++ [t])
        worker := Function.update s.worker k (if (event_counter_signal (s.counters c)).2 then .token else .idle) }
    | .token, _ => some { s with chanend := s.chanend + 1, worker := Function.update s.worker k .idle }
  else none

/-- The groups `jobs`, and this many workers. -/
def isrs (jobs : G → List J) (worker_count : Nat) : Machine (State J G ι) (Act J G ι) where
  init s := s = ⟨fun _ => [], fun _ => .idle, 0, fun _ => event_counter_create 0, fun _ => none, fun _ => false,
    fun _ => .idle, fun _ => 0, [], fun _ => [], [], []⟩
  step s
    | .job_add i j => dispatcher_job_add s i j
    | .group_add i g => dispatcher_group_add jobs s i g
    | .job_wait i j => dispatcher_job_wait s i j
    | .group_wait i g => dispatcher_group_wait jobs s i g
    | .task i => task_step worker_count s i
    | .worker k => worker_step worker_count s k

/-! ## Waiting in turn -/

/-- The addition that a worker is at. -/
def Worker.hand : Worker J → List (J × Nat)
  | .perform t | .signal t => [t]
  | .idle | .token => []

/-- The additions that have been sent to worker `k` and are not finished. -/
def State.pending (s : State J G ι) (k : Nat) : List (J × Nat) := (s.worker k).hand ++ s.isr_chanends k

/-- All additions that have been sent to worker `k`, in order. -/
def State.sent (s : State J G ι) (k : Nat) : List (J × Nat) := s.finished k ++ s.pending k

/-- Every worker that has an addition of `u` gets one of `v` after it. -/
def Behind (s : State J G ι) (u v : Work J G) : Prop :=
  ∀ k t, u.additions[k]? = some t → ∃ t', v.additions[k]? = some t' ∧ (s.sent k).idxOf t < (s.sent k).idxOf t'

/-- Nothing is added again while it is outstanding. -/
def Once (jobs : G → List J) (s : State J G ι) : Act J G ι → Prop
  | .job_add _ j => ∀ u ∈ s.outstanding, ∀ t ∈ u.additions, t.1 ≠ j
  | .group_add _ g => (jobs g).Nodup ∧
      ∀ u ∈ s.outstanding, u.address ≠ .group g ∧ ∀ t ∈ u.additions, t.1 ∉ jobs g
  | _ => True

/-- When a wait takes a token, whatever else is outstanding comes behind. -/
def InTurn (s : State J G ι) : Act J G ι → Prop
  | .task i => ∀ ts, s.task i = .wait ts → ∀ u ∈ s.outstanding, (∃ t ∈ ts, t ∈ u.additions) →
      ∀ v ∈ s.outstanding, v ≠ u → Behind s u v
  | _ => True

instance (s : State J G ι) (u v : Work J G) : Decidable (Behind s u v) :=
  decidable_of_iff (∀ k < u.additions.length, ∀ t ∈ u.additions[k]?, ∃ t' ∈ v.additions[k]?,
      (s.sent k).idxOf t < (s.sent k).idxOf t') <| by
    constructor
    · intro h k t ht
      obtain ⟨t', ht', hlt⟩ := h k (List.getElem?_eq_some_iff.1 ht).1 t ht
      exact ⟨t', ht', hlt⟩
    · intro h k _ t ht
      obtain ⟨t', ht', hlt⟩ := h k t ht
      exact ⟨t', ht', hlt⟩

instance (jobs : G → List J) (s : State J G ι) : ∀ a, Decidable (Once jobs s a)
  | .job_add _ j => inferInstanceAs (Decidable (∀ u ∈ s.outstanding, ∀ t ∈ u.additions, t.1 ≠ j))
  | .group_add _ g => inferInstanceAs (Decidable ((jobs g).Nodup ∧
      ∀ u ∈ s.outstanding, u.address ≠ .group g ∧ ∀ t ∈ u.additions, t.1 ∉ jobs g))
  | .job_wait _ _ | .group_wait _ _ | .task _ | .worker _ => isTrue trivial

def Task.waiting : Task J G → List (J × Nat)
  | .wait ts => ts
  | _ => []

omit [DecidableEq G] [DecidableEq ι] in
theorem inTurn_task_iff {s : State J G ι} {i : ι} :
    (∀ u ∈ s.outstanding, (∃ t ∈ (s.task i).waiting, t ∈ u.additions) →
      ∀ v ∈ s.outstanding, v ≠ u → Behind s u v) ↔ InTurn s (.task i) := by
  constructor
  · intro h ts hi
    rw [hi] at h
    exact h
  · intro h u hu ht
    cases hi : s.task i with
    | wait ts => rw [hi] at ht; exact h ts hi u hu ht
    | idle | job | group | send => rw [hi] at ht; simp [Task.waiting] at ht

instance (s : State J G ι) : ∀ a, Decidable (InTurn s a)
  | .task _ => decidable_of_iff _ inTurn_task_iff
  | .job_add _ _ | .group_add _ _ | .job_wait _ _ | .group_wait _ _ | .worker _ => isTrue trivial

end Isr
end Dispatcher
