import XcoreSdk.FreeRtos.Osal
import XcoreSdk.Lib.Machine
/-!
# The dispatcher in thread mode

Tasks add jobs and groups of jobs and wait for them; worker threads take the
jobs from a queue, perform them and signal their event counters. One step is
one access to what the threads share: the queue, a counter, its semaphore, a
job's pointer to its counter.

An addition of a job is the job and the number of times it has been added. The
code knows the job only; the numbers tell its additions apart.
-/

namespace Dispatcher
open FreeRtos

structure EventCounter where
  count : Nat
  /-- The count of its semaphore, which is created with maximum 1 and initial count 0. -/
  semaphore : Nat
deriving DecidableEq, Repr

def event_counter_create (count : Nat) : EventCounter := ⟨count, 0⟩

def event_counter_init (counter : EventCounter) (count : Nat) : EventCounter := { counter with count }

/-- The guarded part of `event_counter_signal`, and whether the semaphore is to be put. -/
def event_counter_signal (counter : EventCounter) : EventCounter × Bool :=
  if 0 < counter.count then ({ counter with count := counter.count - 1 }, counter.count - 1 = 0)
  else (counter, false)

variable {J G ι κ : Type*} [DecidableEq J] [DecidableEq G] [DecidableEq ι] [DecidableEq κ]

/-- An event counter's address: each addition of a job by itself creates a new
counter, and a group creates one when it is first added. -/
inductive Address (J G : Type*)
  | job (t : J × Nat)
  | group (g : G)
deriving DecidableEq

/-- Where a task is. The additions are those of the `for` loop that are left. -/
inductive Task (J G : Type*)
  | idle
  /-- `dispatcher_job_add` before its send. -/
  | job (t : J × Nat)
  /-- `dispatcher_group_add` at the head of its loop. -/
  | group (g : G) (ts : List (J × Nat))
  /-- `dispatcher_group_add` before its send. -/
  | send (g : G) (t : J × Nat) (ts : List (J × Nat))
  /-- `event_counter_wait`, for the sake of these additions. -/
  | wait (c : Address J G) (ts : List (J × Nat))

/-- Where a worker thread is. -/
inductive Worker (J G : Type*)
  | receive
  | perform (t : J × Nat)
  | signal (t : J × Nat)
  /-- `event_counter_signal` before it puts the semaphore. -/
  | put (c : Address J G)
deriving DecidableEq

structure Threads (J G ι κ : Type*) where
  queue : List (J × Nat)
  counters : Address J G → EventCounter
  /-- `job->event_counter`. -/
  job_counter : J → Option (Address J G)
  /-- Whether `group->event_counter` is set. -/
  group_counter : G → Bool
  task : ι → Task J G
  worker : κ → Worker J G
  /-- How often each job has been added. -/
  added : J → Nat
  /-- The groups that have been added and not been waited on since. -/
  outstanding : G → Bool
  /-- The additions that have been performed, and signalled, in order. -/
  performed : List (J × Nat)
  signalled : List (J × Nat)
  /-- The additions for whose sake a wait has returned. -/
  returned : List (J × Nat)

inductive Act (J G ι κ : Type*)
  | job_add (i : ι) (j : J)
  | group_add (i : ι) (g : G)
  | job_wait (i : ι) (j : J)
  | group_wait (i : ι) (g : G)
  /-- A task goes on with its call. -/
  | task (i : ι)
  | worker (k : κ)
deriving DecidableEq

/-- The last additions of a group's jobs. -/
def last (jobs : G → List J) (s : Threads J G ι κ) (g : G) : List (J × Nat) := (jobs g).map fun j => (j, s.added j)

def dispatcher_job_add (s : Threads J G ι κ) (i : ι) (j : J) : Option (Threads J G ι κ) :=
  match s.task i with
  | .idle => some { s with
      counters := Function.update s.counters (.job (j, s.added j + 1)) (event_counter_create 1)
      job_counter := Function.update s.job_counter j (some (.job (j, s.added j + 1)))
      added := Function.update s.added j (s.added j + 1)
      task := Function.update s.task i (.job (j, s.added j + 1)) }
  | _ => none

/-- `dispatcher_group_add` up to its loop. -/
def dispatcher_group_add (jobs : G → List J) (s : Threads J G ι κ) (i : ι) (g : G) : Option (Threads J G ι κ) :=
  match s.task i with
  | .idle =>
    let counter := if s.group_counter g then s.counters (.group g) else event_counter_create (jobs g).length
    some { s with
      counters := Function.update s.counters (.group g) (event_counter_init counter (jobs g).length)
      group_counter := Function.update s.group_counter g true
      added := fun j => if j ∈ jobs g then s.added j + 1 else s.added j
      outstanding := Function.update s.outstanding g (!(jobs g).isEmpty)
      task := Function.update s.task i (.group g ((jobs g).map fun j => (j, s.added j + 1))) }
  | _ => none

/-- `dispatcher_job_wait` up to the wait. A job without a counter fails its assertion. -/
def dispatcher_job_wait (s : Threads J G ι κ) (i : ι) (j : J) : Option (Threads J G ι κ) :=
  match s.task i, s.job_counter j with
  | .idle, some c => some { s with task := Function.update s.task i (.wait c [(j, s.added j)]) }
  | _, _ => none

/-- `dispatcher_group_wait` up to the wait, on the counter of the group's first job. -/
def dispatcher_group_wait (jobs : G → List J) (s : Threads J G ι κ) (i : ι) (g : G) : Option (Threads J G ι κ) :=
  match s.task i, s.group_counter g, (jobs g).head?.bind s.job_counter with
  | .idle, true, some c => some { s with task := Function.update s.task i (.wait c (last jobs s g)) }
  | _, _, _ => none

/-- The groups that are outstanding after a wait on this counter. -/
def waited (outstanding : G → Bool) : Address J G → G → Bool
  | .job _ => outstanding
  | .group g => Function.update outstanding g false

/-- The next step of a task's call. -/
def task_step (length : Nat) (s : Threads J G ι κ) (i : ι) : Option (Threads J G ι κ) :=
  match s.task i with
  | .idle => none
  | .job t => (rtos_osal_queue_send length s.queue t).map fun queue =>
      { s with queue, task := Function.update s.task i .idle }
  | .group _ [] => some { s with task := Function.update s.task i .idle }
  | .group g (t :: ts) => some { s with
      job_counter := Function.update s.job_counter t.1 (some (.group g))
      task := Function.update s.task i (.send g t ts) }
  | .send g t ts => (rtos_osal_queue_send length s.queue t).map fun queue =>
      { s with queue, task := Function.update s.task i (.group g ts) }
  | .wait c ts => (rtos_osal_semaphore_get (s.counters c).semaphore).map fun semaphore => { s with
      counters := Function.update s.counters c { s.counters c with semaphore }
      outstanding := waited s.outstanding c
      returned := s.returned ++ ts
      task := Function.update s.task i .idle }

/-- `dispatcher_thread_worker`. -/
def worker_step (s : Threads J G ι κ) (k : κ) : Option (Threads J G ι κ) :=
  match s.worker k with
  | .receive => (rtos_osal_queue_receive s.queue).map fun (t, queue) =>
      { s with queue, worker := Function.update s.worker k (.perform t) }
  | .perform t => some { s with
      performed := s.performed ++ [t], worker := Function.update s.worker k (.signal t) }
  | .signal t => (s.job_counter t.1).map fun c => { s with
      counters := Function.update s.counters c (event_counter_signal (s.counters c)).1
      signalled := s.signalled ++ [t]
      worker := Function.update s.worker k (if (event_counter_signal (s.counters c)).2 then .put c else .receive) }
  | .put c => some { s with
      counters := Function.update s.counters c
        { s.counters c with semaphore := rtos_osal_semaphore_put 1 (s.counters c).semaphore }
      worker := Function.update s.worker k .receive }

/-- The groups `jobs`, and a queue of this length. -/
def threads (jobs : G → List J) (length : Nat) : Machine (Threads J G ι κ) (Act J G ι κ) where
  init s := s = ⟨[], fun _ => event_counter_create 0, fun _ => none, fun _ => false, fun _ => .idle, fun _ => .receive,
    fun _ => 0, fun _ => false, [], [], []⟩
  step s
    | .job_add i j => dispatcher_job_add s i j
    | .group_add i g => dispatcher_group_add jobs s i g
    | .job_wait i j => dispatcher_job_wait s i j
    | .group_wait i g => dispatcher_group_wait jobs s i g
    | .task i => task_step length s i
    | .worker k => worker_step s k

/-- All additions of the job so far have been performed and signalled. -/
def Settled (s : Threads J G ι κ) (j : J) : Prop := s.added j = 0 ∨ (j, s.added j) ∈ s.signalled

/-- A job is added by itself or with one group only, and not again before its
last addition is finished; a group is not added again before it has been
waited on. -/
def Once (jobs : G → List J) (s : Threads J G ι κ) : Act J G ι κ → Prop
  | .job_add _ j => Settled s j ∧ ∀ g, s.job_counter j ≠ some (.group g)
  | .group_add _ g => s.outstanding g = false ∧ (jobs g).Nodup ∧
      ∀ j ∈ jobs g, Settled s j ∧ (s.job_counter j = none ∨ s.job_counter j = some (.group g))
  | _ => True

end Dispatcher
