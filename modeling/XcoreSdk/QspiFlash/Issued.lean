import XcoreSdk.QspiFlash.Atomic
/-!
# What is performed is what was asked for

A call of a task asks for a request, a read of a client tile's task for those of its
chunks. Each is issued, sent and performed as it was asked for, with the sections that
the task had locked when it made the call.
-/

namespace QspiFlash
namespace Locking
open FreeRtos
variable {ι κ ρ : Type*}

/-! ## The requests of a call -/

def Request.size : Request → Nat
  | .read _ len => len
  | _ => 0

theorem Request.rest_size {r rest : Request} (h : r.rest = some rest) : rest.size < r.size := by
  cases r with
  | read address len =>
    simp only [Request.rest] at h
    split at h
    · rename_i hlt
      cases h
      simp only [Request.size, RTOS_QSPI_FLASH_READ_CHUNK_SIZE] at hlt ⊢
      omega
    · cases h
  | write address data => cases h
  | erase address len => cases h

/-- A read over the RPC, chunk by chunk. -/
def Request.chunks (r : Request) : List Request :=
  match _hrest : r.rest with
  | some rest => r.chunk :: rest.chunks
  | none => [r.chunk]
termination_by r.size
decreasing_by exact Request.rest_size _hrest

theorem Request.chunks_eq (r : Request) : r.chunks = r.chunk :: (r.rest.map Request.chunks).getD [] := by
  rw [Request.chunks]
  split <;> rename_i h <;> rw [h] <;> rfl

def Task.requests : Task ι κ ρ → Request → List Request
  | .host _, r => [r]
  | .client _ _, r => r.chunks

section
variable [DecidableEq ι] [DecidableEq κ] [DecidableEq ρ]

/-- What a task asks for with a step: requests, with the sections that it has locked. -/
def asks (τ : Task ι κ ρ) (s : State ι κ ρ) : Act ι κ ρ → List (Request × List Nat)
  | .call τ' (.op r) => if τ' = τ then (τ.requests r).map fun r => (r, s.sections τ) else []
  | _ => []

/-- What a task asks for in a run. -/
def asked (τ : Task ι κ ρ) : State ι κ ρ → List (Act ι κ ρ) → List (Request × List Nat)
  | _, [] => []
  | s, act :: acts => asks τ s act ++ ((flash.step s act).map fun s' => asked τ s' acts).getD []

end

/-! ## What is still to be issued -/

def Op.ask (o : Op ι κ ρ) : Request × List Nat := (o.request, o.sections)

/-- What a task of a client tile has still to request in its call. -/
def Remote.left : Remote → List Request
  | .get_mutex (.op r) | .call (.op r) => r.chunks
  | .wait (.op r) => (r.rest.map Request.chunks).getD []
  | _ => []

def State.later (s : State ι κ ρ) : Task ι κ ρ → List (Request × List Nat)
  | .host _ => []
  | .client t j => (s.remote t j).left.map fun r => (r, s.sections (.client t j))

section
variable [DecidableEq ι] [DecidableEq κ] [DecidableEq ρ]

/-- All that a task has asked for: what it has sent, what is pending and what is still to be issued. -/
def State.total (s : State ι κ ρ) (τ : Task ι κ ρ) : List (Request × List Nat) :=
  (Log.items Op.stamp s.log τ).map Op.ask ++ s.later τ

variable {s s' : State ι κ ρ} {depth : Actor ι κ → Nat} {act : Act ι κ ρ} {a : Actor ι κ} {i : ι} {t : κ} {j : ρ}
  {τ : Task ι κ ρ}

theorem items_step (h : Held s depth) (ho : Log.Ordered Op.stamp s.log) (hs : flash.step s act = some s') (τ : Task ι κ ρ) :
    Log.items Op.stamp s'.log τ =
      Log.items Op.stamp s.log τ ++ ((s.issues act).filter fun o => o.task = τ).toList := by
  rcases logs_step h hs with ⟨hlog, hnone⟩ | ⟨b, -, hb, hissued⟩
  · rw [hlog, hnone, Option.filter_none, Option.toList_none, List.append_nil]
  · rw [← hissued]
    exact ho.items_step hb τ

/-- A step that neither issues a request nor changes what is left leaves the total. -/
theorem total_same (h : Held s depth) (ho : Log.Ordered Op.stamp s.log) (hs : flash.step s act = some s')
    (hissues : s.issues act = none) (hlater : s'.later τ = s.later τ) : s'.total τ = s.total τ := by
  rw [State.total, items_step h ho hs, hissues, hlater, Option.filter_none, Option.toList_none, List.append_nil]
  rfl

omit [DecidableEq ι] [DecidableEq κ] [DecidableEq ρ] in
theorem later_host (hremote : s'.remote = s.remote) (hsections : ∀ t j, s'.sections (.client t j) = s.sections (.client t j)) :
    s'.later τ = s.later τ := by
  cases τ with
  | host i => rfl
  | client t j => simp only [State.later, hremote, hsections]

/-- A tile's thread changes the sections of a task only that waits for it to lock or to unlock. -/
theorem later_rpc (hremote : s'.remote = s.remote) (hleft : (s.remote t j).left = [])
    (hsections : ∀ τ, τ ≠ .client t j → s'.sections τ = s.sections τ) : s'.later τ = s.later τ := by
  cases τ with
  | host i => rfl
  | client t' j' =>
    by_cases heq : Task.client (ι := ι) t' j' = .client t j
    · cases heq
      simp only [State.later, hremote, hleft, List.map_nil]
    · simp only [State.later, hremote, hsections _ heq]

omit [DecidableEq ι] [DecidableEq κ] [DecidableEq ρ] in
/-- In a lock or an unlock there is nothing left to be requested. -/
theorem Tile.section_call {v : View ι κ ρ} {d : Nat} (h : Tile v t d)
    (hrpc : v.rpc = .lock τ ∨ v.rpc = .unlock τ) : ∃ j, τ = .client t j ∧ (v.remote j).left = [] := by
  obtain ⟨j, count, c, -, -, hr, -, -, -, -, ⟨-, -, hrun⟩ | ⟨-, hrpc'⟩⟩ :=
    h.working (by rcases hrpc with hrpc | hrpc <;> rw [hrpc] <;> nofun)
  · rcases hrpc with hrpc | hrpc <;> rw [hrpc] at hrun <;> cases c <;> first
      | exact ⟨j, hrun, by rw [hr]; rfl⟩
      | exact hrun.elim
  · rcases hrpc with hrpc | hrpc <;> rw [hrpc] at hrpc' <;> cases hrpc'

theorem later_sections {xs : List Nat} (h : Held s depth) (hpc : s.actor a = .lock τ' ∨ s.actor a = .unlock τ')
    (hremote : s'.remote = s.remote) (hsections : s'.sections = Function.update s.sections τ' xs) :
    s'.later τ = s.later τ := by
  cases a with
  | host i =>
    have htask : τ' = .host i := by
      have hof := (h.hosts i).1
      rcases hpc with hpc | hpc <;> rw [hpc] at hof
      · exact hof
      · exact hof.1
    subst htask
    exact later_host hremote fun t j => by rw [hsections, Function.update_of_ne (by simp)]
  | rpc t =>
    obtain ⟨j, rfl, hleft⟩ := (h.tiles t).section_call hpc
    exact later_rpc hremote hleft fun τ hτ => by rw [hsections, Function.update_of_ne hτ]

theorem later_actor (h : Held s depth) (hs : actor_step s a = some s') : s'.later τ = s.later τ := by
  unfold actor_step at hs
  split at hs
  · split at hs
    · cases hs
    · obtain ⟨_, -, rfl⟩ := Option.map_eq_some_iff.1 hs
      exact later_host rfl fun _ _ => rfl
  · rename_i hpc
    obtain ⟨_, -, rfl⟩ := Option.map_eq_some_iff.1 hs
    exact later_sections h (.inl hpc) rfl rfl
  · rename_i hpc
    cases hs
    exact later_sections h (.inr hpc) rfl rfl
  · obtain ⟨_, -, rfl⟩ := Option.map_eq_some_iff.1 hs
    exact later_host rfl fun _ _ => rfl
  · obtain ⟨_, -, rfl⟩ := Option.map_eq_some_iff.1 hs
    exact later_host rfl fun _ _ => rfl
  · cases hs
    exact later_host rfl fun _ _ => rfl
  · obtain ⟨_, -, rfl⟩ := Option.map_eq_some_iff.1 hs
    exact later_host rfl fun _ _ => rfl
  · split at hs
    · cases hs
    · cases hs
      exact later_host rfl fun _ _ => rfl

/-- A task of a client tile is somewhere else in its call. -/
theorem later_goto {pc : Remote} (hremote : s'.remote = Function.update s.remote t (Function.update (s.remote t) j pc))
    (hsections : s'.sections = s.sections) :
    s'.later τ = if τ = .client t j then pc.left.map fun r => (r, s.sections τ) else s.later τ := by
  cases τ with
  | host i => simp [State.later]
  | client t' j' =>
    simp only [State.later, hremote, hsections]
    by_cases ht : t' = t
    · subst ht
      by_cases hj : j' = j
      · subst hj
        simp
      · simp [hj]
    · simp [ht]

/-- A task that is somewhere else in its call, with the same left to be requested. -/
theorem later_goto_same {pc : Remote}
    (hremote : s'.remote = Function.update s.remote t (Function.update (s.remote t) j pc))
    (hsections : s'.sections = s.sections) (hleft : pc.left = (s.remote t j).left) : s'.later τ = s.later τ := by
  rw [later_goto hremote hsections]
  split
  · rename_i heq
    rw [heq, hleft]
    rfl
  · rfl

theorem Call.answered_left (c : Call) : c.answered.left = (Remote.wait c).left := by
  cases c with
  | op r =>
    simp only [Call.answered, Remote.left]
    cases r.rest <;> rfl
  | _ => rfl

theorem total_call {c : Call} {τ' : Task ι κ ρ} (h : Held s depth) (ho : Log.Ordered Op.stamp s.log)
    (hs : flash.step s (.call τ' c) = some s') (τ : Task ι κ ρ) : s'.total τ = s.total τ ++ asks τ s (.call τ' c) := by
  have hitems := items_step h ho hs τ
  have hcall : start_call s τ' c = some s' := hs
  cases τ' with
  | host i =>
    simp only [start_call] at hcall
    split at hcall
    case isFalse => cases hcall
    cases c with
    | lock | unlock =>
      cases hcall
      exact (total_same h ho hs rfl (later_host rfl fun _ _ => rfl)).trans (List.append_nil _).symm
    | op r =>
      cases hcall
      have hlater : State.later ((s.count (.host i)).goto (.host i) (.get_mutex (s.issue (.host i) r))) τ = s.later τ :=
        later_host rfl fun _ _ => rfl
      rw [State.total, hitems, hlater, asks]
      by_cases hτ : Task.host i = τ
      · subst hτ
        simp [State.total, State.issues, State.issue, State.later, Op.ask, Task.requests, Option.filter]
      · simp [State.total, State.issues, State.issue, hτ, Option.filter]
  | client t j =>
    simp only [start_call] at hcall
    split at hcall
    case isFalse => cases hcall
    rename_i hidle
    have hnone : (s.remote t j).left = [] := by
      rw [hidle]
      rfl
    cases c with
    | lock | unlock =>
      cases hcall
      exact (total_same h ho hs rfl (later_goto_same rfl rfl hnone.symm)).trans (List.append_nil _).symm
    | op r =>
      have hmoved : s'.remote = Function.update s.remote t (Function.update (s.remote t) j (.get_mutex (.op r))) := by
        rw [← Option.some.inj hcall]
        rfl
      have hsections : s'.sections = s.sections := by
        rw [← Option.some.inj hcall]
        rfl
      rw [State.total, hitems, later_goto hmoved hsections, asks]
      by_cases hτ : τ = .client t j
      · subst hτ
        simp [State.total, State.issues, State.later, hidle, Task.requests, Remote.left]
      · simp [State.total, State.issues, hτ, Ne.symm hτ]

theorem total_remote (h : Held s depth) (ho : Log.Ordered Op.stamp s.log)
    (hs : flash.step s (.remote t j) = some s') (τ : Task ι κ ρ) : s'.total τ = s.total τ := by
  have hitems := items_step h ho hs τ
  have hremote : remote_step s t j = some s' := hs
  unfold remote_step at hremote
  cases hpc : s.remote t j with
  | idle => rw [hpc] at hremote; cases hremote
  | get_mutex c =>
    rw [hpc] at hremote
    obtain ⟨_, -, rfl⟩ := Option.map_eq_some_iff.1 hremote
    refine total_same h ho hs (by simp [State.issues, hpc]) (later_goto_same rfl rfl ?_)
    rw [hpc]
    cases c <;> rfl
  | wait c =>
    rw [hpc] at hremote
    obtain ⟨_, -, rfl⟩ := Option.map_eq_some_iff.1 hremote
    refine total_same h ho hs (by simp [State.issues, hpc]) (later_goto_same rfl rfl ?_)
    rw [hpc]
    exact c.answered_left
  | put_mutex =>
    rw [hpc] at hremote
    cases hremote
    refine total_same h ho hs (by simp [State.issues, hpc]) (later_goto_same rfl rfl ?_)
    rw [hpc]
    rfl
  | call c =>
    rw [hpc] at hremote
    have hmoved : s'.remote = Function.update s.remote t (Function.update (s.remote t) j (.wait c)) := by
      rw [← Option.some.inj hremote]
      rfl
    have hsections : s'.sections = s.sections := by
      rw [← Option.some.inj hremote]
      rfl
    cases c with
    | lock | unlock =>
      refine total_same h ho hs (by simp [State.issues, hpc]) (later_goto_same hmoved hsections ?_)
      rw [hpc]
      rfl
    | op r =>
      -- the chunk that is issued was the first of what was left
      rw [State.total, hitems, later_goto hmoved hsections]
      by_cases hτ : τ = .client t j
      · subst hτ
        simp [State.total, State.issues, State.issue, State.later, hpc, Remote.left, Op.ask, Option.filter, r.chunks_eq]
      · simp [State.total, State.issues, State.issue, hpc, hτ, Ne.symm hτ, Option.filter]

/-- A step adds to a task's total what the task asks for. -/
theorem total_step (h : Held s depth) (ho : Log.Ordered Op.stamp s.log) (hs : flash.step s act = some s') (τ : Task ι κ ρ) :
    s'.total τ = s.total τ ++ asks τ s act := by
  cases act with
  | thread =>
    have hlater : s'.later τ = s.later τ := by
      have hs : qspi_flash_op_thread s = some s' := hs
      unfold qspi_flash_op_thread at hs
      split at hs
      · obtain ⟨_, -, rfl⟩ := Option.map_eq_some_iff.1 hs
        exact later_host rfl fun _ _ => rfl
      · cases hs
        exact later_host rfl fun _ _ => rfl
      · cases hs
        exact later_host rfl fun _ _ => rfl
    exact (total_same h ho hs rfl hlater).trans (List.append_nil _).symm
  | actor a => exact (total_same h ho hs rfl (later_actor h hs)).trans (List.append_nil _).symm
  | call τ' c => exact total_call h ho hs τ
  | remote t j => exact (total_remote h ho hs τ).trans (List.append_nil _).symm

/-- In a run every task's total is what it has asked for. -/
theorem total_run {acts : List (Act ι κ ρ)} (hreach : flash.Reachable Allowed s) (hr : flash.Run Allowed s acts s')
    (τ : Task ι κ ρ) : s'.total τ = s.total τ ++ asked τ s acts := by
  induction hr with
  | nil => exact (List.append_nil _).symm
  | @cons s t s' act acts hallowed hs hr ih =>
    obtain ⟨depth, h⟩ := held_reachable hreach
    obtain ⟨hordered, -⟩ := Log.ordered_sectioned (log_reachable hreach)
    rw [ih (hreach.step hallowed hs), total_step h hordered hs, asked, hs, List.append_assoc]
    rfl

/-! ## Performed -/

/-- A task has returned from its calls. -/
def State.returned (s : State ι κ ρ) : Task ι κ ρ → Prop
  | .host i => s.actor (.host i) = .idle
  | .client t j => s.remote t j = .idle

instance (s : State ι κ ρ) : ∀ τ, Decidable (s.returned τ)
  | .host i => inferInstanceAs (Decidable (s.actor (.host i) = .idle))
  | .client t j => inferInstanceAs (Decidable (s.remote t j = .idle))

/-- What has been performed is what the tasks asked for, with the sections that they had locked. -/
structure Performed (s₀ : State ι κ ρ) (acts : List (Act ι κ ρ)) (s : State ι κ ρ) : Prop where
  /-- Of a section it stands in one piece and is of one task. -/
  contiguous : ∀ x, Contiguous (fun o => x ∈ o.sections) s.executed
  same : ∀ x, ∀ o ∈ s.executed, ∀ o' ∈ s.executed, x ∈ o.sections → x ∈ o'.sections → o.task = o'.task
  numbers : ∀ τ, (s.executed.filter (·.task = τ)).map (·.number) <+: List.range' 1 (s.issued τ)
  /-- Of a task it is what it asked for first. -/
  asked : ∀ τ, (s.executed.filter (·.task = τ)).map Op.ask <+: asked τ s₀ acts
  /-- When the operation thread has nothing to do, it is all that the tasks have asked for with the calls that have returned. -/
  all : qspi_flash_op_thread s = none → ∀ τ, s.returned τ →
    (s.executed.filter (·.task = τ)).map Op.ask = Locking.asked τ s₀ acts

omit [DecidableEq ι] [DecidableEq κ] [DecidableEq ρ] in
/-- The operation thread waits only for requests. -/
theorem Queued.waits (h : Queued s) (hthread : qspi_flash_op_thread s = none) : s.sent = s.executed := by
  unfold qspi_flash_op_thread at hthread
  split at hthread
  · rename_i hpc
    have hqueue : s.op_queue = [] := by
      cases hq : s.op_queue with
      | nil => rfl
      | cons => simp [hq, rtos_osal_queue_receive] at hthread
    simpa [Queued, hpc, hqueue, Thread.performs] using h
  · cases hthread
  · cases hthread

/-- A task that has returned has nothing left to send. -/
theorem Held.returned (h : Held s depth) (hτ : s.returned τ) : s.unsent τ = none ∧ s.later τ = [] := by
  cases τ with
  | host i =>
    have hidle : s.actor (.host i) = .idle := hτ
    exact ⟨by simp [State.unsent, hidle, Local.unsent], rfl⟩
  | client t j =>
    have hidle : s.remote t j = .idle := hτ
    refine ⟨Option.filter_eq_none_iff.2 fun o ho => ?_, by simp [State.later, hidle, Remote.left]⟩
    -- what is pending on the tile is of a task that is in its call
    obtain ⟨j', count, htask, hmutex, -⟩ := (h.tiles t).unsent ho
    rw [decide_eq_true_iff, htask]
    intro heq
    obtain rfl : j' = j := (Task.client.inj heq).2
    cases h.tiles t with
    | free hm =>
      rw [hm] at hmutex
      cases hmutex
    | held j'' count' hm _ hown =>
      rw [hm] at hmutex
      cases hmutex
      obtain ⟨-, -, hquiet⟩ := hown.between (.inl hidle)
      rw [hquiet.unsent] at ho
      cases ho

/-- What tasks request within their sections is performed in one piece, and all of it as they asked for it. -/
theorem sections_atomic {s₀ : State ι κ ρ} {acts : List (Act ι κ ρ)} (h0 : flash.init s₀)
    (hr : flash.Run Allowed s₀ acts s) : Performed s₀ acts s := by
  have h : flash.Reachable Allowed s := ⟨s₀, acts, h0, hr⟩
  obtain ⟨hordered, hsectioned⟩ := Log.ordered_sectioned (log_reachable h)
  have hqueued := queued_reachable h
  have hsent : s.sent = s.executed ++ (s.thread.performs ++ s.op_queue) := by
    rw [← List.append_assoc]
    exact hqueued
  have hmem : ∀ {o}, o ∈ s.executed → o ∈ s.sent := fun ho => hsent ▸ List.mem_append_left _ ho
  have htotal : ∀ τ, s.total τ = asked τ s₀ acts := by
    intro τ
    have hzero : s₀.total τ = [] := by
      obtain rfl : s₀ = _ := h0
      cases τ <;> rfl
    rw [total_run (.init h0) hr τ, hzero, List.nil_append]
  refine ⟨fun x => ?_, fun x o ho o' ho' => hsectioned.same x o (hmem ho) o' (hmem ho'), fun τ => ?_, fun τ => ?_,
    fun hthread τ hτ => ?_⟩
  · have hcontiguous : Contiguous (fun o : Op ι κ ρ => x ∈ o.sections) s.sent := hsectioned.contiguous x
    rw [hsent] at hcontiguous
    exact hcontiguous.of_append
  · have hnumbers : Log.numbers Op.stamp τ (s.sent ++ (s.unsent τ).toList) = List.range' 1 (s.issued τ) :=
      hordered.numbers τ
    rw [hsent, List.append_assoc, Log.numbers_append] at hnumbers
    exact ⟨_, hnumbers⟩
  · rw [← htotal τ]
    refine ⟨((s.thread.performs ++ s.op_queue).filter (·.task = τ)).map Op.ask ++ (s.unsent τ).toList.map Op.ask ++ s.later τ, ?_⟩
    simp only [State.total, Log.items, State.log, hsent, List.filter_append, List.map_append, List.append_assoc]
    rfl
  · obtain ⟨depth, hheld⟩ := held_reachable h
    obtain ⟨hunsent, hlater⟩ := hheld.returned hτ
    rw [← htotal τ]
    simp only [State.total, Log.items, State.log, hqueued.waits hthread, hunsent, hlater, Option.toList_none, List.append_nil]
    rfl

/-- One call of a task of the client tile that does not have to wait. -/
def whole_call (c : Call) (first last : List (Act Unit Unit Unit)) : List (Act Unit Unit Unit) :=
  Act.call (.client () ()) c :: first ++ [Act.remote () ()] ++ Act.actor (.rpc ()) :: last ++
    [Act.actor (.rpc ()), Act.remote () ()]

/-- A task of the host's tile erases between a write and a read of the other tile's, but it has to wait. The read is
of two chunks. -/
def interleaved : List (Act Unit Unit Unit) :=
  List.flatten [
    whole_call .lock [.remote () ()] [.actor (.rpc ())],
    whole_call (.op (.write 0 [1])) [.remote () ()] (List.replicate 3 (.actor (.rpc ()))),
    [.remote () (), .call (.host ()) (.op (.erase 0 4096))],
    whole_call (.op (.read 0 24577)) [.remote () ()]
      (List.replicate 3 (.actor (.rpc ())) ++ List.replicate 5 .thread ++ [.actor (.rpc ())]),
    [.remote () ()], List.replicate 4 (.actor (.rpc ())), List.replicate 3 .thread,
    List.replicate 2 (.actor (.rpc ())), List.replicate 2 (.remote () ()),
    whole_call .unlock [] [.actor (.rpc ())], [.remote () ()],
    List.replicate 3 (.actor (.host ())), List.replicate 2 .thread]

def unlocked : State Unit Unit Unit :=
  ⟨none, [], 0, .receive, fun _ => .idle, fun _ => none, fun _ _ => .idle, fun _ => [], fun _ => 0, fun _ => [], 0,
    fun _ => 0, [], []⟩

/-- The erase comes after the read, and both tasks have got what they asked for. -/
theorem sections_atomic_chunks : ∃ s, flash.Run Allowed unlocked interleaved s ∧
    s.executed.map (fun o => (o.task, o.ask)) = [(.client () (), .write 0 [1], [0]), (.client () (), .read 0 24576, [0]),
      (.client () (), .read 24576 1, [0]), (.host (), .erase 0 4096, [])] ∧ Performed unlocked interleaved s ∧
    asked (.client () ()) unlocked interleaved = [(.write 0 [1], [0]), (.read 0 24576, [0]), (.read 24576 1, [0])] ∧
    asked (.host ()) unlocked interleaved = [(.erase 0 4096, [])] := by
  have hrun : (flash.exec Allowed unlocked interleaved).map (fun s => (s.executed, (qspi_flash_op_thread s).isNone,
      decide (s.returned (.host ())), decide (s.returned (.client () ())))) =
      some ([⟨.write 0 [1], .client () (), 1, [0]⟩, ⟨.read 0 24576, .client () (), 2, [0]⟩,
        ⟨.read 24576 1, .client () (), 3, [0]⟩, ⟨.erase 0 4096, .host (), 1, []⟩], true, true, true) := by decide +kernel
  obtain ⟨s, hs, hobs⟩ := Option.map_eq_some_iff.1 hrun
  simp only [Prod.mk.injEq, Option.isNone_iff_eq_none, decide_eq_true_eq] at hobs
  obtain ⟨hexecuted, hthread, hhost, hclient⟩ := hobs
  have hp : Performed unlocked interleaved s := sections_atomic rfl (Machine.exec_run hs)
  refine ⟨s, Machine.exec_run hs, by rw [hexecuted]; rfl, hp, ?_, ?_⟩
  · rw [← hp.all hthread _ hclient, hexecuted]
    rfl
  · rw [← hp.all hthread _ hhost, hexecuted]
    rfl

end
end Locking
end QspiFlash
