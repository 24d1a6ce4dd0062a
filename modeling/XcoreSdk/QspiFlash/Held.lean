import XcoreSdk.QspiFlash.Sections
/-!
# The QSPI flash driver's lock in every state

Every step of a task, of a thread that serves a client tile and of the operation
thread keeps what is known of the mutexes: how often each of them is held
follows from where everyone is and from the sections that are open (`Held`).
-/

namespace QspiFlash
namespace Locking
open FreeRtos
variable {ι κ ρ : Type*} {s s' : State ι κ ρ} {depth : Actor ι κ → Nat} {t : κ} {j : ρ}

/-- A task of the host's tile does what it does for itself. -/
def Local.OfHost (i : ι) (sections : List Nat) : Local ι κ ρ → Prop
  | .idle | .wait => True
  | .respond => False
  | .lock τ => τ = .host i
  | .unlock τ => τ = .host i ∧ sections ≠ []
  | .get_mutex o | .send o | .put_mutex o => o.task = .host i

structure Held (s : State ι κ ρ) (depth : Actor ι κ → Nat) : Prop where
  mutexed : Mutexed s depth
  hosts : ∀ i, (s.actor (.host i)).OfHost i (s.sections (.host i)) ∧ depth (.host i) = (s.sections (.host i)).length
  tiles : ∀ t, Tile (s.view t) t (depth (.rpc t))

section
variable [DecidableEq ι] [DecidableEq κ] [DecidableEq ρ] {i : ι}

omit [DecidableEq ρ] in
/-- Something has changed for one task of the host's tile. -/
theorem Held.of_host {n : Nat} (h : Held s depth) (i : ι) (hm : Mutexed s' (Function.update depth (.host i) n))
    (hi : (s'.actor (.host i)).OfHost i (s'.sections (.host i)) ∧ n = (s'.sections (.host i)).length)
    (hhosts : ∀ i', i' ≠ i → s'.actor (.host i') = s.actor (.host i') ∧ s'.sections (.host i') = s.sections (.host i'))
    (hview : ∀ t, s'.view t = s.view t) : Held s' (Function.update depth (.host i) n) where
  mutexed := hm
  hosts i' := by
    by_cases hii : i' = i
    · subst hii
      rw [Function.update_self]
      exact hi
    · rw [(hhosts i' hii).1, (hhosts i' hii).2, Function.update_of_ne (by simpa using hii)]
      exact h.hosts i'
  tiles t := by
    rw [hview, Function.update_of_ne (by simp)]
    exact h.tiles t

omit [DecidableEq ρ] in
/-- Something has changed for a client tile. -/
theorem Held.of_rpc {n : Nat} (h : Held s depth) (t : κ) (hm : Mutexed s' (Function.update depth (.rpc t) n))
    (ht : Tile (s'.view t) t n) (hview : ∀ t', t' ≠ t → s'.view t' = s.view t')
    (hhosts : ∀ i, s'.actor (.host i) = s.actor (.host i) ∧ s'.sections (.host i) = s.sections (.host i)) :
    Held s' (Function.update depth (.rpc t) n) where
  mutexed := hm
  hosts i := by
    rw [(hhosts i).1, (hhosts i).2, Function.update_of_ne (by simp)]
    exact h.hosts i
  tiles t' := by
    by_cases htt : t' = t
    · subst htt
      rw [Function.update_self]
      exact ht
    · rw [hview t' htt, Function.update_of_ne (by simpa using htt)]
      exact h.tiles t'

omit [DecidableEq ρ] in
/-- A step that leaves the mutex and what holds it alone. -/
theorem Mutexed.goto {pc : Local ι κ ρ} (h : Mutexed s depth) (hm : s'.mutex = s.mutex)
    (hactor : s'.actor = Function.update s.actor a pc) (hcrit : pc.crit = (s.actor a).crit) :
    Mutexed s' (Function.update depth a (depth a)) := by
  refine h.frame hm (fun a' => by rw [Function.update_eq_self]) fun a' => ?_
  rw [hactor, Function.update_apply]
  split
  · rename_i heq
    rw [hcrit, heq]
  · rfl

theorem Held.start_call {τ : Task ι κ ρ} {c : Call} (h : Held s depth) (hallowed : c = .unlock → s.sections τ ≠ [])
    (hs : start_call s τ c = some s') : ∃ depth', Held s' depth' := by
  cases τ with
  | host i =>
    simp only [Locking.start_call] at hs
    split at hs
    case isFalse => cases hs
    rename_i hidle
    have hd := (h.hosts i).2
    have hcrit : (s.actor (.host i)).crit = 0 := by rw [hidle]; rfl
    cases c with
    | lock =>
      cases hs
      exact ⟨_, h.of_host i (h.mutexed.goto rfl rfl (by rw [hcrit]; rfl)) ⟨by simp [State.goto, Local.OfHost], hd⟩
        (fun i' hi' => by simp [State.goto, hi']) fun t => by simp [State.view, State.goto]⟩
    | unlock =>
      cases hs
      exact ⟨_, h.of_host i (h.mutexed.goto rfl rfl (by rw [hcrit]; rfl))
        ⟨by simpa [State.goto, Local.OfHost] using hallowed rfl, hd⟩
        (fun i' hi' => by simp [State.goto, hi']) fun t => by simp [State.view, State.goto]⟩
    | op r =>
      cases hs
      exact ⟨_, h.of_host i (h.mutexed.goto rfl rfl (by rw [hcrit]; rfl))
        ⟨by simp [State.goto, Local.OfHost, State.issue], hd⟩
        (fun i' hi' => by simp [State.goto, State.count, hi']) fun t => by simp [State.view, State.goto, State.count]⟩
  | client t j =>
    simp only [Locking.start_call] at hs
    split at hs
    case isFalse => cases hs
    rename_i hidle
    have hout : ((s.view t).remote j).Outside := by simp [State.view, hidle, Remote.Outside]
    have hself : ∀ pc, (s.remote_goto t j pc).view t = { s.view t with remote := Function.update (s.view t).remote j pc } :=
      fun pc => by simp [State.view, State.remote_goto]
    have hother : ∀ pc t', t' ≠ t → (s.remote_goto t j pc).view t' = s.view t' := fun pc t' ht' => by
      simp [State.view, State.remote_goto, ht']
    have hm : ∀ pc, Mutexed (s.remote_goto t j pc) (Function.update depth (.rpc t) (depth (.rpc t))) := fun pc =>
      h.mutexed.frame rfl (fun a => by rw [Function.update_eq_self]) fun _ => rfl
    have hstart : ∀ pc, pc.Outside → ∃ depth', Held (s.remote_goto t j pc) depth' := fun pc hpc =>
      ⟨_, h.of_rpc t (hm pc) (hself pc ▸ (h.tiles t).outside hout hpc) (hother pc) fun _ => ⟨rfl, rfl⟩⟩
    cases c with
    | lock =>
      cases hs
      exact hstart (.get_mutex .lock) (by simp [Remote.Outside])
    | unlock =>
      cases hs
      exact ⟨_, h.of_rpc t (hm _) (hself _ ▸ (h.tiles t).start_unlock hidle (hallowed rfl)) (hother _) fun _ => ⟨rfl, rfl⟩⟩
    | op r =>
      cases hs
      exact hstart (.get_mutex (.op r)) (by simp [Remote.Outside])

theorem Held.host_step (h : Held s depth) (hs : actor_step s (.host i) = some s') : ∃ depth', Held s' depth' := by
  obtain ⟨hof, hd⟩ := h.hosts i
  unfold actor_step at hs
  cases hpc : s.actor (.host i) with
  | idle => rw [hpc] at hs; cases hs
  | respond => rw [hpc] at hs; cases hs
  | lock τ =>
    rw [hpc] at hs hof
    obtain rfl : τ = .host i := hof
    obtain ⟨mutex, hget, rfl⟩ := Option.map_eq_some_iff.1 hs
    refine ⟨_, h.of_host (n := depth (.host i) + 1) i (h.mutexed.get hget rfl ?_ ?_ ?_) ⟨?_, ?_⟩ (fun i' hi' => ?_) fun t => ?_⟩
    · simp [State.goto, hpc, Actor.returned, Local.crit]
    · intro a ha
      simp [ha]
    · intro a ha
      simp [State.goto, ha]
    · simp [State.goto, Actor.returned, Local.OfHost]
    · simp [State.goto, hd]
    · simp [State.goto, hi']
    · simp [State.view, State.goto]
  | unlock τ =>
    rw [hpc] at hs hof
    obtain ⟨rfl, hne⟩ : τ = .host i ∧ s.sections (.host i) ≠ [] := hof
    cases hs
    have hpos := List.length_pos_of_ne_nil hne
    refine ⟨_, h.of_host (n := depth (.host i) - 1) i (h.mutexed.put (a := .host i) ?_ rfl ?_ ?_ ?_) ⟨?_, ?_⟩
      (fun i' hi' => ?_) fun t => ?_⟩
    · omega
    · simp only [State.goto, Function.update_self, Actor.returned, Local.crit, hpc]
      omega
    · intro a ha
      simp [ha]
    · intro a ha
      simp [State.goto, ha]
    · simp [State.goto, Actor.returned, Local.OfHost]
    · simp [State.goto, hd]
    · simp [State.goto, hi']
    · simp [State.view, State.goto]
  | get_mutex o =>
    rw [hpc] at hs hof
    obtain ⟨mutex, hget, rfl⟩ := Option.map_eq_some_iff.1 hs
    refine ⟨_, h.of_host (n := depth (.host i)) i (h.mutexed.get hget rfl ?_ ?_ ?_) ⟨?_, hd⟩ (fun i' hi' => ?_) fun t => ?_⟩
    · simp [State.goto, hpc, Local.crit]
    · intro a ha
      simp [ha]
    · intro a ha
      simp [State.goto, ha]
    · simpa [State.goto, Local.OfHost] using hof
    · simp [State.goto, hi']
    · simp [State.view, State.goto]
  | send o =>
    rw [hpc] at hs hof
    obtain ⟨op_queue, -, rfl⟩ := Option.map_eq_some_iff.1 hs
    refine ⟨_, h.of_host i (h.mutexed.goto rfl rfl (by rw [hpc]; rfl)) ⟨?_, hd⟩ (fun i' hi' => ?_) fun t => ?_⟩
    · simpa [State.goto, Local.OfHost] using hof
    · simp [State.goto, hi']
    · simp [State.view, State.goto]
  | put_mutex o =>
    rw [hpc] at hs
    cases hs
    refine ⟨_, h.of_host (n := depth (.host i)) i (h.mutexed.put (a := .host i) ?_ rfl ?_ ?_ ?_) ⟨?_, hd⟩
      (fun i' hi' => ?_) fun t => ?_⟩
    · simp [hpc, Local.crit]
    · simp only [State.goto, Function.update_self, Actor.returned, hpc]
      split <;> rfl
    · intro a ha
      simp [ha]
    · intro a ha
      simp [State.goto, ha]
    · simp only [State.goto, Function.update_self, Actor.returned]
      split <;> trivial
    · simp [State.goto, hi']
    · simp [State.view, State.goto]
  | wait =>
    rw [hpc] at hs
    obtain ⟨data_ready, -, rfl⟩ := Option.map_eq_some_iff.1 hs
    refine ⟨_, h.of_host i (h.mutexed.goto rfl rfl (by rw [hpc]; rfl)) ⟨?_, hd⟩ (fun i' hi' => ?_) fun t => ?_⟩
    · simp [State.goto, Actor.returned, Local.OfHost]
    · simp [State.goto, hi']
    · simp [State.view, State.goto]

theorem sections_client (f : Task ι κ ρ → List Nat) (t : κ) (j : ρ) (xs : List Nat) :
    (fun j' => Function.update f (.client t j) xs (.client t j')) =
      Function.update (fun j' => f (.client t j')) j xs := by
  funext j'
  by_cases hj : j' = j
  · subst hj
    simp
  · simp [hj]

omit [DecidableEq ρ] in
/-- The thread goes on with the same call and leaves the mutex as it is. -/
theorem Held.rpc_work {pc : Local ι κ ρ} (h : Held s depth) (hm : s'.mutex = s.mutex)
    (hactor : s'.actor = Function.update s.actor (.rpc t) pc) (hcrit : pc.crit = (s.actor (.rpc t)).crit)
    (ht : Tile { s.view t with rpc := pc } t (depth (.rpc t)))
    (hsame : s'.client_mutex = s.client_mutex ∧ s'.remote = s.remote ∧ s'.requests = s.requests ∧
      s'.responses = s.responses ∧ s'.sections = s.sections) : ∃ depth', Held s' depth' := by
  obtain ⟨hclient, hremote, hreq, hresp, hsec⟩ := hsame
  refine ⟨_, h.of_rpc t (h.mutexed.goto hm hactor hcrit) ?_ (fun t' ht' => ?_) fun i => ?_⟩
  · have hview : s'.view t = { s.view t with rpc := pc } := by
      simp [State.view, hclient, hremote, hreq, hresp, hsec, hactor]
    exact hview ▸ ht
  · simp [State.view, hclient, hremote, hreq, hresp, hsec, hactor, ht']
  · simp [hactor, hsec]

theorem Held.rpc_step (h : Held s depth) (hs : actor_step s (.rpc t) = some s') : ∃ depth', Held s' depth' := by
  have ht := h.tiles t
  unfold actor_step at hs
  cases hpc : s.actor (.rpc t) with
  | idle =>
    rw [hpc] at hs
    obtain ⟨⟨m, rest⟩, hreq, rfl⟩ := Option.map_eq_some_iff.1 hs
    have hreq' : s.requests t = m :: rest := by
      revert hreq
      cases s.requests t <;> simp [rtos_osal_queue_receive]
    refine ⟨_, h.of_rpc t (h.mutexed.goto rfl rfl ?_) ?_ (fun t' ht' => ?_) fun i => ?_⟩
    · rw [hpc]
      cases m <;> rfl
    · have hview : Tile { s.view t with requests := rest, rpc := m.start } t (depth (.rpc t)) := ht.receive hreq'
      simpa [State.view, State.goto] using hview
    · simp [State.view, State.goto, ht']
    · simp [State.goto]
  | lock τ =>
    rw [hpc] at hs
    obtain ⟨mutex, hget, rfl⟩ := Option.map_eq_some_iff.1 hs
    obtain ⟨j, rfl, hlock⟩ := ht.lock hpc s.locked
    refine ⟨_, h.of_rpc (n := depth (.rpc t) + 1) t (h.mutexed.get hget rfl ?_ ?_ ?_) ?_ (fun t' ht' => ?_) fun i => ?_⟩
    · simp [State.goto, hpc, Actor.returned, Local.crit]
    · intro a ha
      simp [ha]
    · intro a ha
      simp [State.goto, ha]
    · simpa [State.view, State.goto, Actor.returned, sections_client] using hlock
    · simp [State.view, State.goto, ht']
    · simp [State.goto]
  | unlock τ =>
    rw [hpc] at hs
    cases hs
    obtain ⟨hpos, j, rfl, hunlock⟩ := ht.unlock hpc
    refine ⟨_, h.of_rpc (n := depth (.rpc t) - 1) t (h.mutexed.put (a := .rpc t) ?_ rfl ?_ ?_ ?_) ?_
      (fun t' ht' => ?_) fun i => ?_⟩
    · omega
    · simp only [State.goto, Function.update_self, Actor.returned, Local.crit, hpc]
      omega
    · intro a ha
      simp [ha]
    · intro a ha
      simp [State.goto, ha]
    · simpa [State.view, State.goto, Actor.returned, sections_client] using hunlock
    · simp [State.view, State.goto, ht']
    · simp [State.goto]
  | get_mutex o =>
    rw [hpc] at hs
    obtain ⟨mutex, hget, rfl⟩ := Option.map_eq_some_iff.1 hs
    have hwork : Tile { s.view t with rpc := .send o } t (depth (.rpc t)) := ht.work (by simp [State.view, hpc]) (by simp [State.view, hpc])
      fun τ c hrun => .inl (by
        have hrun : (Local.get_mutex o).Runs τ c := hpc ▸ hrun
        cases c <;> exact hrun)
    refine ⟨_, h.of_rpc t (h.mutexed.get hget rfl ?_ ?_ ?_) (n := depth (.rpc t)) ?_ (fun t' ht' => ?_) fun i => ?_⟩
    · simp [State.goto, hpc, Local.crit]
    · intro a ha
      simp [ha]
    · intro a ha
      simp [State.goto, ha]
    · simpa [State.view, State.goto] using hwork
    · simp [State.view, State.goto, ht']
    · simp [State.goto]
  | send o =>
    rw [hpc] at hs
    obtain ⟨op_queue, -, rfl⟩ := Option.map_eq_some_iff.1 hs
    exact h.rpc_work rfl rfl (by rw [hpc]; rfl) (ht.work (by simp [State.view, hpc]) (by simp [State.view, hpc])
      fun τ c hrun => .inl (by
        have hrun : (Local.send o).Runs τ c := hpc ▸ hrun
        cases c <;> exact hrun)) ⟨rfl, rfl, rfl, rfl, rfl⟩
  | put_mutex o =>
    rw [hpc] at hs
    cases hs
    have hwork : Tile { s.view t with rpc := if o.request.isRead then .wait else .respond } t (depth (.rpc t)) :=
      ht.work (by simp [State.view, hpc]) (by simp [State.view, hpc]) fun τ c hrun => by
        cases c with
        | op r =>
          split
          · exact .inl trivial
          · exact .inr ⟨rfl, r, rfl⟩
        | _ => exact absurd hrun (by simp [State.view, hpc, Local.Runs])
    refine ⟨_, h.of_rpc t (h.mutexed.put (a := .rpc t) ?_ rfl ?_ ?_ ?_) (n := depth (.rpc t)) ?_ (fun t' ht' => ?_) fun i => ?_⟩
    · simp [hpc, Local.crit]
    · simp only [State.goto, Function.update_self, Actor.returned, hpc]
      split <;> rfl
    · intro a ha
      simp [ha]
    · intro a ha
      simp [State.goto, ha]
    · simpa [State.view, State.goto, Actor.returned] using hwork
    · simp [State.view, State.goto, ht']
    · simp [State.goto]
  | wait =>
    rw [hpc] at hs
    obtain ⟨data_ready, -, rfl⟩ := Option.map_eq_some_iff.1 hs
    exact h.rpc_work rfl rfl (by rw [hpc]; rfl) (ht.work (by simp [State.view, hpc]) (by simp [State.view, hpc])
      fun τ c hrun => by
        cases c with
        | op r => exact .inr ⟨rfl, r, rfl⟩
        | _ => exact absurd hrun (by simp [State.view, hpc, Local.Runs])) ⟨rfl, rfl, rfl, rfl, rfl⟩
  | respond =>
    rw [hpc] at hs
    cases hs
    refine ⟨_, h.of_rpc t (h.mutexed.goto rfl rfl (by rw [hpc]; rfl)) ?_ (fun t' ht' => ?_) fun i => ?_⟩
    · simpa [State.view, State.goto] using ht.respond hpc
    · simp [State.view, State.goto, ht']
    · simp [State.goto]

theorem Held.actor_step {a : Actor ι κ} (h : Held s depth) (hs : actor_step s a = some s') :
    ∃ depth', Held s' depth' := by
  cases a with
  | host i => exact h.host_step hs
  | rpc t => exact h.rpc_step hs

omit [DecidableEq ρ] in
/-- A step of a task of a client tile, which changes what there is of its tile only. -/
theorem Held.of_tile (h : Held s depth) (t : κ) (ht : Tile (s'.view t) t (depth (.rpc t)))
    (hview : ∀ t', t' ≠ t → s'.view t' = s.view t') (hm : s'.mutex = s.mutex) (hactor : s'.actor = s.actor)
    (hsections : s'.sections = s.sections) : ∃ depth', Held s' depth' := by
  refine ⟨_, h.of_rpc t (h.mutexed.frame hm (fun a => ?_) fun a => ?_) ht hview fun i => ?_⟩
  · rw [Function.update_eq_self]
  · rw [hactor]
  · rw [hactor, hsections]
    exact ⟨rfl, rfl⟩

theorem Held.remote_step (h : Held s depth) (hs : remote_step s t j = some s') : ∃ depth', Held s' depth' := by
  have ht := h.tiles t
  unfold Locking.remote_step at hs
  cases hpc : s.remote t j with
  | idle => rw [hpc] at hs; cases hs
  | get_mutex c =>
    rw [hpc] at hs
    obtain ⟨mutex, hget, rfl⟩ := Option.map_eq_some_iff.1 hs
    refine h.of_tile t ?_ (fun t' ht' => ?_) rfl rfl rfl
    · simpa [State.view, State.remote_goto] using ht.get_mutex hpc hget
    · simp [State.view, State.remote_goto, ht']
  | call c =>
    rw [hpc] at hs
    cases hs
    have hfor : (s.message (.client t j) c).For (.client t j) c := by cases c <;> rfl
    refine h.of_tile t ?_ (fun t' ht' => ?_) rfl rfl rfl
    · simpa [State.view, State.remote_goto] using (ht.call hpc hfor).2
    · simp [State.view, State.remote_goto, ht']
  | wait c =>
    rw [hpc] at hs
    obtain ⟨responses, hget, rfl⟩ := Option.map_eq_some_iff.1 hs
    have hget' : s.responses t = responses + 1 := by
      revert hget
      cases s.responses t <;> simp [rtos_osal_semaphore_get]
    refine h.of_tile t ?_ (fun t' ht' => ?_) rfl rfl rfl
    · simpa [State.view, State.remote_goto] using ht.answered hpc hget'
    · simp [State.view, State.remote_goto, ht']
  | put_mutex =>
    rw [hpc] at hs
    cases hs
    refine h.of_tile t ?_ (fun t' ht' => ?_) rfl rfl rfl
    · simpa [State.view, State.remote_goto] using ht.put hpc
    · simp [State.view, State.remote_goto, ht']

omit [DecidableEq ι] [DecidableEq κ] [DecidableEq ρ] in
theorem Held.thread (h : Held s depth) (hs : qspi_flash_op_thread s = some s') : ∃ depth', Held s' depth' := by
  have hsame : s'.mutex = s.mutex ∧ s'.actor = s.actor ∧ s'.sections = s.sections ∧ ∀ t, s'.view t = s.view t := by
    unfold qspi_flash_op_thread at hs
    split at hs
    · obtain ⟨_, -, rfl⟩ := Option.map_eq_some_iff.1 hs
      exact ⟨rfl, rfl, rfl, fun t => rfl⟩
    · cases hs
      exact ⟨rfl, rfl, rfl, fun t => rfl⟩
    · cases hs
      exact ⟨rfl, rfl, rfl, fun t => rfl⟩
  obtain ⟨hm, hactor, hsections, hview⟩ := hsame
  refine ⟨depth, h.mutexed.frame hm (fun _ => rfl) fun a => by rw [hactor], fun i => ?_, fun t => ?_⟩
  · rw [hactor, hsections]
    exact h.hosts i
  · rw [hview]
    exact h.tiles t

/-- In every state the mutexes are held as often as the open sections say. -/
theorem held_reachable (h : flash.Reachable Allowed s) : ∃ depth, Held s depth := by
  refine h.inv (I := fun s => ∃ depth, Held s depth) (fun s hinit => ?_) fun s a s' ⟨depth, h⟩ hallowed hs => ?_
  · obtain rfl : s = _ := hinit
    refine ⟨fun _ => 0, ⟨fun _ a => ⟨rfl, rfl⟩, fun a c hm => by cases hm⟩, fun i => ⟨trivial, rfl⟩, fun t => ?_⟩
    exact .free rfl (fun j => ⟨trivial, rfl⟩) ⟨rfl, rfl, rfl⟩ rfl
  · cases a with
    | call τ c => exact h.start_call (fun hc => by subst hc; exact hallowed) hs
    | actor a => exact h.actor_step hs
    | remote t j => exact h.remote_step hs
    | thread => exact h.thread hs

end
end Locking
end QspiFlash
