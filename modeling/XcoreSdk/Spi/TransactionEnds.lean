import XcoreSdk.Spi.TransactionRuns
import XcoreSdk.Lib.Work
/-!
# The RTOS SPI master: transactions come to their end

A call leads to a bounded number of steps, so that the tasks and the threads, left alone,
come to rest. Then all that has been called is performed and every copy is freed. What may
be left are tasks that start a transaction while another task has one open, and that one is
between its calls.
-/

open scoped BigOperators

namespace Spi
namespace RtosMaster
open FreeRtos
open QspiFlash.Locking (Actor Mutex mutex_get mutex_put)
variable {ι κ τ δ : Type*}

/-! ## The steps that are left -/

def Thread.work : Thread ι κ τ δ → Nat
  | .receive => 0
  | .put | .free _ => 1
  | .perform _ => 2

def Local.work : Local ι κ τ δ → Nat
  | .idle => 0
  | .wait _ | .put_mutex => 1
  | .send _ => 5
  | .get_mutex _ _ => 6

def Rpc.work : Rpc ι κ τ δ → Nat
  | .receive => 0
  | .serve _ => 1

def Remote.work : Remote δ → Nat
  | .idle => 0
  | .put_mutex => 1
  | .wait _ => 2
  | .call _ => 11
  | .get_mutex _ => 12

/-- A bound on the steps that these tasks and threads take without new calls. -/
def System.work (actors : Finset (Actor ι κ)) (tiles : Finset κ) (tasks : Finset τ) (s : System ι κ τ δ) : Nat :=
  s.host.thread.work + 3 * s.host.xfer_req_queue.length + ∑ a ∈ actors, (s.host.actor a).work +
    ∑ k ∈ tiles, 8 * (s.requests k).length + ∑ k ∈ tiles, (s.rpc k).work + ∑ k ∈ tiles, ∑ t ∈ tasks, (s.remote k t).work

/-- No others are at work. -/
structure System.Among (actors : Finset (Actor ι κ)) (tiles : Finset κ) (tasks : Finset τ) (s : System ι κ τ δ) : Prop where
  rpc_actors : ∀ k ∈ tiles, Actor.rpc k ∈ actors
  actors : ∀ a, s.host.actor a ≠ .idle → a ∈ actors
  requests : ∀ k, s.requests k ≠ [] → k ∈ tiles
  rpcs : ∀ k, s.rpc k ≠ .receive → k ∈ tiles
  remotes : ∀ k t, s.remote k t ≠ .idle → k ∈ tiles ∧ t ∈ tasks

theorem Local.work_le (pc : Local ι κ τ δ) : pc.work ≤ 6 := by
  cases pc <;> simp [Local.work]

theorem next_work (req : spi_xfer_req_t κ δ) : (req.next : Local ι κ τ δ).work ≤ 1 := by
  cases req with
  | SPI_OP_START | SPI_OP_DELAY | SPI_OP_END => simp [spi_xfer_req_t.next, Local.work]
  | SPI_OP_XFER ctx data_out data_in len => cases data_in <;> simp [spi_xfer_req_t.next, Local.work]

theorem exit_work (call : Call δ Nat) : call.exit.work ≤ 1 := by
  cases call <;> simp [Call.exit, Remote.work]

section
variable [DecidableEq ι] [DecidableEq κ] [DecidableEq τ] {u u' : System ι κ τ δ} {ptr : κ → δ → δ} {host : Host ι κ τ δ}
  {actors : Finset (Actor ι κ)} {tiles : Finset κ} {tasks : Finset τ}

/-! ### One step -/

omit [DecidableEq ι] [DecidableEq τ] in
theorem thread_work {received : List UInt8} (hs : spi_xfer_thread u.host received = some host) :
    host.thread.work + 3 * host.xfer_req_queue.length < u.host.thread.work + 3 * u.host.xfer_req_queue.length := by
  unfold spi_xfer_thread at hs
  split at hs
  case h_1 hthread =>
    obtain ⟨⟨item, queue⟩, hqueue, rfl⟩ := Option.map_eq_some_iff.1 hs
    rw [hthread, queue_receive_eq_some.1 hqueue]
    simp only [Thread.work, List.length_cons]
    omega
  case h_2 item hthread =>
    unfold perform at hs
    rw [hthread]
    split at hs
    case h_2 =>
      split at hs
      · cases hs
        exact Nat.add_lt_add_right (Nat.lt_succ_self 1) _
      · cases hs
    case h_3 =>
      cases hs
      exact Nat.add_lt_add_right (Nat.lt_succ_self 1) _
    all_goals
      cases hs
      exact Nat.add_lt_add_right Nat.zero_lt_two _
  case h_3 hthread =>
    cases hs
    rw [hthread]
    exact Nat.add_lt_add_right Nat.zero_lt_one _
  case h_4 hthread =>
    obtain ⟨_, ht, rfl⟩ := Option.map_eq_some_iff.1 hs
    obtain ⟨_, _, rfl⟩ := free_cases ht
    rw [hthread]
    exact Nat.add_lt_add_right Nat.zero_lt_one _

omit [DecidableEq ι] [DecidableEq τ] in
theorem System.Among.thread_step {received : List UInt8} (h : u.Among actors tiles tasks)
    (hs : spi_xfer_thread u.host received = some host) :
    System.Among actors tiles tasks { u with host } ∧
      System.work actors tiles tasks { u with host } < u.work actors tiles tasks := by
  obtain ⟨-, -, hactor, -⟩ := thread_frame hs
  refine ⟨{ h with actors := fun a ha => h.actors a (by rw [← hactor]; exact ha) }, ?_⟩
  have hwork := thread_work hs
  simp only [System.work, hactor]
  omega

omit [DecidableEq τ] in
/-- A task or thread that is at work goes to another place. -/
theorem System.Among.goto {s : Host ι κ τ δ} {a : Actor ι κ} {pc : Local ι κ τ δ} (h : u.Among actors tiles tasks)
    (hmem : a ∈ actors) (hactor : s.actor = u.host.actor)
    (hwork : s.thread.work + 3 * s.xfer_req_queue.length + pc.work <
      u.host.thread.work + 3 * u.host.xfer_req_queue.length + (u.host.actor a).work) :
    System.Among actors tiles tasks { u with host := s.goto a pc } ∧
      System.work actors tiles tasks { u with host := s.goto a pc } < u.work actors tiles tasks := by
  constructor
  · have hactors : ∀ b, s.actor b ≠ .idle → b ∈ actors := fun b hb => h.actors b (by rw [← hactor]; exact hb)
    exact { h with actors := fun _ hb => mem_of_update_ne hactors hmem hb }
  · have hsum := sum_update_mem u.host.actor Local.work pc hmem
    simp only [System.work, Host.goto, hactor]
    omega

omit [DecidableEq τ] in
theorem System.Among.move {a : Actor ι κ} (h : u.Among actors tiles tasks) (hs : Moves u.host a host) :
    System.Among actors tiles tasks { u with host } ∧
      System.work actors tiles tasks { u with host } < u.work actors tiles tasks := by
  have hmem : u.host.actor a ≠ .idle → a ∈ actors := h.actors a
  cases hs with
  | get_mutex owner ctx lock priority ha hget =>
    rw [ha] at hmem
    refine h.goto (hmem nofun) rfl ?_
    rw [ha]
    exact Nat.add_lt_add_left (Nat.lt_succ_self 5) _
  | send item ha =>
    rw [ha] at hmem
    refine h.goto (hmem nofun) rfl ?_
    have hnext := next_work (ι := ι) (τ := τ) item.req
    have hsend : (u.host.actor a).work = 5 := by rw [ha]; rfl
    rw [hsend, List.length_append, List.length_singleton]
    dsimp only
    omega
  | wait place ready ha _ =>
    rw [ha] at hmem
    refine h.goto (hmem nofun) rfl ?_
    rw [ha]
    exact Nat.add_lt_add_left Nat.zero_lt_one _
  | put_mutex ha =>
    rw [ha] at hmem
    refine h.goto (hmem nofun) rfl ?_
    rw [ha]
    exact Nat.add_lt_add_left Nat.zero_lt_one _

omit [DecidableEq ι] in
/-- A task of a client tile goes to another place. -/
theorem System.Among.remote_goto {k : κ} {t : τ} {pc : Remote δ} (h : u.Among actors tiles tasks) (hk : k ∈ tiles) (ht : t ∈ tasks)
    (hhost : u'.host = u.host) (hrpc : u'.rpc = u.rpc) (hremote : u'.remote = u.remote)
    (hrequests : ∀ k', k' ≠ k → u'.requests k' = u.requests k')
    (hwork : 8 * (u'.requests k).length + pc.work < 8 * (u.requests k).length + (u.remote k t).work) :
    (u'.goto k t pc).Among actors tiles tasks ∧ (u'.goto k t pc).work actors tiles tasks < u.work actors tiles tasks := by
  refine ⟨⟨h.rpc_actors, fun a ha => h.actors a ?_, fun k' hk' => ?_, fun k' hk' => h.rpcs k' ?_, fun k' t' hne => ?_⟩, ?_⟩
  · rw [← hhost]
    exact ha
  · by_cases hkk : k' = k
    · rw [hkk]
      exact hk
    · exact h.requests k' (by rw [← hrequests k' hkk]; exact hk')
  · rw [← hrpc]
    exact hk'
  · by_cases hself : k' = k ∧ t' = t
    · rw [hself.1, hself.2]
      exact ⟨hk, ht⟩
    · refine h.remotes k' t' ?_
      rw [← hremote, ← show (u'.goto k t pc).remote k' t' = u'.remote k' t' from remote_goto_other (not_and_or.1 hself)]
      exact hne
  · have houter := sum_update_mem u.remote (fun f => ∑ t ∈ tasks, (f t).work) (Function.update (u.remote k) t pc) hk
    have hinner := sum_update_mem (u.remote k) Remote.work pc ht
    have hlists := sum_update_mem u.requests (fun l => 8 * l.length) (u'.requests k) hk
    have heq : Function.update u.requests k (u'.requests k) = u'.requests := by
      funext k'
      by_cases hkk : k' = k
      · rw [hkk, Function.update_self]
      · rw [Function.update_of_ne hkk, hrequests k' hkk]
    rw [heq] at hlists
    simp only [System.work, System.goto, hhost, hrpc, hremote]
    omega

omit [DecidableEq ι] in
theorem System.Among.remote_step {k : κ} {t : τ} (h : u.Among actors tiles tasks) (hs : remote_step ptr u k t = some u') :
    u'.Among actors tiles tasks ∧ u'.work actors tiles tasks < u.work actors tiles tasks := by
  have hmem := h.remotes k t
  unfold RtosMaster.remote_step at hs
  split at hs
  case h_1 => cases hs
  case h_2 dev_ctx hget =>
    obtain ⟨lock, -, rfl⟩ := Option.map_eq_some_iff.1 hs
    rw [hget] at hmem
    obtain ⟨hk, ht⟩ := hmem nofun
    refine h.remote_goto hk ht rfl rfl rfl (fun _ _ => rfl) ?_
    rw [hget]
    exact Nat.add_lt_add_left (Nat.lt_succ_self 11) _
  case h_3 call hcall =>
    cases hs
    rw [hcall] at hmem
    obtain ⟨hk, ht⟩ := hmem nofun
    refine h.remote_goto hk ht rfl rfl rfl (fun _ hne => Function.update_of_ne hne ..) ?_
    rw [hcall]
    dsimp only
    rw [Function.update_self, List.length_append, List.length_singleton]
    simp only [Remote.work]
    omega
  case h_4 call hwait =>
    obtain ⟨⟨data_in, responses⟩, -, rfl⟩ := Option.map_eq_some_iff.1 hs
    rw [hwait] at hmem
    obtain ⟨hk, ht⟩ := hmem nofun
    obtain ⟨hhost, -, -, hremote, -, hrequests, hrpc⟩ := answer_frame u k t call data_in
    refine h.remote_goto hk ht hhost hrpc hremote (fun _ _ => congrFun hrequests _) ?_
    have hexit := exit_work call
    have htwo : (Remote.wait call).work = 2 := rfl
    rw [hwait]
    dsimp only
    rw [hrequests]
    omega
  case h_5 hput =>
    cases hs
    rw [hput] at hmem
    obtain ⟨hk, ht⟩ := hmem nofun
    refine h.remote_goto hk ht rfl rfl rfl (fun _ _ => rfl) ?_
    rw [hput]
    exact Nat.add_lt_add_left Nat.zero_lt_one _

theorem System.Among.rpc_step {k : κ} (hinv : u.Inv ptr) (h : u.Among actors tiles tasks) (hs : rpc_step u k = some u') :
    u'.Among actors tiles tasks ∧ u'.work actors tiles tasks < u.work actors tiles tasks := by
  unfold RtosMaster.rpc_step at hs
  split at hs
  case h_1 hreceive =>
    obtain ⟨⟨msg, requests⟩, hqueue, hs⟩ := Option.bind_eq_some_iff.1 hs
    obtain ⟨host, hcall, rfl⟩ := Option.map_eq_some_iff.1 hs
    have hrequests := queue_receive_eq_some.1 hqueue
    obtain ⟨t, call, hmsg, -⟩ := (hinv.tile k).receive hrequests
    have hactor : msg.owner.actor = .rpc k := by rw [hmsg]; rfl
    have hk : k ∈ tiles := h.requests k (by rw [hrequests]; exact nofun)
    have ha : Actor.rpc k ∈ actors := h.rpc_actors k hk
    obtain ⟨hidle, pc, copy, allocated, rfl, -⟩ := start_call_cases hcall
    rw [hactor] at hidle ⊢
    refine ⟨⟨h.rpc_actors, fun _ hne => mem_of_update_ne h.actors ha hne, fun _ hne => mem_of_update_ne h.requests hk hne,
      fun _ hne => mem_of_update_ne h.rpcs hk hne, h.remotes⟩, ?_⟩
    · have hpc := pc.work_le
      have hactors := sum_update_mem u.host.actor Local.work pc ha
      have hlists := sum_update_mem u.requests (fun l => 8 * l.length) requests hk
      have hrpcs := sum_update_mem u.rpc Rpc.work (.serve msg) hk
      have hserve : (Rpc.serve msg).work = 1 := rfl
      simp only [hrequests, List.length_cons] at hlists
      simp only [System.work, Host.goto]
      omega
  case h_2 msg hserve =>
    have hk : k ∈ tiles := h.rpcs k (by rw [hserve]; exact nofun)
    split at hs
    · cases hs
      refine ⟨{ h with rpcs := fun _ hne => mem_of_update_ne h.rpcs hk hne }, ?_⟩
      · have hrpcs := sum_update_mem u.rpc Rpc.work .receive hk
        have hwork : (u.rpc k).work = 1 := by rw [hserve]; rfl
        have hreceive : (Rpc.receive : Rpc ι κ τ δ).work = 0 := rfl
        simp only [System.work]
        omega
    · cases hs

/-- A step that is not a new call. -/
def SystemAct.own : SystemAct ι κ τ δ → Bool
  | .call _ _ => false
  | _ => true

theorem System.Among.own_step {a : SystemAct ι κ τ δ} (hinv : u.Inv ptr) (h : u.Among actors tiles tasks) (ha : a.own = true)
    (hs : (system ptr).step u a = some u') :
    u'.Among actors tiles tasks ∧ u'.work actors tiles tasks < u.work actors tiles tasks := by
  cases a with
  | call => cases ha
  | actor a priority =>
    obtain ⟨host, hstep, rfl⟩ := Option.map_eq_some_iff.1 hs
    exact h.move (moves_of_step hstep)
  | rpc k => exact h.rpc_step hinv hs
  | remote k t => exact h.remote_step hs
  | thread received =>
    obtain ⟨host, hstep, rfl⟩ := Option.map_eq_some_iff.1 hs
    exact h.thread_step hstep

omit [DecidableEq ι] [DecidableEq κ] [DecidableEq τ] in
theorem one_by_one {a : SystemAct ι κ τ δ} (ha : a.own = true) : OneByOne u a := by
  cases a with
  | call => cases ha
  | actor | rpc | remote | thread => trivial

/-! ### A call -/

omit [DecidableEq ι] [DecidableEq κ] [DecidableEq τ] in
theorem System.Among.mono {actors' : Finset (Actor ι κ)} {tiles' : Finset κ} {tasks' : Finset τ} (h : u.Among actors tiles tasks)
    (hrpc : ∀ k ∈ tiles', Actor.rpc k ∈ actors') (hactors : actors ⊆ actors') (htiles : tiles ⊆ tiles') (htasks : tasks ⊆ tasks') :
    u.Among actors' tiles' tasks' where
  rpc_actors := hrpc
  actors a ha := hactors (h.actors a ha)
  requests k hk := htiles (h.requests k hk)
  rpcs k hk := htiles (h.rpcs k hk)
  remotes k t hne := ⟨htiles (h.remotes k t hne).1, htasks (h.remotes k t hne).2⟩

theorem System.Among.call {owner : Owner ι κ τ} {call : Call δ Nat} (h : u.Among actors tiles tasks)
    (hs : task_call ptr u owner call = some u') : ∃ actors tiles tasks, u'.Among actors tiles tasks := by
  unfold task_call at hs
  split at hs
  case h_1 i =>
    obtain ⟨host, hcall, rfl⟩ := Option.map_eq_some_iff.1 hs
    obtain ⟨-, pc, copy, allocated, rfl, -⟩ := start_call_cases hcall
    refine ⟨insert (.host i) actors, tiles, tasks, ?_⟩
    have hrpc : ∀ k ∈ tiles, Actor.rpc k ∈ insert (.host i) actors := fun k hk => Finset.mem_insert_of_mem (h.rpc_actors k hk)
    have hmono := h.mono hrpc (Finset.subset_insert ..) (Finset.Subset.refl _) (Finset.Subset.refl _)
    exact { hmono with actors := fun _ hne => mem_of_update_ne hmono.actors (Finset.mem_insert_self ..) hne }
  case h_2 k t =>
    dsimp only at hs
    split at hs
    · cases hs
      refine ⟨insert (.rpc k) actors, insert k tiles, insert t tasks, ?_⟩
      have hrpc : ∀ k' ∈ insert k tiles, Actor.rpc (ι := ι) k' ∈ insert (.rpc k) actors := fun k' hk' => by
        rcases Finset.mem_insert.1 hk' with rfl | hk'
        · exact Finset.mem_insert_self ..
        · exact Finset.mem_insert_of_mem (h.rpc_actors k' hk')
      have hmono := h.mono hrpc (Finset.subset_insert ..) (Finset.subset_insert ..) (Finset.subset_insert t tasks)
      refine { rpc_actors := hrpc, actors := hmono.actors, requests := hmono.requests, rpcs := hmono.rpcs, remotes := fun k' t' hne => ?_ }
      by_cases hself : k' = k ∧ t' = t
      · rw [hself.1, hself.2]
        exact ⟨Finset.mem_insert_self .., Finset.mem_insert_self ..⟩
      · refine hmono.remotes k' t' fun hidle => hne ?_
        rw [remote_goto_other (not_and_or.1 hself)]
        exact hidle
    · cases hs

theorem some_among (h : (system ptr).Reachable OneByOne u) : ∃ actors tiles tasks, u.Among actors tiles tasks := by
  have hboth : u.Inv ptr ∧ ∃ actors tiles tasks, u.Among actors tiles tasks := by
    refine h.inv (I := fun u => u.Inv ptr ∧ ∃ actors tiles tasks, u.Among actors tiles tasks) (fun s hs => ?_)
      fun s a s' hinv hone hs => ⟨hinv.1.step hone hs, ?_⟩
    · refine ⟨system_inv (.init hs), ∅, ∅, ∅, ?_⟩
      obtain ⟨op_task_priority, memory, client_memory, rfl⟩ := hs
      exact ⟨nofun, fun a ha => absurd rfl ha, fun k hk => absurd rfl hk, fun k hk => absurd rfl hk, fun k t ht => absurd rfl ht⟩
    · obtain ⟨hinv, actors, tiles, tasks, hamong⟩ := hinv
      cases ha : a.own with
      | true => exact ⟨actors, tiles, tasks, (hamong.own_step hinv ha hs).1⟩
      | false =>
        cases a with
        | call owner call => exact hamong.call hs
        | actor | rpc | remote | thread => cases ha
  exact hboth.2

theorem own_bounded (h : (system ptr).Reachable OneByOne u) :
    ∃ n, ∀ as u', (system ptr).Run (fun _ a => a.own = true) u as u' → as.length ≤ n := by
  obtain ⟨actors, tiles, tasks, hamong⟩ := some_among h
  refine ⟨u.work actors tiles tasks, fun as u' hr => ?_⟩
  refine hr.length_le (I := fun u => u.Inv ptr ∧ u.Among actors tiles tasks) (fun s a s' hI ha hs => ?_) ⟨system_inv h, hamong⟩
  obtain ⟨hamong', hlt⟩ := hI.2.own_step hI.1 ha hs
  exact ⟨⟨hI.1.step (one_by_one ha) hs, hamong'⟩, hlt⟩

/-! ## At rest -/

/-- Nothing goes on without a new call. -/
def AtRest (ptr : κ → δ → δ) (s : System ι κ τ δ) : Prop := ∀ a : SystemAct ι κ τ δ, a.own = true → (system ptr).step s a = none

omit [DecidableEq ι] [DecidableEq τ] in
/-- Whatever the operation, the thread can perform it. -/
theorem perform_enabled (s : Host ι κ τ δ) (item : Item ι κ τ δ) : ∃ received, perform s item received ≠ none := by
  obtain ⟨owner, op, req⟩ := item
  cases req with
  | SPI_OP_START | SPI_OP_DELAY | SPI_OP_END => exact ⟨[], nofun⟩
  | SPI_OP_XFER ctx data_out data_in len =>
    cases data_in with
    | none => exact ⟨[], nofun⟩
    | some place =>
      refine ⟨List.replicate len 0, ?_⟩
      dsimp only [perform]
      rw [if_pos (List.length_replicate ..)]
      nofun

omit [DecidableEq ι] [DecidableEq τ] in
theorem thread_rest {s : Host ι κ τ δ} {held : List (Item ι κ τ δ)} (hflow : Flow s held)
    (hrest : ∀ received, spi_xfer_thread s received = none) : s.thread = .receive ∧ s.xfer_req_queue = [] := by
  unfold spi_xfer_thread at hrest
  cases hthread : s.thread with
  | receive =>
    rw [hthread] at hrest
    cases hqueue : s.xfer_req_queue with
    | nil => exact ⟨rfl, rfl⟩
    | cons item queue =>
      rw [hqueue] at hrest
      exact absurd (hrest []) nofun
  | perform item =>
    rw [hthread] at hrest
    obtain ⟨received, hsome⟩ := perform_enabled s item
    exact absurd (hrest received) hsome
  | put =>
    rw [hthread] at hrest
    exact absurd (hrest []) nofun
  | free data_out =>
    rw [hthread] at hrest
    cases data_out with
    | caller => exact absurd rfl (hflow.freeing _ hthread)
    | copy n => exact absurd (hrest []) nofun

/-- What the host's tile has come to: the actors are between their calls, or wait for the lock while its holder is. -/
structure Host.Rest (s : Host ι κ τ δ) : Prop where
  sent : s.executed.map Executed.done = s.sent
  freed : s.freed = List.range s.allocated
  actors : ∀ a, s.actor a = .idle ∨ ∃ owner ctx, owner.actor = a ∧ s.actor a = .get_mutex owner ctx ∧
    ∃ other : Owner ι κ τ, s.actor other.actor = .idle ∧ s.within other.actor = some other

theorem host_rest {s : Host ι κ τ δ} (h : Serial s) (hthread : ∀ received, spi_xfer_thread s received = none)
    (hactors : ∀ a priority, actor_step s a priority = none) : s.Rest := by
  obtain ⟨held, hflow, hturn⟩ := h
  obtain ⟨hreceive, hqueue⟩ := thread_rest hflow hthread
  have hpending : s.pending = [] := by
    rw [Host.pending, hreceive, hqueue]
    rfl
  have hrest : held = [] → s.executed.map Executed.done = s.sent ∧ s.freed = List.range s.allocated := by
    rintro rfl
    have hcopies := hflow.copies
    rw [hpending, List.append_nil, List.filterMap_nil, List.append_nil, hflow.freed, hreceive] at hcopies
    refine ⟨?_, (List.append_nil _).symm.trans hcopies⟩
    have hsent := hflow.sent
    rwa [hpending, List.map_nil, List.append_nil] at hsent
  cases hturn with
  | free hlock hall =>
    obtain ⟨hsent, hfreed⟩ := hrest rfl
    refine ⟨hsent, hfreed, fun a => .inl ?_⟩
    rcases (hall a).actor with hidle | ⟨owner, ctx, -, hget⟩
    · exact hidle
    · have hstep := hactors a 0
      unfold actor_step at hstep
      rw [hget, hlock] at hstep
      cases hstep
  | held b other held hlock hwithin hother hothers hown =>
    have hstep := hactors b 0
    unfold actor_step at hstep
    cases hown with
    | send item hsend =>
      rw [hsend, hqueue] at hstep
      cases hstep
    | wait place hwait hopened hwaiting =>
      rw [hwait] at hstep
      cases hwaiting with
      | pending front item hfront =>
        rw [hpending] at hfront
        exact absurd hfront.symm (List.append_ne_nil_of_right_ne_nil _ (List.cons_ne_nil _ _))
      | performed front e _ _ _ _ _ hcases =>
        rcases hcases with ⟨hput, -⟩ | ⟨-, hready⟩
        · rw [hreceive] at hput
          cases hput
        · rw [hready] at hstep
          cases hstep
    | ending hput =>
      rw [hput] at hstep
      cases hstep
    | between hidle =>
      obtain ⟨hsent, hfreed⟩ := hrest rfl
      refine ⟨hsent, hfreed, fun a => ?_⟩
      by_cases hab : a = b
      · rw [hab]
        exact .inl hidle
      · rcases (hothers a hab).actor with hidle' | ⟨owner, ctx, howner, hget⟩
        · exact .inl hidle'
        · refine .inr ⟨owner, ctx, howner, hget, other, ?_, ?_⟩
          · rw [hother]
            exact hidle
          · rw [hother]
            exact hwithin

/-- What a task has issued is performed, but for what it is still to send. -/
theorem Host.Rest.performed {s : Host ι κ τ δ} (h : s.Rest) (hordered : Ordered s) (owner : Owner ι κ τ) :
    (s.performed owner).map (·.op) ++ asked_by owner (s.actor owner.actor).asked = s.issued owner := by
  rw [← performed_asked, h.sent, ← asked_by_append]
  exact hordered owner

/-! ### The tasks -/

/-- Not in one of the four functions. -/
def System.Idle (s : System ι κ τ δ) : Owner ι κ τ → Prop
  | .host i => s.host.actor (.host i) = .idle
  | .client k t => s.remote k t = .idle

/-- The holder of a tile's lock is between its calls, or the tile's thread waits for the host's lock on its behalf. -/
def System.Holds (s : System ι κ τ δ) (k : κ) (t : τ) : Prop :=
  s.Idle (.client k t) ∧ s.begun (.client k t) = true ∨
    (∃ ctx, s.host.actor (.rpc k) = .get_mutex (.client k t) ctx) ∧ s.called (.client k t) = s.host.issued (.client k t)

theorem rpc_enabled {k : κ} (h : u.Inv ptr) (hserves : u.rpc k ≠ .receive ∨ u.requests k ≠ [])
    (hidle : u.host.actor (.rpc k) = .idle) : rpc_step u k ≠ none := by
  unfold RtosMaster.rpc_step
  cases hrpc : u.rpc k with
  | serve msg =>
    rw [hidle]
    nofun
  | receive =>
    cases hrequests : u.requests k with
    | nil =>
      rcases hserves with hserves | hserves
      · exact absurd hrpc hserves
      · exact absurd hrequests hserves
    | cons msg requests =>
      obtain ⟨t, call, hmsg, -⟩ := (h.tile k).receive hrequests
      have hactor : msg.owner.actor = .rpc k := by rw [hmsg]; rfl
      dsimp only [rtos_osal_queue_receive, Option.bind_some, start_call]
      rw [hactor, hidle]
      nofun

theorem holder_rest {k : κ} {t : τ} (h : u.Inv ptr) (hrest : AtRest ptr u) (hhost : u.host.Rest)
    (hown : (u.view k).Own (ptr k) k u.host.returned t) : u.Holds k t := by
  have hrpc : u.host.actor (.rpc k) = .idle → u.rpc k = .receive ∧ u.requests k = [] := by
    intro hidle
    by_contra hserves
    exact rpc_enabled h (not_and_or.1 hserves) hidle (hrest (.rpc k) rfl)
  have hremote := hrest (.remote k t) rfl
  dsimp only [system] at hremote
  unfold RtosMaster.remote_step at hremote
  cases hown with
  | rest hidle hbegun => exact .inl ⟨hidle, hbegun⟩
  | call call hcall =>
    rw [show u.remote k t = .call call from hcall] at hremote
    cases hremote
  | sent call _ _ _ _ hrequests _ _ hactor =>
    have hnil := (hrpc hactor).2
    rw [show u.requests k = _ from hrequests] at hnil
    cases hnil
  | running call htaken _ _ hruns =>
    have hruns : (u.host.actor (.rpc k)).Runs _ _ _ := hruns
    rcases hhost.actors (.rpc k) with hidle | ⟨owner, ctx, -, hget, -⟩
    · rw [hidle] at hruns
      exact hruns.elim
    · rw [hget] at hruns
      obtain ⟨rfl, -⟩ := hruns
      exact .inr ⟨⟨ctx, hget⟩, htaken.called⟩
  | ended call _ _ hserve hactor =>
    have hreceive := (hrpc hactor).1
    rw [show u.rpc k = _ from hserve] at hreceive
    cases hreceive
  | answered call bytes htaken hresponses =>
    rw [show u.remote k t = .wait call from htaken.remote, show u.responses k = _ from hresponses] at hremote
    cases hremote
  | put hput =>
    rw [show u.remote k t = .put_mutex from hput] at hremote
    cases hremote

/-- Whoever holds the host's lock is between its calls. -/
theorem open_of_holder {other : Owner ι κ τ} (h : u.Inv ptr) (hrest : AtRest ptr u) (hhost : u.host.Rest)
    (hidle : u.host.actor other.actor = .idle) (hwithin : u.host.within other.actor = some other) :
    ∃ o, u.Idle o ∧ u.begun o = true := by
  cases other with
  | host i =>
    refine ⟨.host i, hidle, ?_⟩
    rcases (h.task i).place with ⟨-, hopen⟩ | ⟨call, hruns, -⟩
    · rw [show u.host.within (.host i) = some (.host i) from hwithin] at hopen
      by_contra hbegun
      rw [if_neg hbegun] at hopen
      cases hopen
    · rw [show u.host.actor (.host i) = .idle from hidle] at hruns
      exact hruns.elim
  | client k t =>
    cases h.tile k with
    | free _ _ hrests => exact absurd (hwithin.symm.trans hrests.within) nofun
    | held t' _ _ hown =>
      rcases holder_rest h hrest hhost hown with hholds | ⟨⟨ctx, hget⟩, -⟩
      · exact ⟨_, hholds⟩
      · exact absurd (hidle.symm.trans hget) nofun

theorem open_of_waiting {a : Actor ι κ} (h : u.Inv ptr) (hrest : AtRest ptr u) (hhost : u.host.Rest)
    (hbusy : u.host.actor a ≠ .idle) : ∃ o, u.Idle o ∧ u.begun o = true := by
  rcases hhost.actors a with hidle | ⟨owner, ctx, -, -, other, hidle, hwithin⟩
  · exact absurd hidle hbusy
  · exact open_of_holder h hrest hhost hidle hwithin

/-- The tile's thread sends on behalf of the task only that waits for its answer. -/
theorem asked_nil {k : κ} {t : τ} (h : u.Inv ptr) (hhost : u.host.Rest) (hwait : ∀ call, u.remote k t ≠ .wait call) :
    asked_by (.client k t) (u.host.actor (.rpc k)).asked = [] := by
  rcases hhost.actors (.rpc k) with hidle | ⟨owner, ctx, -, hget, -⟩
  · rw [hidle]
    rfl
  · have hbusy : u.host.actor (.rpc k) ≠ .idle := by rw [hget]; nofun
    cases h.tile k with
    | free _ _ hrests => exact absurd hrests.actor hbusy
    | held t' _ _ hown =>
      cases hown with
      | rest _ _ _ hrests | call _ _ _ _ _ hrests | put _ _ _ hrests => exact absurd hrests.actor hbusy
      | sent _ _ _ _ _ _ _ _ hidle | ended _ _ _ _ hidle | answered _ _ _ _ _ hidle => exact absurd hidle hbusy
      | running call htaken _ _ hruns =>
        have hruns : (u.host.actor (.rpc k)).Runs _ _ _ := hruns
        rw [hget] at hruns ⊢
        obtain ⟨rfl, -⟩ := hruns
        refine asked_by_other ?_ _
        rintro ⟨⟩
        exact hwait call htaken.remote

/-- What the system has come to. -/
structure Settled (s : System ι κ τ δ) : Prop where
  /-- All that a task has called is performed, once it has returned, -/
  performed : ∀ owner, s.Idle owner → (s.host.performed owner).map (·.op) = s.called owner
  /-- and a task that has not returned waits to start a transaction while another one is open. -/
  waiting : ∀ owner, ¬ s.Idle owner →
    (∃ ctx, s.called owner = (s.host.performed owner).map (·.op) ++ [.transaction_start ctx]) ∧
      ∃ other, s.Idle other ∧ s.begun other = true
  freed : s.host.freed = List.range s.host.allocated

theorem client_performed {k : κ} {t : τ} (h : u.Inv ptr) (hhost : u.host.Rest) (hidle : u.remote k t = .idle) :
    (u.host.performed (.client k t)).map (·.op) = u.called (.client k t) := by
  have hissued := hhost.performed h.host.ordered (.client k t)
  rw [show (Owner.client k t : Owner ι κ τ).actor = .rpc k from rfl,
    asked_nil h hhost (by rw [hidle]; nofun), List.append_nil] at hissued
  rw [hissued]
  by_cases haway : (u.view k).Away (ptr k) t
  · cases haway with
    | idle _ _ hcalled => exact hcalled.symm
    | waiting _ hget => exact absurd (hidle.symm.trans hget) nofun
  · obtain ⟨-, -, hown⟩ := (h.tile k).holder haway
    cases hown with
    | rest _ _ hcalled => exact hcalled.symm
    | call _ hr | sent _ hr | put hr => exact absurd (hidle.symm.trans hr) nofun
    | running _ htaken | ended _ htaken | answered _ _ htaken => exact absurd (hidle.symm.trans htaken.remote) nofun

theorem client_waiting {k : κ} {t : τ} (h : u.Inv ptr) (hrest : AtRest ptr u) (hhost : u.host.Rest)
    (hbusy : u.remote k t ≠ .idle) :
    (∃ ctx, u.called (.client k t) = (u.host.performed (.client k t)).map (·.op) ++ [.transaction_start ctx]) ∧
      ∃ other, u.Idle other ∧ u.begun other = true := by
  have hissued := hhost.performed h.host.ordered (.client k t)
  rw [show (Owner.client k t : Owner ι κ τ).actor = .rpc k from rfl] at hissued
  have hopen : ∀ t', u.Holds k t' → ∃ other, u.Idle other ∧ u.begun other = true := by
    rintro t' (hholds | ⟨⟨ctx, hget⟩, -⟩)
    · exact ⟨_, hholds⟩
    · exact open_of_waiting h hrest hhost (a := .rpc k) (by rw [hget]; nofun)
  by_cases haway : (u.view k).Away (ptr k) t
  · cases haway with
    | idle hidle => exact absurd hidle hbusy
    | waiting ctx hget _ hcalled =>
      have hget : u.remote k t = .get_mutex ctx := hget
      rw [asked_nil h hhost (by rw [hget]; nofun), List.append_nil] at hissued
      refine ⟨⟨ptr k ctx, ?_⟩, ?_⟩
      · rw [hissued]
        exact hcalled
      · cases h.tile k with
        | held t' _ _ hown => exact hopen t' (holder_rest h hrest hhost hown)
        | free hlock =>
          -- the tile's lock is free, so that the task would go on
          have hstep := hrest (.remote k t) rfl
          dsimp only [system] at hstep
          unfold RtosMaster.remote_step at hstep
          rw [hget, show u.client_lock k = none from hlock] at hstep
          cases hstep
  · obtain ⟨-, -, hown⟩ := (h.tile k).holder haway
    have hholds := holder_rest h hrest hhost hown
    refine ⟨?_, hopen t hholds⟩
    rcases hholds with ⟨hidle, -⟩ | ⟨⟨ctx, hget⟩, hcalled⟩
    · exact absurd hidle hbusy
    · rw [hget, Local.asked, asked_by_self] at hissued
      exact ⟨ctx, hcalled.trans hissued.symm⟩

theorem settled_of_rest (h : u.Inv ptr) (hrest : AtRest ptr u) : Settled u := by
  have hhost : u.host.Rest := by
    refine host_rest h.host.serial (fun received => ?_) fun a priority => ?_
    · exact Option.map_eq_none_iff.1 (hrest (.thread received) rfl)
    · exact Option.map_eq_none_iff.1 (hrest (.actor a priority) rfl)
  refine ⟨fun owner hidle => ?_, fun owner hbusy => ?_, hhost.freed⟩
  · cases owner with
    | client k t => exact client_performed h hhost hidle
    | host i =>
      have hissued := hhost.performed h.host.ordered (.host i)
      rw [show u.host.actor (Owner.host (κ := κ) (τ := τ) i).actor = .idle from hidle] at hissued
      rw [(h.task i).called, ← hissued]
      exact (List.append_nil _).symm
  · cases owner with
    | client k t => exact client_waiting h hrest hhost hbusy
    | host i =>
      refine ⟨?_, open_of_waiting h hrest hhost hbusy⟩
      have hissued := hhost.performed h.host.ordered (.host i)
      rcases hhost.actors (.host i) with hidle | ⟨owner, ctx, howner, hget, -⟩
      · exact absurd hidle hbusy
      · cases owner with
        | client k t => cases howner
        | host j =>
          cases howner
          rw [show (Owner.host i : Owner ι κ τ).actor = .host i from rfl, hget, Local.asked, asked_by_self] at hissued
          exact ⟨ctx, (h.task i).called.trans hissued.symm⟩

/-! ## Every run -/

/-- The operations of a transaction are performed next to each other and in the order of the task's calls, each transfer
returns with the bytes that it has itself received, and each copy is freed once, after it was sent. Left alone the tasks
and threads stop, and then nothing is missing. -/
structure Sound (ptr : κ → δ → δ) (s : System ι κ τ δ) : Prop where
  contiguous : ∃ opened, transactions.exec Machine.Free none (s.host.executed.map Executed.done) = some opened
  in_order : ∀ owner, (s.host.performed owner).map (·.op) <+: s.called owner
  received : ∀ r ∈ s.host.returned ++ s.returned, Received s r
  copies : Freed s.host
  stops : ∃ n, ∀ as s', (system ptr).Run (fun _ a => a.own = true) s as s' → as.length ≤ n
  settled : AtRest ptr s → Settled s

theorem transactions_sound (h : (system ptr).Reachable OneByOne u) : Sound ptr u := by
  have hinv := system_inv h
  refine ⟨hinv.host.contiguous, fun owner => (hinv.host.in_order owner).trans (hinv.issued owner), fun r hr => ?_,
    hinv.host.copies_freed, own_bounded h, settled_of_rest hinv⟩
  rcases List.mem_append.1 hr with hhost | hclient
  · exact hinv.received hhost
  · exact hinv.filled r hclient

end

/-- A client's transaction with a transfer that receives and a delay, and after it one of the host's with a transfer that
does not receive and a delay. -/
def two_transactions : List (SystemAct Unit Unit Unit Nat) :=
  let client := Owner.client () ()
  let host := Owner.host ()
  let remote := SystemAct.remote () ()
  let served := [SystemAct.actor (.rpc ()) 1, .thread [], .thread []]
  let local_served := [SystemAct.actor (.host ()) 2, .thread [], .thread []]
  [.call client (.transaction_start 7), remote, remote, .rpc (), .call host (.transaction_start 3), .actor (.rpc ()) 1] ++
    served ++ [.rpc (), remote, .call client (.transfer 7 none (some 0) 2), remote, .rpc (), .actor (.rpc ()) 1, .thread [],
      .thread [5, 6], .thread [], .actor (.rpc ()) 1, .rpc (), remote,
      .call client (.delay_before_next_transfer 7 10), remote, .rpc ()] ++
    served ++ [.rpc (), remote, .call client (.transaction_end 7), remote, .rpc ()] ++
    served ++ [.actor (.rpc ()) 1, .rpc (), remote, remote, .actor (.host ()) 2] ++
    local_served ++ [.call host (.transfer 3 (some [1, 2]) none 2)] ++ local_served ++
    [.thread [], .call host (.delay_before_next_transfer 3 4)] ++ local_served ++ [.call host (.transaction_end 3)] ++
    local_served ++ [.actor (.host ()) 2]

theorem transactions_sound_two : ∃ s : System Unit Unit Unit Nat, Sound (fun _ dev_ctx => dev_ctx) s ∧
    s.returned = [⟨.client () (), 1, [5, 6]⟩] ∧ s.host.freed = [0] ∧
    (s.host.performed (.client () ())).map (·.op) =
      [.transaction_start 7, .transfer 7 none (some ()) 2, .delay_before_next_transfer 7 10, .transaction_end 7] ∧
    (s.host.performed (.host ())).map (·.op) =
      [.transaction_start 3, .transfer 3 (some [1, 2]) none 2, .delay_before_next_transfer 3 4, .transaction_end 3] :=
  let start := ⟨.init 4 fun _ => [], fun _ => .receive, fun _ => none, fun _ _ => .idle, fun _ => [], fun _ => [],
    fun _ _ => [], fun _ => false, fun _ => [], []⟩
  let host_dev_ctx_ptr := fun _ dev_ctx => dev_ctx
  let final := ((system host_dev_ctx_ptr).exec OneByOne start two_transactions).get (by decide)
  have hfinal : (system host_dev_ctx_ptr).Reachable OneByOne final :=
    Machine.exec_reachable ⟨4, fun _ => [], fun _ _ => [], rfl⟩ (Option.some_get _).symm
  have hsound := transactions_sound hfinal
  have hrest : AtRest host_dev_ctx_ptr final := by
    intro a ha
    cases a with
    | call => cases ha
    | actor a priority => cases a <;> rfl
    | rpc | remote | thread => rfl
  have hsettled := hsound.settled hrest
  have hclient : final.remote () () = .idle := rfl
  have hhost : final.host.actor (.host ()) = .idle := rfl
  ⟨final, hsound, rfl, hsettled.freed.trans rfl, (hsettled.performed (.client () ()) hclient).trans rfl,
    (hsettled.performed (.host ()) hhost).trans rfl⟩

end RtosMaster
end Spi
