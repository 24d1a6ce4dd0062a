import XcoreSdk.QspiFlash.OpThread
import Mathlib.Data.Fintype.Basic
import Mathlib.Data.List.Infix
/-!
# Readers and their semaphore

`data_ready` does not say whose read is done. As long as a read is requested
only when no other one is outstanding (`Alone`), there is only one task it can
be for, and `ReadAt` follows the one read there is from the queue to the task.
With two outstanding reads the wrong task can get the semaphore, and the
second put can find it still full.
-/

namespace QspiFlash
open FreeRtos
variable {ι : Type*} [DecidableEq ι]

/-- The task has requested a read that has not returned. -/
def Outstanding : Pc → Prop
  | .put_mutex op => op = .FLASH_OP_READ
  | .wait => True
  | _ => False

/-- No read is requested while another one is outstanding. -/
def Alone (s : Flash ι) : Act ι → Prop
  | .task i => s.pc i = .send .FLASH_OP_READ → ∀ j, ¬ Outstanding (s.pc j)
  | _ => True

/-- The puts of the semaphore that are still to come for reads that are done. -/
def Thread.putting : Thread ι → Nat
  | .put _ => 1
  | _ => 0

/-- A read that has returned has filled its buffer, and the buffers filled are
those of the calls that have returned, of the one the semaphore stands for and
of the one the thread is about to put it for. -/
structure Served (s : Flash ι) : Prop where
  filled : s.returned <+: s.filled
  released : s.filled.length = s.returned.length + s.data_ready + s.thread.putting

/-! ## The read that is outstanding -/

def isRead (req : qspi_flash_op_req_t ι) : Bool := req.op = .FLASH_OP_READ

/-- The thread is not at a read. -/
def Thread.Off : Thread ι → Prop
  | .receive => True
  | .perform req => isRead req = false
  | .put _ => False

/-- Where the outstanding read is. -/
inductive ReadAt (s : Flash ι) : Prop
  | nowhere : (∀ j, ¬ Outstanding (s.pc j)) → s.op_queue.filter isRead = [] → s.thread.Off → s.data_ready = 0 →
      s.filled = s.returned → ReadAt s
  | queued {i : ι} : Outstanding (s.pc i) → (∀ j, Outstanding (s.pc j) → j = i) →
      s.op_queue.filter isRead = [⟨.FLASH_OP_READ, i, s.calls i⟩] → s.thread.Off → s.data_ready = 0 →
      s.filled = s.returned → ReadAt s
  | performed {i : ι} : Outstanding (s.pc i) → (∀ j, Outstanding (s.pc j) → j = i) → s.op_queue.filter isRead = [] →
      s.thread = .perform ⟨.FLASH_OP_READ, i, s.calls i⟩ → s.data_ready = 0 → s.filled = s.returned → ReadAt s
  | done {i : ι} : Outstanding (s.pc i) → (∀ j, Outstanding (s.pc j) → j = i) → s.op_queue.filter isRead = [] →
      s.thread = .put (i, s.calls i) → s.data_ready = 0 → s.filled = s.returned ++ [(i, s.calls i)] → ReadAt s
  | ready {i : ι} : Outstanding (s.pc i) → (∀ j, Outstanding (s.pc j) → j = i) → s.op_queue.filter isRead = [] →
      s.thread.Off → s.data_ready = 1 → s.filled = s.returned ++ [(i, s.calls i)] → ReadAt s

variable {s s' : Flash ι}

omit [DecidableEq ι] in
theorem Thread.Off.count {t : Thread ι} (h : t.Off) : t.putting = 0 := by
  cases t with
  | put _ => exact absurd h id
  | _ => rfl

omit [DecidableEq ι] in
theorem served_of_readAt (h : ReadAt s) : Served s := by
  cases h with
  | nowhere _ _ h3 h4 h5 => exact ⟨by rw [h5], by rw [h5, h4, h3.count]; rfl⟩
  | queued _ _ _ h3 h4 h5 => exact ⟨by rw [h5], by rw [h5, h4, h3.count]; rfl⟩
  | performed _ _ _ h3 h4 h5 => exact ⟨by rw [h5], by rw [h5, h4, h3]; rfl⟩
  | done _ _ _ h3 h4 h5 => exact ⟨⟨_, h5.symm⟩, by simp [h5, h4, h3, Thread.putting]⟩
  | ready _ _ _ h3 h4 h5 => exact ⟨⟨_, h5.symm⟩, by rw [h5, h4, h3.count]; simp⟩

@[simp] theorem goto_pc_self (i : ι) (pc : Pc) : (s.goto i pc).pc i = pc := by simp [Flash.goto]

theorem goto_pc_of_ne {i j : ι} (pc : Pc) (h : j ≠ i) : (s.goto i pc).pc j = s.pc j := by simp [Flash.goto, h]

/-- A task that moves on without beginning or ending a read. -/
theorem ReadAt.move {i : ι} (pc : Pc) (h : ReadAt s) (hpc : Outstanding pc ↔ Outstanding (s.pc i))
    (hp : s'.pc = Function.update s.pc i pc) (hc : Outstanding (s.pc i) → s'.calls = s.calls)
    (hcs : ∀ j, j ≠ i → s'.calls j = s.calls j) (hq : s'.op_queue.filter isRead = s.op_queue.filter isRead)
    (ht : s'.thread = s.thread) (hd : s'.data_ready = s.data_ready) (hf : s'.filled = s.filled)
    (hr : s'.returned = s.returned) : ReadAt s' := by
  have hout : ∀ j, Outstanding (s'.pc j) ↔ Outstanding (s.pc j) := by
    intro j
    rw [hp]
    by_cases hj : j = i
    · subst hj; rw [Function.update_self]; exact hpc
    · rw [Function.update_of_ne hj]
  have hcalls : ∀ j, Outstanding (s.pc j) → s'.calls j = s.calls j := by
    intro j hj
    by_cases hji : j = i
    · subst hji; rw [hc hj]
    · exact hcs j hji
  cases h with
  | nowhere h1 h2 h3 h4 h5 =>
    exact .nowhere (fun j hj => h1 j ((hout j).1 hj)) (by rw [hq, h2]) (by rw [ht]; exact h3) (by rw [hd, h4]) (by rw [hf, hr, h5])
  | queued h0 h1 h2 h3 h4 h5 =>
    exact .queued ((hout _).2 h0) (fun j hj => h1 j ((hout j).1 hj)) (by rw [hq, h2, hcalls _ h0]) (by rw [ht]; exact h3)
      (by rw [hd, h4]) (by rw [hf, hr, h5])
  | performed h0 h1 h2 h3 h4 h5 =>
    exact .performed ((hout _).2 h0) (fun j hj => h1 j ((hout j).1 hj)) (by rw [hq, h2]) (by rw [ht, h3, hcalls _ h0])
      (by rw [hd, h4]) (by rw [hf, hr, h5])
  | done h0 h1 h2 h3 h4 h5 =>
    exact .done ((hout _).2 h0) (fun j hj => h1 j ((hout j).1 hj)) (by rw [hq, h2]) (by rw [ht, h3, hcalls _ h0])
      (by rw [hd, h4]) (by rw [hf, hr, h5, hcalls _ h0])
  | ready h0 h1 h2 h3 h4 h5 =>
    exact .ready ((hout _).2 h0) (fun j hj => h1 j ((hout j).1 hj)) (by rw [hq, h2]) (by rw [ht]; exact h3)
      (by rw [hd, h4]) (by rw [hf, hr, h5, hcalls _ h0])

/-! ## Steps -/

theorem call_step {i : ι} {op : FlashOp} (h : ReadAt s) (hs : flash.step s (.call i op) = some s') : ReadAt s' := by
  simp only [flash] at hs
  split at hs
  · rename_i hidle
    cases hs
    have hnot : ¬ Outstanding (s.pc i) := by rw [hidle]; exact id
    exact h.move (.get_mutex op) ⟨False.elim, fun h => absurd h hnot⟩ rfl (fun h => absurd h hnot)
      (fun j hj => Function.update_of_ne hj _ _) rfl rfl rfl rfl rfl
  · cases hs

theorem task_step_readAt {i : ι} (h : ReadAt s) (halone : Alone s (.task i)) (hs : task_step s i = some s') :
    ReadAt s' := by
  unfold task_step at hs
  split at hs
  · cases hs
  · rename_i op hpc
    obtain ⟨mutex, -, rfl⟩ := Option.map_eq_some_iff.1 hs
    have hnot : ¬ Outstanding (s.pc i) := by rw [hpc]; exact id
    exact h.move (.send op) ⟨False.elim, fun h => absurd h hnot⟩ rfl (fun _ => rfl) (fun _ _ => rfl) rfl rfl rfl rfl rfl
  · rename_i op hpc
    obtain ⟨queue, hsend, rfl⟩ := Option.map_eq_some_iff.1 hs
    obtain ⟨-, rfl⟩ := queue_send_eq_some.1 hsend
    have hnot : ¬ Outstanding (s.pc i) := by rw [hpc]; exact id
    by_cases hop : op = .FLASH_OP_READ
    · subst hop
      -- nobody else's read is outstanding, so this one is the only one
      have hnone := halone hpc
      cases h with
      | nowhere h1 h2 h3 h4 h5 =>
        refine .queued (i := i) (?_) (fun j hj => ?_) ?_ h3 h4 h5
        · have hself : (s.goto i (.put_mutex .FLASH_OP_READ)).pc i = .put_mutex .FLASH_OP_READ := goto_pc_self _ _
          show Outstanding ((s.goto i (.put_mutex .FLASH_OP_READ)).pc i)
          rw [hself]
          rfl
        · by_contra hji
          exact h1 j ((goto_pc_of_ne (.put_mutex .FLASH_OP_READ) hji : (s.goto i _).pc j = s.pc j) ▸ hj)
        · rw [List.filter_append, h2]
          rfl
      | queued h0 | performed h0 | done h0 | ready h0 => exact absurd h0 (hnone _)
    · refine h.move (.put_mutex op) ⟨fun h => absurd h hop, fun h => absurd h hnot⟩ rfl (fun _ => rfl) (fun _ _ => rfl)
        ?_ rfl rfl rfl rfl
      simp [List.filter_append, isRead, hop]
  · rename_i op hpc
    cases hs
    refine h.move _ ?_ rfl (fun _ => rfl) (fun _ _ => rfl) rfl rfl rfl rfl rfl
    rw [hpc]
    by_cases hop : op = .FLASH_OP_READ
    · rw [if_pos hop]
      exact ⟨fun _ => hop, fun _ => trivial⟩
    · rw [if_neg hop]
      exact ⟨False.elim, fun h => absurd h hop⟩
  · rename_i hpc
    obtain ⟨count, hget, rfl⟩ := Option.map_eq_some_iff.1 hs
    have hcount := semaphore_get_eq_some.1 hget
    have hout : Outstanding (s.pc i) := by rw [hpc]; trivial
    cases h with
    | nowhere h1 => exact absurd hout (h1 i)
    | queued _ _ _ _ h4 => omega
    | performed _ _ _ _ h4 => omega
    | done _ _ _ _ h4 => omega
    | ready h0 h1 h2 h3 h4 h5 =>
      obtain rfl := h1 i hout
      refine .nowhere (fun j hj => ?_) h2 h3 (by simp only; omega) h5
      by_cases hji : j = i
      · subst hji
        have hself : (s.goto j .idle).pc j = .idle := goto_pc_self _ _
        have hj' : Outstanding ((s.goto j .idle).pc j) := hj
        rw [hself] at hj'
        exact hj'
      · exact hji (h1 j ((goto_pc_of_ne .idle hji : (s.goto _ _).pc j = s.pc j) ▸ hj))

omit [DecidableEq ι] in
theorem thread_step (h : ReadAt s) (hs : qspi_flash_op_thread s = some s') : ReadAt s' := by
  unfold qspi_flash_op_thread at hs
  split at hs
  · rename_i hth
    obtain ⟨⟨req, queue⟩, hrecv, rfl⟩ := Option.map_eq_some_iff.1 hs
    have hq := queue_receive_eq_some.1 hrecv
    cases hread : isRead req with
    | false =>
      have hq' : s.op_queue.filter isRead = queue.filter isRead := by rw [hq, List.filter_cons_of_neg (by simp [hread])]
      cases h with
      | nowhere h1 h2 h3 h4 h5 => exact .nowhere h1 (by rw [← hq', h2]) hread h4 h5
      | queued h0 h1 h2 h3 h4 h5 => exact .queued h0 h1 (by rw [← hq', h2]) hread h4 h5
      | performed _ _ _ h3 | done _ _ _ h3 => rw [hth] at h3; cases h3
      | ready h0 h1 h2 h3 h4 h5 => exact .ready h0 h1 (by rw [← hq', h2]) hread h4 h5
    | true =>
      have hq' : s.op_queue.filter isRead = req :: queue.filter isRead := by rw [hq, List.filter_cons_of_pos hread]
      cases h with
      | nowhere _ h2 | ready _ _ h2 => rw [hq'] at h2; cases h2
      | performed _ _ _ h3 | done _ _ _ h3 => rw [hth] at h3; cases h3
      | queued h0 h1 h2 h3 h4 h5 =>
        rw [hq'] at h2
        obtain ⟨rfl, hnil⟩ := List.cons.inj h2
        exact .performed h0 h1 hnil rfl h4 h5
  · rename_i req hth
    split at hs
    · rename_i hop
      cases hs
      have hread : isRead req = true := by simp [isRead, hop]
      cases h with
      | nowhere _ _ h3 | queued _ _ _ h3 | ready _ _ _ h3 =>
        rw [hth] at h3
        exact absurd (hread.symm.trans h3) nofun
      | done _ _ _ h3 => rw [hth] at h3; cases h3
      | performed h0 h1 h2 h3 h4 h5 =>
        rw [hth] at h3
        cases h3
        exact .done h0 h1 h2 rfl h4 (by rw [h5])
    · rename_i hop
      cases hs
      cases h with
      | nowhere h1 h2 h3 h4 h5 => exact .nowhere h1 h2 trivial h4 h5
      | queued h0 h1 h2 h3 h4 h5 => exact .queued h0 h1 h2 trivial h4 h5
      | performed _ _ _ h3 => rw [hth] at h3; cases h3; exact absurd rfl hop
      | done _ _ _ h3 => rw [hth] at h3; cases h3
      | ready h0 h1 h2 h3 h4 h5 => exact .ready h0 h1 h2 trivial h4 h5
  · rename_i call hth
    cases hs
    cases h with
    | nowhere _ _ h3 | queued _ _ _ h3 | ready _ _ _ h3 =>
      rw [hth] at h3
      exact absurd h3 id
    | performed _ _ _ h3 => rw [hth] at h3; cases h3
    | done h0 h1 h2 h3 h4 h5 => exact .ready h0 h1 h2 trivial (by simp [h4, rtos_osal_semaphore_put, data_ready_max_count]) h5

theorem flash_step {a : Act ι} (h : ReadAt s) (halone : Alone s a) (hs : flash.step s a = some s') : ReadAt s' := by
  cases a with
  | call i op => exact call_step h hs
  | task i => exact task_step_readAt h halone hs
  | thread => exact thread_step h hs

/-- While reads do not overlap, a read returns after its own buffer has been
filled, and each buffer filled lets one reader go. -/
theorem readers_served {s : Flash ι} (h : flash.Reachable Alone s) : Served s := by
  refine served_of_readAt (h.inv ?_ fun _ _ _ h halone hs => flash_step h halone hs)
  rintro s rfl
  exact .nowhere (fun _ => id) rfl trivial rfl rfl

/-! ## Two readers -/

instance : DecidablePred Outstanding
  | .put_mutex op => inferInstanceAs (Decidable (op = .FLASH_OP_READ))
  | .wait => isTrue trivial
  | .idle | .get_mutex _ | .send _ => isFalse id

instance [Fintype ι] (s : Flash ι) : ∀ a, Decidable (Alone s a)
  | .task i => inferInstanceAs (Decidable (s.pc i = .send .FLASH_OP_READ → ∀ j, ¬ Outstanding (s.pc j)))
  | .call _ _ | .thread => isTrue trivial

instance [Fintype ι] (prio : ι → Nat) (s : Flash ι) : ∀ a, Decidable (Wakes prio s a)
  | .task i => inferInstanceAs (Decidable (s.pc i = .wait → ∀ j, s.pc j = .wait → prio j ≤ prio i))
  | .call _ _ | .thread => isTrue trivial

/-- A call of `rtos_qspi_flash_read` up to its wait for the semaphore. -/
def requestRead (i : Bool) : List (Act Bool) := .call i .FLASH_OP_READ :: List.replicate 3 (.task i)

/-- The thread's work on one read. -/
def performRead : List (Act Bool) := List.replicate 3 .thread

theorem readers_served_in_turn : ∃ s, (flash (ι := Bool)).Reachable Alone s ∧
    s.returned = [(false, 1), (true, 1)] ∧ Served s := by
  have hrun : ((flash (ι := Bool)).exec Alone ⟨none, [], 0, .receive, fun _ => .idle, fun _ => 0, [], []⟩
      (List.flatten [requestRead false, performRead, [.task false], requestRead true, performRead, [.task true]])).map
        Flash.returned = some [(false, 1), (true, 1)] := by decide +kernel
  obtain ⟨s, hs, hobs⟩ := Option.map_eq_some_iff.1 hrun
  have hreach := Machine.exec_reachable rfl hs
  exact ⟨s, hreach, hobs, readers_served hreach⟩

/-- Task `true` has the higher priority and waits too when the read of `false`
is done: it gets the semaphore, and returns before its own read. -/
theorem readers_served_overlap :
    (∃ s, (flash (ι := Bool)).Reachable (Wakes fun i => if i then 2 else 1) s ∧
      (true, 1) ∈ s.returned ∧ s.filled = [(false, 1)] ∧ ¬ Served s) ∧
    ∃ s, (flash (ι := Bool)).Reachable (Wakes fun i => if i then 2 else 1) s ∧
      s.filled = [(false, 1), (true, 1)] ∧ s.returned = [] ∧ s.data_ready = 1 ∧ ¬ Served s := by
  have hswap : ((flash (ι := Bool)).exec (Wakes fun i => if i then 2 else 1)
      ⟨none, [], 0, .receive, fun _ => .idle, fun _ => 0, [], []⟩
      (List.flatten [requestRead false, requestRead true, performRead, [.task true]])).map
        (fun s => (s.returned, s.filled)) = some ([(true, 1)], [(false, 1)]) := by decide +kernel
  have hlost : ((flash (ι := Bool)).exec (Wakes fun i => if i then 2 else 1)
      ⟨none, [], 0, .receive, fun _ => .idle, fun _ => 0, [], []⟩
      (List.flatten [requestRead false, requestRead true, performRead, performRead])).map
        (fun s => (s.filled, s.returned, s.data_ready, s.thread.putting)) =
          some ([(false, 1), (true, 1)], [], 1, 0) := by decide +kernel
  obtain ⟨s, hs, hobs⟩ := Option.map_eq_some_iff.1 hswap
  obtain ⟨t, ht, hobt⟩ := Option.map_eq_some_iff.1 hlost
  obtain ⟨hret, hfil⟩ := Prod.mk.inj hobs
  obtain ⟨hfil', hobt⟩ := Prod.mk.inj hobt
  obtain ⟨hret', hobt⟩ := Prod.mk.inj hobt
  obtain ⟨hsem, hput⟩ := Prod.mk.inj hobt
  refine ⟨⟨s, Machine.exec_reachable rfl hs, by rw [hret]; decide, hfil, fun hserved => ?_⟩,
    t, Machine.exec_reachable rfl ht, hfil', hret', hsem, fun hserved => ?_⟩
  · have hp := hserved.filled
    rw [hret, hfil] at hp
    exact absurd hp (by decide)
  · have hr := hserved.released
    rw [hfil', hret', hsem, hput] at hr
    exact absurd hr (by decide)

end QspiFlash
