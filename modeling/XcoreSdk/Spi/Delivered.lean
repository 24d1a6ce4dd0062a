import XcoreSdk.Spi.Reported
import XcoreSdk.Lib.Work
/-!
# The RTOS SPI slave driver delivers what it reports

The driver's own steps come to an end, and then every transaction has been put
into the queue and the callback has been called for it. An application that
makes one call in each callback always gets a transfer.
-/

namespace Spi
namespace RtosSlave

variable {ι β : Type*} {cfg : Config} {s s' : State ι β}

/-! ## Rest -/

/-- Steps that need neither the master nor the application. -/
def Own : Act ι β → Prop
  | .hil | .isr | .app => True
  | _ => False

def Hil.work : Hil β → Nat
  | .idle | .running _ => 0
  | .boot => 1
  | .inbuf_len _ _ _ => 2
  | .in_buf _ _ => 3
  | .outbuf_len _ => 4
  | .out_buf => 5
  | .spin => 6
  | .notify => 16
  | .waiting_for_isr => 17
  | .bytes_read _ => 18

def Isr.work (to_isr : Bool) : Isr β → Nat
  | .idle => if to_isr then 15 else 0
  | .done => 1
  | .send _ => 9
  | .take _ => 10
  | .bytes_read _ _ _ => 11
  | .in_buf _ _ => 12
  | .bytes_written _ => 13
  | .out_buf => 14

def App.work : App → Nat
  | .start => 1
  | .take | .callback => 0

/-- How many steps of its own the driver can make at most. -/
def State.work (s : State ι β) : Nat := s.hil.work + s.isr.work s.to_isr + s.app.work + s.notified

theorem work_hil_step (h : Inv cfg s) (hs : hil_step s = some s') : s'.work < s.work := by
  have hphase := h.phase
  unfold hil_step at hs
  split at hs <;> rename_i hhil
  · split at hs
    · cases hs
      simp [State.work, hhil, Hil.work]
    · cases hs
  · split at hs
    · cases hs
    · cases hs
      simp [State.work, hhil, Hil.work]
  · cases hs
    simp [State.work, hhil, Hil.work]
  · cases hs
    simp [State.work, hhil, Hil.work]
  · cases hs
    simp [State.work, hhil, Hil.work]
  · cases hs
    simp [State.work, hhil, Hil.work]
  · cases hs
    simp [State.work, hhil, Hil.work]
  · cases hs
    simp [State.work, hhil, Hil.work]
  · split at hs
    · cases hs
    · cases hs
      rw [hhil] at hphase
      obtain ⟨item, hi, ht, -⟩ := hphase.ended id id
      simp only [State.work, hhil, hi, ht, Hil.work, Isr.work, if_true]
      omega
  · cases hs
  · cases hs

theorem work_isr (h : Inv cfg s) (hs : rtos_spi_slave_isr cfg s = some s') : s'.work < s.work := by
  have hphase := h.phase
  unfold rtos_spi_slave_isr at hs
  split at hs <;> rename_i hisr
  · split at hs
    · rename_i hto
      cases hs
      simp [State.work, hisr, hto, Isr.work]
    · cases hs
  · cases hs
    simp [State.work, hisr, Isr.work]
  · cases hs
    simp [State.work, hisr, Isr.work]
  · cases hs
    simp [State.work, hisr, Isr.work]
  · cases hs
    simp [State.work, hisr, Isr.work]
  · split at hs
    · cases hs
      simp [State.work, hisr, Isr.work]
    · cases hs
  · split at hs
    · cases hs
      simp only [State.work, hisr, Isr.work]
      split <;> omega
    · cases hs
      simp [State.work, hisr, Isr.work]
  · cases hs
    rw [hisr] at hphase
    have hto : s.to_isr = false := by
      cases hphase with
      | quiet _ h => cases h
      | ending _ h => cases h
      | handing _ _ _ _ _ h => exact h.elim
      | sending _ _ _ _ _ h => cases h
      | sent _ _ ht => exact ht
    simp [State.work, hisr, hto, Isr.work]

theorem work_app_step (hs : app_step cfg s = some s') : s'.work < s.work := by
  unfold app_step at hs
  split at hs <;> rename_i happ
  · split at hs
    · cases hs
    · cases hs
      simp [State.work, happ, App.work]
  · split at hs
    · rename_i hpos
      split at hs
      · cases hs
        simp only [State.work, happ, App.work]
        omega
      · cases hs
        simp only [State.work, happ, App.work]
        omega
    · cases hs
  · cases hs

section
variable [DecidableEq ι]

theorem work_own {a : Act ι β} (h : Inv cfg s) (ha : Own a) (hs : (driver cfg).step s a = some s') :
    s'.work < s.work := by
  cases a with
  | hil => exact work_hil_step h hs
  | isr => exact work_isr h hs
  | app => exact work_app_step hs
  | _ => exact ha.elim

end

/-- Only the master or the application can go on. -/
def AtRest (cfg : Config) (s : State ι β) : Prop :=
  hil_step s = none ∧ rtos_spi_slave_isr cfg s = none ∧ app_step cfg s = none ∧ s.app ≠ .callback

theorem Inv.rest (h : Inv cfg s) (hrest : AtRest cfg s) : s.pending = none ∧ s.notified = 0 := by
  obtain ⟨hhil, hisr, happ, hcallback⟩ := hrest
  constructor
  · cases h.phase with
    | quiet _ _ _ hp => exact hp
    | ending item hi ht hp ho hin hend =>
      unfold RtosSlave.hil_step at hhil
      cases hat : s.hil <;> rw [hat] at hend hhil <;> first | exact hend.elim | cases hhil | simp [ht] at hhil
    | handing item hw hout ht hp hhand =>
      unfold rtos_spi_slave_isr at hisr
      cases hat : s.isr <;> rw [hat] at hhand hisr <;> first | exact hhand.elim | cases hisr | simp [ht] at hisr
    | sending item hw hout ht hp hi =>
      unfold rtos_spi_slave_isr at hisr
      rw [hi] at hisr
      dsimp only at hisr
      split at hisr <;> cases hisr
    | sent hw hout ht hp hi => exact hp
  · unfold RtosSlave.app_step at happ
    cases hat : s.app with
    | callback => exact absurd hat hcallback
    | start =>
      rw [hat] at happ
      simp [h.start hat] at happ
    | take =>
      rw [hat] at happ
      by_contra hne
      dsimp only at happ
      rw [if_pos (Nat.pos_of_ne_zero hne)] at happ
      split at happ <;> cases happ

/-! ## Every run -/

/-- What the driver promises in a state. -/
structure Reported [DecidableEq ι] (cfg : Config) (s : State ι β) : Prop where
  /-- Each transaction that has ended has been returned once, in order and as it
  was, or is in the queue, except for the last one at most. -/
  order : ∃ missing : Option (Item β), s.completed = s.returned ++ s.xfer_done_queue ++ missing.toList
  called : cfg.xfer_done = true → s.calls ≤ s.completed.length
  bounded : ∀ as s', (driver cfg).Run (fun s a => Claimed cfg s a ∧ Own a) s as s' → as.length ≤ s.work
  /-- Left alone, it puts them all into the queue and calls the callback for each. -/
  rests : AtRest cfg s → s.completed = s.returned ++ s.xfer_done_queue ∧
    (cfg.xfer_done = true → s.calls = s.completed.length)

theorem Inv.reported [DecidableEq ι] (h : Inv cfg s) : Reported cfg s where
  order := ⟨s.pending, h.log⟩
  called hdone := by
    have hcalls := h.calls hdone
    omega
  bounded as s' hr := hr.length_le (fun s a s' h hc hs => ⟨h.step hc.1 hs, work_own h hc.2 hs⟩) h
  rests hrest := by
    obtain ⟨hp, hn⟩ := h.rest hrest
    refine ⟨?_, fun hdone => ?_⟩
    · rw [h.log, hp, Option.toList_none, List.append_nil]
    · have hcalls := h.calls hdone
      rw [hp, hn] at hcalls
      exact hcalls

/-- One call in each callback: every call has got a transfer. -/
structure Fed (cfg : Config) (s : State ι β) : Prop where
  inv : Inv cfg s
  answered : ∀ r ∈ s.results, r ≠ none
  callback : s.app = .callback → cfg.xfer_done = true
  count : s.returned.length + (if s.app = .callback then 1 else 0) = s.calls

theorem Fed.frame (h : Fed cfg s) (hinv : Inv cfg s') (hresults : s'.results = s.results) (happ : s'.app = s.app)
    (hcalls : s'.calls = s.calls) : Fed cfg s' := by
  refine ⟨hinv, ?_, ?_, ?_⟩
  · rw [hresults]
    exact h.answered
  · rw [happ]
    exact h.callback
  · rw [State.returned, hresults, happ, hcalls]
    exact h.count

theorem Fed.app_step (h : Fed cfg s) (hinv : Inv cfg s') (hs : app_step cfg s = some s') : Fed cfg s' := by
  have hcount := h.count
  unfold RtosSlave.app_step at hs
  split at hs <;> rename_i happ <;> simp only [happ, reduceCtorEq, if_false] at hcount
  · split at hs
    · cases hs
    · cases hs
      exact ⟨hinv, h.answered, (by intro h; cases h), hcount⟩
  · split at hs
    · split at hs
      · rename_i hdone
        cases hs
        exact ⟨hinv, h.answered, fun _ => hdone, congrArg (· + 1) hcount⟩
      · cases hs
        exact h.frame hinv rfl rfl rfl
    · cases hs
  · cases hs

theorem Fed.callback_complete (h : Fed cfg s) (happ : s.app = .callback)
    (hinv : Inv cfg { spi_slave_xfer_complete s with app := .take }) :
    Fed cfg { spi_slave_xfer_complete s with app := .take } := by
  have hcount := h.count
  rw [if_pos happ] at hcount
  have hcalls := h.inv.calls (h.callback happ)
  have hlen := congrArg List.length h.inv.log
  simp only [List.length_append] at hlen
  -- one more callback than transfers returned: one is in the queue
  cases hq : s.xfer_done_queue with
  | nil =>
    rw [hq] at hlen
    simp only [List.length_nil] at hlen
    omega
  | cons item queue =>
    rw [xfer_complete_cons hq] at hinv ⊢
    refine ⟨hinv, fun r hr => ?_, (by intro h; cases h), ?_⟩
    · rcases List.mem_append.1 hr with hr | hr
      · exact h.answered r hr
      · rw [List.mem_singleton.1 hr]
        simp
    · simpa [State.returned] using hcount

/-- Nothing that a caller sees changes. -/
def Unseen (s s' : State ι β) : Prop := s'.results = s.results ∧ s'.app = s.app ∧ s'.calls = s.calls

theorem hil_step_unseen (hs : hil_step s = some s') : Unseen s s' := by
  unfold hil_step at hs
  split at hs
  case h_1 | h_2 | h_9 =>
    split at hs <;> cases hs
    exact ⟨rfl, rfl, rfl⟩
  all_goals cases hs <;> exact ⟨rfl, rfl, rfl⟩

theorem isr_unseen (hs : rtos_spi_slave_isr cfg s = some s') : Unseen s s' := by
  unfold rtos_spi_slave_isr at hs
  split at hs
  case h_1 | h_6 | h_7 => split at hs <;> cases hs <;> exact ⟨rfl, rfl, rfl⟩
  all_goals (cases hs; exact ⟨rfl, rfl, rfl⟩)

variable [DecidableEq ι]

theorem step_unseen {a : Act ι β} (ha : ¬ a matches .app | .callback_complete | .callback_return | .complete)
    (hs : (driver cfg).step s a = some s') : Unseen s s' := by
  cases a with
  | hil => exact hil_step_unseen hs
  | isr => exact isr_unseen hs
  | transaction_started | transaction_ended | prepare_call =>
    simp only [driver, transaction_ended] at hs
    split at hs <;> cases hs
    exact ⟨rfl, rfl, rfl⟩
  | prepare i =>
    simp only [driver, spi_slave_xfer_prepare] at hs
    split at hs
    · cases hs
    all_goals (cases hs; exact ⟨rfl, rfl, rfl⟩)
  | app | callback_complete | callback_return | complete => exact absurd rfl ha

theorem fed_reachable (h : (driver cfg).Reachable (fun s a => Claimed cfg s a ∧ OneEach a) s) : Fed cfg s := by
  refine h.inv (fun s hinit => ?_) fun s a s' h hc hs => ?_
  · refine ⟨inv_reachable (.init hinit), ?_, ?_, ?_⟩
    all_goals cases hinit
    · intro r hr
      cases hr
    · dsimp only
      split <;> intro h <;> cases h
    · dsimp only
      split <;> rfl
  · have hinv := h.inv.step hc.1 hs
    cases a with
    | complete => exact hc.2.elim
    | callback_return => exact hc.2.elim
    | app => exact h.app_step hinv hs
    | callback_complete =>
      simp only [driver] at hs
      split at hs
      · rename_i happ
        cases hs
        exact h.callback_complete happ hinv
      · cases hs
    | hil | isr | transaction_started | transaction_ended _ _ | prepare_call _ _ | prepare _ =>
      obtain ⟨hresults, happ, hcalls⟩ := step_unseen (by simp) hs
      exact h.frame hinv hresults happ hcalls

/-- In every run in which no buffer is changed while a transaction that has taken
it is not yet reported, the application thread has taken a notification when the
next one is given, and at most two transfers are unclaimed: the transfers are
reported once, in order and as they were, the callback is called for each, and
an application that claims one in each callback misses none. -/
theorem transfers_reported (cfg : Config) :
    (∀ s : State ι β, (driver cfg).Reachable (Claimed cfg) s → Reported cfg s) ∧
      ∀ s : State ι β, (driver cfg).Reachable (fun s a => Claimed cfg s a ∧ OneEach a) s →
        (∀ r ∈ s.results, r ≠ none) ∧ (cfg.xfer_done = true → AtRest cfg s → s.returned = s.completed) := by
  refine ⟨fun s h => (inv_reachable h).reported, fun s h => ?_⟩
  have hfed := fed_reachable h
  refine ⟨hfed.answered, fun hdone hrest => ?_⟩
  obtain ⟨hlog, hcalls⟩ := hfed.inv.reported.rests hrest
  have hcount := hfed.count
  rw [if_neg hrest.2.2.2, Nat.add_zero, hcalls hdone, hlog, List.length_append] at hcount
  have hempty : s.xfer_done_queue = [] := List.eq_nil_of_length_eq_zero (by omega)
  rw [hlog, hempty, List.append_nil]

/-! ## Runs -/

instance [DecidableEq β] (s : State ι β) : ∀ p : Prepare β, Decidable (p.Allowed s)
  | .in_buf args => inferInstanceAs (Decidable (s.in_taken = true → args.rx_buf = s.ctx.in_buf))
  | .out_buf args => inferInstanceAs (Decidable (s.out_taken = true → args.tx_buf = s.ctx.out_buf))
  | .idle | .inbuf_len _ | .outbuf_len _ => isTrue trivial

instance (s : State ι β) : ∀ isr : Isr β, Decidable (isr.Allowed cfg s)
  | .send _ => inferInstanceAs (Decidable (cfg.xfer_done = true → s.notified = 0))
  | .idle | .out_buf | .bytes_written _ | .in_buf _ _ | .bytes_read _ _ _ | .take _ | .done => isTrue trivial

instance [DecidableEq β] (s : State ι β) : ∀ a : Act ι β, Decidable (Claimed cfg s a)
  | .prepare i => inferInstanceAs (Decidable ((s.prepare i).Allowed s))
  | .isr => inferInstanceAs (Decidable (s.isr.Allowed cfg s))
  | .transaction_ended _ _ => inferInstanceAs (Decidable (s.completed.length < s.returned.length + 2))
  | .hil | .transaction_started | .app | .callback_complete | .callback_return | .complete | .prepare_call _ _ =>
    isTrue trivial

instance : ∀ a : Act ι β, Decidable (OneEach a)
  | .complete | .callback_return => isFalse id
  | .hil | .transaction_started | .app | .callback_complete | .transaction_ended _ _ | .isr | .prepare_call _ _
  | .prepare _ => isTrue trivial

/-- Without a `start`, with an `xfer_done`. -/
def started : State Unit Bool :=
  ⟨⟨none, 0, 0, none, 0, 0, false⟩, .idle, .idle, .take, fun _ => .idle, false, false, [], 0, [], none, [], 0⟩

/-- A call of `spi_slave_xfer_prepare` with one buffer for both directions. -/
def preparing (b : Bool) : List (Act Unit Bool) :=
  [.prepare_call () ⟨some b, 4, some b, 4⟩, .prepare (), .prepare (), .prepare (), .prepare ()]

/-- A transaction starts, and has its buffers. -/
def starting : List (Act Unit Bool) := [.transaction_started, .hil, .hil, .hil, .hil, .hil]

/-- It ends, and is reported. -/
def ending (bytes_written bytes_read : Nat) : List (Act Unit Bool) :=
  [Act.transaction_ended bytes_written bytes_read, Act.hil, Act.hil, Act.hil] ++ List.replicate 8 Act.isr

/-- Two transactions with different buffers, each claimed in its callback. -/
theorem transfers_reported_two : ∃ s : State Unit Bool,
    s.results = [some ⟨some true, 4, some true, 3⟩, some ⟨some false, 2, some false, 2⟩] ∧
      Reported ⟨false, true⟩ s ∧ (∀ r ∈ s.results, r ≠ none) ∧
      ((⟨false, true⟩ : Config).xfer_done = true → AtRest ⟨false, true⟩ s → s.returned = s.completed) := by
  have hrun : ((driver ⟨false, true⟩).exec (fun s a => Claimed ⟨false, true⟩ s a ∧ OneEach a) started
      (List.flatten [
        preparing true, starting, ending 4 3, preparing false, [.app, .callback_complete], starting, ending 2 2,
        [.app, .callback_complete]])).any
      (fun s => decide (s.results = [some ⟨some true, 4, some true, 3⟩, some ⟨some false, 2, some false, 2⟩])) := by
    decide +kernel
  obtain ⟨s, hs, hends⟩ := (Option.any_eq_true _ _).1 hrun
  have hrun := Machine.exec_run hs
  have hclaimed : (driver ⟨false, true⟩).Reachable (Claimed ⟨false, true⟩) s :=
    ⟨started, _, rfl, hrun.mono fun _ _ h => h.1⟩
  have hone : (driver ⟨false, true⟩).Reachable (fun s a => Claimed ⟨false, true⟩ s a ∧ OneEach a) s :=
    ⟨started, _, rfl, hrun⟩
  exact ⟨s, of_decide_eq_true hends, (transfers_reported ⟨false, true⟩).1 s hclaimed,
    (transfers_reported ⟨false, true⟩).2 s hone⟩

/-- A buffer that is prepared during a transaction is returned in place of the one
it used. And two transactions that are over before the application thread runs
have one callback together. -/
theorem prepared_buffer_reported :
    (∃ s : State Unit Bool, (driver ⟨false, true⟩).Reachable Machine.Free s ∧
      s.completed = [⟨some true, 4, some true, 3⟩] ∧ s.results = [some ⟨some false, 4, some false, 3⟩]) ∧
    ∃ s : State Unit Bool, (driver ⟨false, true⟩).Reachable Machine.Free s ∧ s.calls = 1 ∧ s.completed.length = 2 ∧
      s.returned.length = 1 ∧ s.xfer_done_queue.length = 1 ∧ AtRest ⟨false, true⟩ s := by
  constructor
  · have hrun : ((driver ⟨false, true⟩).exec Machine.Free started
        (List.flatten [preparing true, starting, preparing false, ending 4 3, [.app, .callback_complete]])).any
        (fun s => decide (s.completed = [⟨some true, 4, some true, 3⟩] ∧
          s.results = [some ⟨some false, 4, some false, 3⟩])) := by decide +kernel
    obtain ⟨s, hs, hends⟩ := (Option.any_eq_true _ _).1 hrun
    exact ⟨s, Machine.exec_reachable rfl hs, of_decide_eq_true hends⟩
  · have hrun : ((driver ⟨false, true⟩).exec Machine.Free started
        (List.flatten [preparing true, starting, ending 4 3, starting, ending 2 2, [.app, .callback_complete]])).any
        (fun s => decide (s.calls = 1 ∧ s.completed.length = 2 ∧ s.returned.length = 1 ∧
          s.xfer_done_queue.length = 1 ∧ (hil_step s).isNone ∧ (rtos_spi_slave_isr ⟨false, true⟩ s).isNone ∧
            (app_step ⟨false, true⟩ s).isNone ∧ s.app ≠ .callback)) := by decide +kernel
    obtain ⟨s, hs, hends⟩ := (Option.any_eq_true _ _).1 hrun
    obtain ⟨hcalls, hcompleted, hreturned, hqueue, hhil, hisr, happ, hcallback⟩ := of_decide_eq_true hends
    exact ⟨s, Machine.exec_reachable rfl hs, hcalls, hcompleted, hreturned, hqueue, Option.isNone_iff_eq_none.1 hhil,
      Option.isNone_iff_eq_none.1 hisr, Option.isNone_iff_eq_none.1 happ, hcallback⟩

end RtosSlave
end Spi
