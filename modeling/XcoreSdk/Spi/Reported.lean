import XcoreSdk.Spi.RtosSlave
/-!
# What the RTOS SPI slave driver reports

From the end of a transaction until the interrupt routine has put it into the
queue, the driver's fields say what the transaction was (`Phase`). A buffer
that is prepared in the meantime would be reported in place of the one that was
used, and a notification that is given before the last one has been taken comes
to nothing.
-/

namespace Spi
namespace RtosSlave
open FreeRtos

variable {ι β : Type*} {cfg : Config}

/-! ## The transfer on its way -/

/-- The buffers that a transaction has taken are still the driver's. -/
def Taken (ctx : Ctx β) : Hil β → Prop
  | .boot | .idle | .spin | .out_buf => True
  | .outbuf_len out_buf | .in_buf out_buf _ => ctx.out_buf = out_buf
  | .inbuf_len out_buf _ in_buf => ctx.out_buf = out_buf ∧ ctx.in_buf = in_buf
  | .running buffers => ctx.out_buf = buffers.out_buf ∧ ctx.in_buf = buffers.in_buf
  | .bytes_read _ | .waiting_for_isr | .notify => False

/-- The low-level slave's thread is writing down what the transaction was. -/
def Ending (ctx : Ctx β) (item : Item β) : Hil β → Prop
  | .bytes_read n => ctx.bytes_written = item.bytes_written ∧ n = item.bytes_read ∧ ctx.waiting_for_isr = false
  | .waiting_for_isr => ctx.bytes_written = item.bytes_written ∧ ctx.bytes_read = item.bytes_read ∧
      ctx.waiting_for_isr = false
  | .notify => ctx.bytes_written = item.bytes_written ∧ ctx.bytes_read = item.bytes_read ∧ ctx.waiting_for_isr = true
  | _ => False

/-- The interrupt routine is reading it. -/
def Handing (ctx : Ctx β) (item : Item β) : Isr β → Prop
  | .idle | .out_buf => ctx.out_buf = item.out_buf ∧ ctx.bytes_written = item.bytes_written ∧
      ctx.in_buf = item.in_buf ∧ ctx.bytes_read = item.bytes_read
  | .bytes_written out_buf => out_buf = item.out_buf ∧ ctx.bytes_written = item.bytes_written ∧
      ctx.in_buf = item.in_buf ∧ ctx.bytes_read = item.bytes_read
  | .in_buf out_buf bytes_written => out_buf = item.out_buf ∧ bytes_written = item.bytes_written ∧
      ctx.in_buf = item.in_buf ∧ ctx.bytes_read = item.bytes_read
  | .bytes_read out_buf bytes_written in_buf => out_buf = item.out_buf ∧ bytes_written = item.bytes_written ∧
      in_buf = item.in_buf ∧ ctx.bytes_read = item.bytes_read
  | .take item' => item' = item
  | .send _ | .done => False

/-- Between two transactions. -/
def Hil.Outside : Hil β → Prop
  | .idle | .spin => True
  | _ => False

inductive Phase (ctx : Ctx β) (hil : Hil β) (isr : Isr β) (to_isr : Bool) (pending : Option (Item β)) : Prop
  | quiet : ctx.waiting_for_isr = false → isr = .idle → to_isr = false → pending = none → Taken ctx hil →
      Phase ctx hil isr to_isr pending
  | ending (item : Item β) : isr = .idle → to_isr = false → pending = some item → ctx.out_buf = item.out_buf →
      ctx.in_buf = item.in_buf → Ending ctx item hil → Phase ctx hil isr to_isr pending
  | handing (item : Item β) : ctx.waiting_for_isr = true → hil.Outside → to_isr = true → pending = some item →
      Handing ctx item isr → Phase ctx hil isr to_isr pending
  | sending (item : Item β) : ctx.waiting_for_isr = true → hil.Outside → to_isr = false → pending = some item →
      isr = .send item → Phase ctx hil isr to_isr pending
  | sent : ctx.waiting_for_isr = true → hil.Outside → to_isr = false → pending = none → isr = .done →
      Phase ctx hil isr to_isr pending

/-! ## The conditions -/

/-- The transfers that calls have returned. -/
def State.returned (s : State ι β) : List (Item β) := s.results.filterMap id

/-- From the low-level slave's reading of the field to the interrupt routine's. -/
def State.out_taken (s : State ι β) : Bool :=
  match s.hil with
  | .outbuf_len _ | .in_buf _ _ | .inbuf_len _ _ _ | .running _ | .bytes_read _ | .waiting_for_isr | .notify => true
  | .boot | .idle | .spin | .out_buf =>
    s.to_isr && match s.isr with
      | .idle | .out_buf => true
      | _ => false

def State.in_taken (s : State ι β) : Bool :=
  match s.hil with
  | .inbuf_len _ _ _ | .running _ | .bytes_read _ | .waiting_for_isr | .notify => true
  | .boot | .idle | .spin | .out_buf | .outbuf_len _ | .in_buf _ _ =>
    s.to_isr && match s.isr with
      | .idle | .out_buf | .bytes_written _ | .in_buf _ _ => true
      | _ => false

/-- A buffer that is taken is not changed. -/
def Prepare.Allowed (s : State ι β) : Prepare β → Prop
  | .in_buf args => s.in_taken = true → args.rx_buf = s.ctx.in_buf
  | .out_buf args => s.out_taken = true → args.tx_buf = s.ctx.out_buf
  | .idle | .inbuf_len _ | .outbuf_len _ => True

/-- The last notification has been taken when the next one is given. -/
def Isr.Allowed (cfg : Config) (s : State ι β) : Isr β → Prop
  | .send _ => cfg.xfer_done = true → s.notified = 0
  | _ => True

/-- No buffer is changed while a transaction has taken it and the interrupt
routine has not yet read it, the application thread has taken a notification
when the next one is given, and a transaction that ends leaves at most two
unclaimed. -/
def Claimed (cfg : Config) (s : State ι β) : Act ι β → Prop
  | .prepare i => (s.prepare i).Allowed s
  | .isr => s.isr.Allowed cfg s
  | .transaction_ended _ _ => s.completed.length < s.returned.length + 2
  | _ => True

/-- The application makes one call in each callback and no others. -/
def OneEach : Act ι β → Prop
  | .complete | .callback_return => False
  | _ => True

/-! ## Every step -/

structure Inv (cfg : Config) (s : State ι β) : Prop where
  phase : Phase s.ctx s.hil s.isr s.to_isr s.pending
  log : s.completed = s.returned ++ s.xfer_done_queue ++ s.pending.toList
  unclaimed : s.completed.length ≤ s.returned.length + 2
  notified : s.notified ≤ 1
  calls : cfg.xfer_done = true → s.calls + s.notified + s.pending.toList.length = s.completed.length
  start : s.app = .start → s.to_hil = false

variable {s s' : State ι β} {ctx : Ctx β} {hil : Hil β} {isr : Isr β} {to_isr : Bool} {pending : Option (Item β)}

theorem Phase.taken (h : Phase ctx hil isr to_isr pending) (hout : ¬ hil.Outside) (hend : ∀ item, ¬ Ending ctx item hil) :
    ctx.waiting_for_isr = false ∧ isr = .idle ∧ to_isr = false ∧ pending = none ∧ Taken ctx hil := by
  cases h with
  | quiet hw hi ht hp htaken => exact ⟨hw, hi, ht, hp, htaken⟩
  | ending item _ _ _ _ _ h => exact absurd h (hend item)
  | handing _ _ h => exact absurd h hout
  | sending _ _ h => exact absurd h hout
  | sent _ h => exact absurd h hout

theorem Phase.ended (h : Phase ctx hil isr to_isr pending) (hout : ¬ hil.Outside) (htaken : ¬ Taken ctx hil) :
    ∃ item, isr = .idle ∧ to_isr = false ∧ pending = some item ∧ ctx.out_buf = item.out_buf ∧
      ctx.in_buf = item.in_buf ∧ Ending ctx item hil := by
  cases h with
  | quiet _ _ _ _ h => exact absurd h htaken
  | ending item hi ht hp ho hin hend => exact ⟨item, hi, ht, hp, ho, hin, hend⟩
  | handing _ _ h => exact absurd h hout
  | sending _ _ h => exact absurd h hout
  | sent _ h => exact absurd h hout

/-- What a transaction has taken so far is one field more. -/
theorem Phase.take {hil' : Hil β} (h : Phase ctx hil isr to_isr pending) (hout : ¬ hil.Outside)
    (hend : ∀ item, ¬ Ending ctx item hil) (htaken : Taken ctx hil → Taken ctx hil') :
    Phase ctx hil' isr to_isr pending := by
  obtain ⟨hw, hi, ht, hp, h⟩ := h.taken hout hend
  exact .quiet hw hi ht hp (htaken h)

theorem Inv.hil_step (h : Inv cfg s) (hs : hil_step s = some s') : Inv cfg s' := by
  obtain ⟨hphase, hlog, hunclaimed, hnotified, hcalls, hstart⟩ := h
  unfold RtosSlave.hil_step at hs
  split at hs <;> rename_i hhil <;> rw [hhil] at hphase
  · -- boot
    split at hs
    · cases hs
      exact ⟨hphase.take id (fun _ => id) fun _ => trivial, hlog, hunclaimed, hnotified, hcalls, fun _ => rfl⟩
    · cases hs
  · -- the wait for the interrupt routine is over
    split at hs
    · cases hs
    · rename_i hwaiting
      cases hs
      refine ⟨?_, hlog, hunclaimed, hnotified, hcalls, hstart⟩
      cases hphase with
      | quiet hw hi ht hp _ => exact .quiet hw hi ht hp trivial
      | ending _ _ _ _ _ _ h => exact h.elim
      | handing _ hw => exact absurd hw hwaiting
      | sending _ hw => exact absurd hw hwaiting
      | sent hw => exact absurd hw hwaiting
  · cases hs
    exact ⟨hphase.take id (fun _ => id) fun _ => rfl, hlog, hunclaimed, hnotified, hcalls, hstart⟩
  · cases hs
    exact ⟨hphase.take id (fun _ => id) id, hlog, hunclaimed, hnotified, hcalls, hstart⟩
  · cases hs
    exact ⟨hphase.take id (fun _ => id) fun h => ⟨h, rfl⟩, hlog, hunclaimed, hnotified, hcalls, hstart⟩
  · cases hs
    exact ⟨hphase.take id (fun _ => id) id, hlog, hunclaimed, hnotified, hcalls, hstart⟩
  · cases hs
    obtain ⟨item, hi, ht, hp, ho, hin, hw, hr, hwaiting⟩ := hphase.ended id id
    exact ⟨.ending item hi ht hp ho hin ⟨hw, hr, hwaiting⟩, hlog, hunclaimed, hnotified, hcalls, hstart⟩
  · cases hs
    obtain ⟨item, hi, ht, hp, ho, hin, hw, hr, -⟩ := hphase.ended id id
    exact ⟨.ending item hi ht hp ho hin ⟨hw, hr, rfl⟩, hlog, hunclaimed, hnotified, hcalls, hstart⟩
  · split at hs
    · cases hs
    · cases hs
      obtain ⟨item, hi, ht, hp, ho, hin, hw, hr, hwaiting⟩ := hphase.ended id id
      refine ⟨.handing item hwaiting trivial rfl hp ?_, hlog, hunclaimed, hnotified, hcalls, hstart⟩
      rw [hi]
      exact ⟨ho, hw, hin, hr⟩
  · cases hs
  · cases hs

theorem Inv.transaction_ended {bytes_written bytes_read : Nat} (h : Inv cfg s)
    (hc : Claimed cfg s (.transaction_ended bytes_written bytes_read))
    (hs : transaction_ended s bytes_written bytes_read = some s') : Inv cfg s' := by
  obtain ⟨hphase, hlog, hunclaimed, hnotified, hcalls, hstart⟩ := h
  unfold RtosSlave.transaction_ended at hs
  split at hs <;> rename_i hhil
  · cases hs
    rw [hhil] at hphase
    obtain ⟨hw, hi, ht, hp, ho, hin⟩ := hphase.taken id fun _ => id
    rw [hp] at hlog hcalls
    refine ⟨.ending _ hi ht rfl ho hin ⟨rfl, rfl, hw⟩, ?_, ?_, hnotified, fun hdone => ?_, hstart⟩
    · rw [hlog]
      exact congrArg (· ++ [_]) (List.append_nil _)
    · rw [List.length_append]
      exact hc
    · have hcalls := hcalls hdone
      rw [List.length_append]
      exact congrArg (· + 1) hcalls
  · cases hs

theorem Inv.isr_step (h : Inv cfg s) (hc : Claimed cfg s .isr) (hs : rtos_spi_slave_isr cfg s = some s') : Inv cfg s' := by
  obtain ⟨hphase, hlog, hunclaimed, hnotified, hcalls, hstart⟩ := h
  unfold rtos_spi_slave_isr at hs
  -- outside of `idle` something is being handed over
  have hreading : ∀ isr' : Isr β, s.isr ≠ .idle → (∀ item, Handing s.ctx item s.isr → Handing s.ctx item isr') →
      (∀ item, s.isr ≠ .send item) → s.isr ≠ .done → Inv cfg { s with isr := isr' } := by
    intro isr' hidle hhand hsend hdone
    refine ⟨?_, hlog, hunclaimed, hnotified, hcalls, hstart⟩
    cases hphase with
    | quiet _ hi => exact absurd hi hidle
    | ending _ hi => exact absurd hi hidle
    | handing item hw ho ht hp h => exact .handing item hw ho ht hp (hhand item h)
    | sending item _ _ _ _ hi => exact absurd hi (hsend item)
    | sent _ _ _ _ hi => exact absurd hi hdone
  split at hs <;> rename_i hisr
  · split at hs
    · rename_i hto
      cases hs
      refine ⟨?_, hlog, hunclaimed, hnotified, hcalls, hstart⟩
      rw [hisr] at hphase
      cases hphase with
      | quiet _ _ ht => rw [ht] at hto; cases hto
      | ending _ _ ht => rw [ht] at hto; cases hto
      | handing item hw ho ht hp h => exact .handing item hw ho ht hp h
      | sending _ _ _ _ _ h => cases h
      | sent _ _ _ _ h => cases h
    · cases hs
  · cases hs
    exact hreading _ (by simp [hisr]) (fun item h => by rw [hisr] at h; exact h) (by simp [hisr]) (by simp [hisr])
  · cases hs
    exact hreading _ (by simp [hisr]) (fun item h => by rw [hisr] at h; exact h) (by simp [hisr]) (by simp [hisr])
  · cases hs
    exact hreading _ (by simp [hisr]) (fun item h => by rw [hisr] at h; exact h) (by simp [hisr]) (by simp [hisr])
  · cases hs
    refine hreading _ (by simp [hisr]) (fun item h => ?_) (by simp [hisr]) (by simp [hisr])
    rw [hisr] at h
    obtain ⟨rfl, rfl, rfl, hr⟩ := h
    change _ = item
    rw [hr]
  · split at hs
    · cases hs
      refine ⟨?_, hlog, hunclaimed, hnotified, hcalls, hstart⟩
      rw [hisr] at hphase
      cases hphase with
      | quiet _ h => cases h
      | ending _ h => cases h
      | handing item hw ho _ hp h => exact .sending item hw ho rfl hp (congrArg Isr.send h)
      | sending _ _ _ _ _ h => cases h
      | sent _ _ _ _ h => cases h
    · cases hs
  · rename_i item'
    rw [hisr] at hphase
    obtain ⟨hw, hout, hto, hp⟩ : s.ctx.waiting_for_isr = true ∧ s.hil.Outside ∧ s.to_isr = false ∧
        s.pending = some item' := by
      cases hphase with
      | quiet _ h => cases h
      | ending _ h => cases h
      | handing _ _ _ _ _ h => exact h.elim
      | sending item hw ho ht hp h =>
        cases h
        exact ⟨hw, ho, ht, hp⟩
      | sent _ _ _ _ h => cases h
    have hgiven : cfg.xfer_done = true → s.notified = 0 := by
      unfold Claimed at hc
      dsimp only at hc
      rwa [hisr] at hc
    rw [hp] at hlog hcalls
    -- two are unclaimed at most, one of them this one
    have hroom : s.xfer_done_queue.length < 2 := by
      rw [hlog] at hunclaimed
      simp only [List.length_append, Option.toList_some, List.length_singleton] at hunclaimed
      omega
    rw [rtos_osal_queue_send, if_pos hroom] at hs
    cases hs
    refine ⟨.sent hw hout hto rfl rfl, ?_, hunclaimed, ?_, fun hdone => ?_, hstart⟩
    · rw [Option.toList_none, List.append_nil, ← List.append_assoc]
      exact hlog
    · dsimp only
      split
      · rename_i hdone
        exact Nat.le_of_eq (congrArg (· + 1) (hgiven hdone))
      · exact hnotified
    · have hcalls := hcalls hdone
      dsimp only
      rw [if_pos hdone]
      simp only [Option.toList_some, List.length_singleton, Option.toList_none, List.length_nil] at hcalls ⊢
      omega
  · cases hs
    rw [hisr] at hphase
    refine ⟨?_, hlog, hunclaimed, hnotified, hcalls, hstart⟩
    cases hphase with
    | quiet _ h => cases h
    | ending _ h => cases h
    | handing _ _ _ _ _ h => exact h.elim
    | sending _ _ _ _ _ h => cases h
    | sent _ hout ht hp _ =>
      refine .quiet rfl rfl ht hp ?_
      cases hhil : s.hil with
      | idle | spin => trivial
      | _ => rw [hhil] at hout; exact hout.elim

theorem Inv.app_step (h : Inv cfg s) (hs : app_step cfg s = some s') : Inv cfg s' := by
  obtain ⟨hphase, hlog, hunclaimed, hnotified, hcalls, hstart⟩ := h
  unfold RtosSlave.app_step at hs
  split at hs
  · split at hs
    · cases hs
    · cases hs
      exact ⟨hphase, hlog, hunclaimed, hnotified, hcalls, fun h => by cases h⟩
  · split at hs
    · rename_i hpos
      split at hs
      · cases hs
        refine ⟨hphase, hlog, hunclaimed, Nat.zero_le _, fun hdone => ?_, fun h => by cases h⟩
        have hcalls := hcalls hdone
        dsimp only
        omega
      · rename_i hdone
        cases hs
        exact ⟨hphase, hlog, hunclaimed, Nat.zero_le _, fun h => absurd h hdone, hstart⟩
    · cases hs
  · cases hs

theorem xfer_complete_nil (hq : s.xfer_done_queue = []) :
    spi_slave_xfer_complete s = { s with results := s.results ++ [none] } := by
  unfold spi_slave_xfer_complete
  rw [hq]
  rfl

theorem xfer_complete_cons {item : Item β} {queue : List (Item β)} (hq : s.xfer_done_queue = item :: queue) :
    spi_slave_xfer_complete s = { s with xfer_done_queue := queue, results := s.results ++ [some item] } := by
  unfold spi_slave_xfer_complete
  rw [hq]
  rfl

theorem Inv.xfer_complete (h : Inv cfg s) : Inv cfg (spi_slave_xfer_complete s) := by
  obtain ⟨hphase, hlog, hunclaimed, hnotified, hcalls, hstart⟩ := h
  unfold State.returned at hlog hunclaimed
  cases hq : s.xfer_done_queue with
  | nil =>
    rw [xfer_complete_nil hq]
    refine ⟨hphase, ?_, ?_, hnotified, hcalls, hstart⟩
    · simpa [State.returned] using hlog
    · simpa [State.returned] using hunclaimed
  | cons item queue =>
    rw [xfer_complete_cons hq]
    refine ⟨hphase, ?_, ?_, hnotified, hcalls, hstart⟩
    · simpa [State.returned, hq] using hlog
    · simp only [State.returned, List.filterMap_append, List.length_append]
      omega

/-! ## Buffers are prepared -/

/-- A preparation does not change what has been taken or is being handed over. -/
theorem Phase.frame {ctx' : Ctx β} (h : Phase ctx hil isr to_isr pending) (hwaiting : ctx'.waiting_for_isr = ctx.waiting_for_isr)
    (htaken : Taken ctx hil → Taken ctx' hil)
    (hending : ∀ item, Ending ctx item hil → Ending ctx' item hil ∧ ctx'.out_buf = ctx.out_buf ∧ ctx'.in_buf = ctx.in_buf)
    (hhanding : hil.Outside → to_isr = true → ∀ item, Handing ctx item isr → Handing ctx' item isr) :
    Phase ctx' hil isr to_isr pending := by
  cases h with
  | quiet hw hi ht hp h => exact .quiet (hwaiting.trans hw) hi ht hp (htaken h)
  | ending item hi ht hp ho hin h =>
    obtain ⟨hend, hout_buf, hin_buf⟩ := hending item h
    exact .ending item hi ht hp (hout_buf.trans ho) (hin_buf.trans hin) hend
  | handing item hw hout ht hp h => exact .handing item (hwaiting.trans hw) hout ht hp (hhanding hout ht item h)
  | sending item hw hout ht hp hi => exact .sending item (hwaiting.trans hw) hout ht hp hi
  | sent hw hout ht hp hi => exact .sent (hwaiting.trans hw) hout ht hp hi

theorem Phase.in_buf (h : Phase s.ctx s.hil s.isr s.to_isr s.pending) (in_buf : Option β) (hfree : s.in_taken = false) :
    Phase { s.ctx with in_buf } s.hil s.isr s.to_isr s.pending := by
  unfold State.in_taken at hfree
  refine h.frame rfl (fun htaken => ?_) (fun item hend => ?_) (fun hout ht item hhand => ?_)
  · cases hhil : s.hil <;> rw [hhil] at htaken hfree <;> first | exact htaken | cases hfree
  · cases hhil : s.hil <;> rw [hhil] at hend hfree <;> first | exact hend.elim | cases hfree
  · have hfree : (match s.isr with
        | .idle | .out_buf | .bytes_written _ | .in_buf _ _ => true
        | _ => false) = false := by
      cases hhil : s.hil <;> rw [hhil] at hout hfree <;> first | exact hout.elim | simpa [ht] using hfree
    cases hisr : s.isr <;> rw [hisr] at hhand hfree <;> first | exact hhand | cases hfree

theorem Phase.out_buf (h : Phase s.ctx s.hil s.isr s.to_isr s.pending) (out_buf : Option β)
    (hfree : s.out_taken = false) : Phase { s.ctx with out_buf } s.hil s.isr s.to_isr s.pending := by
  unfold State.out_taken at hfree
  refine h.frame rfl (fun htaken => ?_) (fun item hend => ?_) (fun hout ht item hhand => ?_)
  · cases hhil : s.hil <;> rw [hhil] at htaken hfree <;> first | exact htaken | cases hfree
  · cases hhil : s.hil <;> rw [hhil] at hend hfree <;> first | exact hend.elim | cases hfree
  · have hfree : (match s.isr with
        | .idle | .out_buf => true
        | _ => false) = false := by
      cases hhil : s.hil <;> rw [hhil] at hout hfree <;> first | exact hout.elim | simpa [ht] using hfree
    cases hisr : s.isr <;> rw [hisr] at hhand hfree <;> first | exact hhand | cases hfree

/-- The lengths are of no account. -/
theorem Phase.lens (h : Phase s.ctx s.hil s.isr s.to_isr s.pending) (outbuf_len inbuf_len : Nat) :
    Phase { s.ctx with outbuf_len, inbuf_len } s.hil s.isr s.to_isr s.pending := by
  refine h.frame rfl (fun htaken => ?_) (fun item hend => ⟨?_, rfl, rfl⟩) (fun _ _ item hhand => ?_)
  · cases hhil : s.hil <;> rw [hhil] at htaken <;> exact htaken
  · cases hhil : s.hil <;> rw [hhil] at hend <;> exact hend
  · cases hisr : s.isr <;> rw [hisr] at hhand <;> exact hhand

theorem Inv.prepare [DecidableEq ι] {i : ι} (h : Inv cfg s) (hc : Claimed cfg s (.prepare i))
    (hs : spi_slave_xfer_prepare s i = some s') : Inv cfg s' := by
  obtain ⟨hphase, hlog, hunclaimed, hnotified, hcalls, hstart⟩ := h
  unfold spi_slave_xfer_prepare at hs
  unfold Claimed at hc
  cases hi : s.prepare i with
  | idle => rw [hi] at hs; cases hs
  | in_buf args =>
    simp only [hi, Prepare.Allowed] at hs hc
    cases hs
    refine ⟨?_, hlog, hunclaimed, hnotified, hcalls, hstart⟩
    cases hfree : s.in_taken with
    | false => exact hphase.in_buf _ hfree
    | true => exact (hc hfree).symm ▸ hphase
  | out_buf args =>
    simp only [hi, Prepare.Allowed] at hs hc
    cases hs
    refine ⟨?_, hlog, hunclaimed, hnotified, hcalls, hstart⟩
    cases hfree : s.out_taken with
    | false => exact hphase.out_buf _ hfree
    | true => exact (hc hfree).symm ▸ hphase
  | inbuf_len args =>
    simp only [hi] at hs
    cases hs
    exact ⟨hphase.lens s.ctx.outbuf_len args.rx_buf_len, hlog, hunclaimed, hnotified, hcalls, hstart⟩
  | outbuf_len args =>
    simp only [hi] at hs
    cases hs
    exact ⟨hphase.lens args.tx_buf_len s.ctx.inbuf_len, hlog, hunclaimed, hnotified, hcalls, hstart⟩

variable [DecidableEq ι]

theorem Inv.step {a : Act ι β} (h : Inv cfg s) (hc : Claimed cfg s a) (hs : (driver cfg).step s a = some s') :
    Inv cfg s' := by
  cases a with
  | hil => exact h.hil_step hs
  | transaction_started =>
    simp only [driver] at hs
    split at hs
    · rename_i hhil
      cases hs
      obtain ⟨hphase, hlog, hunclaimed, hnotified, hcalls, hstart⟩ := h
      rw [hhil] at hphase
      refine ⟨?_, hlog, hunclaimed, hnotified, hcalls, hstart⟩
      cases hphase with
      | quiet hw hi ht hp _ => exact .quiet hw hi ht hp trivial
      | ending _ _ _ _ _ _ h => exact h.elim
      | handing item hw _ ht hp h => exact .handing item hw trivial ht hp h
      | sending item hw _ ht hp h => exact .sending item hw trivial ht hp h
      | sent hw _ ht hp h => exact .sent hw trivial ht hp h
    · cases hs
  | transaction_ended bytes_written bytes_read => exact h.transaction_ended hc hs
  | isr => exact h.isr_step hc hs
  | app => exact h.app_step hs
  | callback_complete =>
    simp only [driver] at hs
    split at hs
    · cases hs
      obtain ⟨hphase, hlog, hunclaimed, hnotified, hcalls, -⟩ := h.xfer_complete
      exact ⟨hphase, hlog, hunclaimed, hnotified, hcalls, fun h => by cases h⟩
    · cases hs
  | callback_return =>
    simp only [driver] at hs
    split at hs
    · cases hs
      exact ⟨h.phase, h.log, h.unclaimed, h.notified, h.calls, fun h => by cases h⟩
    · cases hs
  | complete =>
    cases hs
    exact h.xfer_complete
  | prepare_call i args =>
    simp only [driver] at hs
    split at hs
    · cases hs
      exact ⟨h.phase, h.log, h.unclaimed, h.notified, h.calls, h.start⟩
    · cases hs
  | prepare i => exact h.prepare hc hs

theorem inv_reachable (h : (driver cfg).Reachable (Claimed cfg) s) : Inv cfg s := by
  refine h.inv (fun s hinit => ?_) fun s a s' h hc hs => h.step hc hs
  cases hinit
  refine ⟨.quiet rfl rfl rfl rfl ?_, rfl, Nat.zero_le _, Nat.zero_le _, fun _ => rfl, fun _ => rfl⟩
  split <;> trivial

end RtosSlave
end Spi
