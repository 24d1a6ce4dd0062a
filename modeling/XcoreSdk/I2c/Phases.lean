import XcoreSdk.I2c.HandOff
/-!
# The RTOS I2C slave driver in every state

At each place of the low-level slave's thread the driver's state is that of the
transaction that goes on, of one that has ended and for which a call is due, or
of none (`QuietAt`), or a notification is outstanding (`ServingAt`).
-/

namespace I2c
namespace RtosSlave
variable {β : Type*} (cfg : Config β) {s s' : State β} {c : Call β} {called : Bool}

/-! ## Where the low-level slave's thread is -/

/-- The driver's state is that of the transaction that goes on. -/
def Matches (s : State β) : Transaction β → Prop
  | .write data => s.rx_data_i = min data.length cfg.RTOS_I2C_SLAVE_BUF_LEN ∧
      s.received = data.take cfg.RTOS_I2C_SLAVE_BUF_LEN ∧ s.tx_data_sent = 0
  | .read acked tx_data taken => s.rx_data_i = 0 ∧ s.tx_data_sent.toNat = taken.length ∧ tx_data = s.tx_data ∧
      (acked = true → 0 < s.tx_data_len ∧ s.tx_data ≠ .null) ∧ (acked = false → taken = [])

/-- A transaction has ended, and a call may be due to it. -/
inductive Owing (s : State β) : Prop
  | nothing : Cleared s → s.calls = s.due cfg → Owing s
  | unwanted : cfg.tx_done = false → s.rx_data_i = 0 → s.calls = s.due cfg → Owing s
  | call (c : Call β) : c.notification ≠ .tx_start → (c.notification = .tx_done → cfg.tx_done = true) → Holds s c →
      s.calls ++ [c] = s.due cfg → Owing s

/-- What holds at each place while nothing is outstanding. -/
def QuietAt (s : State β) : Prop :=
  match s.hil with
  | .idle =>
    match s.current with
    | none => Cleared s ∧ s.calls = s.due cfg
    | some t => Matches cfg s t ∧ s.calls = s.due cfg
  | .check _ | .completed _ => s.current = none ∧ Owing cfg s
  | .notify _ n => s.current = none ∧ ∃ c, c.notification = n ∧ Holds s c ∧ s.calls ++ [c] = s.due cfg
  | .checked _ | .tx_start => s.current = none ∧ Cleared s ∧ s.calls = s.due cfg
  | .boot | .wait _ | .tx_wait => False

/-- Where a notification may be outstanding, and whether the next callback waits for the answer. -/
def ServingAt (hil : Hil) (waiting : Bool) : Prop :=
  match hil with
  | .idle | .check _ | .checked .stop_bit => waiting = true
  | .wait _ | .tx_wait => waiting = false
  | _ => False

/-- Before the application thread has let the low-level slave start. -/
structure Boot (s : State β) : Prop where
  hil : s.hil = .boot
  waiting : s.waiting_for_complete_cb = false
  to_app : s.to_app = none
  deferred : s.deferred = []
  events : s.events = fun _ => false
  app : s.app = .boot ∧ s.to_hil = false ∨ s.app.Resting ∧ s.to_hil = true
  cleared : Cleared s
  current : s.current = none
  calls : s.calls = [] ∧ s.past = []

inductive Inv (s : State β) : Prop
  | boot : Boot s → Inv s
  | quiet : s.waiting_for_complete_cb = false → Quiet s → QuietAt cfg s → Inv s
  | serving (c : Call β) (called : Bool) : ServingAt s.hil s.waiting_for_complete_cb → s.current = none →
      Serving s c called → s.calls ++ owed c called = s.due cfg → Inv s

variable {cfg}

theorem Serving.aside {hil : Hil} {past : List (Transaction β)} {current : Option (Transaction β)} {waiting : Bool}
    (h : Serving s c called) :
    Serving { s with hil, past, current, waiting_for_complete_cb := waiting } c called := by
  cases h with
  | sent hto hd he happ hto' hholds => exact .sent hto hd he happ hto' (by cases c <;> exact hholds)
  | deferred hto hd he happ hto' hholds => exact .deferred hto hd he happ hto' (by cases c <;> exact hholds)
  | event hto hd he happ hto' hholds => exact .event hto hd he happ hto' (by cases c <;> exact hholds)
  | check n hto hd he happ hn hto' hholds => exact .check n hto hd he happ hn hto' (by cases c <;> exact hholds)
  | inside hto hd he happ hto' hholds hlast => exact .inside hto hd he happ hto' (by cases c <;> exact hholds) hlast
  | answer hto hd he happ hto' hcleared => exact .answer hto hd he happ hto' hcleared
  | answered hto hd he happ hto' hcleared => exact .answered hto hd he happ hto' hcleared

/-- A notification goes out. -/
theorem Quiet.notify (h : Quiet s) (hholds : Holds s c) : Serving { s with to_app := some c.notification } c false :=
  .sent rfl h.deferred h.events h.app h.to_hil (by cases c <;> exact hholds)

/-- Between transactions the same calls are due. -/
theorem due_of {l : List (Call β)} (h : l = s.due cfg) (hpast : s'.past = s.past) (hcurrent : s.current = none)
    (hcurrent' : s'.current = none) (hhil : s.hil ≠ .tx_wait) (hhil' : s'.hil ≠ .tx_wait) : l = s'.due cfg := by
  have hbegun : ∀ s : State β, s.current = none → s.hil ≠ .tx_wait → s.begun = [] := fun s hcurrent hhil => by
    unfold State.begun
    rw [hcurrent]
    split
    · rename_i heq
      exact absurd heq hhil
    · rename_i heq _
      cases heq
    · rfl
  rw [h]
  simp only [State.due, hpast, hbegun s hcurrent hhil, hbegun s' hcurrent' hhil']

theorem Holds.app (h : Holds s c) (app : App) : Holds { s with app } c := by
  cases c <;> exact h

theorem Owing.app (h : Owing cfg s) (app : App) : Owing cfg { s with app } := by
  cases h with
  | nothing hcleared hcalls => exact .nothing hcleared hcalls
  | unwanted htx hrx hcalls => exact .unwanted htx hrx hcalls
  | call c hn htx hholds hcalls => exact .call c hn htx (hholds.app app) hcalls

/-- Nothing of this is about the application thread. -/
theorem QuietAt.app (h : QuietAt cfg s) (app : App) : QuietAt cfg { s with app } := by
  rcases s with ⟨data_buf, rx_data_i, tx_data, tx_data_len, tx_data_i, tx_data_sent, waiting, to_app, to_hil, deferred,
    events, hil, _, past, current, calls⟩
  cases hil with
  | boot | wait _ | tx_wait => exact h.elim
  | idle =>
    rcases current with _ | t
    · exact h
    · cases t <;> exact h
  | check _ | completed _ =>
    obtain ⟨hcurrent, howing⟩ := h
    exact ⟨hcurrent, howing.app app⟩
  | notify _ n =>
    obtain ⟨hcurrent, c, hn, hholds, hcalls⟩ := h
    exact ⟨hcurrent, c, hn, hholds.app app, hcalls⟩
  | checked _ | tx_start => exact h

theorem Inv.theirs (h : Inv cfg s) (hs : Theirs s s') : Inv cfg s' := by
  cases h with
  | boot h =>
    obtain ⟨hhil, hwaiting, hto, hdeferred, hevents, happ, hcleared, hcurrent, hcalls⟩ := h
    have hrest : s.app.Resting → s.to_hil = true → Inv cfg s' := fun happ hto' => by
      have hs' : ∃ app : App, app.Resting ∧ s' = { s with app } := by
        rcases hs with hs | hs | hs | ⟨_, _, _, hs⟩
        · simp [rtos_i2c_slave_isr, hto] at hs
        · simp [timer_step, hdeferred] at hs
        · rcases resting_step happ hs with hrest | ⟨n, hn, -⟩
          · exact hrest
          · simp [hevents] at hn
        · rw [resting_return happ] at hs
          cases hs
      obtain ⟨app, happ', rfl⟩ := hs'
      exact .boot ⟨hhil, hwaiting, hto, hdeferred, hevents, .inr ⟨happ', hto'⟩, hcleared, hcurrent, hcalls⟩
    rcases happ with ⟨happ, hto'⟩ | ⟨happ, hto'⟩
    · rcases hs with hs | hs | hs | ⟨_, _, _, hs⟩
      · simp [rtos_i2c_slave_isr, hto] at hs
      · simp [timer_step, hdeferred] at hs
      · simp only [app_step, happ, hto', Bool.false_eq_true, if_false, Option.some.injEq] at hs
        subst hs
        exact .boot ⟨hhil, hwaiting, hto, hdeferred, hevents, .inr ⟨.get_bits, rfl⟩, hcleared, hcurrent, hcalls⟩
      · simp [app_return, happ] at hs
    · exact hrest happ hto'
  | quiet hwaiting hquiet hat =>
    obtain ⟨app, happ, rfl⟩ := hquiet.theirs hs
    exact .quiet hwaiting ⟨hquiet.1, hquiet.2, hquiet.3, happ, hquiet.5⟩ (hat.app app)
  | serving c called hat hcurrent hserving hcalls =>
    obtain ⟨haside, called', hserving', heq⟩ := hserving.theirs hs
    have hdue : s'.due cfg = s.due cfg := by
      simp only [State.due, State.begun, haside.hil, haside.past, haside.current]
    refine .serving c called' ?_ (haside.current.trans hcurrent) hserving' ?_
    · rw [haside.hil, haside.waiting]
      exact hat
    · rw [heq, hcalls, hdue]

/-! ## The low-level slave's steps -/

theorem QuietAt.hil_step (hwaiting : s.waiting_for_complete_cb = false) (hquiet : Quiet s) (hat : QuietAt cfg s)
    (hs : hil_step cfg s = some s') : Inv cfg s' := by
  unfold QuietAt at hat
  unfold RtosSlave.hil_step at hs
  cases hhil : s.hil with
  | boot | wait _ | tx_wait => rw [hhil] at hat; exact hat.elim
  | idle => rw [hhil] at hs; cases hs
  | check cb =>
    rw [hhil] at hat hs
    obtain ⟨hcurrent, howing⟩ := hat
    dsimp only at hs
    rw [if_neg (by simp [hwaiting])] at hs
    cases hs
    have hdue : ∀ l, l = s.due cfg → l = State.due cfg { s with hil := .completed cb } := fun l h =>
      due_of h rfl hcurrent hcurrent (by simp [hhil]) (by simp)
    refine .quiet hwaiting ⟨hquiet.1, hquiet.2, hquiet.3, hquiet.4, hquiet.5⟩ ⟨hcurrent, ?_⟩
    cases howing with
    | nothing hcleared hcalls => exact .nothing hcleared (hdue _ hcalls)
    | unwanted htx hrx hcalls => exact .unwanted htx hrx (hdue _ hcalls)
    | call c hn htx hholds hcalls => exact .call c hn htx (by cases c <;> exact hholds) (hdue _ hcalls)
  | completed cb =>
    rw [hhil] at hat hs
    obtain ⟨hcurrent, howing⟩ := hat
    dsimp only at hs
    have hne : s.hil ≠ .tx_wait := by simp [hhil]
    have hchecked : Cleared s → s.calls = s.due cfg → Inv cfg s' := fun hcleared hcalls => by
      rw [if_neg (by simp [hcleared.2]), if_neg (by simp [hcleared.1])] at hs
      cases hs
      exact .quiet hwaiting ⟨hquiet.1, hquiet.2, hquiet.3, hquiet.4, hquiet.5⟩
        ⟨hcurrent, hcleared, due_of hcalls rfl hcurrent hcurrent hne (by simp)⟩
    cases howing with
    | nothing hcleared hcalls => exact hchecked hcleared hcalls
    | unwanted htx hrx hcalls =>
      by_cases hsent : 0 < s.tx_data_sent
      · rw [if_pos hsent, if_neg (by simp [htx])] at hs
        cases hs
        exact .quiet hwaiting ⟨hquiet.1, hquiet.2, hquiet.3, hquiet.4, hquiet.5⟩
          ⟨hcurrent, ⟨hrx, rfl⟩, due_of hcalls rfl hcurrent hcurrent hne (by simp)⟩
      · refine hchecked ⟨hrx, ?_⟩ hcalls
        rw [UInt32.lt_iff_toNat_lt] at hsent
        exact UInt32.toNat_inj.1 (Nat.le_zero.1 (Nat.le_of_not_lt hsent))
    | call c hn htx hholds hcalls =>
      cases c with
      | tx_start => exact absurd rfl hn
      | rx data =>
        obtain ⟨hpos, hdata, hsent⟩ := hholds
        rw [if_neg (by simp [hsent]), if_pos hpos] at hs
        cases hs
        exact .quiet hwaiting ⟨hquiet.1, hquiet.2, hquiet.3, hquiet.4, hquiet.5⟩ ⟨hcurrent, .rx data, rfl,
          ⟨hpos, hdata, hsent⟩, due_of hcalls rfl hcurrent hcurrent hne (by simp)⟩
      | tx_done data len =>
        obtain ⟨hrx, hsent, hdata, hlen⟩ := hholds
        rw [if_pos hsent, if_pos (htx rfl)] at hs
        cases hs
        exact .quiet hwaiting ⟨hquiet.1, hquiet.2, hquiet.3, hquiet.4, hquiet.5⟩ ⟨hcurrent, .tx_done data len, rfl,
          ⟨hrx, hsent, hdata, hlen⟩, due_of hcalls rfl hcurrent hcurrent hne (by simp)⟩
  | notify cb n =>
    rw [hhil] at hat hs
    obtain ⟨hcurrent, c, rfl, hholds, hcalls⟩ := hat
    have hserving := hquiet.notify hholds
    have hne : s.hil ≠ .tx_wait := by simp [hhil]
    dsimp only at hs
    rw [if_pos hquiet.to_app] at hs
    cases cb with
    | stop_bit =>
      cases hs
      exact .serving c false rfl hcurrent hserving.aside (due_of hcalls rfl hcurrent hcurrent hne (by simp))
    | ack_read_req | ack_write_req =>
      cases hs
      exact .serving c false hwaiting hcurrent hserving.aside
        (due_of hcalls rfl hcurrent hcurrent hne (by simp))
  | checked cb =>
    rw [hhil] at hat
    obtain ⟨hcurrent, hcleared, hcalls⟩ := hat
    cases cb with
    | stop_bit =>
      simp only [hhil, Option.some.injEq] at hs
      subst hs
      refine .quiet hwaiting ⟨hquiet.1, hquiet.2, hquiet.3, hquiet.4, hquiet.5⟩ ?_
      simp only [QuietAt, hcurrent]
      exact ⟨hcleared, by simpa [State.due, State.begun, hhil, hcurrent] using hcalls⟩
    | ack_write_req =>
      simp only [hhil, Option.some.injEq] at hs
      subst hs
      refine .quiet hwaiting ⟨hquiet.1, hquiet.2, hquiet.3, hquiet.4, hquiet.5⟩ ⟨⟨by simp, by simp [State.received], hcleared.2⟩, ?_⟩
      simpa [State.due, State.begun, hhil, hcurrent] using hcalls
    | ack_read_req =>
      simp only [hhil, Option.some.injEq] at hs
      subst hs
      refine .quiet hwaiting ⟨hquiet.1, hquiet.2, hquiet.3, hquiet.4, hquiet.5⟩ ⟨hcurrent, hcleared, ?_⟩
      simpa [State.due, State.begun, hhil, hcurrent] using hcalls
  | tx_start =>
    rw [hhil] at hat
    obtain ⟨hcurrent, hcleared, hcalls⟩ := hat
    simp only [hhil, hquiet.to_app, if_true, Option.some.injEq] at hs
    subst hs
    have hserving : Serving { s with to_app := some .tx_start } .tx_start false := hquiet.notify (c := .tx_start) hcleared
    refine .serving .tx_start false hwaiting hcurrent hserving.aside ?_
    simp [State.due, State.begun, hhil, hcurrent, hcalls, owed]

theorem Boot.hil_step (h : Boot s) (hs : hil_step cfg s = some s') : Inv cfg s' := by
  obtain ⟨hhil, hwaiting, hto, hdeferred, hevents, happ, hcleared, hcurrent, hcalls, hpast⟩ := h
  simp only [RtosSlave.hil_step, hhil] at hs
  split at hs
  · rename_i hto'
    cases hs
    rcases happ with ⟨-, hfalse⟩ | ⟨happ, -⟩
    · rw [hfalse] at hto'
      cases hto'
    · refine .quiet hwaiting ⟨hto, hdeferred, hevents, happ, rfl⟩ ?_
      simp only [QuietAt, hcurrent]
      exact ⟨hcleared, by simp [State.due, State.begun, hpast, hcalls]⟩
  · cases hs

/-- The answer comes. -/
theorem Serving.took (h : Serving s c called) (hto : s.to_hil = true) (hcalls : s.calls ++ owed c called = s.due cfg) :
    Cleared s ∧ Quiet { s with to_hil := false } ∧ s.calls = s.due cfg := by
  obtain ⟨rfl, hcleared, hquiet⟩ := h.answered_of_to_hil hto
  exact ⟨hcleared, hquiet, by simpa [owed] using hcalls⟩

theorem Serving.hil_step (hat : ServingAt s.hil s.waiting_for_complete_cb) (hcurrent : s.current = none)
    (h : Serving s c called) (hcalls : s.calls ++ owed c called = s.due cfg) (hs : hil_step cfg s = some s') :
    Inv cfg s' := by
  unfold RtosSlave.hil_step at hs
  cases hhil : s.hil with
  | boot | completed _ | notify _ _ | tx_start => rw [hhil] at hat; exact hat.elim
  | idle => rw [hhil] at hs; cases hs
  | check cb =>
    rw [hhil] at hat hs
    have hwaiting : s.waiting_for_complete_cb = true := hat
    dsimp only at hs
    rw [if_pos hwaiting] at hs
    split at hs
    · rename_i hto
      cases hs
      obtain ⟨hcleared, hquiet, hcalls⟩ := h.took hto hcalls
      refine .quiet rfl ⟨hquiet.1, hquiet.2, hquiet.3, hquiet.4, rfl⟩ ⟨hcurrent, .nothing hcleared ?_⟩
      simpa [State.due, State.begun, hhil, hcurrent] using hcalls
    · cases hs
  | wait cb =>
    rw [hhil] at hat
    have hwaiting : s.waiting_for_complete_cb = false := hat
    simp only [hhil] at hs
    split at hs
    · rename_i hto
      cases hs
      obtain ⟨hcleared, hquiet, hcalls⟩ := h.took hto hcalls
      refine .quiet hwaiting ⟨hquiet.1, hquiet.2, hquiet.3, hquiet.4, rfl⟩ ⟨hcurrent, hcleared, ?_⟩
      simpa [State.due, State.begun, hhil, hcurrent] using hcalls
    · cases hs
  | checked cb =>
    rw [hhil] at hat
    cases cb with
    | stop_bit =>
      simp only [hhil, Option.some.injEq] at hs
      subst hs
      exact .serving c called hat hcurrent h.aside (by simpa [State.due, State.begun, hhil, hcurrent] using hcalls)
    | _ => exact hat.elim
  | tx_wait =>
    rw [hhil] at hat
    have hwaiting : s.waiting_for_complete_cb = false := hat
    simp only [hhil] at hs
    split at hs
    · rename_i hto
      cases hs
      obtain ⟨hcleared, hquiet, hcalls⟩ := h.took hto hcalls
      refine .quiet hwaiting ⟨hquiet.1, hquiet.2, hquiet.3, hquiet.4, rfl⟩ ⟨⟨hcleared.1, rfl, rfl, fun hacked => ?_, fun _ => rfl⟩, ?_⟩
      · rw [Bool.and_eq_true, decide_eq_true_eq] at hacked
        refine ⟨hacked.1, fun hnull => ?_⟩
        rw [hnull] at hacked
        exact absurd hacked.2 (by simp)
      · simpa [State.due, State.begun, hhil, hcurrent] using hcalls
    · cases hs

/-- A transaction has ended. -/
theorem Matches.owing {t : Transaction β} {cb : Callback} (h : Matches cfg s t) (hcurrent : s.current = some t)
    (hhil : s.hil = .idle) (hcalls : s.calls = s.due cfg) (hallows : s.allows cb) :
    Owing cfg { s with hil := .check cb, past := s.past ++ s.current.toList, current := none } := by
  cases t with
  | write data =>
    obtain ⟨hlen, hreceived, hsent⟩ := h
    have hdue : s.calls = s.past.flatMap (Transaction.calls cfg) := by
      simpa [State.due, State.begun, hhil, hcurrent] using hcalls
    cases htake : data.take cfg.RTOS_I2C_SLAVE_BUF_LEN with
    | nil =>
      refine .nothing ⟨?_, hsent⟩ (by simp [State.due, State.begun, hcurrent, Transaction.calls, htake, hdue])
      have := congrArg List.length htake
      rw [List.length_take, List.length_nil] at this
      dsimp only
      omega
    | cons b bs =>
      refine .call (.rx (b :: bs)) (by simp [Call.notification]) (by simp [Call.notification])
        ⟨?_, (hreceived.trans htake).symm, hsent⟩ (by simp [State.due, State.begun, hcurrent, Transaction.calls, htake, hdue])
      have := congrArg List.length htake
      rw [List.length_take, List.length_cons] at this
      dsimp only
      omega
  | read acked tx_data taken =>
    obtain ⟨hrx, hsent, hdata, -, hrefused⟩ := h
    have hdue : s.calls = s.past.flatMap (Transaction.calls cfg) ++ [Call.tx_start] := by
      simpa [State.due, State.begun, hhil, hcurrent] using hcalls
    cases acked with
    | false =>
      refine .nothing ⟨hrx, ?_⟩ (by simp [State.due, State.begun, hcurrent, Transaction.calls, hdue])
      rw [hrefused rfl] at hsent
      exact UInt32.toNat_inj.1 hsent
    | true =>
      have htaken : taken ≠ [] := fun hnil => by simp [State.allows, hcurrent, hnil] at hallows
      have hpos := List.length_pos_of_ne_nil htaken
      cases htx : cfg.tx_done with
      | false => exact .unwanted htx hrx (by simp [State.due, State.begun, hcurrent, Transaction.calls, hdue, htx])
      | true =>
        refine .call (.tx_done tx_data taken.length) (by simp [Call.notification]) (fun _ => htx)
          ⟨hrx, ?_, hdata, hsent.symm⟩ (by simp [State.due, State.begun, hcurrent, Transaction.calls, hdue, htx])
        rw [UInt32.lt_iff_toNat_lt]
        dsimp only
        rw [hsent]
        exact hpos

theorem Inv.callback {cb : Callback} (h : Inv cfg s) (hs : callback s cb = some s') : Inv cfg s' := by
  unfold RtosSlave.callback at hs
  split at hs
  case isFalse => cases hs
  rename_i hguard
  obtain ⟨hhil, hallows⟩ := hguard
  cases hs
  cases h with
  | boot h => rw [h.hil] at hhil; cases hhil
  | quiet hwaiting hquiet hat =>
    refine .quiet hwaiting ⟨hquiet.1, hquiet.2, hquiet.3, hquiet.4, hquiet.5⟩ ⟨rfl, ?_⟩
    unfold QuietAt at hat
    rw [hhil] at hat
    cases hcurrent : s.current with
    | none =>
      rw [hcurrent] at hat
      refine .nothing hat.1 (hat.2.trans ?_)
      simp [State.due, State.begun, hhil, hcurrent]
    | some t =>
      rw [hcurrent] at hat
      have howing := hat.1.owing hcurrent hhil hat.2 hallows
      rwa [hcurrent] at howing
  | serving c called hat hcurrent hserving hcalls =>
    rw [hhil] at hat
    refine .serving c called hat rfl hserving.aside ?_
    simpa [State.due, State.begun, hhil, hcurrent] using hcalls

theorem received_append (s : State β) (b : UInt8) :
    State.received { s with data_buf := Function.update s.data_buf s.rx_data_i b, rx_data_i := s.rx_data_i + 1 } =
      s.received ++ [b] := by
  simp only [State.received, List.range_succ, List.map_append, List.map_cons, List.map_nil, Function.update_self]
  congr 1
  refine List.map_congr_left fun i hi => ?_
  rw [Function.update_of_ne (Nat.ne_of_lt (List.mem_range.1 hi))]

theorem Inv.sent_data {b : UInt8} (h : Inv cfg s) (hs : sent_data cfg s b = some s') : Inv cfg s' := by
  unfold RtosSlave.sent_data at hs
  split at hs
  case h_2 => cases hs
  rename_i data hhil hcurrent
  cases hs
  cases h with
  | boot h => rw [h.hil] at hhil; cases hhil
  | serving _ _ _ hnone => rw [hnone] at hcurrent; cases hcurrent
  | quiet hwaiting hquiet hat =>
    simp only [QuietAt, hhil, hcurrent] at hat
    obtain ⟨⟨hlen, hreceived, hsent⟩, hcalls⟩ := hat
    have hdue : s.calls = s.past.flatMap (Transaction.calls cfg) := by
      simpa [State.due, State.begun, hhil, hcurrent] using hcalls
    unfold i2c_master_sent_data
    by_cases hroom : s.rx_data_i < cfg.RTOS_I2C_SLAVE_BUF_LEN
    · simp only [if_pos hroom]
      refine .quiet hwaiting ⟨hquiet.1, hquiet.2, hquiet.3, hquiet.4, hquiet.5⟩ ?_
      simp only [QuietAt, hhil]
      refine ⟨⟨?_, ?_, hsent⟩, by simpa [State.due, State.begun, hhil] using hdue⟩
      · rw [List.length_append, List.length_singleton]
        dsimp only
        omega
      · have hshort : data.length < cfg.RTOS_I2C_SLAVE_BUF_LEN := by omega
        refine (received_append s b).trans ?_
        rw [hreceived, List.take_of_length_le (Nat.le_of_lt hshort), List.take_of_length_le]
        rw [List.length_append, List.length_singleton]
        exact hshort
    · simp only [if_neg hroom]
      refine .quiet hwaiting ⟨hquiet.1, hquiet.2, hquiet.3, hquiet.4, hquiet.5⟩ ?_
      simp only [QuietAt, hhil]
      refine ⟨⟨?_, ?_, hsent⟩, by simpa [State.due, State.begun, hhil] using hdue⟩
      · rw [List.length_append, List.length_singleton]
        dsimp only
        omega
      · rw [List.take_append_of_le_length (by omega)]
        exact hreceived

/-- The next byte goes out of the buffer that was given. -/
theorem i2c_master_req_data_eq (cfg : Config β) (hlen : 0 < s.tx_data_len) (hdata : s.tx_data ≠ .null) :
    ∃ tx_byte tx_data_i, i2c_master_req_data cfg s =
      (tx_byte, { s with tx_data_i, tx_data_sent := s.tx_data_sent + 1 }) := by
  unfold i2c_master_req_data
  rw [if_pos hlen]
  split
  · rename_i hnull
    exact absurd hnull hdata
  · exact ⟨_, _, rfl⟩
  · exact ⟨_, _, rfl⟩

/-- What the master has read in this transaction. -/
def State.taken (s : State β) : List UInt8 :=
  match s.current with
  | some (.read _ _ taken) => taken
  | _ => []

theorem Inv.req_data (h : Inv cfg s) (hshort : s.taken.length + 1 < 2 ^ 32)
    (hs : req_data cfg s = some s') : Inv cfg s' := by
  unfold RtosSlave.req_data at hs
  split at hs
  case h_2 => cases hs
  rename_i tx_data taken hhil hcurrent
  cases h with
  | boot h => rw [h.hil] at hhil; cases hhil
  | serving _ _ _ hnone => rw [hnone] at hcurrent; cases hcurrent
  | quiet hwaiting hquiet hat =>
    simp only [QuietAt, hhil, hcurrent] at hat
    obtain ⟨⟨hrx, hsent, hdata, hacked, hrefused⟩, hcalls⟩ := hat
    obtain ⟨hlen, hnull⟩ := hacked rfl
    obtain ⟨tx_byte, tx_data_i, heq⟩ := i2c_master_req_data_eq cfg hlen hnull
    simp only [State.taken, hcurrent] at hshort
    rw [heq] at hs
    cases hs
    refine .quiet hwaiting ⟨hquiet.1, hquiet.2, hquiet.3, hquiet.4, hquiet.5⟩ ?_
    simp only [QuietAt, hhil]
    refine ⟨⟨hrx, ?_, hdata, fun _ => ⟨hlen, hnull⟩, nofun⟩, ?_⟩
    · rw [UInt32.toNat_add, hsent, List.length_append, List.length_singleton]
      exact Nat.mod_eq_of_lt hshort
    · simpa [State.due, State.begun, hhil, hcurrent] using hcalls

/-! ## Every run -/

/-- In no read the master takes 4 GiB or more. -/
def Short (s : State β) : Act β → Prop
  | .req_data => s.taken.length + 1 < 2 ^ 32
  | _ => True

instance (s : State β) : ∀ a, Decidable (Short s a)
  | .req_data => inferInstanceAs (Decidable (s.taken.length + 1 < 2 ^ 32))
  | .callback _ | .sent_data _ | .hil | .isr | .timer | .app | .app_return .. => isTrue trivial

theorem inv_reachable (h : (driver cfg).Reachable Short s) : Inv cfg s := by
  refine h.inv (fun s hinit => ?_) fun s a s' h hshort hs => ?_
  · obtain ⟨hrx, hsent, hwaiting, hto, hto', hdeferred, hevents, hhil, happ, hpast, hcurrent, hcalls⟩ := hinit
    exact .boot ⟨hhil, hwaiting, hto, hdeferred, hevents, .inl ⟨happ, hto'⟩, ⟨hrx, hsent⟩, hcurrent, hcalls, hpast⟩
  · cases a with
    | callback cb => exact h.callback hs
    | sent_data b => exact h.sent_data hs
    | req_data => exact h.req_data hshort hs
    | hil =>
      cases h with
      | boot h => exact h.hil_step hs
      | quiet hwaiting hquiet hat => exact hat.hil_step hwaiting hquiet hs
      | serving c called hat hcurrent hserving hcalls => exact hserving.hil_step hat hcurrent hcalls hs
    | isr => exact h.theirs (.inl hs)
    | timer => exact h.theirs (.inr (.inl hs))
    | app => exact h.theirs (.inr (.inr (.inl hs)))
    | app_return data_buf tx_data tx_data_len => exact h.theirs (.inr (.inr (.inr ⟨_, _, _, hs⟩)))

end RtosSlave
end I2c
