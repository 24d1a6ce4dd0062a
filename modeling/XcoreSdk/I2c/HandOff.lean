import XcoreSdk.I2c.RtosSlave
/-!
# The RTOS I2C slave driver hands every transaction over

A notification is outstanding from its word to the answer, and the driver's state
is left alone meanwhile (`Serving`). Otherwise the application thread does nothing
(`Quiet`) and the driver's state is that of the transaction.
-/

namespace I2c
namespace RtosSlave
variable {β : Type*} (cfg : Config β)

/-! ## What is due -/

/-- The calls that a transaction is worth. -/
def Transaction.calls : Transaction β → List (Call β)
  | .write data =>
    match data.take cfg.RTOS_I2C_SLAVE_BUF_LEN with
    | [] => []
    | received => [.rx received]
  | .read acked tx_data taken =>
    .tx_start :: if acked && cfg.tx_done then [.tx_done tx_data taken.length] else []

/-- The calls due to the transaction that goes on, or to the read that is being requested. -/
def State.begun (s : State β) : List (Call β) :=
  match s.hil, s.current with
  | .tx_wait, _ => [.tx_start]
  | _, some (.read ..) => [.tx_start]
  | _, _ => []

def State.due (s : State β) : List (Call β) := s.past.flatMap (Transaction.calls cfg) ++ s.begun

/-! ## Between notifications -/

/-- The application thread waits, or is about to find that there is nothing else for it. -/
inductive App.Resting : App → Prop
  | get_bits : Resting .get_bits
  | check (n : Notification) (flags : Flags) : (∀ m, n.code ≤ m.code → flags m = false) → Resting (.check n flags)

structure Quiet (s : State β) : Prop where
  to_app : s.to_app = none
  deferred : s.deferred = []
  events : s.events = fun _ => false
  app : s.app.Resting
  to_hil : s.to_hil = false

def Cleared (s : State β) : Prop := s.rx_data_i = 0 ∧ s.tx_data_sent = 0

/-- The driver's state is what a call is about. -/
def Holds (s : State β) : Call β → Prop
  | .rx data => 0 < s.rx_data_i ∧ data = s.received ∧ s.tx_data_sent = 0
  | .tx_start => Cleared s
  | .tx_done data len => s.rx_data_i = 0 ∧ 0 < s.tx_data_sent ∧ data = s.tx_data ∧ len = s.tx_data_sent.toNat

def Call.notification : Call β → Notification
  | .rx _ => .rx
  | .tx_start => .tx_start
  | .tx_done .. => .tx_done

theorem Holds.call {s : State β} {c : Call β} (h : Holds s c) : s.call c.notification = c := by
  cases c with
  | rx data => exact congrArg Call.rx h.2.1.symm
  | tx_start => rfl
  | tx_done data len => rw [h.2.2.1, h.2.2.2]; rfl

/-! ## While a notification is outstanding -/

/-- Only `n`. -/
def Notification.only (n : Notification) : Flags := fun m => decide (m = n)

/-- A notification on its way. -/
inductive Serving (s : State β) (c : Call β) : Bool → Prop
  | sent : s.to_app = some c.notification → s.deferred = [] → s.events = (fun _ => false) → s.app.Resting →
      s.to_hil = false → Holds s c → Serving s c false
  | deferred : s.to_app = none → s.deferred = [c.notification] → s.events = (fun _ => false) → s.app.Resting →
      s.to_hil = false → Holds s c → Serving s c false
  | event : s.to_app = none → s.deferred = [] → s.events = c.notification.only → s.app.Resting →
      s.to_hil = false → Holds s c → Serving s c false
  | check (n : Notification) : s.to_app = none → s.deferred = [] → s.events = (fun _ => false) →
      s.app = .check n c.notification.only → n.code ≤ c.notification.code → s.to_hil = false → Holds s c → Serving s c false
  | inside : s.to_app = none → s.deferred = [] → s.events = (fun _ => false) →
      s.app = .inside c.notification c.notification.only → s.to_hil = false → Holds s c →
      (∃ calls, s.calls = calls ++ [c]) → Serving s c true
  | answer : s.to_app = none → s.deferred = [] → s.events = (fun _ => false) →
      s.app = .answer c.notification c.notification.only → s.to_hil = false → Cleared s → Serving s c true
  | answered : s.to_app = none → s.deferred = [] → s.events = (fun _ => false) → s.app.Resting → s.to_hil = true →
      Cleared s → Serving s c true

variable {cfg} {s s' : State β} {c : Call β} {called : Bool}

theorem Serving.answered_of_to_hil (h : Serving s c called) (hto : s.to_hil = true) :
    called = true ∧ Cleared s ∧ Quiet { s with to_hil := false } := by
  cases h with
  | sent _ _ _ _ hto' | deferred _ _ _ _ hto' | event _ _ _ _ hto' | check _ _ _ _ _ _ hto' | inside _ _ _ _ hto'
  | answer _ _ _ _ hto' =>
    rw [hto'] at hto
    cases hto
  | answered ha hd he happ _ hcleared => exact ⟨rfl, hcleared, ha, hd, he, happ, rfl⟩

theorem resting_next {n : Notification} : (App.next n.only n).Resting := by
  cases n with
  | rx => exact .check _ _ fun m hm => by cases m <;> first | rfl | simp [Notification.code] at hm
  | tx_start => exact .check _ _ fun m hm => by cases m <;> first | rfl | simp [Notification.code] at hm
  | tx_done => exact .get_bits

/-! ## The application thread's steps -/

/-- What the application's side leaves alone. -/
structure Aside (s s' : State β) : Prop where
  waiting : s'.waiting_for_complete_cb = s.waiting_for_complete_cb
  hil : s'.hil = s.hil
  past : s'.past = s.past
  current : s'.current = s.current

/-- A step of the interrupt routine, the timer task or the application thread. -/
def Theirs (s s' : State β) : Prop :=
  rtos_i2c_slave_isr s = some s' ∨ timer_step s = some s' ∨ app_step s = some s' ∨
    ∃ data_buf tx_data tx_data_len, app_return s data_buf tx_data tx_data_len = some s'

/-- Resting, the application thread gets to its wait, and on from there with the event bits. -/
theorem resting_step (happ : s.app.Resting) (hs : app_step s = some s') :
    (∃ app : App, app.Resting ∧ s' = { s with app }) ∨
      ∃ n, s.events n = true ∧ s' = { s with events := fun _ => false, app := .check .rx s.events } := by
  generalize hpc : s.app = app at happ
  cases happ with
  | get_bits =>
    simp only [app_step, hpc] at hs
    split at hs
    · rename_i hevents
      cases hs
      refine .inr ?_
      simp only [Bool.or_eq_true] at hevents
      rcases hevents with (hn | hn) | hn
      · exact ⟨.rx, hn, rfl⟩
      · exact ⟨.tx_start, hn, rfl⟩
      · exact ⟨.tx_done, hn, rfl⟩
    · cases hs
  | check n flags hflags =>
    simp only [app_step, hpc, hflags n (Nat.le_refl _), Bool.false_eq_true, if_false, Option.some.injEq] at hs
    refine .inl ⟨App.next flags n, ?_, hs.symm⟩
    cases n with
    | rx => exact .check _ _ fun m _ => hflags m (by simp [Notification.code])
    | tx_start => exact .check _ _ fun m hm => hflags m (Nat.le_trans (by simp [Notification.code]) hm)
    | tx_done => exact .get_bits

theorem resting_return {data_buf : Nat → UInt8} {tx_data : Buffer β} {tx_data_len : UInt32} (happ : s.app.Resting) :
    app_return s data_buf tx_data tx_data_len = none := by
  generalize hpc : s.app = app at happ
  cases happ <;> simp [app_return, hpc]

theorem Quiet.theirs (h : Quiet s) (hs : Theirs s s') : ∃ app : App, app.Resting ∧ s' = { s with app } := by
  obtain ⟨hto, hdeferred, hevents, happ, -⟩ := h
  rcases hs with hs | hs | hs | ⟨_, _, _, hs⟩
  · simp [rtos_i2c_slave_isr, hto] at hs
  · simp [timer_step, hdeferred] at hs
  · rcases resting_step happ hs with hrest | ⟨n, hn, -⟩
    · exact hrest
    · simp [hevents] at hn
  · rw [resting_return happ] at hs
    cases hs

/-- The call that a notification is still good for. -/
def owed (c : Call β) (called : Bool) : List (Call β) := if called then [] else [c]

/-- What the application's side keeps while a notification is outstanding. -/
def Goes (c : Call β) (called : Bool) (s s' : State β) : Prop :=
  Aside s s' ∧ ∃ called', Serving s' c called' ∧ s'.calls ++ owed c called' = s.calls ++ owed c called

theorem Goes.rest {app : App} (hserving : Serving { s with app } c called) : Goes c called s { s with app } :=
  ⟨⟨rfl, rfl, rfl, rfl⟩, called, hserving, rfl⟩

theorem Serving.theirs (h : Serving s c called) (hs : Theirs s s') : Goes c called s s' := by
  cases h with
  | sent hto hdeferred hevents happ hto' hholds =>
    rcases hs with hs | hs | hs | ⟨_, _, _, hs⟩
    · simp only [rtos_i2c_slave_isr, hto, Option.map_some, hdeferred, List.nil_append, Option.some.injEq] at hs
      subst hs
      exact ⟨⟨rfl, rfl, rfl, rfl⟩, false, .deferred rfl rfl hevents happ hto' (by cases c <;> exact hholds), rfl⟩
    · simp [timer_step, hdeferred] at hs
    · rcases resting_step happ hs with ⟨app, happ', rfl⟩ | ⟨n, hn, -⟩
      · exact .rest (.sent hto hdeferred hevents happ' hto' (by cases c <;> exact hholds))
      · simp [hevents] at hn
    · rw [resting_return happ] at hs
      cases hs
  | deferred hto hdeferred hevents happ hto' hholds =>
    rcases hs with hs | hs | hs | ⟨_, _, _, hs⟩
    · simp [rtos_i2c_slave_isr, hto] at hs
    · simp only [timer_step, hdeferred, hevents, Option.some.injEq] at hs
      subst hs
      refine ⟨⟨rfl, rfl, rfl, rfl⟩, false, .event hto rfl ?_ happ hto' (by cases c <;> exact hholds), rfl⟩
      funext m
      simp [Notification.only, Function.update_apply]
    · rcases resting_step happ hs with ⟨app, happ', rfl⟩ | ⟨n, hn, -⟩
      · exact .rest (.deferred hto hdeferred hevents happ' hto' (by cases c <;> exact hholds))
      · simp [hevents] at hn
    · rw [resting_return happ] at hs
      cases hs
  | event hto hdeferred hevents happ hto' hholds =>
    rcases hs with hs | hs | hs | ⟨_, _, _, hs⟩
    · simp [rtos_i2c_slave_isr, hto] at hs
    · simp [timer_step, hdeferred] at hs
    · rcases resting_step happ hs with ⟨app, happ', rfl⟩ | ⟨n, -, rfl⟩
      · exact .rest (.event hto hdeferred hevents happ' hto' (by cases c <;> exact hholds))
      · refine ⟨⟨rfl, rfl, rfl, rfl⟩, false, .check .rx hto hdeferred rfl ?_ (Nat.zero_le _) hto' ?_, rfl⟩
        · rw [hevents]
        · cases c <;> exact hholds
    · rw [resting_return happ] at hs
      cases hs
  | check n hto hdeferred hevents happ hn hto' hholds =>
    rcases hs with hs | hs | hs | ⟨_, _, _, hs⟩
    · simp [rtos_i2c_slave_isr, hto] at hs
    · simp [timer_step, hdeferred] at hs
    · simp only [app_step, happ] at hs
      split at hs
      · rename_i hflag
        obtain rfl : n = c.notification := by simpa [Notification.only] using hflag
        cases hs
        refine ⟨⟨rfl, rfl, rfl, rfl⟩, true, .inside hto hdeferred hevents rfl hto' (by cases c <;> exact hholds) ?_, ?_⟩
        · exact ⟨s.calls, by rw [hholds.call]⟩
        · simp [owed, hholds.call]
      · rename_i hflag
        have hne : n ≠ c.notification := by simpa [Notification.only] using hflag
        cases hs
        have hnext : ∃ m, App.next c.notification.only n = .check m c.notification.only ∧ m.code ≤ c.notification.code := by
          cases n with
          | rx => exact ⟨.tx_start, rfl, by revert hne; cases c <;> simp [Call.notification, Notification.code]⟩
          | tx_start => exact ⟨.tx_done, rfl, by revert hne hn; cases c <;> simp [Call.notification, Notification.code]⟩
          | tx_done => exact absurd hn (by revert hne; cases c <;> simp [Call.notification, Notification.code])
        obtain ⟨m, hm, hle⟩ := hnext
        exact ⟨⟨rfl, rfl, rfl, rfl⟩, false, .check m hto hdeferred hevents hm hle hto' (by cases c <;> exact hholds), rfl⟩
    · simp [app_return, happ] at hs
  | inside hto hdeferred hevents happ hto' hholds _ =>
    rcases hs with hs | hs | hs | ⟨data_buf, tx_data, tx_data_len, hs⟩
    · simp [rtos_i2c_slave_isr, hto] at hs
    · simp [timer_step, hdeferred] at hs
    · simp [app_step, happ] at hs
    · cases c with
      | rx data =>
        simp only [app_return, happ, Call.notification, Option.some.injEq] at hs
        subst hs
        exact ⟨⟨rfl, rfl, rfl, rfl⟩, true, .answer hto hdeferred hevents rfl hto' ⟨rfl, hholds.2.2⟩, rfl⟩
      | tx_start =>
        simp only [app_return, happ, Call.notification, Option.some.injEq] at hs
        subst hs
        exact ⟨⟨rfl, rfl, rfl, rfl⟩, true, .answer hto hdeferred hevents rfl hto' hholds, rfl⟩
      | tx_done data len =>
        simp only [app_return, happ, Call.notification, Option.some.injEq] at hs
        subst hs
        exact ⟨⟨rfl, rfl, rfl, rfl⟩, true, .answer hto hdeferred hevents rfl hto' ⟨hholds.1, rfl⟩, rfl⟩
  | answer hto hdeferred hevents happ hto' hcleared =>
    rcases hs with hs | hs | hs | ⟨_, _, _, hs⟩
    · simp [rtos_i2c_slave_isr, hto] at hs
    · simp [timer_step, hdeferred] at hs
    · simp only [app_step, happ, hto', Bool.false_eq_true, if_false, Option.some.injEq] at hs
      subst hs
      exact ⟨⟨rfl, rfl, rfl, rfl⟩, true, .answered hto hdeferred hevents resting_next rfl hcleared, rfl⟩
    · simp [app_return, happ] at hs
  | answered hto hdeferred hevents happ hto' hcleared =>
    rcases hs with hs | hs | hs | ⟨_, _, _, hs⟩
    · simp [rtos_i2c_slave_isr, hto] at hs
    · simp [timer_step, hdeferred] at hs
    · rcases resting_step happ hs with ⟨app, happ', rfl⟩ | ⟨n, hn, -⟩
      · exact .rest (.answered hto hdeferred hevents happ' hto' hcleared)
      · simp [hevents] at hn
    · rw [resting_return happ] at hs
      cases hs

end RtosSlave
end I2c
