import XcoreSdk.I2c.Phases
import XcoreSdk.Lib.Work
/-!
# Every transaction is handed over

What the application is called with is, in order, what the transactions are worth.
Left alone by the bus the driver comes to rest, and then nothing is missing.
-/

namespace I2c
namespace RtosSlave
variable {β : Type*} (cfg : Config β)

/-! ## What is outstanding -/

def notifications : List Notification := [.rx, .tx_start, .tx_done]

/-- What comes after `n`. -/
def later (n : Notification) (flags : Flags) : List Notification :=
  notifications.filter fun m => n.code < m.code && flags m

/-- What the application thread has taken and not answered. -/
def App.taken : App → List Notification
  | .boot | .get_bits => []
  | .check n flags => notifications.filter fun m => n.code ≤ m.code && flags m
  | .inside n flags | .answer n flags => n :: later n flags

def State.outstanding (s : State β) : List Notification :=
  s.to_app.toList ++ s.deferred ++ notifications.filter s.events ++ s.app.taken

/-- A step that the master has no part in. -/
def Act.own : Act β → Bool
  | .callback _ | .sent_data _ | .req_data => false
  | _ => true

structure HandedOver (s : State β) : Prop where
  /-- The calls are those the transactions are worth, in order and none of them twice. -/
  calls : s.calls <+: s.due cfg
  missing : (s.due cfg).length ≤ s.calls.length + 1
  outstanding : s.outstanding.length + s.to_hil.toNat ≤ 1
  /-- What a call is about stays as it is until the application's function returns. -/
  kept : ∀ n flags, s.app = .inside n flags → ∃ calls, s.calls = calls ++ [s.call n]
  /-- Nothing is missing of the transactions before one that goes on. -/
  before : s.current ≠ none → s.calls = s.due cfg
  /-- Left alone the driver stops, -/
  stops : ∃ n, ∀ as s', (driver cfg).Run (fun _ a => a.own = true) s as s' → as.length ≤ n
  /-- and then nothing is missing. -/
  rest : (∀ a, a.own = true → (driver cfg).step s a = none) → s.hil = .idle ∧ s.calls = s.due cfg

variable {cfg} {s s' : State β} {c : Call β} {called : Bool}

theorem resting_taken {app : App} (h : app.Resting) : app.taken = [] := by
  cases h with
  | get_bits => rfl
  | check n flags hflags =>
    refine List.filter_eq_nil_iff.2 fun m _ hm => ?_
    rw [Bool.and_eq_true, decide_eq_true_eq] at hm
    rw [hflags m hm.1] at hm
    exact absurd hm.2 (by simp)

theorem filter_only (n : Notification) : notifications.filter n.only = [n] := by
  cases n <;> rfl

theorem Quiet.outstanding (h : Quiet s) : s.outstanding = [] := by
  simp [State.outstanding, h.to_app, h.deferred, h.events, resting_taken h.app]

theorem taken_only {m n : Notification} (h : m.code ≤ n.code) : (App.check m n.only).taken = [n] := by
  revert h
  cases m <;> cases n <;> decide

theorem inside_only (n : Notification) : (App.inside n n.only).taken = [n] := by
  cases n <;> decide

theorem Serving.outstanding (h : Serving s c called) : s.outstanding.length + s.to_hil.toNat ≤ 1 := by
  cases h with
  | sent hto hdeferred hevents happ hto' | deferred hto hdeferred hevents happ hto'
  | event hto hdeferred hevents happ hto' =>
    simp [State.outstanding, hto, hdeferred, hevents, hto', resting_taken happ, filter_only]
  | check n hto hdeferred hevents happ hn hto' =>
    simp [State.outstanding, hto, hdeferred, hevents, hto', happ, taken_only hn]
  | inside hto hdeferred hevents happ hto' =>
    simp [State.outstanding, hto, hdeferred, hevents, hto', happ, inside_only]
  | answer hto hdeferred hevents happ hto' =>
    have htaken : (App.answer c.notification c.notification.only).taken = [c.notification] := inside_only _
    simp [State.outstanding, hto, hdeferred, hevents, hto', happ, htaken]
  | answered hto hdeferred hevents happ hto' =>
    simp [State.outstanding, hto, hdeferred, hevents, hto', resting_taken happ]

/-! ## The work that is left -/

def Hil.work : Hil → Nat
  | .idle => 0
  | .boot | .tx_wait => 1
  | .tx_start => 10
  | .checked _ => 11
  | .wait _ => 12
  | .notify .. => 21
  | .completed _ => 22
  | .check _ => 23

def App.work : App → Nat
  | .boot => 1
  | .get_bits => 0
  | .check n flags => 3 - n.code + 2 * (App.check n flags).taken.length
  | .inside n flags => 2 - n.code + 2 * (App.inside n flags).taken.length
  | .answer n flags => 2 - n.code + 2 * (App.answer n flags).taken.length - 1

def State.work (s : State β) : Nat :=
  s.hil.work + 8 * s.to_app.toList.length + 7 * s.deferred.length + 6 * (notifications.filter s.events).length + s.app.work

theorem taken_next (n : Notification) (flags : Flags) : (App.next flags n).taken = later n flags := by
  cases n <;> simp [App.next, App.taken, later, notifications, Notification.code, List.filter_cons]

theorem taken_check (n : Notification) (flags : Flags) :
    (App.check n flags).taken = if flags n then n :: later n flags else later n flags := by
  cases n <;> simp [App.taken, later, notifications, Notification.code, List.filter_cons]

theorem next_work (n : Notification) (flags : Flags) :
    (App.next flags n).work = 2 - n.code + 2 * (later n flags).length := by
  rw [← taken_next]
  cases n <;> rfl

/-- A notification that the thread has taken is answered; what comes after it stays. -/
theorem work_next (n : Notification) (flags : Flags) : (App.next flags n).work < (App.answer n flags).work := by
  rw [next_work]
  simp only [App.work, App.taken, List.length_cons]
  omega

theorem code_le (n : Notification) : n.code ≤ 2 := by
  cases n <;> decide

theorem work_skip {n : Notification} {flags : Flags} (h : flags n = false) :
    (App.next flags n).work < (App.check n flags).work := by
  have := code_le n
  rw [next_work]
  simp only [App.work, taken_check, h, Bool.false_eq_true, if_false]
  omega

theorem work_call {n : Notification} {flags : Flags} (h : flags n = true) :
    (App.inside n flags).work < (App.check n flags).work := by
  have := code_le n
  simp only [App.work, taken_check, h, if_true]
  simp only [App.taken]
  omega

theorem work_return (n : Notification) (flags : Flags) : (App.answer n flags).work < (App.inside n flags).work := by
  simp only [App.work, App.taken, List.length_cons]
  omega

theorem work_event (events : Flags) (n : Notification) :
    (notifications.filter (Function.update events n true)).length ≤ (notifications.filter events).length + 1 := by
  cases n <;> cases hrx : events .rx <;> cases hstart : events .tx_start <;> cases hdone : events .tx_done <;>
    simp [notifications, hrx, hstart, hdone]

theorem work_app_step (hs : app_step s = some s') : s'.work < s.work := by
  unfold app_step at hs
  cases hpc : s.app with
  | boot =>
    simp only [hpc] at hs
    split at hs
    · cases hs
    · cases hs
      simp [State.work, hpc, App.work]
  | get_bits =>
    simp only [hpc] at hs
    split at hs
    · rename_i hevents
      cases hs
      have htaken : (App.check .rx s.events).taken = notifications.filter s.events := by
        simp [App.taken, Notification.code]
      have hpos : 0 < (notifications.filter s.events).length := by
        revert hevents
        cases hrx : s.events .rx <;> cases hstart : s.events .tx_start <;> cases hdone : s.events .tx_done <;>
          simp [notifications, hrx, hstart, hdone]
      simp only [State.work, hpc, App.work, htaken, Notification.code, List.filter_false, List.length_nil]
      omega
    · cases hs
  | check n flags =>
    simp only [hpc] at hs
    split at hs
    · rename_i hflag
      cases hs
      have := work_call hflag
      simp only [State.work, hpc]
      omega
    · rename_i hflag
      cases hs
      have := work_skip (by simpa using hflag)
      simp only [State.work, hpc]
      omega
  | inside n flags => simp [hpc] at hs
  | answer n flags =>
    simp only [hpc] at hs
    split at hs
    · cases hs
    · cases hs
      have := work_next n flags
      simp only [State.work, hpc]
      omega

theorem work_app_return {data_buf : Nat → UInt8} {tx_data : Buffer β} {tx_data_len : UInt32}
    (hs : app_return s data_buf tx_data tx_data_len = some s') : s'.work < s.work := by
  unfold app_return at hs
  split at hs
  case h_4 => cases hs
  all_goals
    rename_i flags hpc
    cases hs
    simp only [State.work, rx_state_clear, tx_state_clear, hpc]
    exact Nat.add_lt_add_left (work_return _ flags) _

theorem work_hil_step (hs : hil_step cfg s = some s') : s'.work < s.work := by
  unfold hil_step at hs
  split at hs <;> rename_i hpc
  · split at hs
    · cases hs
      simp [State.work, hpc, Hil.work]
    · cases hs
  · cases hs
  · split at hs
    · split at hs
      · cases hs
        simp [State.work, hpc, Hil.work]
      · cases hs
    · cases hs
      simp [State.work, hpc, Hil.work]
  · repeat' split at hs
    all_goals
      cases hs
      simp [State.work, hpc, Hil.work, tx_state_clear]
  · split at hs
    · rename_i hto
      split at hs
      all_goals
        cases hs
        simp only [State.work, hpc, Hil.work, hto, Option.toList_none, Option.toList_some, List.length_nil,
          List.length_singleton]
        omega
    · cases hs
  · split at hs
    · cases hs
      simp [State.work, hpc, Hil.work]
    · cases hs
  · cases hs
    simp [State.work, hpc, Hil.work]
  · cases hs
    simp [State.work, hpc, Hil.work]
  · cases hs
    simp [State.work, hpc, Hil.work]
  · split at hs
    · rename_i hto
      cases hs
      simp only [State.work, hpc, Hil.work, hto, Option.toList_none, Option.toList_some, List.length_nil,
        List.length_singleton]
      omega
    · cases hs
  · split at hs
    · cases hs
      simp [State.work, hpc, Hil.work]
    · cases hs

theorem work_own {a : Act β} (ha : a.own = true) (hs : (driver cfg).step s a = some s') : s'.work < s.work := by
  cases a with
  | callback | sent_data | req_data => cases ha
  | hil => exact work_hil_step hs
  | isr =>
    obtain ⟨n, hto, rfl⟩ := Option.map_eq_some_iff.1 hs
    simp only [State.work, hto, Option.toList_none, Option.toList_some, List.length_nil, List.length_append,
      List.length_singleton]
    omega
  | timer =>
    have hs : timer_step s = some s' := hs
    unfold timer_step at hs
    split at hs
    · cases hs
    · rename_i n deferred hdeferred
      cases hs
      have := work_event s.events n
      simp only [State.work, hdeferred, List.length_cons]
      omega
  | app => exact work_app_step hs
  | app_return data_buf tx_data tx_data_len => exact work_app_return hs

/-! ## At rest -/

theorem Boot.rest (h : Boot s) (hrest : ∀ a, a.own = true → (driver cfg).step s a = none) : False := by
  rcases h.app with ⟨happ, hto'⟩ | ⟨-, hto'⟩
  · have hnone : app_step s = none := hrest .app rfl
    simp [app_step, happ, hto'] at hnone
  · have hnone : RtosSlave.hil_step cfg s = none := hrest .hil rfl
    simp [RtosSlave.hil_step, h.hil, hto'] at hnone

theorem QuietAt.rest (hwaiting : s.waiting_for_complete_cb = false) (hquiet : Quiet s) (hat : QuietAt cfg s)
    (hrest : RtosSlave.hil_step cfg s = none) : s.hil = .idle := by
  unfold QuietAt at hat
  unfold RtosSlave.hil_step at hrest
  cases hhil : s.hil with
  | idle => rfl
  | boot | wait _ | tx_wait => rw [hhil] at hat; exact hat.elim
  | check cb => simp [hhil, hwaiting] at hrest
  | completed cb =>
    rw [hhil] at hrest
    dsimp only at hrest
    repeat' split at hrest
    all_goals cases hrest
  | notify cb n =>
    rw [hhil] at hrest
    dsimp only at hrest
    rw [if_pos hquiet.to_app] at hrest
    cases cb <;> cases hrest
  | checked cb => cases cb <;> simp [hhil] at hrest
  | tx_start => simp [hhil, hquiet.to_app] at hrest

/-- A notification is answered in the end. -/
theorem Serving.rest (h : Serving s c called) (hrest : ∀ a, a.own = true → (driver cfg).step s a = none) :
    s.to_hil = true := by
  have hisr : rtos_i2c_slave_isr s = none := hrest .isr rfl
  have htimer : timer_step s = none := hrest .timer rfl
  have happ' : app_step s = none := hrest .app rfl
  have hreturn : app_return s s.data_buf s.tx_data s.tx_data_len = none := hrest (.app_return ..) rfl
  cases h with
  | sent hto => simp [rtos_i2c_slave_isr, hto] at hisr
  | deferred _ hdeferred => simp [timer_step, hdeferred] at htimer
  | event _ _ hevents happ =>
    generalize hpc : s.app = app at happ
    cases happ with
    | get_bits =>
      simp only [app_step, hpc, hevents] at happ'
      cases hn : c.notification <;> simp [hn, Notification.only] at happ'
    | check n flags hflags => simp [app_step, hpc, hflags n (Nat.le_refl _)] at happ'
  | check n _ _ _ happ =>
    simp only [app_step, happ] at happ'
    split at happ' <;> cases happ'
  | inside _ _ _ happ => cases hn : c.notification <;> simp [app_return, happ, hn] at hreturn
  | answer _ _ _ happ hto' => simp [app_step, happ, hto'] at happ'
  | answered _ _ _ _ hto' => exact hto'

theorem ServingAt.rest (hat : ServingAt s.hil s.waiting_for_complete_cb) (hto : s.to_hil = true)
    (hrest : hil_step cfg s = none) : s.hil = .idle := by
  unfold hil_step at hrest
  cases hhil : s.hil with
  | idle => rfl
  | boot | completed _ | notify _ _ | tx_start => rw [hhil] at hat; exact hat.elim
  | check cb =>
    rw [hhil] at hat
    simp [hhil, show s.waiting_for_complete_cb = true from hat, hto] at hrest
  | wait cb => simp [hhil, hto] at hrest
  | checked cb => cases cb <;> simp [hhil] at hrest
  | tx_wait => simp [hhil, hto] at hrest

/-! ## The result -/

/-- What has been called is due, except for at most one call that is due and not made. -/
theorem Inv.calls (h : Inv cfg s) : ∃ l, l.length ≤ 1 ∧ s.calls ++ l = s.due cfg := by
  have hnil : s.calls = s.due cfg → ∃ l, l.length ≤ 1 ∧ s.calls ++ l = s.due cfg := fun heq =>
    ⟨[], by simp, by rw [List.append_nil, heq]⟩
  cases h with
  | boot h => exact hnil (by simp [State.due, State.begun, h.hil, h.current, h.calls])
  | quiet hwaiting hquiet hat =>
    unfold QuietAt at hat
    split at hat
    · split at hat
      · exact hnil hat.2
      · exact hnil hat.2
    · obtain ⟨-, ⟨-, hcalls⟩ | ⟨-, -, hcalls⟩ | ⟨c, -, -, -, hcalls⟩⟩ := hat
      · exact hnil hcalls
      · exact hnil hcalls
      · exact ⟨[c], by simp, hcalls⟩
    · obtain ⟨-, ⟨-, hcalls⟩ | ⟨-, -, hcalls⟩ | ⟨c, -, -, -, hcalls⟩⟩ := hat
      · exact hnil hcalls
      · exact hnil hcalls
      · exact ⟨[c], by simp, hcalls⟩
    · obtain ⟨-, c, -, -, hcalls⟩ := hat
      exact ⟨[c], by simp, hcalls⟩
    · exact hnil hat.2.2
    · exact hnil hat.2.2
    · exact hat.elim
    · exact hat.elim
    · exact hat.elim
  | serving c called _ _ _ hcalls =>
    refine ⟨owed c called, ?_, hcalls⟩
    unfold owed
    split <;> simp

theorem Inv.kept {n : Notification} {flags : Flags} (h : Inv cfg s) (happ : s.app = .inside n flags) :
    ∃ calls, s.calls = calls ++ [s.call n] := by
  have hnot : ¬ s.app.Resting := fun hrest => by
    rw [happ] at hrest
    cases hrest
  cases h with
  | boot h =>
    rcases h.app with ⟨happ', -⟩ | ⟨hrest, -⟩
    · rw [happ] at happ'
      cases happ'
    · exact absurd hrest hnot
  | quiet _ hquiet => exact absurd hquiet.app hnot
  | serving c called _ _ hserving =>
    cases hserving with
    | sent _ _ _ hrest | deferred _ _ _ hrest | event _ _ _ hrest | answered _ _ _ hrest => exact absurd hrest hnot
    | check _ _ _ _ happ' | answer _ _ _ happ' =>
      rw [happ] at happ'
      cases happ'
    | inside _ _ _ happ' _ hholds hlast =>
      rw [happ] at happ'
      cases happ'
      rwa [hholds.call]

theorem Inv.hands_over (h : Inv cfg s) : HandedOver cfg s := by
  obtain ⟨l, hl, hcalls⟩ := h.calls
  refine ⟨⟨l, hcalls⟩, ?_, ?_, ?_, ?_, ⟨s.work, fun as s' hr => ?_⟩, fun hrest => ?_⟩
  · rw [← hcalls, List.length_append]
    omega
  · cases h with
    | boot h =>
      rcases h.app with ⟨happ, hto'⟩ | ⟨happ, hto'⟩
      · simp [State.outstanding, h.to_app, h.deferred, h.events, happ, App.taken, hto']
      · simp [State.outstanding, h.to_app, h.deferred, h.events, resting_taken happ, hto']
    | quiet _ hquiet => simp [hquiet.outstanding, hquiet.to_hil]
    | serving c called _ _ hserving => exact hserving.outstanding
  · exact fun n flags happ => h.kept happ
  · intro hcurrent
    cases h with
    | boot h => exact absurd h.current hcurrent
    | quiet _ _ hat =>
      unfold QuietAt at hat
      split at hat
      · split at hat
        · rename_i hnone
          exact absurd hnone hcurrent
        · exact hat.2
      · exact absurd hat.1 hcurrent
      · exact absurd hat.1 hcurrent
      · exact absurd hat.1 hcurrent
      · exact absurd hat.1 hcurrent
      · exact absurd hat.1 hcurrent
      · exact hat.elim
      · exact hat.elim
      · exact hat.elim
    | serving _ _ _ hnone => exact absurd hnone hcurrent
  · exact hr.length_le (I := fun _ => True) (fun s a s' _ hown hs => ⟨trivial, work_own hown hs⟩) trivial
  · cases h with
    | boot h => exact (h.rest hrest).elim
    | quiet hwaiting hquiet hat =>
      have hidle := hat.rest hwaiting hquiet (hrest .hil rfl)
      refine ⟨hidle, ?_⟩
      unfold QuietAt at hat
      rw [hidle] at hat
      revert hat
      cases s.current with
      | none => exact fun hat => hat.2
      | some t => exact fun hat => hat.2
    | serving c called hat hcurrent hserving hcalls =>
      have hto := hserving.rest hrest
      exact ⟨hat.rest hto (hrest .hil rfl), (hserving.took hto hcalls).2.2⟩

/-- In every run in which the master never takes 4 GiB in one read, every
transaction is handed over. -/
theorem handed_over (h : (driver cfg).Reachable Short s) : HandedOver cfg s := (inv_reachable h).hands_over

/-- After `rtos_i2c_slave_start`. -/
def started : State Unit :=
  ⟨fun _ => 0, 0, .null, 0, 0, 0, false, none, false, [], fun _ => false, .boot, .boot, [], none, []⟩

theorem started_init (cfg : Config Unit) : (driver cfg).init started :=
  ⟨rfl, rfl, rfl, rfl, rfl, rfl, rfl, rfl, rfl, rfl, rfl, rfl⟩

/-- A notification is taken, and the application called and back. -/
def served (checks : Nat) (tx_data : Buffer Unit) (tx_data_len : UInt32) : List (Act Unit) :=
  [Act.isr, Act.timer] ++ List.replicate (checks + 2) Act.app ++
    [Act.app_return (fun _ => 0) tx_data tx_data_len, Act.app]

/-- The master writes three bytes, of which the buffer holds two, and goes on to read one. -/
theorem handed_over_combined : ∃ s : State Unit,
    s.calls = [.rx [7, 8], .tx_start, .tx_done (.other ()) 1] ∧ HandedOver ⟨2, true, fun _ _ => 0⟩ s := by
  have hrun : ((driver ⟨2, true, fun _ _ => 0⟩).exec Short started (List.flatten [
    [.app, .hil, .callback .ack_write_req, .hil, .hil, .hil, .sent_data 7, .sent_data 8, .sent_data 9,
     .callback .ack_read_req, .hil, .hil, .hil], served 0 .null 0, [.app, .app, .hil, .hil, .hil],
    served 1 (.other ()) 1, [.app, .hil, .req_data, .callback .stop_bit, .hil, .hil, .hil, .hil], served 2 .null 0])).map
      State.calls = some [.rx [7, 8], .tx_start, .tx_done (.other ()) 1] := by
    decide +kernel
  obtain ⟨s, hs, hcalls⟩ := Option.map_eq_some_iff.1 hrun
  exact ⟨s, hcalls, handed_over (Machine.exec_reachable (started_init _) hs)⟩

/-! ## A read of 4 GiB -/

def one_byte : Config Unit := ⟨1, true, fun _ _ => 0⟩

/-- The master has taken `n` bytes, from a buffer of one byte. -/
def reading (n : Nat) : State Unit :=
  ⟨fun _ => 0, 0, .data_buf, 1, 0, UInt32.ofNat n, false, none, false, [], fun _ => false, .idle, .get_bits, [],
    some (.read true .data_buf (List.replicate n 0)), [.tx_start]⟩

theorem reading_reachable : (driver one_byte).Reachable Machine.Free (reading 0) := by
  have hrun : (driver one_byte).exec Machine.Free started (List.flatten [
    [.app, .hil, .callback .ack_read_req, .hil, .hil, .hil, .hil], served 1 .data_buf 1, [.app, .hil]]) = some (reading 0) := rfl
  exact Machine.exec_reachable (started_init one_byte) hrun

theorem reading_step (n : Nat) : (driver one_byte).step (reading n) .req_data = some (reading (n + 1)) := by
  have hsent : UInt32.ofNat n + 1 = UInt32.ofNat (n + 1) := by
    rw [UInt32.ofNat_add]
    rfl
  have htaken : List.replicate n (0 : UInt8) ++ [0] = List.replicate (n + 1) 0 := List.replicate_succ'.symm
  have hstep : (driver one_byte).step (reading n) .req_data = some { reading n with
      tx_data_sent := UInt32.ofNat n + 1, current := some (.read true .data_buf (List.replicate n 0 ++ [0])) } := rfl
  rw [hstep, hsent, htaken]
  rfl

theorem reading_many (n : Nat) : (driver one_byte).Reachable Machine.Free (reading n) := by
  induction n with
  | zero => exact reading_reachable
  | succ n ih => exact ih.step trivial (reading_step n)

/-- The master has stopped after `n` bytes. -/
def stopped (n : Nat) : State Unit :=
  { reading n with past := [.read true .data_buf (List.replicate n 0)], current := none }

theorem stopped_reachable {n : Nat} (hn : UInt32.ofNat (n + 1) = 0) :
    (driver one_byte).Reachable Machine.Free (stopped (n + 1)) := by
  have hstop : (driver one_byte).step (reading (n + 1)) (.callback .stop_bit) =
      some { stopped (n + 1) with hil := .check .stop_bit } := rfl
  have hcheck : (driver one_byte).step { stopped (n + 1) with hil := .check .stop_bit } .hil =
      some { stopped (n + 1) with hil := .completed .stop_bit } := rfl
  have hcompleted : (driver one_byte).step { stopped (n + 1) with hil := .completed .stop_bit } .hil =
      some { stopped (n + 1) with hil := .checked .stop_bit } := by
    have hsent : ¬ 0 < (stopped (n + 1)).tx_data_sent := by
      simp [stopped, reading, hn]
    exact (if_neg hsent).trans rfl
  have hchecked : (driver one_byte).step { stopped (n + 1) with hil := .checked .stop_bit } .hil =
      some (stopped (n + 1)) := rfl
  exact ((((reading_many (n + 1)).step trivial hstop).step trivial hcheck).step trivial hcompleted).step trivial hchecked

/-- After a read of 4 GiB the count of the bytes sent is zero again, and `tx_done` is never called. -/
theorem four_gib_read_not_reported : ∃ s : State Unit, (driver one_byte).Reachable Machine.Free s ∧
    (∀ a, a.own = true → (driver one_byte).step s a = none) ∧
    s.past = [.read true .data_buf (List.replicate (2 ^ 32) 0)] ∧ s.current = none ∧ s.calls = [.tx_start] ∧
    ¬ HandedOver one_byte s := by
  have hreach : ∀ n, n + 1 = 2 ^ 32 → (driver one_byte).Reachable Machine.Free (stopped (2 ^ 32)) := fun n hn => by
    rw [← hn]
    exact stopped_reachable (by rw [hn]; rfl)
  have hrest : ∀ n, ∀ a, a.own = true → (driver one_byte).step (stopped n) a = none := fun n a ha => by
    cases a <;> first | rfl | cases ha
  refine ⟨stopped (2 ^ 32), hreach (2 ^ 32 - 1) rfl, hrest _, rfl, rfl, rfl, fun h => ?_⟩
  have hcalls := congrArg List.length (h.rest (hrest _)).2
  have hdue : ∀ n, ((stopped n).due one_byte).length = 2 := fun n => rfl
  rw [hdue] at hcalls
  cases hcalls

end RtosSlave
end I2c
