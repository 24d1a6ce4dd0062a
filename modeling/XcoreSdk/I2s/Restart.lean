import XcoreSdk.I2s.Hil
/-!
# I2S: restart and shutdown

`i2s_master`, `i2s_master_external_clock` and `i2s_slave` around their passes. The
applications' callbacks note that they are called, and in between it is noted when words are
put out or taken in, what has been seen on LRCLK and where a frame ends. `contract` says
which sequences of these are as promised, whatever the callbacks answer.

The masters keep it. The slave does not look at what made it leave its main loop, so that it
starts over when it is to shut down.
-/

namespace I2s
namespace Hil
open Port

/-! ## What is noted -/

inductive Event
  | init
  | restart_check (answer : i2s_restart_t)
  | send
  | receive
  /-- The left or the right words are put out, -/
  | outputs
  /-- or taken in. -/
  | inputs
  | lrclk (expected : Bool)
  | frame_end

variable {lines : Lines} {σ : Type*} (cbg : i2s_callback_group_t σ)

/-- The callbacks, which note their calls. -/
def traced : i2s_callback_group_t (σ × List Event) where
  init app := ((cbg.init app.1).1, (cbg.init app.1).2, app.2 ++ [.init])
  restart_check app :=
    ((cbg.restart_check app.1).1, (cbg.restart_check app.1).2, app.2 ++ [.restart_check (cbg.restart_check app.1).1])
  receive app n samples := (cbg.receive app.1 n samples, app.2 ++ [.receive])
  send app n samples := ((cbg.send app.1 n samples).1, (cbg.send app.1 n samples).2, app.2 ++ [.send])

def Frames.note (s : Frames lines (σ × List Event)) (events : List Event) : Frames lines (σ × List Event) :=
  { s with app := (s.app.1, s.app.2 ++ events) }

/-- No words are put out in the last frame. -/
def Frames.outs (s : Frames lines (σ × List Event)) : List Event :=
  if s.restart = .I2S_NO_RESTART then [.outputs] else []

/-! ## The three components -/

/-- The two masters differ in who sets up the bit clock. -/
inductive Component
  | i2s_master
  | i2s_master_external_clock
  | i2s_slave
deriving DecidableEq

inductive Task (lines : Lines) (σ : Type*)
  /-- At the top of the outer loop, -/
  | restarting (app : σ × List Event)
  /-- in the inner one, -/
  | master (s : Master lines (σ × List Event))
  | slave (s : Slave lines (σ × List Event))
  /-- and past both. -/
  | returned (app : σ × List Event)

/-- The start of a pass finds anything in the arrays, and the slave waits for LRCLK up to any time. In each
frame there may be anything on the wires. -/
inductive Action (lines : Lines)
  | start (out_samps in_samps : Samples) (port_time : Nat)
  | frame (din : Fin lines.num_in → Nat → Bool) (lrclk : Nat → Bool)

/-- The master from `init` to its loop. -/
def master_start (app : σ × List Event) (out_samps in_samps : Samples) : Master lines (σ × List Event) :=
  let config := (traced cbg).init app
  let s := i2s_ratio_n_start (traced cbg) config.1 config.2 out_samps in_samps
  { s with frames := s.frames.note [.outputs] }

/-- One time through `i2s_ratio_n`'s loop. Its second half calls back at the end only. -/
def master_frame (din : Fin lines.num_in → Nat → Bool) (s : Master lines (σ × List Event)) :
    Master lines (σ × List Event) :=
  let s := i2s_ratio_n_evens (traced cbg) din s
  let s := { s with frames := s.frames.note (s.frames.outs ++ Event.inputs :: (s.frames.outs ++ [.inputs])) }
  let s := i2s_ratio_n_odds (traced cbg) din s
  { s with frames := s.frames.note [.frame_end] }

def slave_start (app : σ × List Event) (out_samps in_samps : Samples) (port_time : Nat) :
    Slave lines (σ × List Event) :=
  let s := i2s_slave_start (traced cbg) app out_samps in_samps port_time
  { s with frames := s.frames.note [.outputs] }

/-- One time through the slave's main loop. -/
def slave_frame (din : Fin lines.num_in → Nat → Bool) (lrclk : Nat → Bool) (s : Slave lines (σ × List Event)) :
    Slave lines (σ × List Event) :=
  let before := s.syncerror
  let s := i2s_slave_evens (traced cbg) din lrclk s
  let left := s.syncerror = before
  let right := (s.read_lrclk lrclk (expected_high s.mode)).syncerror = s.syncerror
  let s := { s with
    frames := s.frames.note
      (s.frames.outs ++ Event.lrclk left :: .inputs :: .lrclk right :: (s.frames.outs ++ [.inputs])) }
  let s := i2s_slave_odds (traced cbg) din lrclk s
  { s with frames := s.frames.note [.frame_end] }

def Task.step (c : Component) : Task lines σ → Action lines → Option (Task lines σ)
  | .restarting app, .start out_samps in_samps port_time =>
    if c = .i2s_slave then some (.slave (slave_start cbg app out_samps in_samps port_time))
    else some (.master (master_start cbg app out_samps in_samps))
  | .master s, .frame din _ =>
    let s := master_frame cbg din s
    if s.frames.restart = .I2S_NO_RESTART then some (.master s)
    else if s.frames.restart = .I2S_SHUTDOWN then some (.returned s.frames.app)
    else some (.restarting s.frames.app)
  | .slave s, .frame din lrclk =>
    let s := slave_frame cbg din lrclk s
    if s.syncerror = 0 ∧ s.frames.restart = .I2S_NO_RESTART then some (.slave s)
    else some (.restarting s.frames.app)
  | _, _ => none

def component (lines : Lines) (c : Component) : Machine (Task lines σ) (Action lines) where
  init s := ∃ app, s = .restarting (app, [])
  step := Task.step cbg c

/-! ## What is promised -/

/-- What may come next. In a frame, `ok` tells that LRCLK has been as expected so far. -/
inductive Status
  | due_init
  /-- The words of the first frame are put out. -/
  | first
  | between
  | frame (answer : i2s_restart_t) (ok : Bool) (taken : Nat)
  | received (answer : i2s_restart_t) (ok : Bool)
  | over

def Status.after (answer : i2s_restart_t) (ok : Bool) : Status :=
  if answer = .I2S_SHUTDOWN then .over
  else if answer = .I2S_NO_RESTART ∧ ok = true then .between
  else .due_init

/-- The frame is finished when the left and right words have been taken and, with input lines, received. Send is not
called once there is a cause to leave, and of the frame that LRCLK goes wrong in, only the words are still put out. -/
def Status.in_frame (lines : Lines) (answer : i2s_restart_t) (ok : Bool) (taken : Nat) : Event → Option Status
  | .send => if answer = .I2S_NO_RESTART ∧ ok = true then some (.frame answer ok taken) else none
  | .outputs => if answer = .I2S_NO_RESTART then some (.frame answer ok taken) else none
  | .lrclk expected => some (.frame answer (ok && expected) taken)
  | .inputs => some (.frame answer ok (taken + 1))
  | .receive => if 0 < lines.num_in ∧ taken = 2 then some (.received answer ok) else none
  | .frame_end => if lines.num_in = 0 ∧ taken = 2 then some (.after answer ok) else none
  | .init | .restart_check _ => none

/-- There is one `restart_check` in a frame, at its beginning. -/
def contract (lines : Lines) : Machine Status Event where
  init s := s = .due_init
  step
    | .due_init, .init => some .first
    | .first, .send | .first, .outputs => some .first
    | .first, .restart_check answer | .between, .restart_check answer => some (.frame answer true 0)
    | .frame answer ok taken, event => Status.in_frame lines answer ok taken event
    | .received answer ok, .frame_end => some (.after answer ok)
    | _, _ => none

def Task.trace : Task lines σ → List Event
  | .restarting app | .returned app => app.2
  | .master s => s.frames.app.2
  | .slave s => s.frames.app.2

def Task.has_returned : Task lines σ → Prop
  | .returned _ => True
  | _ => False

/-- What has been called is as promised, and the component has returned just when it is to. -/
def Sound (s : Task lines σ) : Prop :=
  ∃ status, (contract lines).exec Machine.Free .due_init s.trace = some status ∧ (status = .over ↔ s.has_returned)

/-- The slave is not told to shut down. -/
def Staying : Task lines σ → Action lines → Prop
  | .slave s, .frame _ _ => (cbg.restart_check s.frames.app.1).1 ≠ .I2S_SHUTDOWN
  | _, _ => True

instance (s : Task lines σ) (a : Action lines) : Decidable (Staying cbg s a) := by
  unfold Staying
  split
  · infer_instance
  · infer_instance

/-! ## The trace of a frame -/

/-- A frame of either kind; `left` and `right` are what the slave sees on LRCLK. -/
def frame_events (lines : Lines) (answer : i2s_restart_t) (left right : List Bool) : List Event :=
  let sends : List Event := if answer = .I2S_NO_RESTART ∧ 0 < lines.num_out then [.send] else []
  let outs : List Event := if answer = .I2S_NO_RESTART then [.outputs] else []
  let receives : List Event := if 0 < lines.num_in then [.receive] else []
  Event.restart_check answer :: (sends ++ (outs ++ (left.map Event.lrclk ++ Event.inputs ::
    (right.map Event.lrclk ++ (outs ++ Event.inputs :: (receives ++ [.frame_end]))))))

theorem evens_trace (s : Frames lines (σ × List Event)) :
    (s.evens (traced cbg)).restart = (cbg.restart_check s.app.1).1 ∧
      (s.evens (traced cbg)).app.2 = s.app.2 ++ .restart_check (cbg.restart_check s.app.1).1 ::
        (if (cbg.restart_check s.app.1).1 = .I2S_NO_RESTART ∧ 0 < lines.num_out then [.send] else []) := by
  unfold Frames.evens Frames.send
  dsimp only [Frames.restart_check, traced]
  split
  · rename_i hgo
    split
    · rename_i hout
      rw [if_pos ⟨hgo, hout⟩]
      exact ⟨rfl, List.append_assoc ..⟩
    · rename_i hout
      rw [if_neg fun h => hout h.2]
      exact ⟨rfl, rfl⟩
  · rename_i hno
    rw [if_neg fun h => hno h.1]
    exact ⟨rfl, rfl⟩

theorem receive_trace (s : Frames lines (σ × List Event)) :
    (s.receive (traced cbg)).app.2 = s.app.2 ++ if 0 < lines.num_in then [.receive] else [] := by
  unfold Frames.receive
  dsimp only [traced]
  split
  · rfl
  · exact (List.append_nil _).symm

/-- Without input lines the master waits before it leaves. -/
theorem last_word_frames (s : Master lines σ) :
    (if s.frames.restart = .I2S_NO_RESTART then s else s.syncr).frames.restart = s.frames.restart ∧
      (if s.frames.restart = .I2S_NO_RESTART then s else s.syncr).frames.app = s.frames.app := by
  unfold Master.syncr
  split
  · exact ⟨rfl, rfl⟩
  · split
    · exact ⟨rfl, rfl⟩
    · exact ⟨rfl, rfl⟩

theorem master_odds_trace (din : Fin lines.num_in → Nat → Bool) (s : Master lines (σ × List Event)) :
    (i2s_ratio_n_odds (traced cbg) din s).frames.restart = s.frames.restart ∧
      (i2s_ratio_n_odds (traced cbg) din s).frames.app.2 =
        s.frames.app.2 ++ if 0 < lines.num_in then [.receive] else [] := by
  obtain ⟨t, ht⟩ : ∃ t : Master lines (σ × List Event), t = if s.frames.restart = .I2S_NO_RESTART then
    { s with frames := s.frames.outputs 1 }.toggle else s := ⟨_, rfl⟩
  obtain ⟨hrestart, happ⟩ : t.frames.restart = s.frames.restart ∧ t.frames.app = s.frames.app := by
    rw [ht]
    split
    · exact ⟨rfl, rfl⟩
    · exact ⟨rfl, rfl⟩
  obtain ⟨u, hu⟩ : ∃ u, u = { t with frames := (t.frames.inputs din 1).receive (traced cbg) } := ⟨_, rfl⟩
  have hodds : i2s_ratio_n_odds (traced cbg) din s = if u.frames.restart = .I2S_NO_RESTART then u else u.syncr := by
    rw [hu, ht]
    rfl
  rw [hodds, (last_word_frames _).1, (last_word_frames _).2, hu, ← hrestart, ← happ]
  exact ⟨rfl, receive_trace cbg _⟩

theorem slave_odds_trace (din : Fin lines.num_in → Nat → Bool) (lrclk : Nat → Bool) (s : Slave lines (σ × List Event)) :
    (i2s_slave_odds (traced cbg) din lrclk s).frames.restart = s.frames.restart ∧
      (i2s_slave_odds (traced cbg) din lrclk s).syncerror = (s.read_lrclk lrclk (expected_high s.mode)).syncerror ∧
      (i2s_slave_odds (traced cbg) din lrclk s).frames.app.2 =
        s.frames.app.2 ++ if 0 < lines.num_in then [.receive] else [] := by
  unfold i2s_slave_odds
  dsimp only
  split
  · exact ⟨rfl, rfl, receive_trace cbg _⟩
  · exact ⟨rfl, rfl, receive_trace cbg _⟩

theorem master_frame_trace (din : Fin lines.num_in → Nat → Bool) (s : Master lines (σ × List Event)) :
    (master_frame cbg din s).frames.restart = (cbg.restart_check s.frames.app.1).1 ∧
      (master_frame cbg din s).frames.app.2 =
        s.frames.app.2 ++ frame_events lines (cbg.restart_check s.frames.app.1).1 [] [] := by
  obtain ⟨hrestart, happ⟩ := evens_trace cbg s.frames
  obtain ⟨t, ht⟩ : ∃ t, t = i2s_ratio_n_evens (traced cbg) din s := ⟨_, rfl⟩
  have hanswer : t.frames.restart = (cbg.restart_check s.frames.app.1).1 := by rw [ht]; exact hrestart
  have hcalls : t.frames.app.2 = (s.frames.evens (traced cbg)).app.2 := by rw [ht]; rfl
  obtain ⟨u, hu⟩ : ∃ u : Master lines (σ × List Event), u = { t with
      frames := t.frames.note (t.frames.outs ++ Event.inputs :: (t.frames.outs ++ [.inputs])) } := ⟨_, rfl⟩
  obtain ⟨hodds, hreceive⟩ := master_odds_trace cbg din u
  unfold master_frame
  dsimp only
  rw [← ht, ← hu]
  constructor
  · rw [Frames.note, hodds, hu]
    exact hanswer
  · dsimp only [Frames.note]
    rw [hreceive, hu]
    dsimp only [Frames.note, Frames.outs]
    rw [hcalls, happ, hanswer, frame_events]
    simp only [List.append_assoc, List.cons_append, List.map_nil, List.nil_append]

/-- A word that is not the expected one shows in `syncerror`. -/
theorem read_lrclk_syncerror (lrclk : Nat → Bool) (expected : Word) (s : Slave lines σ) :
    s.syncerror ≤ (s.read_lrclk lrclk expected).syncerror :=
  Nat.le_add_right ..

theorem slave_evens_frames (din : Fin lines.num_in → Nat → Bool) (lrclk : Nat → Bool) (s : Slave lines σ) :
    (i2s_slave_evens cbg din lrclk s).frames.restart = (s.frames.evens cbg).restart ∧
      (i2s_slave_evens cbg din lrclk s).frames.app = (s.frames.evens cbg).app ∧
      s.syncerror ≤ (i2s_slave_evens cbg din lrclk s).syncerror := by
  unfold i2s_slave_evens Slave.read_lrclk
  dsimp only [Frames.inputs]
  exact ⟨rfl, rfl, Nat.le_add_right ..⟩

theorem slave_frame_trace (din : Fin lines.num_in → Nat → Bool) (lrclk : Nat → Bool) (s : Slave lines (σ × List Event)) :
    ∃ left right : Bool, (slave_frame cbg din lrclk s).frames.restart = (cbg.restart_check s.frames.app.1).1 ∧
      (s.syncerror = 0 → ((slave_frame cbg din lrclk s).syncerror = 0 ↔ left = true ∧ right = true)) ∧
      (slave_frame cbg din lrclk s).frames.app.2 =
        s.frames.app.2 ++ frame_events lines (cbg.restart_check s.frames.app.1).1 [left] [right] := by
  obtain ⟨hrestart, happ⟩ := evens_trace cbg s.frames
  obtain ⟨t, ht⟩ : ∃ t, t = i2s_slave_evens (traced cbg) din lrclk s := ⟨_, rfl⟩
  obtain ⟨hanswer, hcalls, hleft⟩ := slave_evens_frames (traced cbg) din lrclk s
  rw [← ht] at hanswer hcalls hleft
  have hright : t.syncerror ≤ (t.read_lrclk lrclk (expected_high t.mode)).syncerror := read_lrclk_syncerror lrclk _ _
  exists decide (t.syncerror = s.syncerror)
  exists decide ((t.read_lrclk lrclk (expected_high t.mode)).syncerror = t.syncerror)
  obtain ⟨u, hu⟩ : ∃ u : Slave lines (σ × List Event), u = { t with
      frames := t.frames.note (t.frames.outs ++ Event.lrclk (t.syncerror = s.syncerror) :: .inputs ::
        .lrclk ((t.read_lrclk lrclk (expected_high t.mode)).syncerror = t.syncerror) ::
        (t.frames.outs ++ [.inputs])) } := ⟨_, rfl⟩
  have hread : (u.read_lrclk lrclk (expected_high u.mode)).syncerror =
      (t.read_lrclk lrclk (expected_high t.mode)).syncerror := by rw [hu]; rfl
  obtain ⟨hodds, hsync, hreceive⟩ := slave_odds_trace cbg din lrclk u
  unfold slave_frame
  dsimp only
  rw [← ht, ← hu]
  refine ⟨?_, fun hzero => ?_, ?_⟩
  · rw [Frames.note, hodds, hu]
    exact hanswer.trans hrestart
  · rw [hsync, hread, decide_eq_true_iff, decide_eq_true_iff]
    omega
  · dsimp only [Frames.note]
    rw [hreceive, hu]
    dsimp only [Frames.note, Frames.outs]
    rw [hcalls, happ, hanswer, hrestart, frame_events]
    simp only [List.append_assoc, List.cons_append, List.map_cons, List.map_nil, List.nil_append]

theorem send_trace (s : Frames lines (σ × List Event)) :
    (s.send (traced cbg)).app.2 = s.app.2 ++ if 0 < lines.num_out then [.send] else [] := by
  unfold Frames.send
  dsimp only [traced]
  split
  · rfl
  · exact (List.append_nil _).symm

/-- What a pass begins with. -/
def start_events (lines : Lines) : List Event :=
  .init :: (if 0 < lines.num_out then [.send] else []) ++ [.outputs]

theorem master_start_trace (app : σ × List Event) (out_samps in_samps : Samples) :
    (master_start cbg app out_samps in_samps : Master lines (σ × List Event)).frames.app.2 =
      app.2 ++ start_events lines := by
  refine (congrArg (· ++ [.outputs]) (send_trace cbg _)).trans ?_
  dsimp only [Frames.init, traced, start_events]
  simp only [List.append_assoc, List.cons_append, List.nil_append]

theorem slave_start_trace (app : σ × List Event) (out_samps in_samps : Samples) (port_time : Nat) :
    (slave_start cbg app out_samps in_samps port_time : Slave lines (σ × List Event)).frames.app.2 =
      app.2 ++ start_events lines := by
  refine (congrArg (· ++ [.outputs]) (send_trace cbg _)).trans ?_
  dsimp only [Frames.init, traced, start_events]
  simp only [List.append_assoc, List.cons_append, List.nil_append]

/-! ## The contract step by step -/

/-- The trace is as promised so far, and `status` is what it comes to. -/
def Follows (lines : Lines) (trace : List Event) (status : Status) : Prop :=
  (contract lines).exec Machine.Free .due_init trace = some status

theorem Follows.append {trace events : List Event} {status status' : Status} (h : Follows lines trace status)
    (he : (contract lines).exec Machine.Free status events = some status') : Follows lines (trace ++ events) status' := by
  unfold Follows
  rw [Machine.exec_append, h]
  exact he

theorem start_follows : (contract lines).exec Machine.Free .due_init (start_events lines) = some .first := by
  unfold start_events
  split
  · rfl
  · rfl

theorem lrclk_follows (answer : i2s_restart_t) (ok : Bool) (taken : Nat) (seen : List Bool) :
    (contract lines).exec Machine.Free (.frame answer ok taken) (seen.map .lrclk) =
      some (.frame answer (ok && seen.all id) taken) := by
  induction seen generalizing ok with
  | nil => rw [List.all_nil, Bool.and_true]; rfl
  | cons expected seen ih =>
    rw [List.all_cons, ← Bool.and_assoc]
    exact ih (ok && expected)

/-- A frame is as promised, and after it comes what the answer and LRCLK call for. -/
theorem frame_follows {status : Status} (hstatus : status = .first ∨ status = .between) (answer : i2s_restart_t)
    (left right : List Bool) :
    (contract lines).exec Machine.Free status (frame_events lines answer left right) =
      some (.after answer (left.all id && right.all id)) := by
  have hcheck : (contract lines).step status (.restart_check answer) = some (.frame answer true 0) := by
    rcases hstatus with rfl | rfl
    · rfl
    · rfl
  have hsend : (contract lines).exec Machine.Free (.frame answer true 0)
      (if answer = .I2S_NO_RESTART ∧ 0 < lines.num_out then [.send] else []) = some (.frame answer true 0) := by
    split
    · rename_i hgo
      exact congrArg (Option.bind · _) (if_pos ⟨hgo.1, rfl⟩)
    · rfl
  have houts : ∀ ok taken, (contract lines).exec Machine.Free (.frame answer ok taken)
      (if answer = .I2S_NO_RESTART then [.outputs] else []) = some (.frame answer ok taken) := by
    intro ok taken
    split
    · rename_i hgo
      exact congrArg (Option.bind · _) (if_pos hgo)
    · rfl
  have hend : ∀ ok, (contract lines).exec Machine.Free (.frame answer ok 2)
      ((if 0 < lines.num_in then [.receive] else []) ++ [.frame_end]) = some (.after answer ok) := by
    intro ok
    split
    · rename_i hin
      rw [List.singleton_append, Machine.exec_cons]
      exact congrArg (Option.bind · _) (if_pos ⟨hin, rfl⟩)
    · rename_i hin
      rw [List.nil_append, Machine.exec_cons]
      exact congrArg (Option.bind · _) (if_pos ⟨Nat.eq_zero_of_not_pos hin, rfl⟩)
  have hinputs : ∀ ok taken events, (contract lines).exec Machine.Free (.frame answer ok taken) (.inputs :: events) =
      (contract lines).exec Machine.Free (.frame answer ok (taken + 1)) events := fun _ _ _ => Machine.exec_cons
  unfold frame_events
  dsimp only
  rw [Machine.exec_cons, hcheck, Option.bind_some, Machine.exec_append, hsend, Option.bind_some,
    Machine.exec_append, houts, Option.bind_some, Machine.exec_append, lrclk_follows, Option.bind_some, hinputs,
    Machine.exec_append, lrclk_follows, Option.bind_some, Machine.exec_append, houts, Option.bind_some, hinputs, hend,
    Bool.true_and]

/-! ## Whole runs -/

/-- Where the task stands in the contract. -/
def Task.Inv : Task lines σ → Prop
  | .restarting app => Follows lines app.2 .due_init
  | .master s => ∃ status, (status = .first ∨ status = .between) ∧ Follows lines s.frames.app.2 status
  | .slave s => s.syncerror = 0 ∧
    ∃ status, (status = .first ∨ status = .between) ∧ Follows lines s.frames.app.2 status
  | .returned app => Follows lines app.2 .over

variable {cbg} {c : Component} {s s' : Task lines σ} {a : Action lines}

theorem Task.Inv.sound (h : s.Inv) : Sound s := by
  cases s with
  | restarting app => exact ⟨.due_init, h, nofun, nofun⟩
  | returned app => exact ⟨.over, h, fun _ => trivial, fun _ => rfl⟩
  | master s =>
    obtain ⟨status, hstatus, h⟩ := h
    refine ⟨status, h, fun hover => ?_, nofun⟩
    rcases hstatus with rfl | rfl
    · cases hover
    · cases hover
  | slave s =>
    obtain ⟨-, status, hstatus, h⟩ := h
    refine ⟨status, h, fun hover => ?_, nofun⟩
    rcases hstatus with rfl | rfl
    · cases hover
    · cases hover

theorem Task.Inv.step (h : s.Inv) (hc : Staying cbg s a) (hs : (component cbg lines c).step s a = some s') : s'.Inv := by
  cases s with
  | returned app => cases hs
  | restarting app =>
    cases a with
    | frame => cases hs
    | start out_samps in_samps port_time =>
      have hstart := Follows.append h start_follows
      dsimp only [component, Task.step] at hs
      split at hs
      · cases hs
        refine ⟨rfl, .first, .inl rfl, ?_⟩
        rw [slave_start_trace]
        exact hstart
      · cases hs
        refine ⟨.first, .inl rfl, ?_⟩
        rw [master_start_trace]
        exact hstart
  | master s =>
    cases a with
    | start => cases hs
    | frame din lrclk =>
      obtain ⟨status, hstatus, h⟩ := h
      obtain ⟨hrestart, htrace⟩ := master_frame_trace cbg din s
      have hframe := h.append (frame_follows hstatus (cbg.restart_check s.frames.app.1).1 [] [])
      rw [← htrace, ← hrestart, Status.after] at hframe
      dsimp only [component, Task.step] at hs
      split at hs
      · rename_i hgo
        cases hs
        rw [hgo] at hframe
        exact ⟨.between, .inr rfl, hframe⟩
      · rename_i hgo
        split at hs
        · rename_i hshutdown
          cases hs
          rwa [if_pos hshutdown] at hframe
        · rename_i hshutdown
          cases hs
          rwa [if_neg hshutdown, if_neg fun h => hgo h.1] at hframe
  | slave s =>
    cases a with
    | start => cases hs
    | frame din lrclk =>
      obtain ⟨hzero, status, hstatus, h⟩ := h
      obtain ⟨left, right, hrestart, hsync, htrace⟩ := slave_frame_trace cbg din lrclk s
      have hframe := h.append (frame_follows hstatus (cbg.restart_check s.frames.app.1).1 [left] [right])
      have hc : (slave_frame cbg din lrclk s).frames.restart ≠ .I2S_SHUTDOWN := fun h => hc (hrestart.symm.trans h)
      rw [← htrace, ← hrestart, Status.after, if_neg hc] at hframe
      dsimp only [component, Task.step] at hs
      split at hs
      · rename_i hgo
        cases hs
        obtain ⟨rfl, rfl⟩ := (hsync hzero).1 hgo.1
        rw [if_pos ⟨hgo.2, rfl⟩] at hframe
        exact ⟨hgo.1, .between, .inr rfl, hframe⟩
      · rename_i hgo
        cases hs
        have hleave : ¬ ((slave_frame cbg din lrclk s).frames.restart = .I2S_NO_RESTART ∧
            ([left].all id && [right].all id) = true) := by
          rintro ⟨hno, hboth⟩
          exact hgo ⟨(hsync hzero).2 (by simpa using hboth), hno⟩
        rwa [if_neg hleave] at hframe

/-- A slave that is to shut down is over, but starts over. -/
theorem Task.Inv.not_sound (h : s.Inv) (hc : ¬ Staying cbg s a) (hs : (component cbg lines c).step s a = some s') :
    ¬ Sound s' := by
  cases s with
  | restarting | master | returned => exact (hc trivial).elim
  | slave s =>
    cases a with
    | start => exact (hc trivial).elim
    | frame din lrclk =>
      obtain ⟨hzero, status, hstatus, h⟩ := h
      obtain ⟨left, right, hrestart, hsync, htrace⟩ := slave_frame_trace cbg din lrclk s
      have hshutdown : (cbg.restart_check s.frames.app.1).1 = .I2S_SHUTDOWN := not_not.1 hc
      have hframe := h.append (frame_follows hstatus (cbg.restart_check s.frames.app.1).1 [left] [right])
      rw [← htrace, hshutdown, Status.after, if_pos rfl] at hframe
      dsimp only [component, Task.step] at hs
      split at hs
      · rename_i hgo
        rw [hrestart, hshutdown] at hgo
        cases hgo.2
      · cases hs
        rintro ⟨status', hfollows, hover⟩
        obtain rfl := Option.some.inj (hfollows.symm.trans hframe)
        exact hover.1 rfl

theorem shutdown_iff {as : List (Action lines)} {s₀ : Task lines σ} (h0 : (component cbg lines c).init s₀)
    (h : (component cbg lines c).Run Machine.Free s₀ as s) :
    (∀ bs t, bs <+: as → (component cbg lines c).Run Machine.Free s₀ bs t → Sound t) ↔
      (component cbg lines c).Run (Staying cbg) s₀ as s := by
  obtain ⟨app, rfl⟩ := h0
  have hinit : Task.Inv (.restarting (app, []) : Task lines σ) := rfl
  exact Machine.Run.holds_iff (fun _ => Task.Inv.sound) (fun _ _ _ => Task.Inv.step) (fun _ _ _ => Task.Inv.not_sound)
    hinit h

/-! ## A slave that goes on, restarts and is to shut down -/

/-- The answers are in turn to go on, to restart and to shut down. -/
def closing : i2s_callback_group_t Nat where
  init app := (.I2S_MODE_I2S, app)
  restart_check app :=
    (if app = 0 then .I2S_NO_RESTART else if app = 1 then .I2S_RESTART else .I2S_SHUTDOWN, app + 1)
  receive app _ _ := app
  send app _ _ := (fun _ => 0, app)

theorem one_le : 1 ≤ I2S_MAX_DATALINES := by decide

def one_out : Lines := ⟨1, 0, one_le, by decide, by decide⟩

def pass_start : Action one_out := .start (fun _ => 0) (fun _ => 0) 1

/-- LRCLK stays low, so that the first frame is the last one of its pass, too. -/
def pass_frame : Action one_out := .frame (fun _ _ => false) fun _ => false

theorem shutdown_iff_two_passes : ∃ s,
    (component closing one_out .i2s_slave).Run (Staying closing) (.restarting (0, []))
      [pass_start, pass_frame, pass_start, pass_frame, pass_start] s ∧
    ∀ bs t, bs <+: [pass_start, pass_frame, pass_start, pass_frame, pass_start] →
      (component closing one_out .i2s_slave).Run Machine.Free (.restarting (0, [])) bs t → Sound t := by
  have hrun : ((component closing one_out .i2s_slave).exec (Staying closing) (.restarting (0, []))
      [pass_start, pass_frame, pass_start, pass_frame, pass_start]).isSome = true := by decide +kernel
  obtain ⟨s, hexec⟩ := Option.isSome_iff_exists.1 hrun
  have h := Machine.exec_run hexec
  exact ⟨s, h, (shutdown_iff ⟨0, rfl⟩ (h.mono fun _ _ _ => trivial)).2 h⟩

/-- The slave is to shut down, and starts over. -/
theorem slave_starts_over : ∃ s, (component closing one_out .i2s_slave).Run Machine.Free (.restarting (2, []))
    [pass_start, pass_frame] s ∧ ¬ Sound s := by
  have hinit : Task.Inv (.restarting (2, []) : Task one_out Nat) := rfl
  have hstart : (component closing one_out .i2s_slave).step (.restarting (2, [])) pass_start =
    some (.slave (slave_start closing (2, []) (fun _ => 0) (fun _ => 0) 1)) := rfl
  obtain ⟨s, hframe⟩ : ∃ s, (component closing one_out .i2s_slave).step
      (.slave (slave_start closing (2, []) (fun _ => 0) (fun _ => 0) 1)) pass_frame = some s := by
    dsimp only [component, Task.step, pass_frame]
    split
    · exact ⟨_, rfl⟩
    · exact ⟨_, rfl⟩
  have hshutdown : ¬ Staying closing (.slave (slave_start closing (2, []) (fun _ => 0) (fun _ => 0) 1)) pass_frame :=
    fun h => h rfl
  refine ⟨s, .cons trivial hstart (.cons trivial hframe (.nil _)), ?_⟩
  exact (hinit.step trivial hstart).not_sound hshutdown hframe

end Hil
end I2s
