import XcoreSdk.Lib.Machine
/-!
# Confirmations of commands

A command says which message it waits for, is sent, and waits for a queue of one
entry. The receive task looks at each message of the module: the one that is waited
for is copied to the context's buffer, and its number goes into the queue. The driver in
between, which is not part of the repository, issues one command at a time.

A message is a confirmation of a command, which has the command's number, or an
indication, whose number is no command's.
-/

namespace Wfx
namespace Confirmation

def SL_WFX_EVENT_MAX_SIZE : Nat := 512

/-- `sl_wfx_generic_message_t`: as many bytes as its header says. -/
structure Message where
  id : UInt8
  bytes : List UInt8
  /-- The command that it confirms. -/
  command : Option Nat
deriving DecidableEq

/-- What `sl_wfx_host_wait_for_confirmation` returns; with `SL_STATUS_OK`, what is in the
buffer that it gives. -/
inductive Status
  | SL_STATUS_OK (event_payload : List UInt8)
  | SL_STATUS_TIMEOUT
deriving DecidableEq

/-- Where the command is. -/
inductive Command
  | idle
  | send (id : UInt8)
  | wait (id : UInt8)
deriving DecidableEq

/-- Where the receive task is in `sl_wfx_host_post_event`. -/
inductive Post
  | idle
  | check (message : Message)
  | clear (message : Message)
  | copy (message : Message)
  | overwrite (message : Message)

/-- How a command has ended: with the confirmation that had been posted, if there was one, and
whether its time was over. -/
structure Ended where
  confirmation : Option (List UInt8)
  status : Status
  expired : Bool
deriving DecidableEq

structure State where
  waited_event_id : UInt8
  eventQueue : Option UInt8
  event_payload_buffer : List UInt8
  command : Command
  post : Post
  /-- The commands sent so far. -/
  sent : List UInt8
  /-- The confirmations that `sl_wfx_host_post_event` is done with. -/
  posted : List Message
  ended : List Ended

/-- The confirmation of command `n`. -/
def confirmation (posted : List Message) (n : Nat) : Option (List UInt8) :=
  (posted.find? (·.command = some n)).map (·.bytes)

variable (indication : UInt8 → Bool)

/-- Number 0 stands for no message. -/
def sl_wfx_host_setup_waited_event (s : State) (event_id : UInt8) : Option State :=
  match s.command with
  | .idle =>
    if event_id ≠ 0 ∧ indication event_id = false then
      some { s with waited_event_id := event_id, command := .send event_id }
    else none
  | _ => none

def send (s : State) : Option State :=
  match s.command with
  | .send id => some { s with command := .wait id, sent := s.sent ++ [id] }
  | _ => none

def State.ends (s : State) (status : Status) (expired : Bool) : State :=
  { s with
    command := .idle
    ended := s.ended ++ [⟨confirmation s.posted s.ended.length, status, expired⟩] }

/-- `xQueueReceive` gives an entry. -/
def sl_wfx_host_wait_for_confirmation (s : State) : Option State :=
  match s.command, s.eventQueue with
  | .wait confirmation_id, some posted_event_id =>
    let s := { s with eventQueue := none }
    if confirmation_id = posted_event_id then some (s.ends (.SL_STATUS_OK s.event_payload_buffer) false)
    else some (s.ends .SL_STATUS_TIMEOUT false)
  | _, _ => none

/-- `xQueueReceive` gives nothing in time. -/
def wait_timeout (s : State) : Option State :=
  match s.command, s.eventQueue with
  | .wait _, none => some (s.ends .SL_STATUS_TIMEOUT true)
  | _, _ => none

/-- A message has its command's number, or an indication's. -/
def Known (sent : List UInt8) (message : Message) : Bool :=
  match message.command with
  | some n => sent[n]? = some message.id
  | none => indication message.id

/-- The receive task receives a message. -/
def receive (s : State) (message : Message) : Option State :=
  match s.post with
  | .idle =>
    if Known indication s.sent message ∧ message.bytes.length ≤ SL_WFX_EVENT_MAX_SIZE then
      some { s with post := .check message }
    else none
  | _ => none

def State.done (s : State) (message : Message) : State :=
  { s with post := .idle, posted := if message.command.isSome then s.posted ++ [message] else s.posted }

/-- The next step of `sl_wfx_host_post_event`, after the callbacks. -/
def sl_wfx_host_post_event (s : State) : Option State :=
  match s.post with
  | .idle => none
  | .check message =>
    if s.waited_event_id ≠ 0 ∧ s.waited_event_id = message.id then some { s with post := .clear message }
    else some (s.done message)
  | .clear message => some { s with waited_event_id := 0, post := .copy message }
  | .copy message => some { s with
      event_payload_buffer := message.bytes ++ s.event_payload_buffer.drop message.bytes.length
      post := .overwrite message }
  | .overwrite message => some { s.done message with eventQueue := some message.id }

/-! ## Runs -/

inductive Action
  | setup (event_id : UInt8)
  | send
  | wait
  | timeout
  | receive (message : Message)
  | post

def step (s : State) : Action → Option State
  | .setup event_id => sl_wfx_host_setup_waited_event indication s event_id
  | .send => send s
  | .wait => sl_wfx_host_wait_for_confirmation s
  | .timeout => wait_timeout s
  | .receive message => receive indication s message
  | .post => sl_wfx_host_post_event s

/-- After `sl_wfx_host_init`. -/
def State.init : State := ⟨0, none, List.replicate SL_WFX_EVENT_MAX_SIZE 0, .idle, .idle, [], [], []⟩

/-- The thread that issues commands, and the receive task; `indication` says which numbers are those
of indications. -/
def machine : Machine State Action where
  init s := s = .init
  step := step indication

/-! ## Matching -/

/-- A command ends with its own confirmation if it was posted, and else when its time is over. -/
def Ended.Matches (e : Ended) : Prop :=
  match e.confirmation with
  | some bytes => ∃ event_payload, e.status = .SL_STATUS_OK event_payload ∧ bytes <+: event_payload
  | none => e.status = .SL_STATUS_TIMEOUT ∧ e.expired

/-- The receive task is copying and posting a message. -/
def Post.within : Post → Bool
  | .idle | .check _ => false
  | .clear _ | .copy _ | .overwrite _ => true

/-- The message that is about to be compared with `waited_event_id`. -/
def Post.checked : Post → Option Message
  | .check message => some message
  | _ => none

/-- A confirmation whose command has ended does not find its own number in `waited_event_id`,
and no wait times out while a message is being posted. -/
def Timely (s : State) : Action → Prop
  | .post => ∀ message ∈ s.post.checked, ∀ n ∈ message.command,
      s.waited_event_id ≠ 0 → s.waited_event_id = message.id → n = s.ended.length
  | .timeout => s.post.within = false
  | _ => True

/-- How far the confirmation of the command that waits for `id` has come. -/
inductive Waits (s : State) (id : UInt8) : Prop
  | unconfirmed : s.post.within = false → s.eventQueue = none → s.waited_event_id = id →
      confirmation s.posted s.ended.length = none → Waits s id
  | clearing (m : Message) : s.post = .clear m → m.command = some s.ended.length → s.eventQueue = none →
      confirmation s.posted s.ended.length = none → Waits s id
  | copying (m : Message) : s.post = .copy m → m.command = some s.ended.length → s.eventQueue = none →
      s.waited_event_id = 0 → confirmation s.posted s.ended.length = none → Waits s id
  | overwriting (m : Message) : s.post = .overwrite m → m.command = some s.ended.length → s.eventQueue = none →
      s.waited_event_id = 0 → confirmation s.posted s.ended.length = none → m.bytes <+: s.event_payload_buffer → Waits s id
  | confirmed (bytes : List UInt8) : s.post.within = false → s.eventQueue = some id → s.waited_event_id = 0 →
      confirmation s.posted s.ended.length = some bytes → bytes <+: s.event_payload_buffer → Waits s id

def Phase (s : State) : Prop :=
  match s.command with
  | .idle => s.sent.length = s.ended.length ∧ s.eventQueue = none ∧ s.post.within = false
  | .send id => s.sent.length = s.ended.length ∧ s.eventQueue = none ∧ s.post.within = false ∧
      s.waited_event_id = id ∧ id ≠ 0
  | .wait id => s.sent.length = s.ended.length + 1 ∧ s.sent[s.ended.length]? = some id ∧ id ≠ 0 ∧ Waits s id

/-- The message that the receive task is at. -/
def Post.message : Post → Option Message
  | .idle => none
  | .check m | .clear m | .copy m | .overwrite m => some m

/-- What every step keeps, as long as confirmations are timely. -/
structure Inv (s : State) : Prop where
  ended : ∀ e ∈ s.ended, e.Matches
  posted : ∀ m ∈ s.posted, ∀ n, m.command = some n → n < s.sent.length
  message : ∀ m, s.post.message = some m → Known indication s.sent m
  waited : s.waited_event_id = 0 ∨ indication s.waited_event_id = false
  phase : Phase s

variable {indication} {s s' : State}

theorem known_command {sent : List UInt8} {m : Message} {n : Nat} (h : Known indication sent m)
    (hm : m.command = some n) : sent[n]? = some m.id := by
  rwa [Known, hm, decide_eq_true_eq] at h

theorem known_append {sent : List UInt8} {m : Message} (h : Known indication sent m) (id : UInt8) :
    Known indication (sent ++ [id]) m := by
  unfold Known at h ⊢
  split at h
  · rename_i n _
    rw [decide_eq_true_eq] at h ⊢
    rw [List.getElem?_append_left (List.getElem?_eq_some_iff.1 h).1]
    exact h
  · exact h

theorem confirmation_none {posted : List Message} {n : Nat} (h : ∀ m ∈ posted, ∀ k, m.command = some k → k < n) :
    confirmation posted n = none := by
  rw [confirmation, List.find?_eq_none.2, Option.map_none]
  intro m hm heq
  exact Nat.lt_irrefl n (h m hm n (of_decide_eq_true heq))

theorem confirmation_other {posted : List Message} {n : Nat} {m : Message} (hm : m.command ≠ some n) :
    confirmation (posted ++ [m]) n = confirmation posted n := by
  simp [confirmation, List.find?_append, hm]

theorem confirmation_first {posted : List Message} {n : Nat} {m : Message} (hm : m.command = some n)
    (hnone : confirmation posted n = none) : confirmation (posted ++ [m]) n = some m.bytes := by
  rw [confirmation, Option.map_eq_none_iff] at hnone
  simp [confirmation, List.find?_append, hnone, hm]

theorem confirmation_again {posted : List Message} {n : Nat} {bytes : List UInt8} (m : Message)
    (hsome : confirmation posted n = some bytes) : confirmation (posted ++ [m]) n = some bytes := by
  obtain ⟨m', hfind, rfl⟩ := Option.map_eq_some_iff.1 hsome
  simp [confirmation, List.find?_append, hfind]

/-! ## The command's steps -/

theorem Inv.setup (h : Inv indication s) {id : UInt8} (hs : sl_wfx_host_setup_waited_event indication s id = some s') :
    Inv indication s' := by
  have hphase := h.phase
  simp only [sl_wfx_host_setup_waited_event] at hs
  split at hs
  · rename_i hcommand
    simp only [Phase, hcommand] at hphase
    obtain ⟨hsent, hqueue, hpost⟩ := hphase
    split at hs
    · rename_i hid
      obtain rfl := Option.some.inj hs
      exact ⟨h.ended, h.posted, h.message, .inr hid.2, hsent, hqueue, hpost, rfl, hid.1⟩
    · cases hs
  · cases hs

theorem Inv.send (h : Inv indication s) (hs : send s = some s') : Inv indication s' := by
  have hphase := h.phase
  simp only [Confirmation.send] at hs
  split at hs
  · rename_i id hcommand
    simp only [Phase, hcommand] at hphase
    obtain ⟨hsent, hqueue, hpost, hwaited, hid⟩ := hphase
    obtain rfl := Option.some.inj hs
    refine ⟨h.ended, fun m hm n hn => ?_, fun m hm => known_append (h.message m hm) id, h.waited, ?_, ?_, hid,
      .unconfirmed hpost hqueue hwaited ?_⟩
    · rw [List.length_append]
      exact Nat.lt_add_right _ (h.posted m hm n hn)
    · rw [List.length_append, hsent]
      rfl
    · dsimp only
      rw [← hsent]
      exact List.getElem?_concat_length
    · apply confirmation_none
      intro m hm n hn
      rw [← hsent]
      exact h.posted m hm n hn
  · cases hs

/-- A command ends that has waited. -/
theorem Inv.ends (h : Inv indication s) {id : UInt8} {queue : Option UInt8} {status : Status} {expired : Bool}
    (hcommand : s.command = .wait id) (hqueue : queue = none) (hpost : s.post.within = false)
    (hmatches : Ended.Matches ⟨confirmation s.posted s.ended.length, status, expired⟩) :
    Inv indication (State.ends { s with eventQueue := queue } status expired) := by
  have hphase := h.phase
  simp only [Phase, hcommand] at hphase
  refine ⟨fun e he => ?_, h.posted, h.message, h.waited, ?_, hqueue, hpost⟩
  · rcases List.mem_append.1 he with he | he
    · exact h.ended e he
    · rw [List.mem_singleton.1 he]
      exact hmatches
  · rw [State.ends, List.length_append]
    exact hphase.1

theorem Inv.wait (h : Inv indication s) (hs : sl_wfx_host_wait_for_confirmation s = some s') : Inv indication s' := by
  have hphase := h.phase
  simp only [sl_wfx_host_wait_for_confirmation] at hs
  split at hs
  · rename_i id posted hcommand hqueue
    simp only [Phase, hcommand] at hphase
    obtain ⟨-, -, -, hwaits⟩ := hphase
    cases hwaits with
    | confirmed bytes hpost hqueue' hwaited hconfirmation hbytes =>
      obtain rfl : id = posted := by
        rw [hqueue] at hqueue'
        exact (Option.some.inj hqueue').symm
      rw [if_pos rfl] at hs
      obtain rfl := Option.some.inj hs
      apply h.ends hcommand rfl hpost
      rw [Ended.Matches, hconfirmation]
      exact ⟨_, rfl, hbytes⟩
    | unconfirmed _ hnone | clearing _ _ _ hnone | copying _ _ _ hnone | overwriting _ _ _ hnone =>
      rw [hqueue] at hnone
      cases hnone
  · cases hs

theorem Inv.timeout (h : Inv indication s) (hpost : s.post.within = false) (hs : wait_timeout s = some s') :
    Inv indication s' := by
  have hphase := h.phase
  simp only [wait_timeout] at hs
  split at hs
  · rename_i id hcommand hqueue
    simp only [Phase, hcommand] at hphase
    obtain ⟨-, -, -, hwaits⟩ := hphase
    obtain rfl := Option.some.inj hs
    apply h.ends hcommand hqueue hpost
    cases hwaits with
    | unconfirmed _ _ _ hconfirmation =>
      rw [Ended.Matches, hconfirmation]
      exact ⟨rfl, rfl⟩
    | confirmed bytes _ hsome =>
      rw [hqueue] at hsome
      cases hsome
    | clearing m hm | copying m hm | overwriting m hm =>
      rw [hm] at hpost
      cases hpost
  · cases hs

/-! ## The receive task's steps -/

theorem Inv.receive (h : Inv indication s) {m : Message} (hs : receive indication s m = some s') : Inv indication s' := by
  have hphase := h.phase
  simp only [Confirmation.receive] at hs
  split at hs
  · rename_i hpost
    split at hs
    · rename_i hknown
      obtain rfl := Option.some.inj hs
      refine ⟨h.ended, h.posted, fun m' hm' => ?_, h.waited, ?_⟩
      · obtain rfl := Option.some.inj hm'
        exact hknown.1
      · simp only [Phase] at hphase ⊢
        split at hphase
        · exact ⟨hphase.1, hphase.2.1, rfl⟩
        · exact ⟨hphase.1, hphase.2.1, rfl, hphase.2.2.2⟩
        · obtain ⟨hsent, hget, hid, hwaits⟩ := hphase
          refine ⟨hsent, hget, hid, ?_⟩
          cases hwaits with
          | unconfirmed _ hqueue hwaited hnone => exact .unconfirmed rfl hqueue hwaited hnone
          | confirmed bytes _ hqueue hwaited hsome hbytes => exact .confirmed bytes rfl hqueue hwaited hsome hbytes
          | clearing m hm | copying m hm | overwriting m hm =>
            rw [hpost] at hm
            cases hm
    · cases hs
  · cases hs

theorem posted_done {m : Message} (h : Inv indication s) (hknown : Known indication s.sent m) :
    ∀ m' ∈ (s.done m).posted, ∀ n, m'.command = some n → n < s.sent.length := by
  intro m' hm' n hn
  simp only [State.done] at hm'
  split at hm'
  · rcases List.mem_append.1 hm' with hm' | hm'
    · exact h.posted m' hm' n hn
    · rw [List.mem_singleton.1 hm'] at hn
      exact (List.getElem?_eq_some_iff.1 (known_command hknown hn)).1
  · exact h.posted m' hm' n hn

theorem confirmation_done {m : Message} {n : Nat} (hm : m.command ≠ some n) :
    confirmation (s.done m).posted n = confirmation s.posted n := by
  simp only [State.done]
  split
  · exact confirmation_other hm
  · rfl

/-- A message that nobody waits for. -/
theorem Inv.ignore (h : Inv indication s) {m : Message} (hpost : s.post = .check m)
    (hignored : ¬ (s.waited_event_id ≠ 0 ∧ s.waited_event_id = m.id)) : Inv indication (s.done m) := by
  have hphase := h.phase
  have hknown : Known indication s.sent m := h.message m (by rw [hpost]; rfl)
  refine ⟨h.ended, posted_done h hknown, (by intro _ h; cases h), h.waited, ?_⟩
  simp only [Phase, State.done] at hphase ⊢
  split at hphase
  · exact ⟨hphase.1, hphase.2.1, rfl⟩
  · exact ⟨hphase.1, hphase.2.1, rfl, hphase.2.2.2⟩
  · obtain ⟨hsent, hget, hid, hwaits⟩ := hphase
    refine ⟨hsent, hget, hid, ?_⟩
    cases hwaits with
    | unconfirmed _ hqueue hwaited hnone =>
      refine .unconfirmed rfl hqueue hwaited (Eq.trans (confirmation_done fun hm => ?_) hnone)
      -- a confirmation of this command would have its number
      have hid' := hget.symm.trans (known_command hknown hm)
      exact hignored ⟨by rwa [hwaited], hwaited.trans (Option.some.inj hid')⟩
    | confirmed bytes _ hqueue hwaited hsome hbytes =>
      refine .confirmed bytes rfl hqueue hwaited ?_ hbytes
      dsimp only
      split
      · exact confirmation_again m hsome
      · exact hsome
    | clearing m' hm | copying m' hm | overwriting m' hm =>
      rw [hpost] at hm
      cases hm

/-- A message that is waited for: it is the current command's. -/
theorem Inv.accept (h : Inv indication s) {m : Message} (hpost : s.post = .check m) (hwaited : s.waited_event_id ≠ 0)
    (hid : s.waited_event_id = m.id) (htimely : ∀ n ∈ m.command, n = s.ended.length) :
    Inv indication { s with post := .clear m } := by
  have hphase := h.phase
  have hknown : Known indication s.sent m := h.message m (by rw [hpost]; rfl)
  have hcommand : m.command = some s.ended.length := by
    cases hm : m.command with
    | some n => rw [htimely n hm]
    | none =>
      -- an indication's number is not waited for
      rw [Known, hm] at hknown
      have hindication := h.waited.resolve_left hwaited
      rw [hid] at hindication
      exact absurd hknown (by rw [hindication]; exact Bool.false_ne_true)
  have hsent := known_command hknown hcommand
  have hlt := (List.getElem?_eq_some_iff.1 hsent).1
  refine ⟨h.ended, h.posted, fun m' hm' => ?_, h.waited, ?_⟩
  · obtain rfl := Option.some.inj hm'
    exact hknown
  · simp only [Phase] at hphase ⊢
    split at hphase
    · omega
    · omega
    · obtain ⟨hlen, hget, hne, hwaits⟩ := hphase
      refine ⟨hlen, hget, hne, ?_⟩
      cases hwaits with
      | unconfirmed _ hqueue _ hnone => exact .clearing m rfl hcommand hqueue hnone
      | confirmed _ _ _ hzero => exact absurd hzero hwaited
      | clearing m' hm | copying m' hm | overwriting m' hm =>
        rw [hpost] at hm
        cases hm

theorem Inv.post (h : Inv indication s) (htimely : Timely s .post) (hs : sl_wfx_host_post_event s = some s') :
    Inv indication s' := by
  have hphase := h.phase
  simp only [sl_wfx_host_post_event] at hs
  split at hs <;> rename_i hpost
  · cases hs
  · rename_i m
    split at hs
    · rename_i hmatch
      obtain rfl := Option.some.inj hs
      exact h.accept hpost hmatch.1 hmatch.2 fun n hn => htimely m (by rw [hpost]; rfl) n hn hmatch.1 hmatch.2
    · rename_i hignored
      obtain rfl := Option.some.inj hs
      exact h.ignore hpost hignored
  all_goals
    rename_i m
    have hknown : Known indication s.sent m := h.message m (by rw [hpost]; rfl)
    obtain rfl := Option.some.inj hs
    simp only [Phase, hpost, Post.within] at hphase
    split at hphase
    · exact absurd hphase.2.2 (by simp)
    · exact absurd hphase.2.2.1 (by simp)
    rename_i id hcommand
    obtain ⟨hlen, hget, hne, hwaits⟩ := hphase
  · cases hwaits with
    | clearing m' hm hcommand' hqueue hnone =>
      rw [hpost] at hm
      obtain rfl := Post.clear.inj hm
      refine ⟨h.ended, h.posted, fun m' hm' => ?_, .inl rfl, ?_⟩
      · obtain rfl := Option.some.inj hm'
        exact hknown
      · simp only [Phase, hcommand]
        exact ⟨hlen, hget, hne, .copying m rfl hcommand' hqueue rfl hnone⟩
    | unconfirmed hw | confirmed _ hw =>
      rw [hpost] at hw
      cases hw
    | copying m' hm | overwriting m' hm =>
      rw [hpost] at hm
      cases hm
  · cases hwaits with
    | copying m' hm hcommand' hqueue hzero hnone =>
      rw [hpost] at hm
      obtain rfl := Post.copy.inj hm
      refine ⟨h.ended, h.posted, fun m' hm' => ?_, h.waited, ?_⟩
      · obtain rfl := Option.some.inj hm'
        exact hknown
      · simp only [Phase, hcommand]
        exact ⟨hlen, hget, hne, .overwriting m rfl hcommand' hqueue hzero hnone (List.prefix_append ..)⟩
    | unconfirmed hw | confirmed _ hw =>
      rw [hpost] at hw
      cases hw
    | clearing m' hm | overwriting m' hm =>
      rw [hpost] at hm
      cases hm
  · cases hwaits with
    | overwriting m' hm hcommand' hqueue hzero hnone hbytes =>
      rw [hpost] at hm
      obtain rfl := Post.overwrite.inj hm
      have hid : m.id = id := by
        have hid := hget.symm.trans (known_command hknown hcommand')
        exact (Option.some.inj hid).symm
      refine ⟨h.ended, posted_done h hknown, (by intro _ h; cases h), h.waited, ?_⟩
      simp only [Phase, State.done, hcommand]
      refine ⟨hlen, hget, hne, .confirmed m.bytes rfl (by rw [hid]) hzero ?_ hbytes⟩
      rw [if_pos (by rw [hcommand']; rfl)]
      exact confirmation_first hcommand' hnone
    | unconfirmed hw | confirmed _ hw =>
      rw [hpost] at hw
      cases hw
    | clearing m' hm | copying m' hm =>
      rw [hpost] at hm
      cases hm

theorem inv_init : Inv indication State.init := by
  refine ⟨?_, ?_, ?_, .inl rfl, rfl, rfl, rfl⟩
  · intro e he
    cases he
  · intro m hm
    cases hm
  · intro m hm
    cases hm

/-- In every run in which no confirmation comes late to its own number, every command ends with its
own confirmation if it was posted while the command waited, and else when its time is over. -/
theorem confirmations_matched (h : (machine indication).Reachable Timely s) : ∀ e ∈ s.ended, e.Matches := by
  have hinv : Inv indication s := by
    refine h.inv (fun s hs => ?_) fun s a s' hinv htimely hs => ?_
    · rw [hs]
      exact inv_init
    · cases a with
      | setup id => exact hinv.setup hs
      | send => exact hinv.send hs
      | wait => exact hinv.wait hs
      | timeout => exact hinv.timeout htimely hs
      | receive m => exact hinv.receive hs
      | post => exact hinv.post htimely hs
  exact hinv.ended

/-! ## Two commands -/

/-- Numbers from 128 on are those of indications. -/
def from_128 (id : UInt8) : Bool := 128 ≤ id

instance (s : State) : ∀ a, Decidable (Timely s a)
  | .post => inferInstanceAs (Decidable (∀ message ∈ s.post.checked, ∀ n ∈ message.command,
      s.waited_event_id ≠ 0 → s.waited_event_id = message.id → n = s.ended.length))
  | .timeout => inferInstanceAs (Decidable (s.post.within = false))
  | .setup _ | .send | .wait | .receive _ => isTrue trivial

/-- The confirmation of command 0, which has number 1, comes after its time. -/
def late : List Action :=
  [Action.setup 1, Action.send, Action.timeout, Action.receive ⟨1, [1, 1], some 0⟩] ++ List.replicate 4 Action.post

/-- Command 0 times out, and its confirmation comes while command 1 waits for its own. -/
theorem confirmations_matched_two : ∃ s : State, (machine from_128).Reachable Timely s ∧
    s.ended.map (·.confirmation) = [none, some [2, 2]] ∧ ∀ e ∈ s.ended, e.Matches := by
  have hrun : ((machine from_128).exec Timely State.init (List.flatten [
    [.setup 1, .send, .timeout, .setup 2, .send, .receive ⟨1, [1, 1], some 0⟩, .post, .receive ⟨2, [2, 2], some 1⟩],
    List.replicate 4 .post, [.wait]])).any
      (fun s => s.ended.map (·.confirmation) = [none, some [2, 2]]) = true := by decide +kernel
  obtain ⟨s, hexec, hs⟩ := (Option.any_eq_true _ _).1 hrun
  have h := Machine.exec_reachable rfl hexec
  exact ⟨s, h, of_decide_eq_true hs, confirmations_matched h⟩

/-- The confirmation of a command that has timed out goes into the queue: the next command fails at once
if it waits for another number, and gets the old payload if it waits for the same one. -/
theorem late_confirmation_queued :
    (∃ s : State, (machine from_128).Reachable Machine.Free s ∧
      s.ended = [⟨none, .SL_STATUS_TIMEOUT, true⟩, ⟨none, .SL_STATUS_TIMEOUT, false⟩] ∧ ¬ ∀ e ∈ s.ended, e.Matches) ∧
    ∃ s : State, (machine from_128).Reachable Machine.Free s ∧
      s.ended = [⟨none, .SL_STATUS_TIMEOUT, true⟩, ⟨none, .SL_STATUS_OK ([1, 1] ++ List.replicate 510 0), false⟩] ∧
      ¬ ∀ e ∈ s.ended, e.Matches := by
  constructor
  · have hrun : ((machine from_128).exec Machine.Free State.init (List.flatten [late, [.setup 2, .send, .wait]])).any
        (fun s => s.ended = [⟨none, .SL_STATUS_TIMEOUT, true⟩, ⟨none, .SL_STATUS_TIMEOUT, false⟩]) = true := by
      decide +kernel
    obtain ⟨s, hexec, hs⟩ := (Option.any_eq_true _ _).1 hrun
    have hended := of_decide_eq_true hs
    refine ⟨s, Machine.exec_reachable rfl hexec, hended, fun h => ?_⟩
    rw [hended] at h
    have hlast := h _ (List.mem_cons_of_mem _ (List.mem_singleton_self _))
    exact Bool.false_ne_true hlast.2
  · have hrun : ((machine from_128).exec Machine.Free State.init (List.flatten [late, [.setup 1, .send, .wait]])).any
        (fun s => s.ended = [⟨none, .SL_STATUS_TIMEOUT, true⟩,
          ⟨none, .SL_STATUS_OK ([1, 1] ++ List.replicate 510 0), false⟩]) = true := by decide +kernel
    obtain ⟨s, hexec, hs⟩ := (Option.any_eq_true _ _).1 hrun
    have hended := of_decide_eq_true hs
    refine ⟨s, Machine.exec_reachable rfl hexec, hended, fun h => ?_⟩
    rw [hended] at h
    have hlast := h _ (List.mem_cons_of_mem _ (List.mem_singleton_self _))
    cases hlast.1

end Confirmation
end Wfx
