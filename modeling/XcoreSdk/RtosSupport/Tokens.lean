import XcoreSdk.RtosSupport.Irq
import Mathlib.Tactic.Common
/-!
# Interrupts between cores: one token at a time

As long as no thread is interrupted inside its own call, whoever is between the
lock's acquisition and its release is alone there. For each core, then, its
pending word is zero, or exactly one of a sender, a token and the handler stands
for it (`Place`).
-/

namespace Irq
variable {Ch P : Type*} {n : Nat}

/-! ## Inside the lock -/

/-- A call, or the handler of a core. -/
inductive Activity (n : Nat) (P : Type*)
  | call (x : Caller n P)
  | handler (k : Fin n)
deriving DecidableEq

def Activity.core : Activity n P → Fin n ⊕ P
  | .call x => x.core
  | .handler k => .inl k

def Call.inside : Call n → Bool
  | .idle | .acquire .. => false
  | .read .. | .set .. | .set_dest .. | .out .. | .release => true

def Handler.inside : Handler → Bool
  | .snapshot | .clear _ | .release _ => true
  | _ => false

def Inside (call : Caller n P → Call n) (handler : Fin n → Handler) : Activity n P → Bool
  | .call x => (call x).inside
  | .handler k => (handler k).inside

/-- Whether a core is busy with it rather than with an activity above or below it. -/
def Active (s : State n P Ch) : Activity n P → Prop
  | .call x => s.call x ≠ .idle
  | .handler k => s.handler k ≠ .idle ∧ ∀ pending, s.handler k ≠ .isr pending

/-- A thread that is interrupted makes no call, and only interrupt routines that run do. -/
structure Apart (s : State n P Ch) : Prop where
  thread : ∀ k, s.call (.thread k) ≠ .idle → s.handler k = .idle
  isr : ∀ k, s.call (.isr k) ≠ .idle → ∃ pending, s.handler k = .isr pending

structure Locked (s : State n P Ch) : Prop where
  free : s.lock = none → s.lock_counter = 0 ∧ ∀ w, Inside s.call s.handler w = false
  held : ∀ core, s.lock = some core → s.lock_counter = 1 ∧
    ∃ w, w.core = core ∧ ∀ w', Inside s.call s.handler w' = true ↔ w' = w

variable {s s' : State n P Ch} {x : Caller n P} {k : Fin n} {w w' : Activity n P}

theorem Active.of_inside (h : Inside s.call s.handler w) : Active s w := by
  cases w with
  | call x =>
    intro hidle
    rw [Inside, hidle] at h
    cases h
  | handler k =>
    refine ⟨fun hidle => ?_, fun pending hisr => ?_⟩
    · rw [Inside, hidle] at h
      cases h
    · rw [Inside, hisr] at h
      cases h

/-- A core is active in one place only. -/
theorem Apart.unique (h : Apart s) (hw : Active s w) (hw' : Active s w') (hcore : w.core = w'.core) : w = w' := by
  have hthread : ∀ k, s.call (.thread k) ≠ .idle → Active s (.handler k) → False := fun k hc hh =>
    hh.1 (h.thread k hc)
  have hisr : ∀ k, s.call (.isr k) ≠ .idle → Active s (.handler k) → False := fun k hc hh => by
    obtain ⟨pending, hp⟩ := h.isr k hc
    exact hh.2 pending hp
  have hboth : ∀ k, s.call (.thread k) ≠ .idle → s.call (.isr k) ≠ .idle → False := fun k hc hc' => by
    obtain ⟨pending, hp⟩ := h.isr k hc'
    rw [h.thread k hc] at hp
    cases hp
  cases w with
  | call x =>
    cases w' with
    | call x' =>
      cases x <;> cases x' <;> cases hcore
      · rfl
      · exact (hboth _ hw hw').elim
      · exact (hboth _ hw' hw).elim
      · rfl
      · rfl
    | handler k =>
      cases x <;> cases hcore
      · exact (hthread _ hw hw').elim
      · exact (hisr _ hw hw').elim
  | handler k =>
    cases w' with
    | call x =>
      cases x <;> cases hcore
      · exact (hthread _ hw' hw).elim
      · exact (hisr _ hw' hw).elim
    | handler k' => cases hcore; rfl

/-- Whoever is inside holds the lock, and is alone. -/
theorem Locked.inside (h : Locked s) (hw : Inside s.call s.handler w) :
    s.lock = some w.core ∧ s.lock_counter = 1 ∧ ∀ w', Inside s.call s.handler w' = true ↔ w' = w := by
  cases hlock : s.lock with
  | none =>
    rw [(h.free hlock).2 w] at hw
    cases hw
  | some core =>
    obtain ⟨hone, w', hcore, hin⟩ := h.held core hlock
    obtain rfl := (hin w).1 hw
    exact ⟨by rw [hcore], hone, hin⟩

theorem Locked.entered {w : Activity n P} (hlock : s'.lock = some w.core) (hcounter : s'.lock_counter = 1)
    (hin : ∀ w', Inside s'.call s'.handler w' = true ↔ w' = w) : Locked s' where
  free hnone := by
    rw [hlock] at hnone
    cases hnone
  held core hcore := by
    rw [hlock] at hcore
    exact ⟨hcounter, w, Option.some.inj hcore, hin⟩

/-- A step that neither takes nor releases the lock. -/
theorem Locked.frame (h : Locked s) (hlock : s'.lock = s.lock) (hcounter : s'.lock_counter = s.lock_counter)
    (hin : ∀ w, Inside s'.call s'.handler w = Inside s.call s.handler w) : Locked s' where
  free hnone := by
    rw [hlock] at hnone
    rw [hcounter]
    exact ⟨(h.free hnone).1, fun w => (hin w).trans ((h.free hnone).2 w)⟩
  held core hcore := by
    rw [hlock] at hcore
    rw [hcounter]
    obtain ⟨hone, w, hw, hall⟩ := h.held core hcore
    exact ⟨hone, w, hw, fun w' => by rw [hin, hall]⟩

theorem Locked.left (hlock : s'.lock = none) (hcounter : s'.lock_counter = 0)
    (hout : ∀ w, Inside s'.call s'.handler w = false) : Locked s' where
  free _ := ⟨hcounter, hout⟩
  held core hcore := by
    rw [hlock] at hcore
    cases hcore

section
variable [DecidableEq P]

theorem inside_call {call : Caller n P → Call n} {handler : Fin n → Handler} {c : Call n} :
    Inside (Function.update call x c) handler w = if w = .call x then c.inside else Inside call handler w := by
  cases w with
  | call y =>
    simp only [Inside, Function.update_apply, Activity.call.injEq]
    split <;> rfl
  | handler k => rfl

theorem inside_handler {call : Caller n P → Call n} {handler : Fin n → Handler} {h : Handler} :
    Inside call (Function.update handler k h) w = if w = .handler k then h.inside else Inside call handler w := by
  cases w with
  | call y => rfl
  | handler j =>
    simp only [Inside, Function.update_apply, Activity.handler.injEq]
    split <;> rfl

theorem inside_call_same {call : Caller n P → Call n} {handler : Fin n → Handler} {c : Call n}
    (hc : c.inside = (call x).inside) : Inside (Function.update call x c) handler w = Inside call handler w := by
  rw [inside_call]
  split
  · rename_i hw
    rw [hw, hc]
    rfl
  · rfl

theorem inside_handler_same {call : Caller n P → Call n} {handler : Fin n → Handler} {h : Handler}
    (hh : h.inside = (handler k).inside) : Inside call (Function.update handler k h) w = Inside call handler w := by
  rw [inside_handler]
  split
  · rename_i hw
    rw [hw, hh]
    rfl
  · rfl

omit [DecidableEq P] in
/-- Whoever gets the lock finds it free. -/
theorem Locked.acquire (h : Locked s) (ha : Apart s) (hw : Active s w) (hnot : Inside s.call s.handler w = false)
    (hlock : s.lock = none ∨ s.lock = some w.core) : s.lock_counter = 0 ∧ ∀ w', Inside s.call s.handler w' = false := by
  rcases hlock with hnone | hsome
  · exact h.free hnone
  · obtain ⟨-, w', hcore, hin⟩ := h.held _ hsome
    have hin' := (hin w').2 rfl
    have heq := ha.unique hw (.of_inside hin') hcore.symm
    rw [heq, hin'] at hnot
    cases hnot

variable [DecidableEq Ch] {src : Sources Ch}

/-! ## What a step does -/

/-- A call goes on. -/
inductive Calls (src : Sources Ch) (s : State n P Ch) (x : Caller n P) : State n P Ch → Prop
  | acquire (c : Fin n) (i : Nat) : s.call x = .acquire c i → (s.lock = none ∨ s.lock = some x.core) →
      Calls src s x ({ s with lock := some x.core, lock_counter := s.lock_counter + 1 }.goto x (.read c i))
  | read (c : Fin n) (i : Nat) : s.call x = .read c i → Calls src s x (s.goto x (.set c i (s.irq_pending c)))
  | set (c : Fin n) (i : Nat) (p : BitVec 32) : s.call x = .set c i p → Calls src s x ({ s with
      irq_pending := Function.update s.irq_pending c (s.irq_pending c ||| 1#32 <<< i)
      events := s.events ++ [Event.set c i] }.goto x (if p = 0 then .set_dest c i else .release))
  | set_dest (c : Fin n) (i : Nat) (ch : Ch) : s.call x = .set_dest c i → src.source_chanend n i = some ch →
      Calls src s x ({ s with dest := Function.update s.dest ch (some c) }.goto x (.out c i))
  | out (c : Fin n) (i : Nat) (ch : Ch) (d : Fin n) : s.call x = .out c i → src.source_chanend n i = some ch →
      s.dest ch = some d → Calls src s x ({ s with tokens := Function.update s.tokens d (s.tokens d + 1) }.goto x .release)
  | release : s.call x = .release → Calls src s x ((rtos_lock_release s).goto x .idle)

theorem calls_of_step (hs : rtos_irq src s x = some s') : Calls src s x s' := by
  unfold rtos_irq at hs
  split at hs
  case h_1 => cases hs
  case h_2 c i hc =>
    obtain ⟨t, ht, rfl⟩ := Option.map_eq_some_iff.1 hs
    unfold rtos_lock_acquire at ht
    split at ht
    case isFalse => cases ht
    rename_i hlock
    cases ht
    exact .acquire c i hc hlock
  case h_3 c i hc =>
    cases hs
    exact .read c i hc
  case h_4 c i p hc =>
    cases hs
    exact .set c i p hc
  case h_5 c i hc =>
    obtain ⟨ch, hch, rfl⟩ := Option.map_eq_some_iff.1 hs
    exact .set_dest c i ch hc hch
  case h_6 c i hc =>
    obtain ⟨ch, hch, hs⟩ := Option.bind_eq_some_iff.1 hs
    obtain ⟨d, hd, rfl⟩ := Option.map_eq_some_iff.1 hs
    exact .out c i ch d hc hch hd
  case h_7 hc =>
    cases hs
    exact .release hc

/-- The handler goes on. -/
inductive Handles (src : Sources Ch) (s : State n P Ch) (k : Fin n) : State n P Ch → Prop
  | enter : s.handler k = .enter →
      Handles src s k (s.handler_goto k (if s.irq_pending k = 0 then .failed else .check_end_token))
  | check_end_token : s.handler k = .check_end_token → 0 < s.tokens k →
      Handles src s k ({ s with tokens := Function.update s.tokens k (s.tokens k - 1) }.handler_goto k .acquire)
  | acquire : s.handler k = .acquire → (s.lock = none ∨ s.lock = some (.inl k)) →
      Handles src s k ({ s with lock := some (.inl k), lock_counter := s.lock_counter + 1 }.handler_goto k .snapshot)
  | snapshot : s.handler k = .snapshot → Handles src s k ({ s with
      events := s.events ++ [Event.snapshot k (s.irq_pending k)] }.handler_goto k (.clear (s.irq_pending k)))
  | clear (p : BitVec 32) : s.handler k = .clear p →
      Handles src s k ({ s with irq_pending := Function.update s.irq_pending k 0 }.handler_goto k (.release p))
  | release (p : BitVec 32) : s.handler k = .release p → Handles src s k ((rtos_lock_release s).handler_goto k (.mask p))
  | mask (p : BitVec 32) : s.handler k = .mask p → Handles src s k (s.handler_goto k (
      if p &&& RTOS_CORE_SOURCE_MASK ≠ 0 then .isr (p &&& ~~~RTOS_CORE_SOURCE_MASK) else .loop p))
  | loop (p : BitVec 32) : s.handler k = .loop p → Handles src s k (s.handler_goto k (
      if p = 0 then .idle
      else if RTOS_MAX_CORE_COUNT ≤ source_of p ∧ source_of p ≤ MAX_SOURCE_ID then
        if src.isr_info (source_of p - RTOS_MAX_CORE_COUNT) then .isr (p &&& ~~~(1#32 <<< source_of p))
        else .loop (p &&& ~~~(1#32 <<< source_of p))
      else .failed))
  | isr (p : BitVec 32) : s.handler k = .isr p → s.call (.isr k) = .idle → Handles src s k (s.handler_goto k (.loop p))

omit [DecidableEq Ch] in
theorem handles_of_step (hs : rtos_irq_handler src s k = some s') : Handles src s k s' := by
  unfold rtos_irq_handler at hs
  split at hs
  case h_1 | h_2 => cases hs
  case h_3 hh =>
    cases hs
    exact .enter hh
  case h_4 hh =>
    split at hs
    case isFalse => cases hs
    rename_i htoken
    cases hs
    exact .check_end_token hh htoken
  case h_5 hh =>
    obtain ⟨t, ht, rfl⟩ := Option.map_eq_some_iff.1 hs
    unfold rtos_lock_acquire at ht
    split at ht
    case isFalse => cases ht
    rename_i hlock
    cases ht
    exact .acquire hh hlock
  case h_6 hh =>
    cases hs
    exact .snapshot hh
  case h_7 p hh =>
    cases hs
    exact .clear p hh
  case h_8 p hh =>
    cases hs
    exact .release p hh
  case h_9 p hh =>
    cases hs
    exact .mask p hh
  case h_10 p hh =>
    cases hs
    exact .loop p hh
  case h_11 p hh =>
    split at hs
    case isFalse => cases hs
    rename_i hidle
    cases hs
    exact .isr p hh hidle

/-! ## The lock -/

theorem Locked.rtos_irq (h : Locked s) (ha : Apart s) (hs : rtos_irq src s x = some s') : Locked s' := by
  cases calls_of_step hs with
  | acquire c i hc hlock =>
    have hactive : Active s (.call x) := by
      rw [Active, hc]
      nofun
    have hnot : Inside s.call s.handler (.call x) = false := by rw [Inside, hc]; rfl
    obtain ⟨hzero, hout⟩ := h.acquire ha hactive hnot hlock
    refine .entered (w := .call x) rfl (congrArg (· + 1) hzero) fun w' => ?_
    simp [State.goto, inside_call, hout, Call.inside]
  | read c i hc =>
    exact h.frame rfl rfl fun w => inside_call_same (by rw [hc]; rfl)
  | set c i p hc =>
    refine h.frame rfl rfl fun w => inside_call_same ?_
    rw [hc]
    split <;> rfl
  | set_dest c i ch hc _ =>
    exact h.frame rfl rfl fun w => inside_call_same (by rw [hc]; rfl)
  | out c i ch d hc _ _ =>
    exact h.frame rfl rfl fun w => inside_call_same (by rw [hc]; rfl)
  | release hc =>
    have hin : Inside s.call s.handler (.call x) := by rw [Inside, hc]; rfl
    obtain ⟨hlock, hone, hall⟩ := h.inside hin
    refine .left ?_ ?_ fun w => ?_
    · simp [State.goto, rtos_lock_release, hone]
    · simp [State.goto, rtos_lock_release, hone]
    · have hrest : Inside (Function.update s.call x .idle) s.handler w = false := by
        rw [inside_call]
        split
        · rfl
        · rename_i hw
          exact Bool.eq_false_iff.2 fun hi => hw ((hall w).1 hi)
      exact hrest

omit [DecidableEq Ch] in
theorem Locked.rtos_irq_handler (h : Locked s) (ha : Apart s) (hs : rtos_irq_handler src s k = some s') : Locked s' := by
  cases handles_of_step hs with
  | enter hh =>
    refine h.frame rfl rfl fun w => inside_handler_same ?_
    rw [hh]
    split <;> rfl
  | check_end_token hh _ =>
    exact h.frame rfl rfl fun w => inside_handler_same (by rw [hh]; rfl)
  | acquire hh hlock =>
    have hactive : Active s (.handler k) := by
      rw [Active, hh]
      exact ⟨nofun, nofun⟩
    have hnot : Inside s.call s.handler (.handler k) = false := by rw [Inside, hh]; rfl
    obtain ⟨hzero, hout⟩ := h.acquire ha hactive hnot hlock
    refine .entered (w := .handler k) rfl (congrArg (· + 1) hzero) fun w' => ?_
    simp [State.handler_goto, inside_handler, hout, Handler.inside]
  | snapshot hh =>
    exact h.frame rfl rfl fun w => inside_handler_same (by rw [hh]; rfl)
  | clear p hh =>
    exact h.frame rfl rfl fun w => inside_handler_same (by rw [hh]; rfl)
  | release p hh =>
    have hin : Inside s.call s.handler (.handler k) := by rw [Inside, hh]; rfl
    obtain ⟨hlock, hone, hall⟩ := h.inside hin
    refine .left ?_ ?_ fun w => ?_
    · simp [State.handler_goto, rtos_lock_release, hone]
    · simp [State.handler_goto, rtos_lock_release, hone]
    · have hrest : Inside s.call (Function.update s.handler k (.mask p)) w = false := by
        rw [inside_handler]
        split
        · rfl
        · rename_i hw
          exact Bool.eq_false_iff.2 fun hi => hw ((hall w).1 hi)
      exact hrest
  | mask p hh =>
    refine h.frame rfl rfl fun w => inside_handler_same ?_
    rw [hh]
    split <;> rfl
  | loop p hh =>
    refine h.frame rfl rfl fun w => inside_handler_same ?_
    rw [hh]
    repeat' split
    all_goals rfl
  | isr p hh _ =>
    exact h.frame rfl rfl fun w => inside_handler_same (by rw [hh]; rfl)

omit [DecidableEq Ch] in
theorem Apart.update_call (h : Apart s) {c : Call n} (hcall : s'.call = Function.update s.call x c)
    (hhandler : s'.handler = s.handler) (hrun : c ≠ .idle → s.Running x) : Apart s' where
  thread k hk := by
    rw [hcall, Function.update_apply] at hk
    rw [hhandler]
    split at hk
    · rename_i heq
      subst heq
      exact hrun hk
    · exact h.thread k hk
  isr k hk := by
    rw [hcall, Function.update_apply] at hk
    rw [hhandler]
    split at hk
    · rename_i heq
      subst heq
      exact hrun hk
    · exact h.isr k hk

omit [DecidableEq P] [DecidableEq Ch] in
theorem Apart.update_handler (h : Apart s) {v : Handler} (hcall : s'.call = s.call)
    (hhandler : s'.handler = Function.update s.handler k v) (hthread : s.call (.thread k) = .idle)
    (hisr : s.call (.isr k) = .idle) : Apart s' where
  thread j hj := by
    rw [hcall] at hj
    have hne : j ≠ k := by
      rintro rfl
      exact hj hthread
    rw [hhandler, Function.update_of_ne hne]
    exact h.thread j hj
  isr j hj := by
    rw [hcall] at hj
    have hne : j ≠ k := by
      rintro rfl
      exact hj hisr
    rw [hhandler, Function.update_of_ne hne]
    exact h.isr j hj

/-- A call moves its caller only. -/
theorem rtos_irq_goto (hs : rtos_irq src s x = some s') :
    (∃ c, s'.call = Function.update s.call x c) ∧ s'.handler = s.handler := by
  cases calls_of_step hs with
  | acquire | read | set | set_dest | out | release => exact ⟨⟨_, rfl⟩, rfl⟩

omit [DecidableEq Ch] in
/-- The handler moves itself only, and waits for the interrupt routine that it runs. -/
theorem rtos_irq_handler_goto (hs : rtos_irq_handler src s k = some s') :
    s'.call = s.call ∧ (∃ v, s'.handler = Function.update s.handler k v) ∧ s.handler k ≠ .idle ∧
      ∀ p, s.handler k = .isr p → s.call (.isr k) = .idle := by
  cases handles_of_step hs with
  | enter hh | check_end_token hh | acquire hh | snapshot hh | clear _ hh | release _ hh | mask _ hh | loop _ hh =>
    rw [hh]
    exact ⟨rfl, ⟨_, rfl⟩, nofun, nofun⟩
  | isr _ hh hidle =>
    rw [hh]
    exact ⟨rfl, ⟨_, rfl⟩, nofun, fun _ _ => hidle⟩

/-! ## What stands for a pending word -/

/-- A call that sets, or uses, the destination of the token that it is to send to a core. -/
def Call.sends (c : Fin n) : Call n → Prop
  | .set_dest c' _ | .out c' _ => c' = c
  | _ => False

/-- The handler before it takes the token, between that and the clear, or elsewhere. -/
inductive Stage
  | rest
  | entered
  | consumed
deriving DecidableEq

def Handler.stage : Handler → Stage
  | .enter | .check_end_token => .entered
  | .acquire | .snapshot | .clear _ => .consumed
  | _ => .rest

inductive Place (pending : BitVec 32) (tokens : Nat) (sending : Prop) (stage : Stage) : Prop
  | quiet : pending = 0 → tokens = 0 → ¬ sending → stage = .rest → Place pending tokens sending stage
  | sending : pending ≠ 0 → tokens = 0 → sending → stage = .rest → Place pending tokens sending stage
  | flight : pending ≠ 0 → tokens = 1 → ¬ sending → stage ≠ .consumed → Place pending tokens sending stage
  | consumed : pending ≠ 0 → tokens = 0 → ¬ sending → stage = .consumed → Place pending tokens sending stage

def State.Sending (s : State n P Ch) (c : Fin n) : Prop := ∃ x, (s.call x).sends c

def State.Placed (s : State n P Ch) (c : Fin n) : Prop :=
  Place (s.irq_pending c) (s.tokens c) (s.Sending c) (s.handler c).stage

def Call.source : Call n → Option Nat
  | .idle | .release => none
  | .acquire _ i | .read _ i | .set _ i _ | .set_dest _ i | .out _ i => some i

structure Tokens (src : Sources Ch) (s : State n P Ch) : Prop where
  placed : ∀ c, s.Placed c
  /-- The flags that a call has read have not changed. -/
  read : ∀ x c i p, s.call x = .set c i p → p = s.irq_pending c
  dest : ∀ x c i ch, s.call x = .out c i → src.source_chanend n i = some ch → s.dest ch = some c
  valid : ∀ x i, (s.call x).source = some i → src.Valid n i

omit [DecidableEq P] [DecidableEq Ch] in
theorem Call.inside_of_sends {pc : Call n} {c : Fin n} (h : pc.sends c) : pc.inside = true := by
  cases pc <;> first | rfl | exact h.elim

omit [DecidableEq P] [DecidableEq Ch] in
/-- Nobody else sends while somebody is inside. -/
theorem Locked.sending_iff (h : Locked s) (hx : (s.call x).inside) (c : Fin n) : s.Sending c ↔ (s.call x).sends c := by
  refine ⟨fun ⟨y, hy⟩ => ?_, fun hc => ⟨x, hc⟩⟩
  obtain ⟨-, -, hall⟩ := h.inside (w := .call x) hx
  have heq := (hall (.call y)).1 (Call.inside_of_sends hy)
  cases heq
  exact hy

omit [DecidableEq Ch] in
theorem sending_update {pc : Call n} {c : Fin n} (hcall : s'.call = Function.update s.call x pc)
    (hsends : pc.sends c ↔ (s.call x).sends c) : s'.Sending c ↔ s.Sending c := by
  have hiff : ∀ y, (s'.call y).sends c ↔ (s.call y).sends c := fun y => by
    rw [hcall, Function.update_apply]
    split
    · rename_i heq
      rw [heq, hsends]
    · rfl
  exact exists_congr hiff

omit [DecidableEq Ch] in
/-- Whoever is inside is the only one to send, also after its step. -/
theorem Locked.sending_goto (h : Locked s) (hx : (s.call x).inside) {pc : Call n}
    (hcall : s'.call = Function.update s.call x pc) (c : Fin n) : s'.Sending c ↔ pc.sends c := by
  refine ⟨fun ⟨y, hy⟩ => ?_, fun hc => ⟨x, by rwa [hcall, Function.update_self]⟩⟩
  rw [hcall, Function.update_apply] at hy
  split at hy
  · exact hy
  · rename_i hne
    obtain ⟨-, -, hall⟩ := h.inside (w := .call x) hx
    have heq := (hall (.call y)).1 (Call.inside_of_sends hy)
    cases heq
    exact absurd rfl hne

omit [DecidableEq P] [DecidableEq Ch] in
theorem Place.congr {p p' : BitVec 32} {t t' : Nat} {sending sending' : Prop} {st st' : Stage} (h : Place p t sending st)
    (hp : p' = 0 ↔ p = 0) (ht : t' = t) (hsending : sending' ↔ sending) (hst : st' = st) : Place p' t' sending' st' := by
  subst ht hst
  cases h with
  | quiet h1 h2 h3 h4 => exact .quiet (hp.2 h1) h2 (hsending.not.2 h3) h4
  | sending h1 h2 h3 h4 => exact .sending (hp.not.2 h1) h2 (hsending.2 h3) h4
  | flight h1 h2 h3 h4 => exact .flight (hp.not.2 h1) h2 (hsending.not.2 h3) h4
  | consumed h1 h2 h3 h4 => exact .consumed (hp.not.2 h1) h2 (hsending.not.2 h3) h4

theorem or_bit_ne_zero {p : BitVec 32} {i : Nat} (hi : i < 32) : p ||| 1#32 <<< i ≠ 0 := by
  intro hzero
  have hbit : (p ||| 1#32 <<< i).getLsbD i = true := by simp [hi]
  rw [hzero] at hbit
  simp at hbit

omit [DecidableEq P] [DecidableEq Ch] in
theorem Locked.others (h : Locked s) (hx : (s.call x).inside) {y : Caller n P} (hy : (s.call y).inside) : y = x := by
  obtain ⟨-, -, hall⟩ := h.inside (w := .call x) hx
  have heq := (hall (.call y)).1 hy
  cases heq
  rfl

omit [DecidableEq Ch] in
theorem Tokens.valid_goto (h : Tokens src s) {pc : Call n} (hcall : s'.call = Function.update s.call x pc)
    (hpc : ∀ i, pc.source = some i → src.Valid n i) (y : Caller n P) (i : Nat) (hi : (s'.call y).source = some i) :
    src.Valid n i := by
  rw [hcall, Function.update_apply] at hi
  split at hi
  · exact hpc i hi
  · exact h.valid y i hi

omit [DecidableEq Ch] in
theorem Tokens.read_goto (h : Tokens src s) {pc : Call n} (hcall : s'.call = Function.update s.call x pc)
    (hp : s'.irq_pending = s.irq_pending) (hpc : ∀ c i p, pc = .set c i p → p = s.irq_pending c) (y : Caller n P)
    (c : Fin n) (i : Nat) (p : BitVec 32) (hy : s'.call y = .set c i p) : p = s'.irq_pending c := by
  rw [hcall, Function.update_apply] at hy
  rw [hp]
  split at hy
  · exact hpc c i p hy
  · exact h.read y c i p hy

omit [DecidableEq Ch] in
theorem Tokens.dest_goto (h : Tokens src s) {pc : Call n} (hcall : s'.call = Function.update s.call x pc)
    (hd : s'.dest = s.dest) (hpc : ∀ c i, pc ≠ .out c i) (y : Caller n P) (c : Fin n) (i : Nat) (ch : Ch)
    (hy : s'.call y = .out c i) (hch : src.source_chanend n i = some ch) : s'.dest ch = some c := by
  rw [hcall, Function.update_apply] at hy
  rw [hd]
  split at hy
  · exact absurd hy (hpc c i)
  · exact h.dest y c i ch hy hch

theorem Tokens.rtos_irq (h : Tokens src s) (hl : Locked s) (hv : ∀ i, src.Valid n i → i < 32)
    (hs : rtos_irq src s x = some s') : Tokens src s' := by
  cases calls_of_step hs with
  | acquire c i hc _ =>
    refine ⟨fun c' => ?_, h.read_goto rfl rfl nofun, h.dest_goto rfl rfl nofun, h.valid_goto rfl ?_⟩
    · exact (h.placed c').congr Iff.rfl rfl (sending_update rfl (by rw [hc]; rfl)) rfl
    · exact fun j hj => h.valid x j (hc ▸ hj)
  | read c i hc =>
    refine ⟨fun c' => ?_, h.read_goto rfl rfl ?_, h.dest_goto rfl rfl nofun, h.valid_goto rfl ?_⟩
    · exact (h.placed c').congr Iff.rfl rfl (sending_update rfl (by rw [hc]; rfl)) rfl
    · rintro _ _ _ ⟨⟩
      rfl
    · exact fun j hj => h.valid x j (hc ▸ hj)
  | set c i p hc =>
    have hin : (s.call x).inside := by rw [hc]; rfl
    have hp := h.read x c i p hc
    have hi := h.valid x i (by rw [hc]; rfl)
    have hnone : ∀ c', ¬ s.Sending c' := fun c' hsend => by
      rw [hl.sending_iff hin, hc] at hsend
      exact hsend
    refine ⟨fun c' => ?_, fun y c' i' p' hy => ?_, h.dest_goto rfl rfl ?_, h.valid_goto rfl ?_⟩
    · have hsends : State.Sending ({ s with
          irq_pending := Function.update s.irq_pending c (s.irq_pending c ||| 1#32 <<< i)
          events := s.events ++ [Event.set c i] }.goto x (if p = 0 then .set_dest c i else .release)) c' ↔ _ :=
        hl.sending_goto hin rfl c'
      have hplaced := h.placed c'
      by_cases hcc : c' = c
      · subst hcc
        have hpending : Function.update s.irq_pending c' (s.irq_pending c' ||| 1#32 <<< i) c' ≠ 0 := by
          rw [Function.update_self]
          exact or_bit_ne_zero (hv i hi)
        by_cases hzero : p = 0
        · -- the first bit: the call is going to send the token
          rw [if_pos hzero] at hsends ⊢
          cases hplaced with
          | quiet h1 h2 h3 h4 => exact .sending hpending h2 (hsends.2 rfl) h4
          | sending h1 => exact absurd (hp ▸ hzero) h1
          | flight h1 => exact absurd (hp ▸ hzero) h1
          | consumed h1 => exact absurd (hp ▸ hzero) h1
        · rw [if_neg hzero] at hsends ⊢
          refine hplaced.congr ?_ rfl (iff_of_false hsends.1 (hnone c')) rfl
          exact iff_of_false hpending (hp ▸ hzero)
      · refine hplaced.congr (iff_of_eq (congrArg (· = 0) (Function.update_of_ne hcc ..))) rfl
          (iff_of_false (fun hsend => ?_) (hnone c')) rfl
        have hsend := hsends.1 hsend
        split at hsend
        · exact hcc hsend.symm
        · exact hsend
    · -- nobody else has read the flags
      have hy : Function.update s.call x (if p = 0 then .set_dest c i else .release) y = .set c' i' p' := hy
      rw [Function.update_apply] at hy
      split at hy
      · split at hy <;> cases hy
      · rename_i hne
        exact absurd (hl.others hin (by rw [hy]; rfl)) hne
    · intro c' i'
      split <;> nofun
    · intro j hj
      split at hj
      · cases hj
        exact hi
      · cases hj
  | set_dest c i ch hc hch =>
    have hin : (s.call x).inside := by rw [hc]; rfl
    refine ⟨fun c' => ?_, h.read_goto rfl rfl nofun, fun y c' i' ch' hy hch' => ?_, h.valid_goto rfl ?_⟩
    · exact (h.placed c').congr Iff.rfl rfl (sending_update rfl (by rw [hc]; rfl)) rfl
    · have hy : Function.update s.call x (.out c i) y = .out c' i' := hy
      rw [Function.update_apply] at hy
      split at hy
      · cases hy
        obtain rfl := Option.some.inj (hch.symm.trans hch')
        exact Function.update_self ..
      · rename_i hne
        exact absurd (hl.others hin (by rw [hy]; rfl)) hne
    · exact fun j hj => h.valid x j (hc ▸ hj)
  | out c i ch d hc hch hd =>
    have hin : (s.call x).inside := by rw [hc]; rfl
    obtain rfl : d = c := Option.some.inj (hd.symm.trans (h.dest x c i ch hc hch))
    refine ⟨fun c' => ?_, h.read_goto rfl rfl nofun, h.dest_goto rfl rfl nofun, h.valid_goto rfl nofun⟩
    have hnone : ¬ State.Sending ({ s with
        tokens := Function.update s.tokens d (s.tokens d + 1) }.goto x .release) c' := fun hsend => by
      have h := (hl.sending_goto hin rfl c').1 hsend
      exact h
    have hsends := hl.sending_iff hin c'
    rw [hc] at hsends
    by_cases hcd : c' = d
    · subst hcd
      cases h.placed c' with
      | sending h1 h2 h3 h4 =>
        have htokens : Function.update s.tokens c' (s.tokens c' + 1) c' = 1 := by rw [Function.update_self, h2]
        have hstage : (s.handler c').stage ≠ .consumed := by
          rw [h4]
          nofun
        exact .flight h1 htokens hnone hstage
      | quiet h1 h2 h3 => exact absurd (hsends.2 rfl) h3
      | flight h1 h2 h3 => exact absurd (hsends.2 rfl) h3
      | consumed h1 h2 h3 => exact absurd (hsends.2 rfl) h3
    · exact (h.placed c').congr Iff.rfl (Function.update_of_ne hcd ..)
        (iff_of_false hnone fun hsend => hcd (hsends.1 hsend).symm) rfl
  | release hc =>
    refine ⟨fun c' => ?_, h.read_goto rfl rfl nofun, h.dest_goto rfl rfl nofun, h.valid_goto rfl nofun⟩
    exact (h.placed c').congr Iff.rfl rfl (sending_update rfl (by rw [hc]; rfl)) rfl

omit [DecidableEq P] [DecidableEq Ch] in
/-- The handler of a core goes on without touching what stands for its word. -/
theorem Tokens.handler_frame (h : Tokens src s) {v : Handler} (hcall : s'.call = s.call)
    (hpending : s'.irq_pending = s.irq_pending) (htokens : s'.tokens = s.tokens) (hdest : s'.dest = s.dest)
    (hhandler : s'.handler = Function.update s.handler k v) (hstage : v.stage = (s.handler k).stage) :
    Tokens src s' := by
  refine ⟨fun c => (h.placed c).congr (by rw [hpending]) (by rw [htokens]) ?_ ?_, ?_, ?_, ?_⟩
  · rw [State.Sending, hcall]
    rfl
  · rw [hhandler, Function.update_apply]
    split
    · rename_i heq
      rw [hstage, heq]
    · rfl
  · rw [hcall, hpending]
    exact h.read
  · rw [hcall, hdest]
    exact h.dest
  · rw [hcall]
    exact h.valid

omit [DecidableEq P] [DecidableEq Ch] in
/-- The token that has interrupted a core is there, and so is a flag. -/
theorem Tokens.entered (h : Tokens src s) (hk : (s.handler k).stage = .entered) :
    s.irq_pending k ≠ 0 ∧ s.tokens k = 1 ∧ ¬ s.Sending k := by
  cases h.placed k with
  | quiet _ _ _ h4 => rw [hk] at h4; cases h4
  | sending _ _ _ h4 => rw [hk] at h4; cases h4
  | flight h1 h2 h3 => exact ⟨h1, h2, h3⟩
  | consumed _ _ _ h4 => rw [hk] at h4; cases h4

omit [DecidableEq P] [DecidableEq Ch] in
theorem Tokens.consumed (h : Tokens src s) (hk : (s.handler k).stage = .consumed) :
    s.irq_pending k ≠ 0 ∧ s.tokens k = 0 ∧ ¬ s.Sending k := by
  cases h.placed k with
  | quiet _ _ _ h4 => rw [hk] at h4; cases h4
  | sending _ _ _ h4 => rw [hk] at h4; cases h4
  | flight _ _ _ h4 => exact absurd hk h4
  | consumed h1 h2 h3 => exact ⟨h1, h2, h3⟩

omit [DecidableEq Ch] in
theorem Tokens.rtos_irq_handler (h : Tokens src s) (hl : Locked s) (hs : rtos_irq_handler src s k = some s') :
    Tokens src s' := by
  cases handles_of_step hs with
  | enter hh =>
    rw [if_neg (h.entered (by rw [hh]; rfl)).1]
    exact h.handler_frame rfl rfl rfl rfl rfl (by rw [hh]; rfl)
  | check_end_token hh _ =>
    obtain ⟨hpending, hone, hsending⟩ := h.entered (k := k) (by rw [hh]; rfl)
    refine ⟨fun c => ?_, h.read, h.dest, h.valid⟩
    by_cases hc : c = k
    · subst hc
      have htokens : Function.update s.tokens c (s.tokens c - 1) c = 0 := by rw [Function.update_self, hone]
      have hstage : (Function.update s.handler c .acquire c).stage = .consumed := by rw [Function.update_self]; rfl
      exact .consumed hpending htokens hsending hstage
    · exact (h.placed c).congr Iff.rfl (Function.update_of_ne hc ..) Iff.rfl
        (congrArg Handler.stage (Function.update_of_ne hc ..))
  | acquire hh _ =>
    exact h.handler_frame rfl rfl rfl rfl rfl (by rw [hh]; rfl)
  | snapshot hh =>
    exact h.handler_frame rfl rfl rfl rfl rfl (by rw [hh]; rfl)
  | clear p hh =>
    obtain ⟨hpending, hnone, hsending⟩ := h.consumed (k := k) (by rw [hh]; rfl)
    refine ⟨fun c => ?_, fun x c i p' hx => ?_, h.dest, h.valid⟩
    · by_cases hc : c = k
      · subst hc
        have hzero : Function.update s.irq_pending c 0 c = 0 := Function.update_self ..
        have hstage : (Function.update s.handler c (.release p) c).stage = .rest := by rw [Function.update_self]; rfl
        exact .quiet hzero hnone hsending hstage
      · exact (h.placed c).congr (iff_of_eq (congrArg (· = 0) (Function.update_of_ne hc ..))) rfl Iff.rfl
          (congrArg Handler.stage (Function.update_of_ne hc ..))
    · -- a call that has read the flags would be inside the lock too
      have hx : s.call x = .set c i p' := hx
      have hin : Inside s.call s.handler (.handler k) := by rw [Inside, hh]; rfl
      have hother := ((hl.inside hin).2.2 (.call x)).1 (by rw [Inside, hx]; rfl)
      cases hother
  | release p hh =>
    exact h.handler_frame rfl rfl rfl rfl rfl (by rw [hh]; rfl)
  | mask p hh =>
    refine h.handler_frame rfl rfl rfl rfl rfl ?_
    rw [hh]
    split <;> rfl
  | loop p hh =>
    refine h.handler_frame rfl rfl rfl rfl rfl ?_
    rw [hh]
    repeat' split
    all_goals rfl
  | isr p hh _ =>
    exact h.handler_frame rfl rfl rfl rfl rfl (by rw [hh]; rfl)

end
end Irq
