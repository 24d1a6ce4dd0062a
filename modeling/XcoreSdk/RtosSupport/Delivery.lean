import XcoreSdk.RtosSupport.Requests
/-!
# Interrupts between cores: the protocol

A pending flag can always be acted on, by a step of some core that lowers the
work that is left; so every request gets its snapshot.
-/

namespace Irq
variable {Ch P : Type*} {n : Nat} {src : Sources Ch} {s s' : State n P Ch} {x : Caller n P} {k : Fin n} {a : Act n P}

/-- Everything but a new call. -/
def Act.internal : Act n P → Bool
  | .call .. => false
  | _ => true

section
variable [DecidableEq P] [DecidableEq Ch]

/-! ## A step that can be done -/

/-- A call or a handler that can go on. -/
def Enabled (src : Sources Ch) (s : State n P Ch) : Prop :=
  ∃ a, a.internal ∧ Masked s a ∧ ((irq src).step s a).isSome

theorem enabled_call (hrun : s.Running x) (h : (rtos_irq src s x).isSome) : Enabled src s :=
  ⟨.rtos_irq x, rfl, trivial, by simpa [irq, hrun] using h⟩

theorem enabled_handler (h : (rtos_irq_handler src s k).isSome) : Enabled src s := ⟨.handler k, rfl, trivial, h⟩

omit [DecidableEq P] [DecidableEq Ch] in
/-- A call is made by what its core runs. -/
theorem Apart.running (h : Apart s) (hx : s.call x ≠ .idle) : s.Running x := by
  cases x with
  | thread k => exact h.thread k hx
  | isr k => exact h.isr k hx
  | other p => trivial

omit [DecidableEq P] [DecidableEq Ch] in
theorem source_chanend_isSome {i : Nat} (h : src.Valid n i) : ∃ ch, src.source_chanend n i = some ch := by
  unfold Sources.source_chanend
  split
  · exact ⟨_, rfl⟩
  · rename_i hlt
    exact ⟨_, if_pos (h.resolve_left hlt)⟩

/-- Whoever is inside the lock can go on. -/
theorem Inv.enabled_inside (h : Inv src s) {w : Activity n P} (hw : Inside s.call s.handler w) : Enabled src s := by
  cases w with
  | call x =>
    refine enabled_call (h.apart.running (Active.of_inside hw)) ?_
    unfold rtos_irq
    cases hc : s.call x with
    | idle => rw [Inside, hc] at hw; cases hw
    | acquire c i => rw [Inside, hc] at hw; cases hw
    | read c i => rfl
    | set c i p => rfl
    | set_dest c i =>
      obtain ⟨ch, hch⟩ := source_chanend_isSome (h.tokens.valid x i (by rw [hc]; rfl))
      simp [hch]
    | out c i =>
      obtain ⟨ch, hch⟩ := source_chanend_isSome (h.tokens.valid x i (by rw [hc]; rfl))
      simp [hch, h.tokens.dest x c i ch hc hch]
    | release => rfl
  | handler k =>
    refine enabled_handler (k := k) ?_
    unfold rtos_irq_handler
    cases hh : s.handler k with
    | snapshot => rfl
    | clear p => rfl
    | release p => rfl
    | _ => rw [Inside, hh] at hw; cases hw

omit [DecidableEq Ch] in
theorem lock_acquire_isSome (hfree : s.lock = none) (core : Fin n ⊕ P) : (rtos_lock_acquire s core).isSome := by
  simp [rtos_lock_acquire, hfree]

/-- So can a call when nobody is inside. -/
theorem Inv.enabled_call (h : Inv src s) (hfree : s.lock = none) (hx : s.call x ≠ .idle) : Enabled src s := by
  refine Irq.enabled_call (h.apart.running hx) ?_
  have hout := (h.locked.free hfree).2 (.call x)
  unfold rtos_irq
  cases hc : s.call x with
  | idle => exact absurd hc hx
  | acquire c i => simpa using lock_acquire_isSome hfree x.core
  | _ => rw [Inside, hc] at hout; cases hout

/-- And the handler that a pending flag is waiting for. -/
theorem Inv.enabled (h : Inv src s) {c : Fin n} (hpending : s.irq_pending c ≠ 0) : Enabled src s := by
  cases hlock : s.lock with
  | some core =>
    obtain ⟨-, w, -, hall⟩ := h.locked.held core hlock
    exact h.enabled_inside ((hall w).2 rfl)
  | none =>
    have hout := (h.locked.free hlock).2
    by_cases hthread : s.call (.thread c) = .idle
    case neg => exact h.enabled_call hlock hthread
    by_cases hisr : s.call (.isr c) = .idle
    case neg => exact h.enabled_call hlock hisr
    have hhandler := hout (.handler c)
    cases hh : s.handler c with
    | idle =>
      have htoken : 0 < s.tokens c := by
        cases h.tokens.placed c with
        | quiet h1 => exact absurd h1 hpending
        | sending _ _ h3 =>
          obtain ⟨x, hx⟩ := h3
          have := hout (.call x)
          rw [Inside, Call.inside_of_sends hx] at this
          cases this
        | flight _ h2 => omega
        | consumed _ _ _ h4 => rw [hh] at h4; cases h4
      exact ⟨.interrupt c, rfl, hthread, by simp [irq, hh, htoken]⟩
    | enter => exact enabled_handler (k := c) (by simp [rtos_irq_handler, hh])
    | check_end_token =>
      have hone := (h.tokens.entered (k := c) (by rw [hh]; rfl)).2.1
      exact enabled_handler (k := c) (by simp [rtos_irq_handler, hh, hone])
    | acquire =>
      exact enabled_handler (k := c) (by simpa [rtos_irq_handler, hh] using lock_acquire_isSome hlock (.inl c))
    | mask p => exact enabled_handler (k := c) (by simp [rtos_irq_handler, hh])
    | loop p => exact enabled_handler (k := c) (by simp [rtos_irq_handler, hh])
    | isr p => exact enabled_handler (k := c) (by simp [rtos_irq_handler, hh, hisr])
    | failed => exact ((congrArg (Handler.Sound src n) hh).mp (h.flags.handler c)).elim
    | _ => rw [Inside, hh] at hhandler; cases hhandler


/-! ## The steps that are left -/

/-- The weight of a token. -/
def token_work : Nat := 2 ^ 34

def Call.work : Call n → Nat
  | .idle => 0
  | .release => 1
  | .out .. => token_work + 2
  | .set_dest .. => token_work + 3
  | .set .. => token_work + 4
  | .read .. => token_work + 5
  | .acquire .. => token_work + 6

/-- The loop has no more rounds than the value of the flags. -/
def Handler.work : Handler → Nat
  | .failed | .check_end_token => 0
  | .enter => 1
  | .idle => 2
  | .loop p => 2 * p.toNat + 3
  | .isr p => 2 * p.toNat + 4
  | .mask p => 2 * p.toNat + 6
  | .release p => 2 * p.toNat + 7
  | .clear p => 2 * p.toNat + 8
  | .snapshot => 2 ^ 33 + 8
  | .acquire => 2 ^ 33 + 9

variable [Fintype P]

instance : Fintype (Caller n P) :=
  .ofEquiv (Fin n ⊕ Fin n ⊕ P)
    { toFun := fun | .inl k => .thread k | .inr (.inl k) => .isr k | .inr (.inr p) => .other p
      invFun := fun | .thread k => .inl k | .isr k => .inr (.inl k) | .other p => .inr (.inr p)
      left_inv := by rintro (k | k | p) <;> rfl
      right_inv := by rintro (k | k | p) <;> rfl }

/-- A bound on the steps that are left without new calls. -/
def State.work (s : State n P Ch) : Nat :=
  ∑ x, (s.call x).work + ∑ c, token_work * s.tokens c + ∑ c, (s.handler c).work

omit [DecidableEq Ch] in
theorem work_call {c : Call n} (hcall : s'.call = Function.update s.call x c) (hhandler : s'.handler = s.handler)
    (hlt : c.work + ∑ d, token_work * s'.tokens d < (s.call x).work + ∑ d, token_work * s.tokens d) :
    s'.work < s.work := by
  have hsum := sum_update s.call Call.work x c
  rw [State.work, State.work, hcall, hhandler]
  omega

omit [DecidableEq P] [DecidableEq Ch] in
theorem work_handler {v : Handler} (hcall : s'.call = s.call) (hhandler : s'.handler = Function.update s.handler k v)
    (hlt : v.work + ∑ d, token_work * s'.tokens d < (s.handler k).work + ∑ d, token_work * s.tokens d) :
    s'.work < s.work := by
  have hsum := sum_update s.handler Handler.work k v
  rw [State.work, State.work, hcall, hhandler]
  omega

theorem rtos_irq_work (hs : rtos_irq src s x = some s') : s'.work < s.work := by
  cases calls_of_step hs with
  | acquire c i hc _ =>
    exact work_call (x := x) rfl rfl (Nat.add_lt_add_right (by rw [hc]; simp [Call.work]) _)
  | read c i hc =>
    exact work_call (x := x) rfl rfl (Nat.add_lt_add_right (by rw [hc]; simp [Call.work]) _)
  | set c i p hc =>
    refine work_call (x := x) rfl rfl (Nat.add_lt_add_right ?_ _)
    rw [hc]
    split <;> simp [Call.work]
  | set_dest c i ch hc _ =>
    exact work_call (x := x) rfl rfl (Nat.add_lt_add_right (by rw [hc]; simp [Call.work]) _)
  | out c i ch d hc _ _ =>
    refine work_call (x := x) rfl rfl ?_
    have htokens := sum_update s.tokens (token_work * ·) d (s.tokens d + 1)
    simp only [State.goto, hc, Call.work, Nat.mul_add] at htokens ⊢
    omega
  | release hc =>
    exact work_call (x := x) rfl rfl (Nat.add_lt_add_right (by rw [hc]; simp [Call.work]) _)

omit [DecidableEq P] [DecidableEq Ch] [Fintype P] in
theorem and_le (p q : BitVec 32) : (p &&& q).toNat ≤ p.toNat := by
  rw [BitVec.toNat_and]
  exact Nat.and_le_left

omit [DecidableEq P] [DecidableEq Ch] [Fintype P] in
/-- Taking out the highest flag makes the flags smaller. -/
theorem rest_lt {p : BitVec 32} (hp : p ≠ 0) : (p &&& ~~~(1#32 <<< source_of p)).toNat < p.toNat := by
  have hbit := source_of_bit hp
  have hlt : source_of p < 32 := BitVec.lt_of_getLsbD hbit
  refine Nat.lt_of_le_of_ne (and_le p _) fun heq => ?_
  have hout : (p &&& ~~~(1#32 <<< source_of p)).getLsbD (source_of p) = false := by simp [hlt]
  rw [BitVec.eq_of_toNat_eq heq, hbit] at hout
  cases hout

omit [DecidableEq Ch] in
theorem rtos_irq_handler_work (hs : rtos_irq_handler src s k = some s') : s'.work < s.work := by
  cases handles_of_step hs with
  | enter hh =>
    refine work_handler (k := k) rfl rfl (Nat.add_lt_add_right ?_ _)
    rw [hh]
    split <;> simp [Handler.work]
  | check_end_token hh htoken =>
    refine work_handler (k := k) rfl rfl ?_
    have htokens := sum_update s.tokens (token_work * ·) k (s.tokens k - 1)
    obtain ⟨m, hm⟩ := Nat.exists_eq_add_of_lt htoken
    rw [hm] at htokens
    simp only [State.handler_goto, hh, hm, Handler.work, Nat.zero_add, Nat.add_sub_cancel, Nat.mul_add, token_work]
      at htokens ⊢
    omega
  | acquire hh _ =>
    exact work_handler (k := k) rfl rfl (Nat.add_lt_add_right (by rw [hh]; simp [Handler.work]) _)
  | snapshot hh =>
    refine work_handler (k := k) rfl rfl (Nat.add_lt_add_right ?_ _)
    have hlt := (s.irq_pending k).isLt
    simp only [hh, Handler.work]
    omega
  | clear p hh =>
    exact work_handler (k := k) rfl rfl (Nat.add_lt_add_right (by rw [hh]; simp [Handler.work]) _)
  | release p hh =>
    exact work_handler (k := k) rfl rfl (Nat.add_lt_add_right (by rw [hh]; simp [Handler.work]) _)
  | mask p hh =>
    refine work_handler (k := k) rfl rfl (Nat.add_lt_add_right ?_ _)
    have hle := and_le p (~~~RTOS_CORE_SOURCE_MASK)
    rw [hh]
    split <;> simp only [Handler.work] <;> omega
  | loop p hh =>
    refine work_handler (k := k) rfl rfl (Nat.add_lt_add_right ?_ _)
    rw [hh]
    split
    · simp [Handler.work]
    · rename_i hne
      have hlt := rest_lt hne
      split
      · split <;> simp only [Handler.work] <;> omega
      · simp [Handler.work]
  | isr p hh _ =>
    exact work_handler (k := k) rfl rfl (Nat.add_lt_add_right (by rw [hh]; simp [Handler.work]) _)

/-- Every step that is not a new call brings the end of the calls and the handlers nearer. -/
theorem internal_work (ha : a.internal) (hs : (irq src).step s a = some s') : s'.work < s.work := by
  cases a with
  | call => cases ha
  | rtos_irq x =>
    simp only [irq] at hs
    split at hs
    case isFalse => cases hs
    exact rtos_irq_work hs
  | interrupt k =>
    simp only [irq] at hs
    split at hs
    case isFalse => cases hs
    rename_i hready
    cases hs
    exact work_handler (k := k) rfl rfl (Nat.add_lt_add_right (by rw [hready.1]; simp [Handler.work]) _)
  | handler k => exact rtos_irq_handler_work hs


/-! ## The protocol -/

/-- The protocol at one point of a run. -/
structure Protocol (src : Sources Ch) (s : State n P Ch) : Prop where
  /-- A core's word is not zero exactly if the call that has set its first bit is about to
  send the token, the token is in flight, or the handler has taken it and not yet cleared the word; -/
  pending : ∀ c, s.irq_pending c ≠ 0 ↔ s.Sending c ∨ s.tokens c = 1 ∨ (s.handler c).stage = .consumed
  /-- only one of them at a time, -/
  one : ∀ c, s.tokens c ≤ 1 ∧ (s.Sending c → s.tokens c = 0 ∧ (s.handler c).stage ≠ .consumed) ∧
    ((s.handler c).stage = .consumed → s.tokens c = 0)
  /-- and a call that is about to send is alone, and holds the lock. -/
  sender : ∀ x c, (s.call x).sends c → s.lock = some x.core ∧ ∀ y c', (s.call y).sends c' → y = x ∧ c' = c
  assertions : ∀ k, s.handler k ≠ .failed
  /-- What a call has set is still set, or was in a snapshot after that. -/
  requests : ∀ l₁ l₂ c i, s.events = l₁ ++ Event.set c i :: l₂ → Served c i l₂ ∨ (s.irq_pending c).getLsbD i = true
  /-- Without new calls the cores come to rest, -/
  rests : ∀ as s', (∀ a ∈ as, Act.internal a) → (irq src).Run Masked s as s' → as.length ≤ s.work
  /-- and then every request has been served. -/
  served : (∀ a, Act.internal a → Masked s a → (irq src).step s a = none) →
    (∀ c, s.irq_pending c = 0) ∧ ∀ l₁ l₂ c i, s.events = l₁ ++ Event.set c i :: l₂ → Served c i l₂

omit [DecidableEq P] [DecidableEq Ch] [Fintype P] in
theorem Call.sends_unique {pc : Call n} {c c' : Fin n} (h : pc.sends c) (h' : pc.sends c') : c' = c := by
  cases pc <;> first | exact h'.symm.trans h | exact h.elim

theorem Inv.protocol (h : Inv src s) : Protocol src s where
  pending c := by
    cases h.tokens.placed c with
    | quiet h1 h2 h3 h4 => simp [h1, h2, h3, h4]
    | sending h1 _ h3 _ => exact iff_of_true h1 (.inl h3)
    | flight h1 h2 _ _ => exact iff_of_true h1 (.inr (.inl h2))
    | consumed h1 _ _ h4 => exact iff_of_true h1 (.inr (.inr h4))
  one c := by
    cases h.tokens.placed c with
    | quiet h1 h2 h3 h4 => simp [h2, h3]
    | sending h1 h2 h3 h4 => simp [h2, h4]
    | flight h1 h2 h3 h4 => simp [h2, h3, h4]
    | consumed h1 h2 h3 h4 => simp [h2, h3]
  sender x c hx := by
    have hin := Call.inside_of_sends hx
    refine ⟨(h.locked.inside (w := .call x) hin).1, fun y c' hy => ?_⟩
    obtain rfl := h.locked.others hin (Call.inside_of_sends hy)
    exact ⟨rfl, Call.sends_unique hx hy⟩
  assertions k hk := (congrArg (Handler.Sound src n) hk).mp (h.flags.handler k)
  requests := h.requests.pending
  rests as s' hall hr := by
    have hbound : (irq src).Run (fun s a => Masked s a ∧ a.internal) s as s' := by
      clear h
      induction hr with
      | nil => exact .nil _
      | cons hc hs _ ih =>
        exact .cons ⟨hc, hall _ (.head _)⟩ hs (ih fun a ha => hall a (.tail _ ha))
    exact hbound.length_le (I := fun _ => True) (fun s a s' _ hc hs => ⟨trivial, internal_work hc.2 hs⟩) trivial
  served hrest := by
    have hzero : ∀ c, s.irq_pending c = 0 := fun c => by
      by_contra hne
      obtain ⟨a, ha, hc, hstep⟩ := h.enabled hne
      rw [hrest a ha hc] at hstep
      cases hstep
    refine ⟨hzero, fun l₁ l₂ c i hev => (h.requests.pending l₁ l₂ c i hev).resolve_right fun hbit => ?_⟩
    rw [hzero] at hbit
    simp at hbit

/-- With up to eight cores and any registered sources, in any interleaving in which
no thread is interrupted inside its call. -/
theorem requests_delivered (hsrc : Registered src) (hn : n ≤ RTOS_MAX_CORE_COUNT)
    (h : (irq src).Reachable Masked s) : Protocol src s := by
  have hv : ∀ i, src.Valid n i → i ≤ MAX_SOURCE_ID := fun i => hsrc.valid_le hn
  exact Inv.protocol (h.inv (I := Inv src) (fun _ => inv_init) fun _ _ _ hI hc hs => inv_step hv hI hc hs)


end

/-- One registered source with an interrupt routine. -/
def one_source : Sources Nat :=
  ⟨fun k => k, Function.update (fun _ => 0) 0 8, 1, Function.update (fun _ => false) 0 true⟩

theorem one_source_registered : Registered one_source :=
  @Registered.register _ ⟨fun k => k, fun _ => 0, 0, fun _ => false⟩ _ true 8 8 (.none rfl) rfl

def started : State 2 Unit Nat :=
  ⟨fun _ => 0, fun _ => 0, fun _ => none, none, 0, fun _ => .idle, fun _ => .idle, []⟩

theorem started_init : (irq one_source).init started :=
  ⟨fun _ => rfl, fun _ => rfl, rfl, rfl, fun _ => rfl, fun _ => rfl, rfl⟩

/-- The steps of a call that sends a token, from its start. -/
def whole_call (x : Caller 2 Unit) (c : Fin 2) (i : Nat) : List (Act 2 Unit) :=
  .call x c i :: List.replicate 6 (.rtos_irq x)

/-- A source interrupts core 0, and core 1 makes a request of it while the handler runs. -/
theorem requests_delivered_two : ∃ s : State 2 Unit Nat, s.events =
      [.set 0 8, .set 0 1, .snapshot 0 0x102#32] ∧ Protocol one_source s := by
  have hrun : ((irq one_source).exec Masked started (List.flatten [
    whole_call (.other ()) 0 8, [.interrupt 0, .handler 0, .handler 0, .call (.thread 1) 0 1],
    List.replicate 4 (.rtos_irq (.thread 1)), List.replicate 8 (.handler 0)])).map
      State.events = some [.set 0 8, .set 0 1, .snapshot 0 0x102#32] := by
    decide +kernel
  obtain ⟨s, hs, hevents⟩ := Option.map_eq_some_iff.1 hrun
  exact ⟨s, hevents, requests_delivered one_source_registered (by decide) (Machine.exec_reachable started_init hs)⟩

/-- Between the flag and the token nothing is in flight. And a thread of core 0
that is interrupted between its read and its set of the flags, by the token of
an earlier request, sets a flag for which no token is sent: everybody is idle,
and the flag remains. -/
theorem flag_set_without_token :
    (∃ s : State 2 Unit Nat, (irq one_source).Reachable Machine.Free s ∧
      s.irq_pending 0 ≠ 0 ∧ s.tokens 0 = 0 ∧ s.handler 0 = .idle) ∧
    ∃ s : State 2 Unit Nat, (irq one_source).Reachable Machine.Free s ∧ (∀ x, s.call x = .idle) ∧
      (∀ k, s.handler k = .idle ∧ s.tokens k = 0) ∧ s.events = [.set 0 8, .snapshot 0 0x100#32, .set 0 0] ∧
      s.irq_pending 0 = 1 := by
  have hwindow : ((irq one_source).exec Machine.Free started
      (.call (.other ()) 0 8 :: List.replicate 3 (.rtos_irq (.other ())))).any
        (fun s => decide (s.irq_pending 0 ≠ 0 ∧ s.tokens 0 = 0 ∧ s.handler 0 = .idle)) := by decide +kernel
  have hlost : ((irq one_source).exec Machine.Free started (List.flatten [
    whole_call (.other ()) 0 8, [.call (.thread 0) 0 0, .rtos_irq (.thread 0), .rtos_irq (.thread 0), .interrupt 0],
    List.replicate 10 (.handler 0), [.rtos_irq (.thread 0), .rtos_irq (.thread 0)]])).any
        (fun s => decide ((∀ x, s.call x = .idle) ∧ (∀ k, s.handler k = .idle ∧ s.tokens k = 0) ∧
          s.events = [.set 0 8, .snapshot 0 0x100#32, .set 0 0] ∧ s.irq_pending 0 = 1)) := by decide +kernel
  obtain ⟨s, hs, hwindow⟩ := (Option.any_eq_true _ _).1 hwindow
  obtain ⟨s', hs', hlost⟩ := (Option.any_eq_true _ _).1 hlost
  exact ⟨⟨s, Machine.exec_reachable started_init hs, of_decide_eq_true hwindow⟩,
    s', Machine.exec_reachable started_init hs', of_decide_eq_true hlost⟩

end Irq
