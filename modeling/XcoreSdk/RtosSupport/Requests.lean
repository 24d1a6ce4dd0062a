import XcoreSdk.RtosSupport.Tokens
import XcoreSdk.Lib.Work
import Mathlib.Tactic.DeriveFintype
/-!
# Interrupts between cores: no request is lost

Every call that has set a bit is followed by a snapshot with that bit, or else
the bit is still set; and whatever still has to happen for that, some core can
do the next step of it.
-/

namespace Irq
variable {Ch P : Type*} {n : Nat}

/-! ## The flags that the handler works on -/

/-- The flags are those of sources, and in the loop those of sources that have a routine. -/
def Handler.Sound (src : Sources Ch) (n : Nat) : Handler → Prop
  | .clear p | .release p | .mask p => ∀ i, p.getLsbD i → src.Valid n i
  | .loop p | .isr p => ∀ i, p.getLsbD i → RTOS_MAX_CORE_COUNT ≤ i ∧ i ≤ MAX_SOURCE_ID
  | .failed => False
  | _ => True

structure Flags (src : Sources Ch) (s : State n P Ch) : Prop where
  pending : ∀ c i, (s.irq_pending c).getLsbD i → src.Valid n i
  handler : ∀ k, (s.handler k).Sound src n

variable {src : Sources Ch} {s s' : State n P Ch} {x : Caller n P} {k : Fin n}

theorem Registered.count_le (h : Registered src) : src.peripheral_source_count ≤ MAX_ADDITIONAL_SOURCES := by
  induction h with
  | none h => omega
  | register _ hs =>
    simp only [rtos_irq_register] at hs
    split at hs
    · cases hs
      assumption
    · cases hs

theorem Registered.valid_le (h : Registered src) (hn : n ≤ RTOS_MAX_CORE_COUNT) {i : Nat} (hi : src.Valid n i) :
    i ≤ MAX_SOURCE_ID := by
  have hcount := h.count_le
  unfold Sources.Valid at hi
  simp only [MAX_SOURCE_ID, RTOS_MAX_CORE_COUNT, MAX_ADDITIONAL_SOURCES] at *
  omega

theorem mask_bit (i : Nat) : RTOS_CORE_SOURCE_MASK.getLsbD i = decide (i < RTOS_MAX_CORE_COUNT) := by
  have hmask : RTOS_CORE_SOURCE_MASK = BitVec.ofNat 32 (2 ^ 8 - 1) := rfl
  rw [hmask, BitVec.getLsbD_ofNat, Nat.testBit_two_pow_sub_one, RTOS_MAX_CORE_COUNT, Bool.eq_iff_iff]
  simp only [Bool.and_eq_true, decide_eq_true_eq]
  omega

/-- The highest flag is set. -/
theorem source_of_bit {p : BitVec 32} (hp : p ≠ 0) : p.getLsbD (source_of p) = true := by
  have hne : p.toNat ≠ 0 := fun h => hp (BitVec.eq_of_toNat_eq h)
  rw [← BitVec.testBit_toNat]
  exact Nat.testBit_log2 hne

theorem Handler.Sound.loop_next {p : BitVec 32} (h : (Handler.loop p).Sound src n) (q : BitVec 32) (i : Nat)
    (hi : (p &&& q).getLsbD i) : RTOS_MAX_CORE_COUNT ≤ i ∧ i ≤ MAX_SOURCE_ID := by
  rw [BitVec.getLsbD_and, Bool.and_eq_true] at hi
  exact h i hi.1

section
variable [DecidableEq P] [DecidableEq Ch]

omit [DecidableEq P] [DecidableEq Ch] in
theorem Flags.frame (h : Flags src s) (hpending : s'.irq_pending = s.irq_pending) (hhandler : s'.handler = s.handler) :
    Flags src s' := ⟨by rw [hpending]; exact h.pending, by rw [hhandler]; exact h.handler⟩

omit [DecidableEq P] [DecidableEq Ch] in
theorem Flags.handler_goto (h : Flags src s) {v : Handler} (hpending : s'.irq_pending = s.irq_pending)
    (hhandler : s'.handler = Function.update s.handler k v) (hv : v.Sound src n) : Flags src s' := by
  refine ⟨by rw [hpending]; exact h.pending, fun j => ?_⟩
  rw [hhandler, Function.update_apply]
  split
  · exact hv
  · exact h.handler j

theorem Flags.rtos_irq (h : Flags src s) (ht : Tokens src s) (hs : rtos_irq src s x = some s') : Flags src s' := by
  cases calls_of_step hs with
  | acquire c i hc _ =>
    exact h.frame rfl rfl
  | read c i hc =>
    exact h.frame rfl rfl
  | set c i p hc =>
    refine ⟨fun c' j hj => ?_, h.handler⟩
    have hj : (Function.update s.irq_pending c (s.irq_pending c ||| 1#32 <<< i) c').getLsbD j = true := hj
    rw [Function.update_apply] at hj
    split at hj
    · rw [BitVec.getLsbD_or, Bool.or_eq_true] at hj
      rcases hj with hj | hj
      · exact h.pending c j hj
      · have hji : j = i := by
          simp only [BitVec.getLsbD_shiftLeft, Bool.and_eq_true, BitVec.getLsbD_one, decide_eq_true_eq, Bool.not_eq_true',
            decide_eq_false_iff_not] at hj
          omega
        rw [hji]
        exact ht.valid x i (by rw [hc]; rfl)
    · exact h.pending c' j hj
  | set_dest c i ch hc _ =>
    exact h.frame rfl rfl
  | out c i ch d hc _ _ =>
    exact h.frame rfl rfl
  | release hc =>
    exact h.frame rfl rfl

omit [DecidableEq Ch] in
/-- No assertion of the handler fails. -/
theorem Flags.rtos_irq_handler (h : Flags src s) (ht : Tokens src s) (hv : ∀ i, src.Valid n i → i ≤ MAX_SOURCE_ID)
    (hs : rtos_irq_handler src s k = some s') : Flags src s' := by
  have hsound := h.handler k
  cases handles_of_step hs with
  | enter hh =>
    rw [if_neg (ht.entered (by rw [hh]; rfl)).1]
    exact h.handler_goto rfl rfl trivial
  | check_end_token hh _ =>
    exact h.handler_goto rfl rfl trivial
  | acquire hh _ =>
    exact h.handler_goto rfl rfl trivial
  | snapshot hh =>
    exact h.handler_goto rfl rfl (h.pending k)
  | clear p hh =>
    rw [hh] at hsound
    refine ⟨fun c j hj => ?_, fun j => ?_⟩
    · have hj : (Function.update s.irq_pending k 0 c).getLsbD j = true := hj
      rw [Function.update_apply] at hj
      split at hj
      · simp at hj
      · exact h.pending c j hj
    · change (Function.update s.handler k (.release p) j).Sound src n
      rw [Function.update_apply]
      split
      · exact hsound
      · exact h.handler j
  | release p hh =>
    rw [hh] at hsound
    exact h.handler_goto rfl rfl hsound
  | mask p hh =>
    rw [hh] at hsound
    refine h.handler_goto rfl rfl ?_
    split
    · intro i hi
      rw [BitVec.getLsbD_and, BitVec.getLsbD_not, mask_bit] at hi
      simp only [Bool.and_eq_true, decide_eq_true_eq, Bool.not_eq_true', decide_eq_false_iff_not] at hi
      exact ⟨by omega, hv i (hsound i hi.1)⟩
    · rename_i hzero
      intro i hi
      refine ⟨?_, hv i (hsound i hi)⟩
      by_contra hlt
      have hbit : (p &&& RTOS_CORE_SOURCE_MASK).getLsbD i = true := by
        rw [BitVec.getLsbD_and, mask_bit, hi]
        simpa using hlt
      rw [not_not.1 hzero] at hbit
      simp at hbit
  | loop p hh =>
    rw [hh] at hsound
    refine h.handler_goto rfl rfl ?_
    split
    · trivial
    · rename_i hne
      rw [if_pos (hsound _ (source_of_bit hne))]
      split
      · exact hsound.loop_next _
      · exact hsound.loop_next _
  | isr p hh _ =>
    rw [hh] at hsound
    exact h.handler_goto rfl rfl hsound


/-! ## Requests -/

/-- A snapshot among the events has the bit. -/
def Served (c : Fin n) (i : Nat) (events : List (Event n)) : Prop :=
  ∃ p, Event.snapshot c p ∈ events ∧ p.getLsbD i = true

omit [DecidableEq P] [DecidableEq Ch] in
theorem Served.append {c : Fin n} {i : Nat} {events : List (Event n)} (h : Served c i events) (e : Event n) :
    Served c i (events ++ [e]) := by
  obtain ⟨p, hp, hi⟩ := h
  exact ⟨p, List.mem_append_left _ hp, hi⟩

structure Requests (s : State n P Ch) : Prop where
  /-- What has been requested is still set, if no snapshot has had it since. -/
  pending : ∀ l₁ l₂ c i, s.events = l₁ ++ Event.set c i :: l₂ → Served c i l₂ ∨ (s.irq_pending c).getLsbD i = true
  /-- Between a snapshot and the clear everything has been in a snapshot. -/
  cleared : ∀ k p, s.handler k = .clear p → ∀ l₁ l₂ i, s.events = l₁ ++ Event.set k i :: l₂ → Served k i l₂

/-- Where an event stands in a history that has one event more. -/
theorem append_event {α : Type*} {l l₁ l₂ : List α} {a e : α} (h : l ++ [e] = l₁ ++ a :: l₂) :
    (∃ l₂', l₂ = l₂' ++ [e] ∧ l = l₁ ++ a :: l₂') ∨ l₂ = [] ∧ l = l₁ ∧ e = a := by
  rcases List.eq_nil_or_concat l₂ with rfl | ⟨l₂', b, rfl⟩
  · obtain ⟨hl, he⟩ := List.append_inj' h rfl
    cases he
    exact .inr ⟨rfl, hl, rfl⟩
  · rw [List.concat_eq_append, ← List.cons_append, ← List.append_assoc] at h
    obtain ⟨hl, he⟩ := List.append_inj' h rfl
    cases he
    exact .inl ⟨l₂', by rw [List.concat_eq_append], hl⟩

omit [DecidableEq P] [DecidableEq Ch] in
/-- A step that neither sets nor clears a bit, of anyone who does not go on to clear. -/
theorem Requests.frame (h : Requests s) (hpending : s'.irq_pending = s.irq_pending) (hevents : s'.events = s.events)
    (hhandler : ∀ k p, s'.handler k = .clear p → s.handler k = .clear p) : Requests s' := by
  refine ⟨?_, fun k p hk => ?_⟩
  · rw [hpending, hevents]
    exact h.pending
  · rw [hevents]
    exact h.cleared k p (hhandler k p hk)

theorem Requests.rtos_irq (h : Requests s) (hl : Locked s) (ht : Tokens src s) (hv : ∀ i, src.Valid n i → i < 32)
    (hs : rtos_irq src s x = some s') : Requests s' := by
  cases calls_of_step hs with
  | acquire c i hc _ =>
    exact h.frame rfl rfl fun _ _ hk => hk
  | read c i hc =>
    exact h.frame rfl rfl fun _ _ hk => hk
  | set c i p hc =>
    have hi := hv i (ht.valid x i (by rw [hc]; rfl))
    have hin : Inside s.call s.handler (.call x) := by rw [Inside, hc]; rfl
    refine ⟨fun l₁ l₂ c' j hev => ?_, fun k q hk => ?_⟩
    · have hbit : ∀ j, (s.irq_pending c').getLsbD j = true →
          (Function.update s.irq_pending c (s.irq_pending c ||| 1#32 <<< i) c').getLsbD j = true := fun j hj => by
        rw [Function.update_apply]
        split
        · rename_i heq
          rw [BitVec.getLsbD_or, ← heq, hj, Bool.true_or]
        · exact hj
      obtain ⟨l₂', rfl, hold⟩ | ⟨-, -, he⟩ := append_event hev
      · exact (h.pending l₁ l₂' c' j hold).imp (fun hserved => hserved.append _) (hbit j)
      · cases he
        refine .inr ?_
        change (Function.update s.irq_pending c (s.irq_pending c ||| 1#32 <<< i) c).getLsbD i = true
        rw [Function.update_self, BitVec.getLsbD_or]
        simp [hi]
    · -- nobody is between a snapshot and the clear
      have hk : s.handler k = .clear q := hk
      have hother := ((hl.inside hin).2.2 (.handler k)).1 (by rw [Inside, hk]; rfl)
      cases hother
  | set_dest c i ch hc _ =>
    exact h.frame rfl rfl fun _ _ hk => hk
  | out c i ch d hc _ _ =>
    exact h.frame rfl rfl fun _ _ hk => hk
  | release hc =>
    exact h.frame rfl rfl fun _ _ hk => hk

omit [DecidableEq P] [DecidableEq Ch] in
/-- A handler that does not go on to clear. -/
theorem Requests.handler_goto (h : Requests s) {v : Handler} (hpending : s'.irq_pending = s.irq_pending)
    (hevents : s'.events = s.events) (hhandler : s'.handler = Function.update s.handler k v) (hv : ∀ p, v ≠ .clear p) :
    Requests s' := by
  refine h.frame hpending hevents fun j p hj => ?_
  rw [hhandler, Function.update_apply] at hj
  split at hj
  · exact absurd hj (hv p)
  · exact hj

omit [DecidableEq Ch] in
theorem Requests.rtos_irq_handler (h : Requests s) (hl : Locked s) (hs : rtos_irq_handler src s k = some s') :
    Requests s' := by
  cases handles_of_step hs with
  | enter hh =>
    refine h.handler_goto rfl rfl rfl fun p => ?_
    split <;> simp
  | check_end_token hh _ =>
    exact h.handler_goto rfl rfl rfl fun q => by simp
  | acquire hh _ =>
    exact h.handler_goto rfl rfl rfl fun q => by simp
  | snapshot hh =>
    have hin : Inside s.call s.handler (.handler k) := by rw [Inside, hh]; rfl
    refine ⟨fun l₁ l₂ c i hev => ?_, fun j p hj l₁ l₂ i hev => ?_⟩
    · obtain ⟨l₂', rfl, hold⟩ | ⟨-, -, he⟩ := append_event hev
      · exact (h.pending l₁ l₂' c i hold).imp_left fun hserved => hserved.append _
      · cases he
    · have hj : Function.update s.handler k (.clear (s.irq_pending k)) j = .clear p := hj
      rw [Function.update_apply] at hj
      split at hj
      · rename_i hjk
        subst hjk
        obtain ⟨l₂', rfl, hold⟩ | ⟨-, -, he⟩ := append_event hev
        · rcases h.pending l₁ l₂' j i hold with hserved | hbit
          · exact hserved.append _
          · exact ⟨_, List.mem_append_right _ (.head _), hbit⟩
        · cases he
      · rename_i hne
        have hother := ((hl.inside hin).2.2 (.handler j)).1 (by rw [Inside, hj]; rfl)
        cases hother
        exact absurd rfl hne
  | clear p hh =>
    refine ⟨fun l₁ l₂ c i hev => ?_, fun j q hj => ?_⟩
    · by_cases hck : c = k
      · exact .inl (h.cleared c p (hck ▸ hh) l₁ l₂ i hev)
      · refine (h.pending l₁ l₂ c i hev).imp_right fun hbit => ?_
        change (Function.update s.irq_pending k 0 c).getLsbD i = true
        rwa [Function.update_of_ne hck]
    · have hj : Function.update s.handler k (.release p) j = .clear q := hj
      rw [Function.update_apply] at hj
      split at hj
      · cases hj
      · exact h.cleared j q hj
  | release p hh =>
    exact h.handler_goto rfl rfl rfl fun q => by simp
  | mask p hh =>
    refine h.handler_goto rfl rfl rfl fun q => ?_
    split <;> simp
  | loop p hh =>
    refine h.handler_goto rfl rfl rfl fun q => ?_
    repeat' split
    all_goals simp
  | isr p hh _ =>
    exact h.handler_goto rfl rfl rfl fun q => by simp


/-! ## Runs -/

structure Inv (src : Sources Ch) (s : State n P Ch) : Prop where
  apart : Apart s
  locked : Locked s
  tokens : Tokens src s
  flags : Flags src s
  requests : Requests s

theorem inv_init (h : (irq src).init s) : Inv src s := by
  obtain ⟨hpending, htokens, hlock, hcounter, hcall, hhandler, hevents⟩ := h
  have hout : ∀ w, Inside s.call s.handler w = false := fun w => by
    cases w with
    | call x => rw [Inside, hcall]; rfl
    | handler k => rw [Inside, hhandler]; rfl
  refine ⟨⟨fun k hk => absurd (hcall _) hk, fun k hk => absurd (hcall _) hk⟩, .left hlock hcounter hout,
    ⟨fun c => .quiet (hpending c) (htokens c) ?_ (by rw [hhandler]; rfl), fun x c i p hx => ?_, fun x c i ch hx => ?_,
      fun x i hx => ?_⟩, ⟨fun c i hi => ?_, fun k => by rw [hhandler]; trivial⟩,
    ⟨fun l₁ l₂ c i hev => ?_, fun k p hk => ?_⟩⟩
  · rintro ⟨x, hx⟩
    rw [hcall] at hx
    exact hx
  · rw [hcall] at hx
    cases hx
  · rw [hcall] at hx
    cases hx
  · rw [hcall] at hx
    cases hx
  · rw [hpending] at hi
    simp at hi
  · rw [hevents] at hev
    simp at hev
  · rw [hhandler] at hk
    cases hk

variable {a : Act n P}

theorem inv_step (hv : ∀ i, src.Valid n i → i ≤ MAX_SOURCE_ID) (h : Inv src s) (hc : Masked s a)
    (hs : (irq src).step s a = some s') : Inv src s' := by
  have hv' : ∀ i, src.Valid n i → i < 32 := fun i hi => Nat.lt_of_le_of_lt (hv i hi) (by decide)
  cases a with
  | call x c i =>
    simp only [irq] at hs
    split at hs
    case isFalse => cases hs
    rename_i hstart
    obtain ⟨hrun, hidle, hvalid⟩ := hstart
    cases hs
    have hin : Call.inside (.acquire c i) = (s.call x).inside := by rw [hidle]; rfl
    have hsends : ∀ c', Call.sends c' (.acquire c i) ↔ (s.call x).sends c' := fun c' => by rw [hidle]; rfl
    refine ⟨h.apart.update_call rfl rfl fun _ => hrun, h.locked.frame rfl rfl fun _ => inside_call_same hin,
      ⟨fun c' => ?_, h.tokens.read_goto rfl rfl nofun, h.tokens.dest_goto rfl rfl nofun, h.tokens.valid_goto rfl ?_⟩,
      h.flags.frame rfl rfl, h.requests.frame rfl rfl fun _ _ hk => hk⟩
    · exact (h.tokens.placed c').congr Iff.rfl rfl (sending_update rfl (hsends c')) rfl
    · rintro j ⟨⟩
      exact hvalid
  | rtos_irq x =>
    simp only [irq] at hs
    split at hs
    case isFalse => cases hs
    rename_i hrun
    obtain ⟨⟨c, hcall⟩, hhandler⟩ := rtos_irq_goto hs
    exact ⟨h.apart.update_call hcall hhandler fun _ => hrun, h.locked.rtos_irq h.apart hs,
      h.tokens.rtos_irq h.locked hv' hs, h.flags.rtos_irq h.tokens hs, h.requests.rtos_irq h.locked h.tokens hv' hs⟩
  | interrupt k =>
    simp only [irq] at hs
    split at hs
    case isFalse => cases hs
    rename_i hready
    obtain ⟨hidle, htoken⟩ := hready
    cases hs
    have hisr : s.call (.isr k) = .idle := by
      by_contra hne
      obtain ⟨p, hp⟩ := h.apart.isr k hne
      rw [hidle] at hp
      cases hp
    refine ⟨h.apart.update_handler rfl rfl hc hisr, h.locked.frame rfl rfl fun _ => inside_handler_same (by rw [hidle]; rfl),
      ⟨fun c => ?_, h.tokens.read, h.tokens.dest, h.tokens.valid⟩, h.flags.handler_goto rfl rfl trivial,
      h.requests.handler_goto rfl rfl rfl nofun⟩
    by_cases hck : c = k
    · subst hck
      have hstage : (Function.update s.handler c .enter c).stage ≠ .consumed := by
        rw [Function.update_self]
        nofun
      cases h.tokens.placed c with
      | quiet _ h2 => omega
      | sending _ h2 => omega
      | flight h1 h2 h3 => exact .flight h1 h2 h3 hstage
      | consumed _ h2 => omega
    · exact (h.tokens.placed c).congr Iff.rfl rfl Iff.rfl (congrArg Handler.stage (Function.update_of_ne hck ..))
  | handler k =>
    obtain ⟨hcall, ⟨v, hhandler⟩, hbusy, hwait⟩ := rtos_irq_handler_goto hs
    have hthread : s.call (.thread k) = .idle := by
      by_contra hne
      exact hbusy (h.apart.thread k hne)
    have hisr : s.call (.isr k) = .idle := by
      by_contra hne
      obtain ⟨p, hp⟩ := h.apart.isr k hne
      exact hne (hwait p hp)
    exact ⟨h.apart.update_handler hcall hhandler hthread hisr, h.locked.rtos_irq_handler h.apart hs,
      h.tokens.rtos_irq_handler h.locked hs, h.flags.rtos_irq_handler h.tokens hv hs,
      h.requests.rtos_irq_handler h.locked hs⟩

end
end Irq
