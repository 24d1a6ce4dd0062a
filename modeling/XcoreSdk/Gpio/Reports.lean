import XcoreSdk.Gpio.Rpc
import Mathlib.Data.List.Forall2
/-!
# What the client tile is told of the interrupts

As long as no port's routine puts its byte on the channel end while another
one is between its byte and its word (`Apart`), the tokens on their way are those
of whole reports, but for the word that the last one may still lack. What the
client's routine inputs is then what was reported.
-/

namespace Gpio

variable {ι κ δ : Type*}

/-! ## Tokens -/

/-- The tokens of a report. -/
def frame (r : Report) : List UInt8 := UInt8.ofNat r.port_id :: word_tokens r.value

@[simp] theorem length_word_tokens (value : UInt32) : (word_tokens value).length = 4 := Bytes.length_toBE ..

theorem word_tokens_value (value : UInt32) : UInt32.ofNat (Bytes.ofBE (word_tokens value)) = value := by
  rw [word_tokens, Bytes.ofBE_toBE (Nat.lt_of_lt_of_le value.toNat_lt (by decide)), UInt32.ofNat_toNat]

/-- Between the byte and the word of a report. -/
def HostIsr.within : HostIsr → Bool
  | .out_word _ => true
  | _ => false

/-- The tokens that are on their way while `reports` are: all of them, but for the word of
the last one if its routine has not got that far. -/
inductive Wired (isr : Nat → HostIsr) : List UInt8 → List Report → Prop
  | whole {reports : List Report} : (∀ p, (isr p).within = false) → Wired isr (reports.flatMap frame) reports
  | lacking {reports : List Report} {r : Report} : isr r.port_id = .out_word r.value →
      (∀ p ≠ r.port_id, (isr p).within = false) →
      Wired isr (reports.flatMap frame ++ [UInt8.ofNat r.port_id]) (reports ++ [r])

variable {isr isr' : Nat → HostIsr} {tokens : List UInt8} {reports : List Report}

theorem Wired.congr (h : Wired isr tokens reports) (heq : ∀ p, (isr p).within ∨ (isr' p).within → isr' p = isr p) :
    Wired isr' tokens reports := by
  have hfree : ∀ p, (isr p).within = false → (isr' p).within = false := by
    intro p hp
    rcases hq : (isr' p).within with _ | _
    · rfl
    · rw [heq p (.inr hq), hp] at hq
      exact hq.symm
  cases h with
  | whole hnone => exact .whole fun p => hfree p (hnone p)
  | lacking hr hother =>
    refine .lacking ?_ fun p hp => hfree p (hother p hp)
    rw [heq _ (.inl (by rw [hr]; rfl)), hr]

/-- A routine that is alone puts the byte of its report on the channel end. -/
theorem Wired.out_byte (h : Wired isr tokens reports) (hnone : ∀ p, (isr p).within = false) (r : Report) :
    Wired (Function.update isr r.port_id (.out_word r.value)) (tokens ++ [UInt8.ofNat r.port_id]) (reports ++ [r]) := by
  cases h with
  | whole _ =>
    refine .lacking (Function.update_self ..) fun p hp => ?_
    rw [Function.update_of_ne hp]
    exact hnone p
  | @lacking _ last hr _ =>
    have hin := hnone last.port_id
    rw [hr] at hin
    cases hin

theorem Wired.out_word {p : Nat} {value : UInt32} (h : Wired isr tokens reports) (hp : isr p = .out_word value) :
    Wired (Function.update isr p (.out_control_token value)) (tokens ++ word_tokens value) reports := by
  cases h with
  | whole hnone =>
    have hin := hnone p
    rw [hp] at hin
    cases hin
  | @lacking reports r hr hother =>
    -- the report without its word is this routine's
    have hport : p = r.port_id := by
      by_contra hne
      have hin := hother p hne
      rw [hp] at hin
      cases hin
    subst hport
    obtain rfl : value = r.value := by
      rw [hp] at hr
      exact HostIsr.out_word.inj hr
    have htokens : reports.flatMap frame ++ [UInt8.ofNat r.port_id] ++ word_tokens r.value =
        (reports ++ [r]).flatMap frame := by
      simp [frame]
    rw [htokens]
    refine .whole fun p => ?_
    by_cases hpr : p = r.port_id
    · subst hpr
      rw [Function.update_self]
      rfl
    · rw [Function.update_of_ne hpr]
      exact hother p hpr

/-- While no routine lacks a word, the tokens on their way are those of whole reports. -/
theorem Wired.length (h : Wired isr tokens reports) (hnone : ∀ p, (isr p).within = false) :
    tokens.length = reports.length * 5 := by
  cases h with
  | whole _ =>
    induction reports with
    | nil => rfl
    | cons r rest ih => simp [frame, ih, Nat.succ_mul]; omega
  | @lacking _ last hr _ =>
    have hin := hnone last.port_id
    rw [hr] at hin
    cases hin

/-- The first of five tokens on their way is the port of the first report, the others are its value. -/
theorem Wired.take {b : UInt8} {ws ts : List UInt8} (h : Wired isr (b :: (ws ++ ts)) reports) (hws : ws.length = 4) :
    ∃ r rest, reports = r :: rest ∧ b = UInt8.ofNat r.port_id ∧ ws = word_tokens r.value ∧ Wired isr ts rest := by
  generalize htokens : b :: (ws ++ ts) = tokens at h
  cases h with
  | whole hnone =>
    cases reports with
    | nil => cases htokens
    | cons r rest =>
      rw [List.flatMap_cons, frame, List.cons_append] at htokens
      obtain ⟨hb, htokens⟩ := List.cons.inj htokens
      obtain ⟨hword, hrest⟩ := List.append_inj htokens (by rw [hws, length_word_tokens])
      subst hrest
      exact ⟨r, rest, rfl, hb, hword, .whole hnone⟩
  | @lacking reports last hr hother =>
    cases reports with
    | nil =>
      have hlen := congrArg List.length htokens
      simp [hws] at hlen
    | cons r rest =>
      rw [List.flatMap_cons, frame, List.append_assoc, List.cons_append] at htokens
      obtain ⟨hb, htokens⟩ := List.cons.inj htokens
      obtain ⟨hword, hrest⟩ := List.append_inj htokens (by rw [hws, length_word_tokens])
      subst hrest
      exact ⟨r, rest ++ [last], rfl, hb, hword, .lacking hr hother⟩

/-! ## What is delivered -/

/-- The call is the one that was reported, and the callback and its data were registered
for the port when the report was made or since then. -/
structure Answers (registered : Nat → List (IsrInfo κ δ)) (r : Report) (c : Call κ δ) : Prop where
  port_id : c.port_id = r.port_id
  value : c.value = r.value
  info : ∃ k, r.since ≤ k + 1 ∧ (registered r.port_id)[k]? = some c.info

/-- The values reported of a port. -/
def values (p : Nat) (reports : List Report) : List UInt32 := (reports.filter (·.port_id = p)).map (·.value)

/-- No interrupt routine runs, and nothing is on its way. -/
structure State.Quiet (s : State ι κ δ) : Prop where
  host : ∀ p, s.host.isr p = .idle
  wire : s.wire = []
  client : s.client.isr = .idle

/-- The client's routine calls what was reported, in order and each once, and looks nothing else up. -/
structure Delivered (s : State ι κ δ) : Prop where
  called : ∃ done rest, s.trace.reported = done ++ rest ∧
    List.Forall₂ (Answers s.trace.registered) done s.trace.called ∧ (s.Quiet → rest = [])
  raised : ∀ p, values p s.trace.reported <+: s.trace.raised p ∧
    (s.Quiet → values p s.trace.reported = s.trace.raised p)
  indexed : ∀ p ∈ s.trace.indexed, ∃ r ∈ s.trace.reported, r.port_id = p
  no_fault : s.client.fault = false
  /-- Once the host's routines have ended, what is on its way can be input and called. -/
  progress : (∀ p, s.host.isr p = .idle) → ¬ s.Quiet → (rtos_gpio_rpc_client_isr s).isSome

/-- What the port's routine is yet to report. -/
def HostIsr.owing : HostIsr → List UInt32
  | .out_byte value => [value]
  | _ => []

/-- No port's routine puts its byte on the channel end while another is between its
byte and its word. -/
def Apart (s : State ι κ δ) : Action ι κ δ → Prop
  | .host port_id => (s.host.isr port_id).owing = [] ∨ ∀ p < RTOS_GPIO_TOTAL_PORT_CNT, (s.host.isr p).within = false
  | _ => True

instance (s : State ι κ δ) : ∀ a, Decidable (Apart s a)
  | .host port_id => inferInstanceAs (Decidable ((s.host.isr port_id).owing = [] ∨
      ∀ p < RTOS_GPIO_TOTAL_PORT_CNT, (s.host.isr p).within = false))
  | .isr_callback_set _ _ _ | .interrupt_enable _ _ | .interrupt_disable _ _ | .rpc _ | .other_callback_set _
  | .isr _ _ | .client => isTrue trivial

/-! ## The invariant -/

theorem Answers.mono {registered registered' : Nat → List (IsrInfo κ δ)} {r : Report} {c : Call κ δ}
    (h : Answers registered r c) (hle : ∀ p, registered p <+: registered' p) : Answers registered' r c := by
  obtain ⟨k, hk, hget⟩ := h.info
  refine ⟨h.port_id, h.value, k, hk, ?_⟩
  obtain ⟨more, hmore⟩ := hle r.port_id
  rw [← hmore, List.getElem?_append_left (List.getElem?_eq_some_iff.1 hget).1]
  exact hget

/-- A port for which the client has registered something. -/
def Known (client : Client ι κ δ) (p : Nat) : Prop := (client.isr_info p).isSome

/-- The host tile only has the RPC's callback on ports that the client knows. -/
structure Registered (host : Host) (client : Client ι κ δ) : Prop where
  request : ∀ t p, client.request t = some (.isr_callback_set p) → Known client p
  info : ∀ p info, host.isr_info p = some info → info.callback = .rtos_gpio_rpc_host_isr → Known client p
  running : ∀ p value, host.isr p = .out_byte value → Known client p
  valid : ∀ p, host.isr p ≠ .idle → port_valid p

/-- What the trace says of the two tiles. -/
structure Traced (host : Host) (client : Client ι κ δ) (trace : Trace κ δ) : Prop where
  registered : ∀ p, client.isr_info p = (trace.registered p).getLast?
  reported : ∀ r ∈ trace.reported, port_valid r.port_id ∧ 0 < r.since ∧ r.since ≤ (trace.registered r.port_id).length
  raised : ∀ p, trace.raised p = values p trace.reported ++ (host.isr p).owing
  indexed : ∀ p ∈ trace.indexed, ∃ r ∈ trace.reported, r.port_id = p

/-- Where the reports are that have not been answered: the first one may be in the client's
routine, the others are on their way. -/
def Pending (registered : Nat → List (IsrInfo κ δ)) (isr : Nat → HostIsr) (wire : List UInt8) :
    ClientIsr κ δ → List Report → Prop
  | .idle, reports => Wired isr wire reports
  | .in_word p, reports => ∃ b : UInt8, p = b.toNat ∧ Wired isr (b :: wire) reports
  | .lookup p value, reports => ∃ r rest, reports = r :: rest ∧ p = r.port_id ∧ value = r.value ∧ Wired isr wire rest
  | .callback p value info, reports =>
    ∃ r rest, reports = r :: rest ∧ Answers registered r ⟨p, value, info⟩ ∧ Wired isr wire rest

/-- What every step keeps, as long as reports stay apart. -/
structure Inv (s : State ι κ δ) : Prop where
  registered : Registered s.host s.client
  traced : Traced s.host s.client s.trace
  no_fault : s.client.fault = false
  pending : ∃ done rest, s.trace.reported = done ++ rest ∧
    List.Forall₂ (Answers s.trace.registered) done s.trace.called ∧
    Pending s.trace.registered s.host.isr s.wire s.client.isr rest

theorem inv_init : Inv (State.init : State ι κ δ) := by
  refine ⟨⟨?_, ?_, ?_, fun _ h => absurd rfl h⟩, ⟨fun _ => rfl, ?_, fun _ => rfl, ?_⟩, rfl, [], [], rfl, .nil, ?_⟩
  · intro _ _ h
    cases h
  · intro _ _ h
    cases h
  · intro _ _ h
    cases h
  · intro _ h
    cases h
  · intro _ h
    cases h
  · have hwired : Wired (fun _ => .idle) (([] : List Report).flatMap frame) [] := .whole fun _ => rfl
    exact hwired

/-! ## The client's tasks -/

variable {core : Nat → Nat} {s s' : State ι κ δ}

theorem update_some {α β : Type*} [DecidableEq α] {f : α → Option β} {a a' : α} {b b' : β}
    (h : Function.update f a (some b) a' = some b') : a' = a ∧ b = b' ∨ f a' = some b' := by
  by_cases ha : a' = a
  · subst ha
    rw [Function.update_self] at h
    exact .inl ⟨rfl, Option.some.inj h⟩
  · rw [Function.update_of_ne ha] at h
    exact .inr h

theorem registered_le (registered : Nat → List (IsrInfo κ δ)) (p : Nat) (info : IsrInfo κ δ) (q : Nat) :
    registered q <+: Function.update registered p (registered p ++ [info]) q := by
  by_cases hq : q = p
  · subst hq
    rw [Function.update_self]
    exact List.prefix_append ..
  · have hkept := Function.update_of_ne hq (registered p ++ [info]) registered
    exact hkept ▸ List.prefix_rfl

theorem Pending.mono {registered registered' : Nat → List (IsrInfo κ δ)} {wire : List UInt8}
    {c : ClientIsr κ δ} (h : Pending registered isr wire c reports) (hle : ∀ p, registered p <+: registered' p) :
    Pending registered' isr wire c reports := by
  cases c with
  | idle => exact h
  | in_word p => exact h
  | lookup p value => exact h
  | callback p value info =>
    obtain ⟨r, rest, hreports, hanswers, hwired⟩ := h
    exact ⟨r, rest, hreports, hanswers.mono hle, hwired⟩

variable [DecidableEq ι] in
theorem Inv.isr_callback_set (h : Inv s) {t : ι} {p : Nat} {info : IsrInfo κ δ}
    (hs : gpio_remote_isr_callback_set s t p info = some s') : Inv s' := by
  simp only [gpio_remote_isr_callback_set] at hs
  split at hs
  · cases hs
  split at hs
  · obtain rfl := Option.some.inj hs
    have hle := registered_le s.trace.registered p info
    have hknown : ∀ q, Known s.client q ∨ q = p → (Function.update s.client.isr_info p (some info) q).isSome := by
      intro q hq
      by_cases hqp : q = p
      · subst hqp
        rw [Function.update_self]
        rfl
      · rw [Function.update_of_ne hqp]
        exact hq.resolve_right hqp
    refine ⟨⟨fun u q hu => ?_, fun q i hq hcb => hknown q (.inl (h.registered.info q i hq hcb)),
      fun q v hq => hknown q (.inl (h.registered.running q v hq)), h.registered.valid⟩,
      ⟨fun q => ?_, fun r hr => ?_, h.traced.raised, h.traced.indexed⟩, h.no_fault, ?_⟩
    · apply hknown
      rcases update_some hu with ⟨-, hq⟩ | hu
      · cases hq
        exact .inr rfl
      · exact .inl (h.registered.request u q hu)
    · by_cases hq : q = p
      · subst hq
        simp
      · simp only [Function.update_of_ne hq]
        exact h.traced.registered q
    · obtain ⟨hport, hpos, hsince⟩ := h.traced.reported r hr
      exact ⟨hport, hpos, Nat.le_trans hsince (hle r.port_id).length_le⟩
    · obtain ⟨done, rest, hreported, hcalled, hpending⟩ := h.pending
      exact ⟨done, rest, hreported, hcalled.imp fun _ _ ha => ha.mono hle, hpending.mono hle⟩
  · cases hs

variable [DecidableEq ι] in
theorem Inv.interrupt (h : Inv s) {t : ι} {p : Nat} {request : Request} (hreq : ∀ q, request ≠ .isr_callback_set q)
    (hs : gpio_remote_interrupt s t p request = some s') : Inv s' := by
  simp only [gpio_remote_interrupt] at hs
  split at hs
  · cases hs
  split at hs
  · obtain rfl := Option.some.inj hs
    refine ⟨⟨fun u q hu => ?_, h.registered.info, h.registered.running, h.registered.valid⟩,
      ⟨h.traced.registered, h.traced.reported, h.traced.raised, h.traced.indexed⟩, h.no_fault, h.pending⟩
    rcases update_some hu with ⟨-, hq⟩ | hu
    · exact absurd hq (hreq q)
    · exact h.registered.request u q hu
  · cases hs

/-! ## The host tile -/

theorem callback_set_spec (host : Host) (p : Nat) (cb : Callback) (q : Nat) (info : HostInfo)
    (h : (gpio_local_isr_callback_set host p cb).isr_info q = some info) :
    q = p ∧ info.callback = cb ∨ host.isr_info q = some info := by
  rcases update_some h with ⟨hq, hinfo⟩ | h
  · subst hinfo
    exact .inl ⟨hq, rfl⟩
  · exact .inr h

theorem interrupt_enable_spec (host : Host) (p q : Nat) (info : HostInfo)
    (h : (gpio_local_interrupt_enable host p).isr_info q = some info) :
    ∃ info', host.isr_info q = some info' ∧ info'.callback = info.callback := by
  simp only [gpio_local_interrupt_enable] at h
  split at h
  · exact ⟨info, h, rfl⟩
  · rename_i info' hp
    rcases update_some h with ⟨hq, hinfo⟩ | h
    · subst hq hinfo
      exact ⟨info', hp, rfl⟩
    · exact ⟨info, h, rfl⟩

theorem interrupt_disable_spec (host : Host) (p q : Nat) (info : HostInfo)
    (h : (gpio_local_interrupt_disable host p).isr_info q = some info) :
    ∃ info', host.isr_info q = some info' ∧ info'.callback = info.callback := by
  simp only [gpio_local_interrupt_disable] at h
  split at h
  · exact ⟨info, h, rfl⟩
  · rename_i info' hp
    split at h
    · exact ⟨info, h, rfl⟩
    · rcases update_some h with ⟨hq, hinfo⟩ | h
      · subst hq hinfo
        exact ⟨info', hp, rfl⟩
      · exact ⟨info, h, rfl⟩

theorem serve_isr (host : Host) (request : Request) : (host.serve request).isr = host.isr := by
  cases request with
  | isr_callback_set p => rfl
  | interrupt_enable p =>
    simp only [Host.serve, gpio_local_interrupt_enable]
    split <;> rfl
  | interrupt_disable p =>
    simp only [Host.serve, gpio_local_interrupt_disable]
    split
    · rfl
    · split <;> rfl

/-- What a request makes the host's callback of a port, it was before or is asked for. -/
theorem serve_spec (host : Host) (request : Request) (q : Nat) (info : HostInfo)
    (h : (host.serve request).isr_info q = some info) :
    request = .isr_callback_set q ∨ ∃ info', host.isr_info q = some info' ∧ info'.callback = info.callback := by
  cases request with
  | isr_callback_set p =>
    rcases callback_set_spec host p .rtos_gpio_rpc_host_isr q info h with ⟨hq, -⟩ | h
    · exact .inl (by rw [hq])
    · exact .inr ⟨info, h, rfl⟩
  | interrupt_enable p => exact .inr (interrupt_enable_spec host p q info h)
  | interrupt_disable p => exact .inr (interrupt_disable_spec host p q info h)

variable [DecidableEq ι] in
theorem Inv.rpc (h : Inv s) {t : ι} (hs : rpc_client_call s t = some s') : Inv s' := by
  obtain ⟨request, hrequest, rfl⟩ := Option.map_eq_some_iff.1 hs
  have hisr := serve_isr s.host request
  refine ⟨⟨fun u q hu => ?_, fun q info hq hcb => ?_, ?_, ?_⟩,
    ⟨h.traced.registered, h.traced.reported, ?_, h.traced.indexed⟩, h.no_fault, ?_⟩
  · by_cases hut : u = t
    · subst hut
      simp at hu
    · simp only [Function.update_of_ne hut] at hu
      exact h.registered.request u q hu
  · rcases serve_spec s.host request q info hq with hset | ⟨info', hinfo, hcb'⟩
    · exact h.registered.request t q (by rw [hrequest, hset])
    · exact h.registered.info q info' hinfo (hcb'.trans hcb)
  · dsimp only
    rw [hisr]
    exact h.registered.running
  · dsimp only
    rw [hisr]
    exact h.registered.valid
  · dsimp only
    rw [hisr]
    exact h.traced.raised
  · dsimp only
    rw [hisr]
    exact h.pending

theorem Inv.other_callback_set (h : Inv s) (p : Nat) :
    Inv { s with host := gpio_local_isr_callback_set s.host p .other } := by
  refine ⟨⟨h.registered.request, fun q info hq hcb => ?_, h.registered.running, h.registered.valid⟩,
    ⟨h.traced.registered, h.traced.reported, h.traced.raised, h.traced.indexed⟩, h.no_fault, h.pending⟩
  rcases callback_set_spec s.host p .other q info hq with ⟨-, hother⟩ | hq
  · rw [hother] at hcb
    cases hcb
  · exact h.registered.info q info hq hcb

/-- What a step of the host's routines makes of the tokens on their way, it makes of them behind
those that the client's routine has input. -/
theorem Pending.map {registered : Nat → List (IsrInfo κ δ)} {isr' : Nat → HostIsr} {wire : List UInt8}
    {c : ClientIsr κ δ} (ts : List UInt8) (rs : List Report) (h : Pending registered isr wire c reports)
    (hw : ∀ {tokens rest}, Wired isr tokens rest → Wired isr' (tokens ++ ts) (rest ++ rs)) :
    Pending registered isr' (wire ++ ts) c (reports ++ rs) := by
  cases c with
  | idle => exact hw h
  | in_word p =>
    obtain ⟨b, hb, hwired⟩ := h
    exact ⟨b, hb, hw hwired⟩
  | lookup p value =>
    obtain ⟨r, rest, hreports, hport, hvalue, hwired⟩ := h
    exact ⟨r, rest ++ rs, by rw [hreports, List.cons_append], hport, hvalue, hw hwired⟩
  | callback p value info =>
    obtain ⟨r, rest, hreports, hanswers, hwired⟩ := h
    exact ⟨r, rest ++ rs, by rw [hreports, List.cons_append], hanswers, hw hwired⟩

theorem Pending.congr {registered : Nat → List (IsrInfo κ δ)} {wire : List UInt8} {c : ClientIsr κ δ}
    (h : Pending registered isr wire c reports) (heq : ∀ p, (isr p).within ∨ (isr' p).within → isr' p = isr p) :
    Pending registered isr' wire c reports := by
  have hcongr : ∀ {tokens rest}, Wired isr tokens rest → Wired isr' (tokens ++ []) (rest ++ []) := by
    intro tokens rest hwired
    rw [List.append_nil, List.append_nil]
    exact hwired.congr heq
  have hmap := h.map [] [] hcongr
  rwa [List.append_nil, List.append_nil] at hmap

theorem update_congr {p : Nat} {i : HostIsr} (hp : (isr p).within = false) (hi : i.within = false) (q : Nat)
    (hq : (isr q).within ∨ (Function.update isr p i q).within) : Function.update isr p i q = isr q := by
  by_cases hqp : q = p
  · subst hqp
    rw [Function.update_self, hp, hi] at hq
    simp at hq
  · rw [Function.update_of_ne hqp]

theorem owing_update {trace : Trace κ δ} {p : Nat} {i : HostIsr}
    (h : ∀ q, trace.raised q = values q trace.reported ++ (isr q).owing) (hi : i.owing = (isr p).owing) (q : Nat) :
    trace.raised q = values q trace.reported ++ (Function.update isr p i q).owing := by
  by_cases hq : q = p
  · subst hq
    rw [Function.update_self, hi]
    exact h q
  · rw [Function.update_of_ne hq]
    exact h q

theorem Registered.update {host : Host} {client : Client ι κ δ} {p : Nat} {i : HostIsr} (h : Registered host client)
    (hvalid : port_valid p) (hknown : ∀ value, i = .out_byte value → Known client p) :
    Registered { host with isr := Function.update host.isr p i } client := by
  refine ⟨h.request, h.info, fun q value hq => ?_, fun q hq => ?_⟩
  · by_cases hqp : q = p
    · subst hqp
      simp only [Function.update_self] at hq
      exact hknown value hq
    · simp only [Function.update_of_ne hqp] at hq
      exact h.running q value hq
  · by_cases hqp : q = p
    · subst hqp
      exact hvalid
    · simp only [Function.update_of_ne hqp] at hq
      exact h.valid q hq

/-- A port's routine goes on outside of the byte and the word of a report. -/
theorem Inv.goes_on (h : Inv s) {p : Nat} {i : HostIsr} {raised : Nat → List UInt32} (hvalid : port_valid p)
    (hknown : ∀ value, i = .out_byte value → Known s.client p)
    (hold : (s.host.isr p).within = false) (hnew : i.within = false)
    (hraised : ∀ q, raised q = values q s.trace.reported ++ (Function.update s.host.isr p i q).owing) :
    Inv { s with
      host := { s.host with isr := Function.update s.host.isr p i }
      trace := { s.trace with raised } } := by
  obtain ⟨done, rest, hreported, hcalled, hpending⟩ := h.pending
  exact ⟨h.registered.update hvalid hknown, ⟨h.traced.registered, h.traced.reported, hraised, h.traced.indexed⟩,
    h.no_fault, done, rest, hreported, hcalled, hpending.congr (update_congr hold hnew)⟩

theorem Inv.rtos_gpio_isr (h : Inv s) {p : Nat} {value : UInt32} (hs : rtos_gpio_isr core s p value = some s') :
    Inv s' := by
  simp only [Gpio.rtos_gpio_isr] at hs
  split at hs
  case isFalse => cases hs
  rename_i hguard
  obtain ⟨hvalid, -, hcore⟩ := hguard
  have hidle : s.host.isr p = .idle := hcore p (by simpa [port_valid] using hvalid) rfl
  have hwithin : (s.host.isr p).within = false := by rw [hidle]; rfl
  split at hs
  · cases hs
  rename_i info hinfo
  -- the callback is called in two of the cases
  have hreport : info.callback = .rtos_gpio_rpc_host_isr → Inv { s with
      host := { s.host with isr := Function.update s.host.isr p (.out_byte value) }
      trace := { s.trace with raised := Function.update s.trace.raised p (s.trace.raised p ++ [value]) } } := by
    intro hcb
    apply h.goes_on hvalid (fun _ _ => h.registered.info p info hinfo hcb) hwithin rfl
    intro q
    by_cases hqp : q = p
    · subst hqp
      rw [Function.update_self, Function.update_self, h.traced.raised q, hidle]
      simp [HostIsr.owing]
    · rw [Function.update_of_ne hqp, Function.update_of_ne hqp]
      exact h.traced.raised q
  have hother : Inv { s with host := { s.host with isr := Function.update s.host.isr p (.set_trigger_value value) } } := by
    apply h.goes_on hvalid (by intro _ h; cases h) hwithin rfl
    exact owing_update h.traced.raised (by rw [hidle]; rfl)
  split at hs
  · obtain rfl := Option.some.inj hs
    refine ⟨⟨h.registered.request, fun q i hq hcb => ?_, h.registered.running, h.registered.valid⟩,
      ⟨h.traced.registered, h.traced.reported, h.traced.raised, h.traced.indexed⟩, h.no_fault, h.pending⟩
    rcases update_some hq with ⟨hqp, hi⟩ | hq
    · subst hqp hi
      exact h.registered.info q info hinfo hcb
    · exact h.registered.info q i hq hcb
  all_goals
    split at hs
    · rename_i hcb
      obtain rfl := Option.some.inj hs
      exact hreport hcb
    · obtain rfl := Option.some.inj hs
      exact hother

theorem values_concat (p : Nat) (reports : List Report) (r : Report) :
    values p (reports ++ [r]) = values p reports ++ if r.port_id = p then [r.value] else [] := by
  by_cases hp : r.port_id = p <;> simp [values, hp]

theorem Inv.out_byte (h : Inv s) {p : Nat} {value : UInt32} (hp : s.host.isr p = .out_byte value)
    (hnone : ∀ q, (s.host.isr q).within = false) :
    Inv { s with
      host := { s.host with isr := Function.update s.host.isr p (.out_word value) }
      wire := s.wire ++ [UInt8.ofNat p]
      trace := { s.trace with
        reported := s.trace.reported ++ [⟨p, value, (s.trace.registered p).length⟩] } } := by
  have hvalid : port_valid p := h.registered.valid p (by rw [hp]; intro h; cases h)
  have hpos : 0 < (s.trace.registered p).length := by
    have hknown := h.registered.running p value hp
    rw [Known, h.traced.registered p] at hknown
    exact List.length_pos_of_ne_nil (by simpa using hknown)
  refine ⟨h.registered.update hvalid (by intro _ h; cases h),
    ⟨h.traced.registered, fun r hr => ?_, fun q => ?_, fun q hq => ?_⟩, h.no_fault, ?_⟩
  · rcases List.mem_append.1 hr with hr | hr
    · exact h.traced.reported r hr
    · obtain rfl := List.mem_singleton.1 hr
      exact ⟨hvalid, hpos, Nat.le_refl _⟩
  · dsimp only
    rw [values_concat, h.traced.raised q]
    by_cases hqp : q = p
    · subst hqp
      rw [if_pos rfl, Function.update_self, hp]
      simp [HostIsr.owing]
    · rw [if_neg (Ne.symm hqp), Function.update_of_ne hqp, List.append_nil]
  · obtain ⟨r, hr, hrq⟩ := h.traced.indexed q hq
    exact ⟨r, List.mem_append_left _ hr, hrq⟩
  · obtain ⟨done, rest, hreported, hcalled, hpending⟩ := h.pending
    refine ⟨done, rest ++ [⟨p, value, (s.trace.registered p).length⟩], ?_, hcalled, ?_⟩
    · rw [hreported, List.append_assoc]
    · exact hpending.map _ _ fun hwired => hwired.out_byte hnone ⟨p, value, _⟩

theorem Inv.out_word (h : Inv s) {p : Nat} {value : UInt32} (hp : s.host.isr p = .out_word value) :
    Inv { s with
      host := { s.host with isr := Function.update s.host.isr p (.out_control_token value) }
      wire := s.wire ++ word_tokens value } := by
  have hvalid : port_valid p := h.registered.valid p (by rw [hp]; intro h; cases h)
  obtain ⟨done, rest, hreported, hcalled, hpending⟩ := h.pending
  have hwired : ∀ {tokens rest}, Wired s.host.isr tokens rest →
      Wired (Function.update s.host.isr p (.out_control_token value)) (tokens ++ word_tokens value) (rest ++ []) := by
    intro tokens rest hwired
    rw [List.append_nil]
    exact hwired.out_word hp
  refine ⟨h.registered.update hvalid (by intro _ h; cases h),
    ⟨h.traced.registered, h.traced.reported, owing_update h.traced.raised (by rw [hp]; rfl), h.traced.indexed⟩,
    h.no_fault, done, rest, hreported, hcalled, ?_⟩
  have hmap := hpending.map _ _ hwired
  rwa [List.append_nil] at hmap

theorem Inv.rtos_gpio_rpc_host_isr (h : Inv s) {p : Nat} (hapart : Apart s (.host p))
    (hs : rtos_gpio_rpc_host_isr s p = some s') : Inv s' := by
  have hvalid : s.host.isr p ≠ .idle → port_valid p := h.registered.valid p
  simp only [Gpio.rtos_gpio_rpc_host_isr] at hs
  split at hs <;> rename_i hp <;> rw [hp] at hvalid
  · cases hs
  · obtain rfl := Option.some.inj hs
    apply h.out_byte hp
    intro q
    by_cases hq : q < RTOS_GPIO_TOTAL_PORT_CNT
    · refine hapart.resolve_left (fun hnil => ?_) q hq
      rw [hp] at hnil
      cases hnil
    · have hidle : s.host.isr q = .idle := by
        by_contra hne
        exact hq (by simpa [port_valid] using h.registered.valid q hne)
      rw [hidle]
      rfl
  · obtain rfl := Option.some.inj hs
    exact h.out_word hp
  · obtain rfl := Option.some.inj hs
    exact h.goes_on (hvalid (by intro h; cases h)) (by intro _ h; cases h) (by rw [hp]; rfl) rfl
      (owing_update h.traced.raised (by rw [hp]; rfl))
  · obtain rfl := Option.some.inj hs
    exact h.goes_on (hvalid (by intro h; cases h)) (by intro _ h; cases h) (by rw [hp]; rfl) rfl
      (owing_update h.traced.raised (by rw [hp]; rfl))

/-! ## The client's routine -/

theorem Inv.rtos_gpio_rpc_client_isr (h : Inv s) (hs : rtos_gpio_rpc_client_isr s = some s') : Inv s' := by
  obtain ⟨done, rest, hreported, hcalled, hpending⟩ := h.pending
  simp only [Gpio.rtos_gpio_rpc_client_isr] at hs
  split at hs <;> rename_i hisr <;> rw [hisr] at hpending
  · split at hs
    · cases hs
    · rename_i b wire hwire
      obtain rfl := Option.some.inj hs
      rw [hwire] at hpending
      exact ⟨⟨h.registered.request, h.registered.info, h.registered.running, h.registered.valid⟩,
        ⟨h.traced.registered, h.traced.reported, h.traced.raised, h.traced.indexed⟩, h.no_fault,
        done, rest, hreported, hcalled, b, rfl, hpending⟩
  · split at hs
    · rename_i p hlen
      obtain rfl := Option.some.inj hs
      obtain ⟨b, hb, hwired⟩ := hpending
      rw [← List.take_append_drop 4 s.wire] at hwired
      obtain ⟨r, rest', hrest, hport, hword, hwired⟩ := hwired.take (List.length_take_of_le hlen)
      refine ⟨⟨h.registered.request, h.registered.info, h.registered.running, h.registered.valid⟩,
        ⟨h.traced.registered, h.traced.reported, h.traced.raised, h.traced.indexed⟩, h.no_fault,
        done, rest, hreported, hcalled, r, rest', hrest, ?_, ?_, hwired⟩
      · -- a port's number fits into its byte
        have hr : r ∈ s.trace.reported := by
          rw [hreported, hrest]
          simp
        have hlt := (h.traced.reported r hr).1
        rw [port_valid, decide_eq_true_eq] at hlt
        rw [hb, hport, UInt8.toNat_ofNat_of_lt' (Nat.lt_trans hlt (by decide))]
      · rw [hword, word_tokens_value]
    · cases hs
  · rename_i p value
    obtain ⟨r, rest', hrest, hport, hvalue, hwired⟩ := hpending
    have hr : r ∈ s.trace.reported := by
      rw [hreported, hrest]
      simp
    obtain ⟨hvalid, hpos, hsince⟩ := h.traced.reported r hr
    obtain ⟨info, hinfo⟩ : ∃ info, s.client.isr_info p = some info := by
      rw [h.traced.registered p, hport]
      exact ⟨_, List.getLast?_eq_getLast_of_ne_nil (List.ne_nil_of_length_pos (Nat.lt_of_lt_of_le hpos hsince))⟩
    rw [hport, if_pos hvalid, ← hport, hinfo] at hs
    obtain rfl := Option.some.inj hs
    refine ⟨⟨h.registered.request, h.registered.info, h.registered.running, h.registered.valid⟩,
      ⟨h.traced.registered, h.traced.reported, h.traced.raised, fun q hq => ?_⟩, h.no_fault,
      done, rest, hreported, hcalled, r, rest', hrest, ⟨hport, hvalue, ?_⟩, hwired⟩
    · rcases List.mem_append.1 hq with hq | hq
      · exact h.traced.indexed q hq
      · obtain rfl := List.mem_singleton.1 hq
        exact ⟨r, hr, hport.symm⟩
    · refine ⟨(s.trace.registered r.port_id).length - 1, by omega, ?_⟩
      rw [← List.getLast?_eq_getElem?, ← h.traced.registered, ← hport]
      exact hinfo
  · rename_i p value info
    obtain rfl := Option.some.inj hs
    obtain ⟨r, rest', hrest, hanswers, hwired⟩ := hpending
    refine ⟨⟨h.registered.request, h.registered.info, h.registered.running, h.registered.valid⟩,
      ⟨h.traced.registered, h.traced.reported, h.traced.raised, h.traced.indexed⟩, h.no_fault,
      done ++ [r], rest', ?_, List.rel_append hcalled (.cons hanswers .nil), hwired⟩
    rw [hreported, hrest, List.append_assoc, List.singleton_append]

variable [DecidableEq ι] in
theorem inv_step {a : Action ι κ δ} (h : Inv s) (hapart : Apart s a) (hs : (machine core).step s a = some s') :
    Inv s' := by
  cases a with
  | isr_callback_set t p info => exact h.isr_callback_set hs
  | interrupt_enable t p => exact h.interrupt (by intro _ h; cases h) hs
  | interrupt_disable t p => exact h.interrupt (by intro _ h; cases h) hs
  | rpc t => exact h.rpc hs
  | other_callback_set p =>
    obtain rfl := Option.some.inj hs
    exact h.other_callback_set p
  | isr p value => exact h.rtos_gpio_isr hs
  | host p => exact h.rtos_gpio_rpc_host_isr hapart hs
  | client => exact h.rtos_gpio_rpc_client_isr hs

theorem Inv.delivered (h : Inv s) : Delivered s := by
  obtain ⟨done, rest, hreported, hcalled, hpending⟩ := h.pending
  refine ⟨⟨done, rest, hreported, hcalled, fun hquiet => ?_⟩, fun p => ⟨?_, fun hquiet => ?_⟩, h.traced.indexed,
    h.no_fault, fun hidle hquiet => ?_⟩
  · rw [hquiet.client, hquiet.wire] at hpending
    have hlen := Wired.length hpending fun p => by rw [hquiet.host p]; rfl
    exact List.length_eq_zero_iff.1 (by simpa using hlen.symm)
  · rw [h.traced.raised p]
    exact List.prefix_append ..
  · rw [h.traced.raised p, hquiet.host p]
    simp [HostIsr.owing]
  · have hnone : ∀ p, (s.host.isr p).within = false := by
      intro p
      rw [hidle p]
      rfl
    simp only [Gpio.rtos_gpio_rpc_client_isr]
    split <;> rename_i hisr <;> rw [hisr] at hpending
    · split
      · rename_i hwire
        exact absurd ⟨hidle, hwire, hisr⟩ hquiet
      · rfl
    · -- the port has been input, so there is a report, and its word is on the way
      obtain ⟨b, -, hwired⟩ := hpending
      have hlen := hwired.length hnone
      rw [List.length_cons] at hlen
      rw [if_pos (by omega)]
      rfl
    · split <;> rfl
    · rfl

variable [DecidableEq ι]

/-- In every run in which no port's routine starts a report while another is
between its byte and its word, the client's routine calls what has been reported,
each once, with what was registered for the port. -/
theorem reports_delivered (h : (machine core).Reachable Apart s) : Delivered s := by
  have hinv : Inv s := by
    refine h.inv (fun s hs => ?_) fun s a s' hinv hapart hs => inv_step hinv hapart hs
    rw [hs]
    exact inv_init
  exact hinv.delivered

/-! ## Two ports -/

/-- Port `p`'s callback is set, with `p` as its data, and its interrupt enabled. -/
def enable (p : Nat) : List (Action Unit Nat Nat) :=
  [.isr_callback_set () p ⟨p, p⟩, .rpc (), .interrupt_enable () p, .rpc ()]

def client_isr (n : Nat) : List (Action Unit Nat Nat) := List.replicate n .client

/-- Port 1 reports 5 and port 2 then 6, before the client's routine runs. -/
theorem reports_delivered_two : ∃ s : State Unit Nat Nat, (machine id).Reachable Apart s ∧
    s.trace.called = [⟨1, 5, ⟨1, 1⟩⟩, ⟨2, 6, ⟨2, 2⟩⟩] ∧ Delivered s := by
  have hrun : ((machine id).exec Apart State.init (List.flatten [
    enable 1, enable 2, [.isr 1 5, .isr 2 6, .host 1, .host 1, .host 2, .host 1, .host 2], client_isr 8])).any
      (fun s => s.trace.called = [⟨1, 5, ⟨1, 1⟩⟩, ⟨2, 6, ⟨2, 2⟩⟩]) = true := by decide +kernel
  obtain ⟨s, hexec, hcalled⟩ := Option.any_eq_true _ _ |>.1 hrun
  have h := Machine.exec_reachable rfl hexec
  exact ⟨s, h, of_decide_eq_true hcalled, reports_delivered h⟩

/-- Ports 1 and 2 both read 0, and both routines are at their words at a time. The client
calls port 1's callback with a value that has port 2's number in it, and takes the rest of the
tokens for a report of port 0. -/
theorem reports_entangled : ∃ s : State Unit Nat Nat, (machine id).Reachable Machine.Free s ∧
    s.trace.raised 1 = [0] ∧ s.trace.raised 2 = [0] ∧ s.trace.called = [⟨1, 0x02000000, ⟨1, 1⟩⟩] ∧
    s.trace.indexed = [1, 0] ∧ s.client.fault = true ∧ ¬ Delivered s := by
  have hrun : ((machine id).exec Machine.Free State.init (List.flatten [
    enable 1, enable 2, [.isr 1 0, .isr 2 0, .host 1, .host 2, .host 1, .host 2], client_isr 7])).any
      (fun s => s.trace.raised 1 = [0] ∧ s.trace.raised 2 = [0] ∧ s.trace.called = [⟨1, 0x02000000, ⟨1, 1⟩⟩] ∧
        s.trace.indexed = [1, 0] ∧ s.client.fault = true) = true := by decide +kernel
  obtain ⟨s, hexec, hs⟩ := Option.any_eq_true _ _ |>.1 hrun
  obtain ⟨h1, h2, hcalled, hindexed, hfault⟩ := of_decide_eq_true hs
  refine ⟨s, Machine.exec_reachable rfl hexec, h1, h2, hcalled, hindexed, hfault, fun h => ?_⟩
  rw [h.no_fault] at hfault
  cases hfault

/-! ## One core -/

/-- A core runs one routine at a time. -/
structure Serviced (core : Nat → Nat) (host : Host) : Prop where
  valid : ∀ p, host.isr p ≠ .idle → p < RTOS_GPIO_TOTAL_PORT_CNT
  alone : ∀ p q, host.isr p ≠ .idle → host.isr q ≠ .idle → core p = core q → p = q

omit [DecidableEq ι] in
theorem Serviced.goes_on {host : Host} (h : Serviced core host) {p : Nat} {i : HostIsr} (hp : host.isr p ≠ .idle) :
    Serviced core { host with isr := Function.update host.isr p i } := by
  have hrun : ∀ q, Function.update host.isr p i q ≠ .idle → host.isr q ≠ .idle := by
    intro q hq
    by_cases hqp : q = p
    · rwa [hqp]
    · rwa [Function.update_of_ne hqp] at hq
  exact ⟨fun q hq => h.valid q (hrun q hq), fun q r hq hr => h.alone q r (hrun q hq) (hrun r hr)⟩

omit [DecidableEq ι] in
theorem Serviced.starts {host : Host} (h : Serviced core host) {p : Nat} {i : HostIsr}
    (hp : p < RTOS_GPIO_TOTAL_PORT_CNT) (hidle : host.CoreIdle core p) :
    Serviced core { host with isr := Function.update host.isr p i } := by
  have hother : ∀ q, q ≠ p → Function.update host.isr p i q ≠ .idle → host.isr q ≠ .idle ∧ core q ≠ core p := by
    intro q hqp hq
    rw [Function.update_of_ne hqp] at hq
    exact ⟨hq, fun hcore => hq (hidle q (h.valid q hq) hcore)⟩
  refine ⟨fun q hq => ?_, fun q r hq hr hcore => ?_⟩
  · by_cases hqp : q = p
    · rwa [hqp]
    · exact h.valid q (hother q hqp hq).1
  · by_cases hqp : q = p
    · by_cases hrp : r = p
      · rw [hqp, hrp]
      · rw [hqp] at hcore
        exact absurd hcore.symm (hother r hrp hr).2
    · by_cases hrp : r = p
      · rw [hrp] at hcore
        exact absurd hcore (hother q hqp hq).2
      · exact h.alone q r (hother q hqp hq).1 (hother r hrp hr).1 hcore

omit [DecidableEq ι] in
theorem Serviced.rtos_gpio_isr (h : Serviced core s.host) {p : Nat} {value : UInt32}
    (hs : rtos_gpio_isr core s p value = some s') : Serviced core s'.host := by
  simp only [Gpio.rtos_gpio_isr] at hs
  split at hs
  case isFalse => cases hs
  rename_i hguard
  obtain ⟨hvalid, -, hidle⟩ := hguard
  have hp : p < RTOS_GPIO_TOTAL_PORT_CNT := by simpa [port_valid] using hvalid
  split at hs
  · cases hs
  split at hs
  · obtain rfl := Option.some.inj hs
    exact ⟨h.valid, h.alone⟩
  all_goals
    split at hs
    all_goals
      obtain rfl := Option.some.inj hs
      exact h.starts hp hidle

omit [DecidableEq ι] in
theorem Serviced.rtos_gpio_rpc_host_isr (h : Serviced core s.host) {p : Nat}
    (hs : rtos_gpio_rpc_host_isr s p = some s') : Serviced core s'.host := by
  simp only [Gpio.rtos_gpio_rpc_host_isr] at hs
  split at hs <;> rename_i hp
  · cases hs
  all_goals
    obtain rfl := Option.some.inj hs
    exact h.goes_on (by rw [hp]; intro h; cases h)

theorem isr_callback_set_host {t : ι} {p : Nat} {info : IsrInfo κ δ}
    (hs : gpio_remote_isr_callback_set s t p info = some s') : s'.host = s.host := by
  simp only [gpio_remote_isr_callback_set] at hs
  split at hs
  · cases hs
  split at hs
  · obtain rfl := Option.some.inj hs
    rfl
  · cases hs

theorem interrupt_host {t : ι} {p : Nat} {request : Request} (hs : gpio_remote_interrupt s t p request = some s') :
    s'.host = s.host := by
  simp only [gpio_remote_interrupt] at hs
  split at hs
  · cases hs
  split at hs
  · obtain rfl := Option.some.inj hs
    rfl
  · cases hs

omit [DecidableEq ι] in
theorem client_isr_host (hs : rtos_gpio_rpc_client_isr s = some s') : s'.host = s.host := by
  simp only [rtos_gpio_rpc_client_isr] at hs
  split at hs
  · split at hs
    · cases hs
    · obtain rfl := Option.some.inj hs
      rfl
  · split at hs
    · obtain rfl := Option.some.inj hs
      rfl
    · cases hs
  · split at hs
    all_goals
      obtain rfl := Option.some.inj hs
      rfl
  · obtain rfl := Option.some.inj hs
    rfl

theorem serviced_step {a : Action ι κ δ} (h : Serviced core s.host) (hs : (machine core).step s a = some s') :
    Serviced core s'.host := by
  cases a with
  | isr_callback_set t p info => rwa [isr_callback_set_host hs]
  | interrupt_enable t p | interrupt_disable t p => rwa [interrupt_host hs]
  | rpc t =>
    obtain ⟨request, -, rfl⟩ := Option.map_eq_some_iff.1 hs
    have hisr := serve_isr s.host request
    exact ⟨fun q hq => h.valid q (by rwa [← hisr]), fun q r hq hr => h.alone q r (by rwa [← hisr]) (by rwa [← hisr])⟩
  | other_callback_set p =>
    obtain rfl := Option.some.inj hs
    exact ⟨h.valid, h.alone⟩
  | isr p value => exact h.rtos_gpio_isr hs
  | host p => exact h.rtos_gpio_rpc_host_isr hs
  | client => rwa [client_isr_host hs]

/-- Where one core services all ports, reports do not mix. -/
theorem reachable_apart (hcore : ∀ p q, core p = core q) (h : (machine core).Reachable Machine.Free s) :
    (machine core).Reachable (Apart (ι := ι) (κ := κ) (δ := δ)) s := by
  refine Machine.Reachable.refines (f := id) (I := fun s => Serviced core s.host) (fun s hs => ?_)
    (fun _ h => h) (fun s a s' hserviced _ hs => .inr ⟨a, ?_, hs⟩) h
  · refine hs.inv (I := fun s => Serviced core s.host) (fun s hs => ?_) fun s a s' hinv _ hs => serviced_step hinv hs
    rw [hs]
    exact ⟨fun _ h => absurd rfl h, fun _ _ h => absurd rfl h⟩
  · cases a with
    | host p =>
      by_cases hp : (s.host.isr p).owing = []
      · exact .inl hp
      · refine .inr fun q _ => ?_
        by_cases hq : s.host.isr q = .idle
        · rw [id, hq]
          rfl
        · -- the only routine that runs is at its byte
          obtain rfl : p = q := hserviced.alone p q (fun hidle => hp (by rw [hidle]; rfl)) hq (hcore p q)
          rw [id]
          cases hisr : s.host.isr p with
          | out_word value => exact absurd (by rw [hisr]; rfl) hp
          | _ => rfl
    | _ => trivial

end Gpio
