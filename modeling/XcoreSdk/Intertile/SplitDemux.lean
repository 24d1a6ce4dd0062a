import XcoreSdk.Intertile.Split
/-!
# One message in parts at a time

While no task checks `rx_len`, or returns it after a wait that has timed out,
when another one has bytes of its message left, `rx_len` is always what is left
of the one message that is being handed out.
-/

namespace Intertile
variable {packets done rest : List Packet} {p : Packet} {s s' : Splitter} {calls : UInt8 → List Result}

/-- The task has bytes of its message left to take. -/
def Split.Holds : Split → Prop
  | .got len => 0 < len
  | .taken _ | .in_buf _ _ _ | .subtract _ _ => True
  | .enable left data => data.length < left
  | .idle | .check | .get_bits | .timed_out | .in_word _ => False

/-- When `rtos_intertile_rx_len` checks `rx_len`, or returns it after a timeout,
no other task has bytes left. -/
def Alone (s : Splitter) : SplitAct → Prop
  | .task port => s.task port = .check ∨ s.task port = .timed_out → ∀ q, q ≠ port → ¬ (s.task q).Holds
  | _ => True

instance (pc : Split) : Decidable pc.Holds :=
  match pc with
  | .got len => inferInstanceAs (Decidable (0 < len))
  | .taken _ | .in_buf _ _ _ | .subtract _ _ => isTrue trivial
  | .enable left data => inferInstanceAs (Decidable (data.length < left))
  | .idle | .check | .get_bits | .timed_out | .in_word _ => isFalse fun h => h

theorem alone_task_iff {port : UInt8} : (s.task port = .check ∨ s.task port = .timed_out →
    ∀ n < 256, UInt8.ofNat n ≠ port → ¬ (s.task (UInt8.ofNat n)).Holds) ↔ Alone s (.task port) := by
  constructor
  · intro h hpc q hq
    have := h hpc q.toNat q.toNat_lt
    rw [UInt8.ofNat_toNat] at this
    exact this hq
  · exact fun h hpc n _ => h hpc (UInt8.ofNat n)

instance (s : Splitter) : ∀ a, Decidable (Alone s a)
  | .task _ => decidable_of_iff _ alone_task_iff
  | .isr | .timer | .rx_len _ | .get_bits _ | .timeout _ | .rx_data _ _ => isTrue trivial

/-- What the calls have returned. -/
structure SplitReceived (packets : List Packet) (s : Splitter) : Prop where
  timed_out : ∀ port, ∀ r ∈ s.results port, r.timed_out = true → r.len = 0 ∧ r.data = []
  /-- Each length is that of the next message for the port, of which bytes are
  handed out from the first one on, -/
  received : ∀ (port : UInt8) (k : Nat) (r : Result), ((s.results port).filter (!·.timed_out))[k]? = some r →
    ∃ payload, (payloads packets port)[k]? = some payload ∧ r.len = payload.length ∧ r.data <+: payload
  /-- and all of them before the next length. -/
  complete : ∀ (port : UInt8) (k : Nat) (r : Result), ((s.results port).filter (!·.timed_out))[k]? = some r →
    k + 1 < ((s.results port).filter (!·.timed_out)).length → r.data.length = r.len
  asserted : s.failed = false

/-! ## Where the message is -/

/-- The task is not taking anything off the channel. -/
def Split.Quiet : Split → Prop
  | .idle | .check | .get_bits | .timed_out => True
  | .in_word _ | .got _ | .taken _ | .in_buf _ _ _ | .subtract _ _ | .enable _ _ => False

/-- The calls before the present message. -/
structure Recorded (packets done rest : List Packet) (calls : UInt8 → List Result) : Prop where
  split : packets = done ++ rest
  received : ∀ port, (calls port).filter (!·.timed_out) =
    (payloads done port).map fun payload => ⟨false, payload.length, payload⟩
  timed_out : ∀ port, ∀ r ∈ calls port, r.timed_out = true → r = ⟨true, 0, []⟩

/-- The calls with the one whose message is being handed out. -/
def handing (calls : UInt8 → List Result) (p : Packet) (handed : List UInt8) : UInt8 → List Result :=
  Function.update calls p.port (calls p.port ++ [⟨false, p.payload.length, handed⟩])

/-- The interrupt routine is off and has nothing under way. -/
structure Still (link : Receiver) : Prop where
  trigger : link.trigger = false
  isr : link.isr = .idle
  deferred : link.deferred = []
  event_group : link.event_group = 0

/-- The interrupt routine has read the port, and its task has not been woken. -/
inductive Signalled (link : Receiver) (port : UInt8) : Prop
  | isr : link.isr = .read port → link.deferred = [] → link.event_group = 0 → Signalled link port
  | timer : link.isr = .idle → link.deferred = [port] → link.event_group = 0 → Signalled link port
  | bit : link.isr = .idle → link.deferred = [] → link.event_group = flag port → Signalled link port

/-- The task that takes the message `p`. -/
inductive Taking (s : Splitter) (p : Packet) (rest : List Packet) (calls : UInt8 → List Result) : Prop
  | in_word {bs bs' : List UInt8} : s.task p.port = .in_word bs → bs ++ bs' = word p.payload.length →
      s.link.chan = bs' ++ (p.payload ++ stream rest) → s.rx_len = 0 → s.results = calls → Taking s p rest calls
  | got : s.task p.port = .got p.payload.length → s.link.chan = p.payload ++ stream rest →
      s.rx_len = p.payload.length → s.results = calls → Taking s p rest calls
  | taken {handed left : List UInt8} : s.task p.port = .taken left.length → handed ++ left = p.payload → left ≠ [] →
      s.link.chan = left ++ stream rest → s.rx_len = left.length → s.results = handing calls p handed →
      Taking s p rest calls
  | in_buf {handed data left : List UInt8} {len : Nat} : s.task p.port = .in_buf (data ++ left).length len data →
      handed ++ (data ++ left) = p.payload → data ++ left ≠ [] → data.length ≤ len → len ≤ (data ++ left).length →
      s.link.chan = left ++ stream rest → s.rx_len = (data ++ left).length → s.results = handing calls p handed →
      Taking s p rest calls
  | subtract {handed data left : List UInt8} : s.task p.port = .subtract (data ++ left).length data →
      handed ++ (data ++ left) = p.payload → s.link.chan = left ++ stream rest →
      s.rx_len = (data ++ left).length → s.results = handing calls p handed → Taking s p rest calls
  | enable {handed data left : List UInt8} : s.task p.port = .enable (data ++ left).length data →
      handed ++ (data ++ left) = p.payload → s.link.chan = left ++ stream rest →
      s.rx_len = left.length → s.results = handing calls p handed → Taking s p rest calls

/-- What holds in every state. -/
inductive SplitInv (packets : List Packet) (s : Splitter) : Prop
  | between {done rest : List Packet} : Recorded packets done rest s.results → (∀ q, (s.task q).Quiet) → s.rx_len = 0 →
      (s.link.isr = .idle ∧ s.link.trigger = true ∨ s.link.isr = .entered ∧ s.link.trigger = false ∧ rest ≠ []) →
      s.link.deferred = [] → s.link.event_group = 0 → s.link.chan = stream rest → s.failed = false → SplitInv packets s
  | signalled {done : List Packet} {p : Packet} {rest : List Packet} : Recorded packets done (p :: rest) s.results →
      (∀ q, (s.task q).Quiet) → s.rx_len = 0 → s.link.trigger = false → Signalled s.link p.port →
      s.link.chan = word p.payload.length ++ (p.payload ++ stream rest) → s.failed = false → SplitInv packets s
  | taking {done : List Packet} {p : Packet} {rest : List Packet} {calls : UInt8 → List Result} :
      Recorded packets done (p :: rest) calls → (∀ q, q ≠ p.port → (s.task q).Quiet) → Still s.link →
      Taking s p rest calls → s.failed = false → SplitInv packets s
  /-- Nobody takes a message without bytes any further. -/
  | stopped {done rest : List Packet} : Recorded packets done rest s.results → (∀ q, (s.task q).Quiet) →
      s.rx_len = 0 → Still s.link → s.failed = false → SplitInv packets s

theorem split_init (h : (splitter packets).init s) : SplitInv packets s := by
  obtain rfl := h
  exact .between ⟨(List.nil_append packets).symm, fun _ => rfl, fun _ _ hr => by cases hr⟩ (fun _ => trivial) rfl
    (.inl ⟨rfl, rfl⟩) rfl rfl rfl rfl

/-! ## The tasks that take nothing -/

/-- One more call on this port that has timed out. -/
def timed (calls : UInt8 → List Result) (port : UInt8) : UInt8 → List Result :=
  Function.update calls port (calls port ++ [⟨true, 0, []⟩])

theorem Recorded.timed (h : Recorded packets done rest calls) (port : UInt8) :
    Recorded packets done rest (timed calls port) where
  split := h.split
  received q := by
    rw [← h.received q]
    unfold Intertile.timed
    by_cases hq : q = port
    · subst hq
      rw [Function.update_self, List.filter_append]
      exact List.append_nil _
    · rw [Function.update_of_ne hq]
  timed_out q r hr := by
    unfold Intertile.timed at hr
    by_cases hq : q = port
    · subst hq
      rw [Function.update_self] at hr
      rcases List.mem_append.1 hr with hr | hr
      · exact h.timed_out q r hr
      · exact fun _ => List.mem_singleton.1 hr
    · rw [Function.update_of_ne hq] at hr
      exact h.timed_out q r hr

theorem timed_handing {port : UInt8} (hport : port ≠ p.port) (handed : List UInt8) :
    timed (handing calls p handed) port = handing (timed calls port) p handed := by
  unfold timed handing
  rw [Function.update_of_ne hport, Function.update_of_ne (Ne.symm hport), Function.update_comm hport]

theorem Taking.not_quiet (h : Taking s p rest calls) : ¬ (s.task p.port).Quiet := by
  intro hq
  cases h with
  | in_word hpc | got hpc | taken hpc | in_buf hpc | subtract hpc | enable hpc => rw [hpc] at hq; exact hq

/-- A step of another task that leaves the message where it is. -/
theorem Taking.move {calls' : UInt8 → List Result} (h : Taking s p rest calls) (hlink : s'.link = s.link)
    (hlen : s'.rx_len = s.rx_len) (htask : s'.task p.port = s.task p.port) (hcalls : s.results = calls → s'.results = calls')
    (hhanding : ∀ handed, s.results = handing calls p handed → s'.results = handing calls' p handed) :
    Taking s' p rest calls' := by
  cases h with
  | in_word hpc hword hchan h0 hres =>
    exact .in_word (htask.trans hpc) hword (hlink ▸ hchan) (hlen.trans h0) (hcalls hres)
  | got hpc hchan h0 hres => exact .got (htask.trans hpc) (hlink ▸ hchan) (hlen.trans h0) (hcalls hres)
  | taken hpc hpay hne hchan h0 hres =>
    exact .taken (htask.trans hpc) hpay hne (hlink ▸ hchan) (hlen.trans h0) (hhanding _ hres)
  | in_buf hpc hpay hne hge hle hchan h0 hres =>
    exact .in_buf (htask.trans hpc) hpay hne hge hle (hlink ▸ hchan) (hlen.trans h0) (hhanding _ hres)
  | subtract hpc hpay hchan h0 hres =>
    exact .subtract (htask.trans hpc) hpay (hlink ▸ hchan) (hlen.trans h0) (hhanding _ hres)
  | enable hpc hpay hchan h0 hres =>
    exact .enable (htask.trans hpc) hpay (hlink ▸ hchan) (hlen.trans h0) (hhanding _ hres)

/-- One task changes its place, and it was quiet, is now, or is not looked at. -/
theorem quiet_of_update {port : UInt8} {pc : Split} {P : UInt8 → Prop} {task : UInt8 → Split}
    (h : ∀ q, q ≠ port → P q → (task q).Quiet) (hpc : P port → pc.Quiet) :
    ∀ q, P q → (Function.update task port pc q).Quiet := by
  intro q hq
  by_cases hqp : q = port
  · subst hqp
    rw [Function.update_self]
    exact hpc hq
  · rw [Function.update_of_ne hqp]
    exact h q hqp hq

/-- A task that begins to wait, or ends to without a message. -/
theorem SplitInv.quiet {port : UInt8} (h : SplitInv packets s) (pc : Split) (hq : (s.task port).Quiet) (hpc : pc.Quiet)
    (hlink : s'.link = s.link) (hlen : s'.rx_len = s.rx_len) (hfailed : s'.failed = s.failed)
    (htask : s'.task = Function.update s.task port pc) (hres : s'.results = s.results ∨ s'.results = timed s.results port) :
    SplitInv packets s' := by
  have hrec : ∀ {done rest : List Packet}, Recorded packets done rest s.results → Recorded packets done rest s'.results := by
    intro done rest hr
    rcases hres with hres | hres <;> rw [hres]
    · exact hr
    · exact hr.timed port
  have hall : (∀ q, (s.task q).Quiet) → ∀ q, (s'.task q).Quiet := fun hall q => by
    rw [htask]
    exact quiet_of_update (P := fun _ => True) (fun q _ _ => hall q) (fun _ => hpc) q trivial
  cases h with
  | between hr hquiet h0 hisr hdef heg hchan hf =>
    exact .between (hrec hr) (hall hquiet) (hlen.trans h0) (hlink ▸ hisr) (hlink ▸ hdef) (hlink ▸ heg) (hlink ▸ hchan)
      (hfailed.trans hf)
  | signalled hr hquiet h0 htrig hsig hchan hf =>
    exact .signalled (hrec hr) (hall hquiet) (hlen.trans h0) (hlink ▸ htrig) (hlink ▸ hsig) (hlink ▸ hchan)
      (hfailed.trans hf)
  | stopped hr hquiet h0 hstill hf =>
    exact .stopped (hrec hr) (hall hquiet) (hlen.trans h0) (hlink ▸ hstill) (hfailed.trans hf)
  | taking hr hquiet hstill htaking hf =>
    rename_i done p rest calls
    have hport : port ≠ p.port := by rintro rfl; exact htaking.not_quiet hq
    have hothers : ∀ q, q ≠ p.port → (s'.task q).Quiet := by
      rw [htask]
      exact quiet_of_update (P := fun q => q ≠ p.port) (fun q _ => hquiet q) fun _ => hpc
    have hsame : s'.task p.port = s.task p.port := by rw [htask, Function.update_of_ne (Ne.symm hport)]
    rcases hres with hres | hres
    · exact .taking hr hothers (hlink ▸ hstill)
        (htaking.move hlink hlen hsame (fun hc => hres.trans hc) fun _ hc => hres.trans hc) (hfailed.trans hf)
    · refine .taking (hr.timed port) hothers (hlink ▸ hstill)
        (htaking.move hlink hlen hsame (fun hc => ?_) fun handed hc => ?_) (hfailed.trans hf)
      · rw [hres, hc]
      · rw [hres, hc, timed_handing hport]

/-- Where nobody else has bytes left, `rx_len` is 0. -/
theorem SplitInv.rx_len {port : UInt8} (h : SplitInv packets s) (hq : (s.task port).Quiet)
    (halone : ∀ q, q ≠ port → ¬ (s.task q).Holds) : s.rx_len = 0 := by
  cases h with
  | between _ _ h0 | signalled _ _ h0 | stopped _ _ h0 => exact h0
  | taking hr hquiet hstill htaking hf =>
    rename_i done p rest calls
    have hport : p.port ≠ port := by rintro rfl; exact htaking.not_quiet hq
    have hnot := halone p.port hport
    cases htaking with
    | in_word _ _ _ h0 => exact h0
    | got hpc _ h0 =>
      rw [hpc] at hnot
      rw [h0]
      exact Nat.eq_zero_of_not_pos hnot
    | taken hpc | in_buf hpc | subtract hpc => rw [hpc] at hnot; exact absurd trivial hnot
    | enable hpc _ _ h0 =>
      rw [hpc, Split.Holds, List.length_append] at hnot
      omega

/-! ## The interrupt routine and the event bits -/

theorem split_isr (h : SplitInv packets s) (hs : (splitter packets).step s .isr = some s') : SplitInv packets s' := by
  obtain ⟨link, hisr, rfl⟩ := Option.map_eq_some_iff.1 hs
  unfold rtos_intertile_isr at hisr
  cases h with
  | between hr hquiet h0 hor hdef heg hchan hf =>
    rcases hor with ⟨hidle, htrig⟩ | ⟨hentered, htrig, hne⟩
    · rw [hidle] at hisr
      simp only [htrig, true_and] at hisr
      split at hisr
      · rename_i hbytes
        cases hisr
        rw [hchan] at hbytes
        exact .between hr hquiet h0 (.inr ⟨rfl, rfl, stream_ne_nil hbytes⟩) hdef heg hchan hf
      · cases hisr
    · rename_i done rest
      obtain ⟨p, rest, rfl⟩ := List.exists_cons_of_ne_nil hne
      rw [stream_cons] at hchan
      rw [hentered, hchan] at hisr
      cases hisr
      exact .signalled hr hquiet h0 htrig (.isr rfl hdef heg) rfl hf
  | signalled hr hquiet h0 htrig hsig hchan hf =>
    cases hsig with
    | isr hread hdef heg =>
      rw [hread] at hisr
      cases hisr
      exact .signalled hr hquiet h0 htrig (.timer rfl (by rw [hdef]; rfl) heg) hchan hf
    | timer hidle | bit hidle =>
      rw [hidle] at hisr
      simp only [htrig, Bool.false_eq_true, false_and, if_false] at hisr
      cases hisr
  | taking _ _ hstill | stopped _ _ _ hstill =>
    rw [hstill.isr] at hisr
    simp only [hstill.trigger, Bool.false_eq_true, false_and, if_false] at hisr
    cases hisr

theorem split_timer (h : SplitInv packets s) (hs : (splitter packets).step s .timer = some s') : SplitInv packets s' := by
  have hnone : s.link.deferred = [] → SplitInv packets s' := fun hdef => by
    simp only [splitter, hdef] at hs
    cases hs
  cases h with
  | between _ _ _ _ hdef => exact hnone hdef
  | taking _ _ hstill | stopped _ _ _ hstill => exact hnone hstill.deferred
  | signalled hr hquiet h0 htrig hsig hchan hf =>
    cases hsig with
    | isr _ hdef | bit _ hdef => exact hnone hdef
    | timer hidle hdef heg =>
      simp only [splitter, hdef] at hs
      cases hs
      refine .signalled hr hquiet h0 htrig (.bit hidle rfl ?_) hchan hf
      simp [heg]

theorem split_get_bits {port : UInt8} (h : SplitInv packets s) (hs : (splitter packets).step s (.get_bits port) = some s') :
    SplitInv packets s' := by
  simp only [splitter] at hs
  split at hs
  case isFalse => cases hs
  case isTrue hcond =>
    obtain ⟨hpc, hbit⟩ := hcond
    have hnone : s.link.event_group = 0 → SplitInv packets s' := fun heg => by rw [heg] at hbit; simp at hbit
    cases h with
    | between _ _ _ _ _ heg => exact hnone heg
    | taking _ _ hstill | stopped _ _ _ hstill => exact hnone hstill.event_group
    | signalled hr hquiet h0 htrig hsig hchan hf =>
      cases hsig with
      | isr _ _ heg | timer _ _ heg => exact hnone heg
      | bit hidle hdef heg =>
        rw [heg] at hbit
        obtain rfl := flag_and_flag hbit
        cases hs
        refine .taking hr (fun q hq => ?_) ⟨htrig, hidle, hdef, ?_⟩
          (.in_word (Function.update_self ..) (List.nil_append _) hchan h0 rfl) hf
        · simp only [Splitter.goto, Function.update_of_ne hq]
          exact hquiet q
        · simp only [heg, flag_and_not]

/-! ## The task with the message -/

/-- The next byte, if the task takes one off the channel. -/
theorem in_byte_eq_some {port : UInt8} {pc : UInt8 → Split} {b : UInt8} {chan : List UInt8} (hchan : s.link.chan = b :: chan) :
    s.in_byte port pc = some { s.goto port (pc b) with link := { s.link with chan } } := by
  unfold Splitter.in_byte
  rw [hchan]

theorem Taking.others {port : UInt8} {pc : Split} (hquiet : ∀ q, q ≠ port → (s.task q).Quiet) :
    ∀ q, q ≠ port → (Function.update s.task port pc q).Quiet :=
  quiet_of_update (fun q hq _ => hquiet q hq) fun hne => absurd rfl hne

theorem Recorded.handing_timed_out {rest : List Packet} (h : Recorded packets done rest calls) (handed : List UInt8) :
    ∀ port, ∀ r ∈ handing calls p handed port, r.timed_out = true → r = ⟨true, 0, []⟩ := by
  intro port r hr htimed
  unfold handing at hr
  by_cases hport : port = p.port
  · subst hport
    rw [Function.update_self] at hr
    rcases List.mem_append.1 hr with hr | hr
    · exact h.timed_out _ r hr htimed
    · rw [List.mem_singleton.1 hr] at htimed
      cases htimed
  · rw [Function.update_of_ne hport] at hr
    exact h.timed_out port r hr htimed

/-- The task has all of its message. -/
theorem Recorded.next (h : Recorded packets done (p :: rest) calls) :
    Recorded packets (done ++ [p]) rest (handing calls p p.payload) where
  split := by rw [List.append_assoc]; exact h.split
  received q := by
    rw [payloads_append]
    unfold handing
    by_cases hq : q = p.port
    · subst hq
      rw [Function.update_self, List.filter_append, h.received, if_pos rfl, List.map_append]
      rfl
    · rw [Function.update_of_ne hq, if_neg (Ne.symm hq), List.append_nil, h.received]
  timed_out := h.handing_timed_out p.payload

theorem hand_out_handing (handed data : List UInt8) :
    Function.update (handing calls p handed) p.port ((handing calls p handed p.port).modifyLast (hand_out data)) =
      handing calls p (handed ++ data) := by
  unfold handing
  rw [Function.update_self, List.modifyLast_concat, Function.update_idem]
  rfl

theorem Taking.all {port : UInt8} {pc : Split} (hquiet : ∀ q, q ≠ port → (s.task q).Quiet) (hpc : pc.Quiet) (q : UInt8) :
    (Function.update s.task port pc q).Quiet :=
  quiet_of_update (P := fun _ => True) (fun q hq _ => hquiet q hq) (fun _ => hpc) q trivial

theorem next_length {left : List UInt8} (h : left ≠ []) : Split.next left.length = .taken left.length := by
  unfold Split.next
  rw [if_neg fun h0 => h (List.length_eq_zero_iff.1 h0)]

/-- The task with the message goes on in its call. -/
theorem taking_task (hr : Recorded packets done (p :: rest) calls) (hquiet : ∀ q, q ≠ p.port → (s.task q).Quiet)
    (hstill : Still s.link) (h : Taking s p rest calls) (hf : s.failed = false)
    (hs : (splitter packets).step s (.task p.port) = some s') : SplitInv packets s' := by
  have hothers : ∀ pc q, q ≠ p.port → (Function.update s.task p.port pc q).Quiet := fun pc => Taking.others hquiet
  have hsame : ∀ chan, Still { s.link with chan } := fun _ => ⟨hstill.trigger, hstill.isr, hstill.deferred, hstill.event_group⟩
  simp only [splitter, rtos_intertile_rx_len, rtos_intertile_rx_data] at hs
  cases h with
  | in_word hpc hword hchan h0 hres =>
    rename_i bs bs'
    have hlen := congrArg List.length hword
    rw [List.length_append, length_word] at hlen
    rw [hpc] at hs
    cases bs' with
    | nil =>
      rw [List.append_nil] at hword
      have hge : ¬ bs.length < 4 := by rw [List.length_nil] at hlen; omega
      simp only [if_neg hge, Option.some_or, Option.some.injEq] at hs
      subst hs
      rw [hword, ofBE_word p.fits]
      exact .taking hr (hothers _) hstill (.got (Function.update_self ..) hchan rfl hres) hf
    | cons b bs' =>
      have hlt : bs.length < 4 := by rw [List.length_cons] at hlen; omega
      simp only [if_pos hlt, in_byte_eq_some hchan, Option.some_or, Option.some.injEq] at hs
      subst hs
      refine .taking hr (hothers _) (hsame _) (.in_word (Function.update_self ..) ?_ rfl h0 hres) hf
      rw [List.append_assoc, List.singleton_append, hword]
  | got hpc hchan h0 hres =>
    rw [hpc] at hs
    simp only [Splitter.return_len, Option.some_or, Option.some.injEq] at hs
    subst hs
    have hresults : Function.update s.results p.port (s.results p.port ++ [⟨false, s.rx_len, []⟩]) = handing calls p [] := by
      rw [hres, h0]; rfl
    by_cases hne : p.payload = []
    · have hidle : Split.next s.rx_len = .idle := by rw [h0, hne]; rfl
      have hdone := hr.next
      rw [hne, ← hresults] at hdone
      exact .stopped hdone (Taking.all hquiet (by rw [hidle]; trivial))
        (show s.rx_len = 0 by rw [h0, hne]; rfl) hstill hf
    · refine .taking hr (hothers _) hstill (.taken ?_ (List.nil_append p.payload) hne hchan h0 hresults) hf
      simp only [Splitter.goto, Function.update_self, h0, next_length hne]
  | taken hpc => rw [hpc] at hs; cases hs
  | in_buf hpc hpay hne hge hle hchan h0 hres =>
    rename_i handed data left len
    rw [hpc] at hs
    by_cases hlt : data.length < len
    · cases left with
      | nil => rw [List.append_nil] at hle; omega
      | cons b left =>
        simp only [if_pos hlt, in_byte_eq_some hchan, Option.none_or, Option.some.injEq] at hs
        subst hs
        have hsplit : data ++ b :: left = data ++ [b] ++ left := by rw [List.append_assoc, List.singleton_append]
        rw [hsplit] at hpay hne hle h0 
        refine .taking hr (hothers _) (hsame _)
          (.in_buf ?_ hpay hne (by rw [List.length_append]; exact hlt) hle rfl h0 hres) hf
        simp only [Splitter.goto, Function.update_self, hsplit]
    · simp only [if_neg hlt, Option.none_or, Option.some.injEq] at hs
      subst hs
      exact .taking hr (hothers _) hstill (.subtract (Function.update_self ..) hpay hchan h0 hres) hf
  | subtract hpc hpay hchan h0 hres =>
    rename_i handed data left
    rw [hpc] at hs
    simp only [Option.none_or, Option.some.injEq] at hs
    subst hs
    refine .taking hr (hothers _) hstill (.enable (Function.update_self ..) hpay hchan ?_ hres) hf
    have hfits := p.fits
    rw [← hpay] at hfits
    simp only [List.length_append] at hfits h0
    dsimp only [Splitter.goto]
    omega
  | enable hpc hpay hchan h0 hres =>
    rename_i handed data left
    rw [hpc] at hs
    simp only [Option.none_or, Option.some.injEq] at hs
    subst hs
    have hleft : (data ++ left).length - data.length = left.length := by rw [List.length_append]; omega
    have hresults : Function.update s.results p.port ((s.results p.port).modifyLast (hand_out data)) =
        handing calls p (handed ++ data) := by rw [hres]; exact hand_out_handing handed data
    rw [← List.append_assoc] at hpay
    by_cases hne : left = []
    · have hidle : Split.next ((data ++ left).length - data.length) = .idle := by rw [hleft, hne]; rfl
      have hdone := hr.next
      have hzero : s.rx_len = 0 := by rw [h0, hne]; rfl
      rw [hne, List.append_nil] at hpay
      rw [← hpay, ← hresults] at hdone
      refine .between hdone (Taking.all hquiet (by rw [hidle]; trivial)) hzero (.inl ⟨hstill.isr, ?_⟩) hstill.deferred
        hstill.event_group (by rw [hne] at hchan; exact hchan) hf
      simp only [Splitter.return_data, Splitter.goto, hzero, decide_true, Bool.or_true]
    · have hpos : s.rx_len ≠ 0 := fun hz => hne (List.length_eq_zero_iff.1 (h0.symm.trans hz))
      refine .taking hr (hothers _) ⟨?_, hstill.isr, hstill.deferred, hstill.event_group⟩
        (.taken ?_ hpay hne hchan h0 hresults) hf
      · simp only [Splitter.return_data, Splitter.goto, hstill.trigger, hpos, decide_false, Bool.or_false]
      · simp only [Splitter.return_data, Splitter.goto, Function.update_self, hleft, next_length hne]

/-! ## Every step -/

theorem split_rx_data {port : UInt8} {len : Nat} (h : SplitInv packets s)
    (hs : (splitter packets).step s (.rx_data port len) = some s') : SplitInv packets s' := by
  simp only [splitter] at hs
  split at hs
  case h_2 => cases hs
  case h_1 left hport =>
    have hbusy : ¬ (s.task port).Quiet := by rw [hport]; exact fun h => h
    cases h with
    | between _ hquiet | signalled _ hquiet | stopped _ hquiet => exact absurd (hquiet port) hbusy
    | taking hr hquiet hstill htaking hf =>
      rename_i done p rest calls
      obtain rfl : port = p.port := by
        by_contra hne
        exact hbusy (hquiet port hne)
      cases htaking with
      | in_word hpc | got hpc | in_buf hpc | subtract hpc | enable hpc => rw [hport] at hpc; cases hpc
      | taken hpc hpay hne hchan h0 hres =>
        rename_i handed rest_of
        rw [hport] at hpc
        cases hpc
        cases hs
        have hpay' : handed ++ ([] ++ rest_of) = p.payload := hpay
        have hle : (if len ≤ s.rx_len then len else s.rx_len) ≤ ([] ++ rest_of).length := by
          rw [h0]
          split
          · assumption
          · exact Nat.le_refl _
        refine .taking hr (Taking.others hquiet) hstill (.in_buf ?_ hpay' hne (Nat.zero_le _) hle hchan h0 hres) hf
        exact Function.update_self ..

theorem split_task {port : UInt8} (h : SplitInv packets s) (halone : Alone s (.task port))
    (hs : (splitter packets).step s (.task port) = some s') : SplitInv packets s' := by
  by_cases hq : (s.task port).Quiet
  · cases hpc : s.task port with
    | idle | get_bits => simp only [splitter, rtos_intertile_rx_len, rtos_intertile_rx_data, hpc] at hs; cases hs
    | check =>
      have h0 := h.rx_len hq (halone (.inl hpc))
      simp only [splitter, rtos_intertile_rx_len, hpc, if_pos h0, Option.some_or, Option.some.injEq] at hs
      subst hs
      exact h.quiet .get_bits hq trivial rfl rfl rfl rfl (.inl rfl)
    | timed_out =>
      have h0 := h.rx_len hq (halone (.inr hpc))
      simp only [splitter, rtos_intertile_rx_len, hpc, Splitter.return_len, h0, Option.some_or, Option.some.injEq] at hs
      subst hs
      exact h.quiet .idle hq trivial rfl rfl rfl rfl (.inr rfl)
    | in_word | got | taken | in_buf | subtract | enable => rw [hpc] at hq; exact hq.elim
  · cases h with
    | between _ hquiet | signalled _ hquiet | stopped _ hquiet => exact absurd (hquiet port) hq
    | taking hr hquiet hstill htaking hf =>
      rename_i done p rest calls
      obtain rfl : port = p.port := by
        by_contra hne
        exact hq (hquiet port hne)
      exact taking_task hr hquiet hstill htaking hf hs

theorem split_step {a : SplitAct} (h : SplitInv packets s) (halone : Alone s a)
    (hs : (splitter packets).step s a = some s') : SplitInv packets s' := by
  cases a with
  | isr => exact split_isr h hs
  | timer => exact split_timer h hs
  | rx_len port =>
    simp only [splitter] at hs
    split at hs
    · rename_i hcond
      cases hs
      exact h.quiet .check (by rw [hcond.1]; trivial) trivial rfl rfl rfl rfl (.inl rfl)
    · cases hs
  | get_bits port => exact split_get_bits h hs
  | timeout port =>
    simp only [splitter] at hs
    split at hs
    · rename_i hcond
      cases hs
      exact h.quiet .timed_out (by rw [hcond.1]; trivial) trivial rfl rfl rfl rfl (.inl rfl)
    · cases hs
  | rx_data port len => exact split_rx_data h hs
  | task port => exact split_task h halone hs

theorem split_reachable (h : (splitter packets).Reachable Alone s) : SplitInv packets s :=
  h.inv (fun _ => split_init) fun _ _ _ hinv halone hs => split_step hinv halone hs

/-! ## What the calls return -/

theorem payloads_split (packets : List Packet) (more : List Packet) (port : UInt8) :
    payloads (packets ++ more) port = payloads packets port ++ payloads more port := by
  unfold payloads
  rw [List.filter_append, List.map_append]

/-- Whatever has been handed out of the present message. -/
theorem SplitReceived.of_filter {results : UInt8 → List Result} (hsplit : packets = done ++ rest)
    (hres : s.results = results) (hf : s.failed = false)
    (htimed : ∀ port, ∀ r ∈ results port, r.timed_out = true → r = ⟨true, 0, []⟩)
    (hlast : ∀ port, (results port).filter (!·.timed_out) = (payloads done port).map (fun payload => ⟨false, payload.length, payload⟩) ∨
      ∃ payload handed later, handed <+: payload ∧ payloads rest port = payload :: later ∧
        (results port).filter (!·.timed_out) = (payloads done port).map (fun payload => ⟨false, payload.length, payload⟩) ++
          [⟨false, payload.length, handed⟩]) : SplitReceived packets s := by
  have hdone : ∀ port k (r : Result), k < (payloads done port).length →
      ((payloads done port).map (fun payload => (⟨false, payload.length, payload⟩ : Result)))[k]? = some r →
      ∃ payload, (payloads packets port)[k]? = some payload ∧ r = ⟨false, payload.length, payload⟩ := by
    intro port k r hk hr
    rw [List.getElem?_map, Option.map_eq_some_iff] at hr
    obtain ⟨payload, hpay, rfl⟩ := hr
    refine ⟨payload, ?_, rfl⟩
    rw [hsplit, payloads_split, List.getElem?_append_left hk, hpay]
  have hbelow : ∀ port k (r : Result), ((results port).filter (!·.timed_out))[k]? = some r →
      k < (payloads done port).length →
      ∃ payload, (payloads packets port)[k]? = some payload ∧ r = ⟨false, payload.length, payload⟩ := by
    intro port k r hr hk
    rcases hlast port with heq | ⟨payload, handed, later, -, -, heq⟩
    · rw [heq] at hr
      exact hdone port k r hk hr
    · rw [heq, List.getElem?_append_left (by rw [List.length_map]; exact hk)] at hr
      exact hdone port k r hk hr
  exact {
    timed_out := fun port r hr htrue => by
      rw [hres] at hr
      rw [htimed port r hr htrue]
      exact ⟨rfl, rfl⟩
    received := fun port k r hr => by
      rw [hres] at hr
      by_cases hk : k < (payloads done port).length
      · obtain ⟨payload, hpay, rfl⟩ := hbelow port k r hr hk
        exact ⟨payload, hpay, rfl, List.prefix_refl _⟩
      · rcases hlast port with heq | ⟨payload, handed, later, hpre, hrest, heq⟩
        · rw [heq, List.getElem?_eq_none (by rw [List.length_map]; omega)] at hr
          cases hr
        · rw [heq, List.getElem?_append_right (by rw [List.length_map]; omega), List.length_map] at hr
          obtain ⟨hlt, hr⟩ := List.getElem?_eq_some_iff.1 hr
          rw [List.length_singleton] at hlt
          obtain rfl : k = (payloads done port).length := by omega
          simp only [Nat.sub_self, List.getElem_singleton] at hr
          subst hr
          refine ⟨payload, ?_, rfl, hpre⟩
          rw [hsplit, payloads_split, hrest, List.getElem?_append_right (Nat.le_refl _), Nat.sub_self]
          rfl
    complete := fun port k r hr hlt => by
      rw [hres] at hr hlt
      have hk : k < (payloads done port).length := by
        rcases hlast port with heq | ⟨payload, handed, later, -, -, heq⟩
        · rw [heq, List.length_map] at hlt
          omega
        · rw [heq, List.length_append, List.length_map, List.length_singleton] at hlt
          omega
      obtain ⟨payload, -, rfl⟩ := hbelow port k r hr hk
      rfl
    asserted := hf }

theorem Recorded.returned (h : Recorded packets done rest s.results) (hf : s.failed = false) : SplitReceived packets s :=
  .of_filter h.split rfl hf h.timed_out fun port => .inl (h.received port)

theorem Recorded.handed {handed : List UInt8} (h : Recorded packets done (p :: rest) calls) (hpre : handed <+: p.payload)
    (hres : s.results = handing calls p handed) (hf : s.failed = false) : SplitReceived packets s := by
  refine .of_filter h.split hres hf (h.handing_timed_out handed) fun port => ?_
  unfold handing
  by_cases hport : port = p.port
  · subst hport
    rw [Function.update_self, List.filter_append, h.received]
    exact .inr ⟨p.payload, handed, payloads rest p.port, hpre, by simp [payloads], rfl⟩
  · rw [Function.update_of_ne hport]
    exact .inl (h.received port)

/-- Any packets, tasks, timeouts and interleaving. -/
theorem split_received (h : (splitter packets).Reachable Alone s) : SplitReceived packets s := by
  have hinv := split_reachable h
  cases hinv with
  | between hr _ _ _ _ _ _ hf | signalled hr _ _ _ _ _ hf | stopped hr _ _ _ hf => exact hr.returned hf
  | taking hr _ _ htaking hf =>
    cases htaking with
    | in_word _ _ _ _ hres | got _ _ _ hres => exact (hres ▸ hr).returned hf
    | taken _ hpay _ _ _ hres | in_buf _ hpay _ _ _ _ _ hres | subtract _ hpay _ _ hres | enable _ hpay _ _ hres =>
      exact hr.handed ⟨_, hpay⟩ hres hf

/-- Three bytes for port 1. -/
def three : List Packet := [⟨1, [7, 8, 9], by decide⟩]

/-- After `rtos_intertile_start`. -/
def split_started : Splitter :=
  ⟨⟨stream three, true, .idle, [], 0, fun _ => .idle, fun _ => [], []⟩, 0, fun _ => .idle, fun _ => [], false⟩

/-- The message reaches the event bit of its port. -/
def signal : List SplitAct := [.isr, .isr, .isr, .timer]

/-- `rtos_intertile_rx_len` with a message. -/
def take_len (port : UInt8) : List SplitAct := [.rx_len port, .task port, .get_bits port] ++ List.replicate 6 (.task port)

/-- `rtos_intertile_rx_data` for so many bytes. -/
def take_data (port : UInt8) (len : Nat) : List SplitAct := .rx_data port len :: List.replicate (len + 3) (.task port)

/-- A wait that times out, and the message in two parts. -/
theorem split_received_parts : ∃ s, (splitter three).Reachable Alone s ∧
    s.results 1 = [⟨true, 0, []⟩, ⟨false, 3, [7, 8, 9]⟩] ∧ SplitReceived three s := by
  have hrun : ((splitter three).exec Alone split_started (List.flatten
      [[.rx_len 1, .task 1, .timeout 1, .task 1], signal, take_len 1, take_data 1 2, take_data 1 1])).map
        (fun s => s.results 1) = some [⟨true, 0, []⟩, ⟨false, 3, [7, 8, 9]⟩] := by decide +kernel
  obtain ⟨s, hs, hobs⟩ := Option.map_eq_some_iff.1 hrun
  have hreach := Machine.exec_reachable rfl hs
  exact ⟨s, hreach, hobs, split_received hreach⟩

/-- The task of port 2 waits and times out while that of port 1 has its message,
takes the first byte of it, and the task of port 3 fails its assertion. -/
theorem split_received_shared : ∃ s, (splitter three).Reachable Machine.Free s ∧
    s.results 2 = [⟨true, 3, [7]⟩] ∧ s.failed = true ∧ ¬ SplitReceived three s := by
  have hrun : ((splitter three).exec Machine.Free split_started (List.flatten
      [[.rx_len 2, .task 2], signal, take_len 1, [.timeout 2, .task 2], take_data 2 1, [.rx_len 3, .task 3]])).map
        (fun s => (s.results 2, s.failed)) = some ([⟨true, 3, [7]⟩], true) := by decide +kernel
  obtain ⟨s, hs, hobs⟩ := Option.map_eq_some_iff.1 hrun
  obtain ⟨hres, hf⟩ := Prod.mk.inj hobs
  refine ⟨s, Machine.exec_reachable rfl hs, hres, hf, fun h => ?_⟩
  have hasserted := h.asserted
  rw [hf] at hasserted
  cases hasserted

end Intertile
