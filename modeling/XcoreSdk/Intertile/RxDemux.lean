import XcoreSdk.Intertile.Rx
import Mathlib.Data.List.Infix
/-!
# Every payload reaches its port

One packet is under way at a time. `Stage` lists where it can be: between the
packets, with the interrupt routine, with the timer task, in its event bit, or
with its task. Each step moves the packet to its next stage or leaves the
stage as it is; a receive that times out does the latter.
-/

namespace Intertile

/-- The payloads for one port, in sending order. -/
def payloads (packets : List Packet) (port : UInt8) : List (List UInt8) :=
  (packets.filter (·.port = port)).map Packet.payload

def stream (packets : List Packet) : List UInt8 := packets.flatMap Packet.frame

/-- The task is not taking anything off the channel. -/
def Quiet (pc : Rx) : Prop := pc = .idle ∨ pc = .get_bits

/-- No step is left but a task's beginning or giving up to wait. -/
def Stuck (packets : List Packet) (s : Receiver) : Prop :=
  (receiver packets).step s .isr = none ∧ (receiver packets).step s .timer = none ∧
    ∀ port, (receiver packets).step s (.get_bits port) = none ∧ (receiver packets).step s (.recv port) = none

/-- A step that moves a packet. -/
def RxAct.works : RxAct → Bool
  | .rx _ | .timeout _ => false
  | .isr | .timer | .get_bits _ | .recv _ => true

/-- What the tasks have obtained: the packets `done` are complete at their
ports, and those in `rest` are still there to be received. -/
structure Demuxed (packets done rest : List Packet) (s : Receiver) : Prop where
  split : packets = done ++ rest
  obtained : ∀ port, s.obtained port = payloads done port
  chan : s.chan <:+ stream rest
  /-- The interrupt routine reads at the beginning of a frame only. -/
  isr_reads : ∀ c ∈ s.isr_reads, ∃ later, later <:+ packets ∧ c = stream later
  /-- A run from here on has only so many steps besides a task's beginning or giving up to wait. -/
  bounded : ∃ n, ∀ as s', (receiver packets).Run Machine.Free s as s' → as.countP RxAct.works ≤ n
  /-- While the tasks of all ports receive, nothing but the end of the packets stops the link. -/
  complete : Stuck packets s → (∀ p ∈ packets, s.task p.port ≠ .idle) → rest = []

/-! ## Event bits -/

@[simp] theorem flag_ne_zero {port : UInt8} (h : port.toNat < maxPorts) : flag port ≠ 0 := by
  intro h0
  have := congrArg (BitVec.getLsbD · port.toNat) h0
  have hlt : port.toNat < 32 := h.trans (by decide)
  simp [flag, hlt] at this

theorem flag_and_flag {p q : UInt8} (h : flag q &&& flag p ≠ 0) : q = p := by
  by_contra hne
  refine h (BitVec.eq_of_getLsbD_eq fun i hi => ?_)
  have hne' : q.toNat ≠ p.toNat := fun h => hne (UInt8.toNat_inj.1 h)
  simp only [flag, BitVec.getLsbD_and, BitVec.getLsbD_twoPow]
  by_cases hi' : q.toNat = i
  · subst hi'
    simp [Ne.symm hne']
  · simp [hi']

/-- The task whose event bit is set is the packet's. -/
theorem port_of_bit {p q : UInt8} (hp : p.toNat < maxPorts) (h : flag p &&& flag q ≠ 0) : p = q := by
  by_contra hne
  rcases Nat.lt_or_ge q.toNat maxPorts with hlt | hge
  · exact hne (flag_and_flag h)
  · refine h (BitVec.eq_of_getLsbD_eq fun i hi => ?_)
    simp only [flag, BitVec.getLsbD_and, BitVec.getLsbD_twoPow]
    by_cases hi' : p.toNat = i
    · subst hi'
      have hne' : q.toNat ≠ p.toNat := by omega
      simp [hne']
    · simp [hi']

theorem flag_and_not (port : UInt8) : flag port &&& ~~~ flag port = 0 := by
  simp [BitVec.and_not_self]

/-! ## The stages of a packet -/

/-- Where the packet under way is, `rest` being the packets behind it. -/
inductive Stage (s : Receiver) (p : Packet) (rest : List Packet) : Prop
  | isr : s.isr = .read p.port → s.deferred = [] → s.event_group = 0 → (∀ q, Quiet (s.task q)) →
      s.chan = word p.payload.length ++ (p.payload ++ stream rest) → Stage s p rest
  | timer : s.isr = .idle → s.deferred = [p.port] → s.event_group = 0 → (∀ q, Quiet (s.task q)) →
      s.chan = word p.payload.length ++ (p.payload ++ stream rest) → Stage s p rest
  | bit : s.isr = .idle → s.deferred = [] → s.event_group = flag p.port → (∀ q, Quiet (s.task q)) →
      s.chan = word p.payload.length ++ (p.payload ++ stream rest) → Stage s p rest
  | len {bs bs' : List UInt8} : s.isr = .idle → s.deferred = [] → s.event_group = 0 →
      s.task p.port = .in_word bs → (∀ q, q ≠ p.port → Quiet (s.task q)) →
      bs ++ bs' = word p.payload.length → s.chan = bs' ++ (p.payload ++ stream rest) → Stage s p rest
  | buf {msg msg' : List UInt8} : s.isr = .idle → s.deferred = [] → s.event_group = 0 →
      s.task p.port = .in_buf p.payload.length msg → (∀ q, q ≠ p.port → Quiet (s.task q)) →
      msg ++ msg' = p.payload → s.chan = msg' ++ stream rest → Stage s p rest
  | enable : s.isr = .idle → s.deferred = [] → s.event_group = 0 →
      s.task p.port = .enable p.payload → (∀ q, q ≠ p.port → Quiet (s.task q)) →
      s.chan = stream rest → Stage s p rest

/-- Between two packets. -/
structure Between (s : Receiver) (rest : List Packet) : Prop where
  isr : s.isr = .idle ∧ s.trigger = true ∨ s.isr = .entered ∧ s.trigger = false ∧ rest ≠ []
  deferred : s.deferred = []
  event_group : s.event_group = 0
  quiet : ∀ q, Quiet (s.task q)
  chan : s.chan = stream rest

/-- What holds in every state: the packets `done` have been obtained. -/
structure Progress (packets done rest : List Packet) (s : Receiver) : Prop where
  split : packets = done ++ rest
  obtained : ∀ port, s.obtained port = payloads done port
  isr_reads : ∀ c ∈ s.isr_reads, ∃ later, later <:+ packets ∧ c = stream later

inductive RxInv (packets : List Packet) (s : Receiver) : Prop
  | between {done rest} : Progress packets done rest s → Between s rest → RxInv packets s
  | under_way {done p rest} : Progress packets done (p :: rest) s → s.trigger = false → Stage s p rest →
      RxInv packets s

variable {packets done rest : List Packet} {p : Packet} {s s' : Receiver}

theorem rx_init (h : (receiver packets).init s) : RxInv packets s := by
  cases h
  exact .between ⟨(List.nil_append packets).symm, fun _ => rfl, fun _ hc => nomatch hc⟩
    ⟨.inl ⟨rfl, rfl⟩, rfl, rfl, fun _ => .inl rfl, rfl⟩

@[simp] theorem rx_goto_self (port : UInt8) (pc : Rx) : (s.goto port pc).task port = pc := by simp [Receiver.goto]

theorem rx_goto_of_ne {port q : UInt8} (pc : Rx) (h : q ≠ port) : (s.goto port pc).task q = s.task q := by
  simp [Receiver.goto, h]

theorem quiet_rx {port : UInt8} (h : Quiet (s.task port)) : rtos_intertile_rx s port = none := by
  unfold rtos_intertile_rx
  rcases h with h | h <;> rw [h]

/-- The task of a port other than the packet's does not read. -/
theorem Stage.quiet_of_ne (h : Stage s p rest) {q : UInt8} (hq : q ≠ p.port) : Quiet (s.task q) := by
  cases h with
  | isr _ _ _ hquiet _ | timer _ _ _ hquiet _ | bit _ _ _ hquiet _ => exact hquiet q
  | len _ _ _ _ hquiet _ _ | buf _ _ _ _ hquiet _ _ | enable _ _ _ _ hquiet _ => exact hquiet q hq

/-! ## Starting and giving up to wait -/

theorem quiet_update {port : UInt8} {pc : Rx} {P : UInt8 → Prop} (h : ∀ q, P q → Quiet (s.task q)) (hpc : Quiet pc) :
    ∀ q, P q → Quiet ((s.goto port pc).task q) := by
  intro q hq
  by_cases hqp : q = port
  · rw [hqp, rx_goto_self]
    exact hpc
  · rw [rx_goto_of_ne pc hqp]
    exact h q hq

/-- A task that begins or ends to wait does not move the packet. -/
theorem RxInv.quiet {port : UInt8} {pc : Rx} (h : RxInv packets s) (hq : Quiet (s.task port)) (hpc : Quiet pc) :
    RxInv packets (s.goto port pc) := by
  cases h with
  | between hp hb =>
    exact .between ⟨hp.split, hp.obtained, hp.isr_reads⟩
      ⟨hb.isr, hb.deferred, hb.event_group,
        fun q => quiet_update (P := fun _ => True) (fun q _ => hb.quiet q) hpc q trivial, hb.chan⟩
  | under_way hp ht hst =>
    rename_i done p rest
    refine .under_way ⟨hp.split, hp.obtained, hp.isr_reads⟩ ht ?_
    have hkeep : ∀ {pc' : Rx}, s.task p.port = pc' → ¬ Quiet pc' → (s.goto port pc).task p.port = pc' := by
      intro pc' hpc' hnq
      by_cases hpp : p.port = port
      · rw [← hpc', hpp] at hnq
        exact absurd hq hnq
      · rw [rx_goto_of_ne pc hpp, hpc']
    have hnq : ∀ {pc' : Rx}, (pc' ≠ .idle ∧ pc' ≠ .get_bits) → ¬ Quiet pc' := fun h hq => hq.elim h.1 h.2
    cases hst with
    | isr h1 h2 h3 h4 h5 =>
      exact .isr h1 h2 h3 (fun q => quiet_update (P := fun _ => True) (fun q _ => h4 q) hpc q trivial) h5
    | timer h1 h2 h3 h4 h5 =>
      exact .timer h1 h2 h3 (fun q => quiet_update (P := fun _ => True) (fun q _ => h4 q) hpc q trivial) h5
    | bit h1 h2 h3 h4 h5 =>
      exact .bit h1 h2 h3 (fun q => quiet_update (P := fun _ => True) (fun q _ => h4 q) hpc q trivial) h5
    | len h1 h2 h3 h4 h5 h6 h7 =>
      exact .len h1 h2 h3 (hkeep h4 (hnq ⟨nofun, nofun⟩)) (quiet_update h5 hpc) h6 h7
    | buf h1 h2 h3 h4 h5 h6 h7 =>
      exact .buf h1 h2 h3 (hkeep h4 (hnq ⟨nofun, nofun⟩)) (quiet_update h5 hpc) h6 h7
    | enable h1 h2 h3 h4 h5 h6 =>
      exact .enable h1 h2 h3 (hkeep h4 (hnq ⟨nofun, nofun⟩)) (quiet_update h5 hpc) h6

/-! ## The interrupt routine -/

theorem stream_cons (p : Packet) (rest : List Packet) :
    stream (p :: rest) = p.port :: (word p.payload.length ++ (p.payload ++ stream rest)) := by
  simp [stream, Packet.frame, header]

theorem stream_ne_nil (h : stream packets ≠ []) : packets ≠ [] := by
  rintro rfl
  exact h rfl

theorem isr_step (h : RxInv packets s) (hs : rtos_intertile_isr s = some s') : RxInv packets s' := by
  unfold rtos_intertile_isr at hs
  cases h with
  | between hp hb =>
    rename_i done rest
    rcases hb.isr with ⟨hisr, htrig⟩ | ⟨hisr, htrig, hne⟩
    · rw [hisr] at hs
      simp only [htrig, true_and] at hs
      split at hs
      · rename_i hchan
        cases hs
        rw [hb.chan] at hchan
        exact .between ⟨hp.split, hp.obtained, hp.isr_reads⟩
          ⟨.inr ⟨rfl, rfl, stream_ne_nil hchan⟩, hb.deferred, hb.event_group, hb.quiet, hb.chan⟩
      · cases hs
    · obtain ⟨p, rest, rfl⟩ := List.exists_cons_of_ne_nil hne
      have hchan := hb.chan
      rw [stream_cons] at hchan
      rw [hisr, hchan] at hs
      simp only [Option.some.injEq] at hs
      subst hs
      refine .under_way ⟨hp.split, hp.obtained, fun c hc => ?_⟩ htrig
        (.isr rfl hb.deferred hb.event_group hb.quiet rfl)
      rcases List.mem_append.1 hc with hc | hc
      · exact hp.isr_reads c hc
      · obtain rfl := List.mem_singleton.1 hc
        exact ⟨p :: rest, ⟨done, hp.split.symm⟩, (stream_cons p rest).symm⟩
  | under_way hp ht hst =>
    cases hst with
    | isr h1 h2 h3 h4 h5 =>
      rw [h1] at hs
      cases hs
      exact .under_way ⟨hp.split, hp.obtained, hp.isr_reads⟩ ht (.timer rfl (by simp [h2]) h3 h4 h5)
    | timer h1 | bit h1 | len h1 | buf h1 | enable h1 =>
      rw [h1] at hs
      simp only [ht, Bool.false_eq_true, false_and, if_false] at hs
      cases hs

/-! ## The event bit -/

theorem timer_step (h : RxInv packets s) (hs : (receiver packets).step s .timer = some s') : RxInv packets s' := by
  simp only [receiver] at hs
  cases h with
  | between hp hb =>
    rw [hb.deferred] at hs
    cases hs
  | under_way hp ht hst =>
    cases hst with
    | timer h1 h2 h3 h4 h5 =>
      rw [h2] at hs
      cases hs
      exact .under_way ⟨hp.split, hp.obtained, hp.isr_reads⟩ ht (.bit h1 rfl (by simp [h3]) h4 h5)
    | isr _ h2 | bit _ h2 | len _ h2 | buf _ h2 | enable _ h2 =>
      rw [h2] at hs
      cases hs

theorem get_bits_step {port : UInt8} (hports : ∀ p ∈ packets, p.port.toNat < maxPorts) (h : RxInv packets s)
    (hs : (receiver packets).step s (.get_bits port) = some s') : RxInv packets s' := by
  simp only [receiver] at hs
  split at hs
  · rename_i hcond
    obtain ⟨htask, hbit⟩ := hcond
    cases hs
    cases h with
    | between hp hb =>
      rw [hb.event_group] at hbit
      exact absurd (by simp) hbit
    | under_way hp ht hst =>
      rename_i done p rest
      cases hst with
      | bit h1 h2 h3 h4 h5 =>
        have hport : p.port = port := port_of_bit (hports p (by rw [hp.split]; simp)) (h3 ▸ hbit)
        subst hport
        refine .under_way ⟨hp.split, hp.obtained, hp.isr_reads⟩ ht
          (.len h1 h2 (by simp [h3]) (by simp [Receiver.goto]) (fun q hq => ?_) (List.nil_append _) h5)
        exact (rx_goto_of_ne (s := s) (.in_word []) hq) ▸ h4 q
      | isr _ _ h3 | timer _ _ h3 | len _ _ h3 | buf _ _ h3 | enable _ _ h3 =>
        rw [h3] at hbit
        exact absurd (by simp) hbit
  · cases hs

/-! ## The task -/

theorem payloads_append (packets : List Packet) (p : Packet) (port : UInt8) :
    payloads (packets ++ [p]) port = payloads packets port ++ if p.port = port then [p.payload] else [] := by
  unfold payloads
  rw [List.filter_append, List.map_append]
  congr 1
  by_cases h : p.port = port <;> simp [h]

theorem recv_step {port : UInt8} (h : RxInv packets s) (hs : rtos_intertile_rx s port = some s') :
    RxInv packets s' := by
  have hbusy : ¬ Quiet (s.task port) := fun hq => by
    rw [quiet_rx hq] at hs
    cases hs
  cases h with
  | between hp hb => exact absurd (hb.quiet port) hbusy
  | under_way hp ht hst =>
    rename_i done p rest
    have hport : port = p.port := by
      by_contra hne
      exact hbusy (hst.quiet_of_ne hne)
    subst hport
    have hquiet : ∀ (pc : Rx) (q : UInt8), q ≠ p.port → Quiet ((s.goto p.port pc).task q) := by
      intro pc q hq
      rw [rx_goto_of_ne pc hq]
      exact hst.quiet_of_ne hq
    have hp' : ∀ t : Receiver, t.obtained = s.obtained → t.isr_reads = s.isr_reads → Progress packets done (p :: rest) t :=
      fun t h1 h2 => ⟨hp.split, by rw [h1]; exact hp.obtained, by rw [h2]; exact hp.isr_reads⟩
    unfold rtos_intertile_rx at hs
    cases hst with
    | isr _ _ _ h4 | timer _ _ _ h4 | bit _ _ _ h4 => exact absurd (h4 p.port) hbusy
    | len h1 h2 h3 h4 h5 h6 h7 =>
      rename_i bs bs'
      rw [h4] at hs
      have hlen := congrArg List.length h6
      simp only [List.length_append, length_word] at hlen
      cases bs' with
      | nil =>
        rw [List.append_nil] at h6
        have h4' : ¬ bs.length < 4 := by simp only [List.length_nil] at hlen; omega
        simp only [if_neg h4', Option.some.injEq] at hs
        subst hs
        refine .under_way (hp' _ rfl rfl) ht (.buf h1 h2 h3 ?_ (hquiet _) (List.nil_append _) h7)
        rw [rx_goto_self, h6, ofBE_word p.fits]
      | cons b bs' =>
        have h4' : bs.length < 4 := by simp only [List.length_cons] at hlen; omega
        rw [List.cons_append] at h7
        simp only [if_pos h4', h7, Option.some.injEq] at hs
        subst hs
        have h6' : (bs ++ [b]) ++ bs' = word p.payload.length := by
          rw [List.append_assoc, List.singleton_append, h6]
        exact .under_way (hp' _ rfl rfl) ht (.len h1 h2 h3 (rx_goto_self _ _) (hquiet _) h6' rfl)
    | buf h1 h2 h3 h4 h5 h6 h7 =>
      rename_i msg msg'
      rw [h4] at hs
      have hlen := congrArg List.length h6
      rw [List.length_append] at hlen
      cases msg' with
      | nil =>
        rw [List.append_nil] at h6
        have hge : ¬ msg.length < p.payload.length := by rw [h6]; omega
        simp only [if_neg hge, Option.some.injEq] at hs
        subst hs
        exact .under_way (hp' _ rfl rfl) ht (.enable h1 h2 h3 (by rw [rx_goto_self, h6]) (hquiet _) h7)
      | cons b msg' =>
        have hlt : msg.length < p.payload.length := by simp only [List.length_cons] at hlen; omega
        rw [List.cons_append] at h7
        simp only [if_pos hlt, h7, Option.some.injEq] at hs
        subst hs
        have h6' : (msg ++ [b]) ++ msg' = p.payload := by rw [List.append_assoc, List.singleton_append, h6]
        exact .under_way (hp' _ rfl rfl) ht (.buf h1 h2 h3 (rx_goto_self _ _) (hquiet _) h6' rfl)
    | enable h1 h2 h3 h4 h5 h6 =>
      rw [h4] at hs
      simp only [Option.some.injEq] at hs
      subst hs
      have hsplit : packets = (done ++ [p]) ++ rest := by simp [hp.split]
      refine .between ⟨hsplit, fun q => ?_, hp.isr_reads⟩
        ⟨.inl ⟨h1, rfl⟩, h2, h3, fun q => ?_, h6⟩
      · rw [payloads_append, ← hp.obtained q]
        by_cases hq : p.port = q
        · subst hq
          simp
        · simp [hq, Function.update_of_ne (Ne.symm hq)]
      · by_cases hq : q = p.port
        · subst hq
          exact .inl (by simp [Receiver.goto])
        · exact (rx_goto_of_ne (s := s) .idle hq) ▸ h5 q hq

theorem rx_step {a : RxAct} (hports : ∀ p ∈ packets, p.port.toNat < maxPorts) (h : RxInv packets s)
    (hs : (receiver packets).step s a = some s') : RxInv packets s' := by
  cases a with
  | isr => exact isr_step h hs
  | timer => exact timer_step h hs
  | rx port =>
    simp only [receiver] at hs
    split at hs
    · rename_i hcond
      cases hs
      exact h.quiet (.inl hcond.1) (.inr rfl)
    · cases hs
  | get_bits port => exact get_bits_step hports h hs
  | timeout port =>
    simp only [receiver] at hs
    split at hs
    · rename_i hcond
      cases hs
      exact h.quiet (.inr hcond.1) (.inl rfl)
    · cases hs
  | recv port => exact recv_step h hs

/-! ## The link as a whole -/

/-- The interrupt routine begins with the next packet. -/
theorem between_not_stuck (hb : Between s rest) (hisr : rtos_intertile_isr s = none) : rest = [] := by
  cases rest with
  | nil => rfl
  | cons p rest =>
    have hchan := hb.chan
    rw [stream_cons] at hchan
    unfold rtos_intertile_isr at hisr
    rcases hb.isr with ⟨h1, h2⟩ | ⟨h1, -, -⟩
    · rw [h1] at hisr
      simp [h2, hchan] at hisr
    · rw [h1, hchan] at hisr
      cases hisr

/-- A packet under way goes on, when its task receives. -/
theorem stage_not_stuck (hp : p.port.toNat < maxPorts) (hst : Stage s p rest) (hstuck : Stuck packets s)
    (hbusy : s.task p.port ≠ .idle) : False := by
  obtain ⟨hisr, htimer, hport⟩ := hstuck
  have hrecv : rtos_intertile_rx s p.port = none := (hport p.port).2
  unfold rtos_intertile_rx at hrecv
  cases hst with
  | isr h1 =>
    simp only [receiver, rtos_intertile_isr, h1] at hisr
    cases hisr
  | timer _ h2 =>
    simp only [receiver, h2] at htimer
    cases htimer
  | bit h1 h2 h3 h4 h5 =>
    have hget := (hport p.port).1
    have hne : s.event_group &&& flag p.port ≠ 0 := by
      rw [h3, BitVec.and_self]
      exact flag_ne_zero hp
    simp only [receiver, if_pos (And.intro ((h4 p.port).resolve_left hbusy) hne)] at hget
    cases hget
  | len h1 h2 h3 h4 h5 h6 h7 =>
    rename_i bs bs'
    rw [h4] at hrecv
    have hlen := congrArg List.length h6
    simp only [List.length_append, length_word] at hlen
    cases bs' with
    | nil =>
      have hge : ¬ bs.length < 4 := by simp only [List.length_nil] at hlen; omega
      simp only [if_neg hge] at hrecv
      cases hrecv
    | cons b bs' =>
      have hlt : bs.length < 4 := by simp only [List.length_cons] at hlen; omega
      rw [List.cons_append] at h7
      simp only [if_pos hlt, h7] at hrecv
      cases hrecv
  | buf h1 h2 h3 h4 h5 h6 h7 =>
    rename_i msg msg'
    rw [h4] at hrecv
    have hlen := congrArg List.length h6
    rw [List.length_append] at hlen
    cases msg' with
    | nil =>
      have hge : ¬ msg.length < p.payload.length := by simp only [List.length_nil] at hlen; omega
      simp only [if_neg hge] at hrecv
      cases hrecv
    | cons b msg' =>
      have hlt : msg.length < p.payload.length := by simp only [List.length_cons] at hlen; omega
      rw [List.cons_append] at h7
      simp only [if_pos hlt, h7] at hrecv
      cases hrecv
  | enable h1 h2 h3 h4 =>
    rw [h4] at hrecv
    cases hrecv

/-! ## The steps that are left -/

def Rx.weight : Rx → Nat
  | .idle | .get_bits => 0
  | .in_word _ => 4
  | .in_buf .. => 3
  | .enable _ => 2

def Isr.weight : Isr → Nat
  | .idle | .entered => 0
  | .read _ => 7

def bits_weight (event_group : BitVec 32) : Nat := if event_group = 0 then 0 else 5

/-- An upper bound of the steps that are left, where the task of `port` alone takes anything off the channel. -/
def Receiver.work (s : Receiver) (port : UInt8) : Nat :=
  12 * s.chan.length + s.trigger.toNat + s.isr.weight + 6 * s.deferred.length + bits_weight s.event_group + (s.task port).weight

def OnlyBusy (s : Receiver) (port : UInt8) : Prop := ∀ q, q ≠ port → Quiet (s.task q)

theorem quiet_weight {pc : Rx} (h : Quiet pc) : pc.weight = 0 := by
  rcases h with rfl | rfl <;> rfl

theorem RxInv.onlyBusy (h : RxInv packets s) : ∃ port, OnlyBusy s port := by
  cases h with
  | between _ hb => exact ⟨0, fun q _ => hb.quiet q⟩
  | under_way _ _ hst => exact ⟨_, fun q hq => hst.quiet_of_ne hq⟩

/-- While a task reads, the trigger is disabled. -/
theorem RxInv.trigger {port : UInt8} (h : RxInv packets s) (hbusy : ¬ Quiet (s.task port)) : s.trigger = false := by
  cases h with
  | between _ hb => exact absurd (hb.quiet port) hbusy
  | under_way _ ht _ => exact ht

/-- The task whose event bit is set is the only one, and the bit is, too. -/
theorem RxInv.bit {port : UInt8} (hports : ∀ p ∈ packets, p.port.toNat < maxPorts) (h : RxInv packets s)
    (hbit : s.event_group &&& flag port ≠ 0) : s.event_group = flag port ∧ ∀ q, Quiet (s.task q) := by
  have hnone : s.event_group ≠ 0 := by
    intro h0
    rw [h0] at hbit
    exact hbit (by simp)
  cases h with
  | between _ hb => exact absurd hb.event_group hnone
  | under_way hp _ hst =>
    cases hst with
    | bit _ _ h3 h4 _ =>
      rw [h3] at hbit ⊢
      exact ⟨congrArg flag (port_of_bit (hports _ (by rw [hp.split]; simp)) hbit), h4⟩
    | isr _ _ h3 | timer _ _ h3 | len _ _ h3 | buf _ _ h3 | enable _ _ h3 => exact absurd h3 hnone

theorem OnlyBusy.goto {port : UInt8} {pc : Rx} (h : OnlyBusy s port) : OnlyBusy (s.goto port pc) port := by
  intro q hq
  rw [rx_goto_of_ne pc hq]
  exact h q hq

theorem isr_work {port : UInt8} (hs : rtos_intertile_isr s = some s') : s'.task = s.task ∧ s'.work port + 1 ≤ s.work port := by
  unfold rtos_intertile_isr at hs
  cases hisr : s.isr with
  | idle =>
    simp only [hisr] at hs
    split at hs
    · rename_i hc
      cases hs
      refine ⟨rfl, ?_⟩
      simp only [Receiver.work, Isr.weight, hisr, hc.1, Bool.toNat_true, Bool.toNat_false]
      omega
    · cases hs
  | entered =>
    simp only [hisr] at hs
    split at hs
    · cases hs
    · rename_i q chan hchan
      cases hs
      refine ⟨rfl, ?_⟩
      simp only [Receiver.work, Isr.weight, hisr, hchan, List.length_cons]
      omega
  | read q =>
    simp only [hisr] at hs
    cases hs
    refine ⟨rfl, ?_⟩
    simp only [Receiver.work, Isr.weight, hisr, List.length_append, List.length_singleton]
    omega

theorem recv_work {port : UInt8} (h : RxInv packets s) (hs : rtos_intertile_rx s port = some s') :
    (∃ pc, s'.task = (s.goto port pc).task) ∧ s'.work port + 1 ≤ s.work port := by
  have hbusy : ¬ Quiet (s.task port) := fun hq => by
    rw [quiet_rx hq] at hs
    cases hs
  have htrigger := h.trigger hbusy
  unfold rtos_intertile_rx at hs
  cases hpc : s.task port with
  | idle | get_bits =>
    rw [hpc] at hs
    cases hs
  | in_word bs =>
    simp only [hpc] at hs
    split at hs
    · split at hs
      · cases hs
      · rename_i b chan hchan
        cases hs
        refine ⟨⟨_, rfl⟩, ?_⟩
        simp only [Receiver.work, Receiver.goto, hpc, hchan, Rx.weight, Function.update_self, List.length_cons]
        omega
    · cases hs
      refine ⟨⟨_, rfl⟩, ?_⟩
      simp only [Receiver.work, Receiver.goto, hpc, Rx.weight, Function.update_self]
      omega
  | in_buf len msg =>
    simp only [hpc] at hs
    split at hs
    · split at hs
      · cases hs
      · rename_i b chan hchan
        cases hs
        refine ⟨⟨_, rfl⟩, ?_⟩
        simp only [Receiver.work, Receiver.goto, hpc, hchan, Rx.weight, Function.update_self, List.length_cons]
        omega
    · cases hs
      refine ⟨⟨_, rfl⟩, ?_⟩
      simp only [Receiver.work, Receiver.goto, hpc, Rx.weight, Function.update_self]
      omega
  | enable msg =>
    simp only [hpc] at hs
    cases hs
    refine ⟨⟨_, rfl⟩, ?_⟩
    simp only [Receiver.work, Receiver.goto, hpc, htrigger, Rx.weight, Function.update_self, Bool.toNat_true, Bool.toNat_false]
    omega

/-- Beginning or giving up to wait leaves as much to be done. -/
theorem quiet_goto_work {port q : UInt8} {pc : Rx} (halone : OnlyBusy s port) (hq : Quiet (s.task q)) (hpc : Quiet pc) :
    OnlyBusy (s.goto q pc) port ∧ (s.goto q pc).work port = s.work port := by
  refine ⟨quiet_update (P := fun q => q ≠ port) halone hpc, ?_⟩
  have hweight : ((s.goto q pc).task port).weight = (s.task port).weight := by
    by_cases hport : port = q
    · rw [hport, rx_goto_self, quiet_weight hpc, quiet_weight hq]
    · rw [rx_goto_of_ne pc hport]
  simp only [Receiver.work, hweight]
  rfl

/-- The task that takes the event bit is the one that is busy from here on. -/
theorem get_bits_work {port q : UInt8} (hgroup : s.event_group = flag q) (hbit : s.event_group ≠ 0)
    (hall : ∀ r, Quiet (s.task r)) :
    OnlyBusy ({ s with event_group := s.event_group &&& ~~~ flag q }.goto q (.in_word [])) q ∧
      ({ s with event_group := s.event_group &&& ~~~ flag q }.goto q (.in_word [])).work q + 1 ≤ s.work port := by
  refine ⟨fun r hr => ?_, ?_⟩
  · exact (rx_goto_of_ne (s := s) (.in_word []) hr) ▸ hall r
  · have hclear : bits_weight (s.event_group &&& ~~~ flag q) = 0 := by
      rw [hgroup, flag_and_not]
      rfl
    have hset : bits_weight s.event_group = 5 := if_neg hbit
    have hword : (Rx.in_word []).weight = 4 := rfl
    simp only [Receiver.work, Receiver.goto, hclear, hset, hword, quiet_weight (hall port), Function.update_self]
    omega

/-- Each step that moves a packet leaves less to be done, and no step more. -/
theorem step_work {a : RxAct} {port : UInt8} (hports : ∀ p ∈ packets, p.port.toNat < maxPorts) (h : RxInv packets s)
    (halone : OnlyBusy s port) (hs : (receiver packets).step s a = some s') :
    ∃ port', OnlyBusy s' port' ∧ s'.work port' + (if a.works then 1 else 0) ≤ s.work port := by
  cases a with
  | isr =>
    obtain ⟨htask, hwork⟩ : s'.task = s.task ∧ s'.work port + 1 ≤ s.work port := isr_work hs
    exact ⟨port, by rwa [OnlyBusy, htask], hwork⟩
  | timer =>
    simp only [receiver] at hs
    split at hs
    · cases hs
    · rename_i q deferred hdeferred
      cases hs
      refine ⟨port, halone, ?_⟩
      have hbits : bits_weight (s.event_group ||| flag q) ≤ 5 := by
        unfold bits_weight
        split <;> omega
      simp only [Receiver.work, hdeferred, List.length_cons, RxAct.works, if_true]
      omega
  | rx q =>
    simp only [receiver] at hs
    split at hs
    · rename_i hc
      cases hs
      obtain ⟨halone', hwork⟩ := quiet_goto_work halone (.inl hc.1) (.inr rfl : Quiet .get_bits)
      exact ⟨port, halone', hwork.le⟩
    · cases hs
  | timeout q =>
    simp only [receiver] at hs
    split at hs
    · rename_i hc
      cases hs
      obtain ⟨halone', hwork⟩ := quiet_goto_work halone (.inr hc.1) (.inl rfl : Quiet .idle)
      exact ⟨port, halone', hwork.le⟩
    · cases hs
  | get_bits q =>
    simp only [receiver] at hs
    split at hs
    · rename_i hc
      cases hs
      obtain ⟨hgroup, hall⟩ := h.bit hports hc.2
      exact ⟨q, get_bits_work hgroup (fun h0 => hc.2 (by simp [h0])) hall⟩
    · cases hs
  | recv q =>
    have hq : q = port := by
      by_contra hne
      have hnone : rtos_intertile_rx s q = some s' := hs
      rw [quiet_rx (halone q hne)] at hnone
      cases hnone
    subst hq
    obtain ⟨⟨pc, htask⟩, hwork⟩ := recv_work h hs
    refine ⟨q, ?_, hwork⟩
    rw [OnlyBusy, htask]
    exact halone.goto

theorem run_work {as : List RxAct} {port : UInt8} (hports : ∀ p ∈ packets, p.port.toNat < maxPorts) (h : RxInv packets s)
    (halone : OnlyBusy s port) (hr : (receiver packets).Run Machine.Free s as s') : as.countP RxAct.works ≤ s.work port := by
  induction hr generalizing port with
  | nil => exact Nat.zero_le _
  | cons _ hs _ ih =>
    obtain ⟨port', halone', hwork⟩ := step_work hports h halone hs
    have hrest := ih (rx_step hports h hs) halone'
    rw [List.countP_cons]
    omega

theorem Stage.chan_suffix (h : Stage s p rest) : s.chan <:+ stream (p :: rest) := by
  rw [stream_cons]
  cases h with
  | isr _ _ _ _ h5 | timer _ _ _ _ h5 | bit _ _ _ _ h5 => exact h5 ▸ List.suffix_cons _ _
  | len h1 h2 h3 h4 h5 h6 h7 =>
    rename_i bs bs'
    exact ⟨p.port :: bs, by rw [h7, ← h6]; simp⟩
  | buf h1 h2 h3 h4 h5 h6 h7 =>
    rename_i msg msg'
    exact ⟨p.port :: (word p.payload.length ++ msg), by rw [h7, ← h6]; simp⟩
  | enable _ _ _ _ _ h6 => exact ⟨p.port :: (word p.payload.length ++ p.payload), by rw [h6]; simp⟩

/-- What `RxInv` says about the packets that are off the channel and those behind them. -/
theorem received (hports : ∀ p ∈ packets, p.port.toNat < maxPorts) (h : (receiver packets).Reachable Machine.Free s) :
    ∃ done rest, Demuxed packets done rest s := by
  have hinv : RxInv packets s := h.inv (fun _ => rx_init) fun _ _ _ h _ hs => rx_step hports h hs
  obtain ⟨port, halone⟩ := hinv.onlyBusy
  have hbounded : ∃ n, ∀ as s', (receiver packets).Run Machine.Free s as s' → as.countP RxAct.works ≤ n :=
    ⟨_, fun _ _ hr => run_work hports hinv halone hr⟩
  cases hinv with
  | between hp hb =>
    exact ⟨_, _, hp.split, hp.obtained, hb.chan ▸ List.suffix_refl _, hp.isr_reads, hbounded,
      fun hstuck _ => between_not_stuck hb hstuck.1⟩
  | under_way hp _ hst =>
    have hmem := hp.split ▸ List.mem_append_right _ List.mem_cons_self
    exact ⟨_, _, hp.split, hp.obtained, hst.chan_suffix, hp.isr_reads, hbounded,
      fun hstuck hbusy => (stage_not_stuck (hports _ hmem) hst hstuck (hbusy _ hmem)).elim⟩

/-- In every interleaving the tasks have obtained exactly the payloads of the
packets that are off the channel, each at its own port and in sending order;
nothing is lost, no length or payload byte is taken for a port, and the tasks
that receive come to their end with everything. -/
theorem rx_demultiplexed (packets : List Packet) (hports : ∀ p ∈ packets, p.port.toNat < maxPorts) {s : Receiver}
    (hs : (receiver packets).Reachable Machine.Free s) : ∃ done rest, Demuxed packets done rest s := received hports hs

/-- A payload of two bytes and one of one byte. -/
def two_packets : List Packet := [⟨1, [5, 6], by decide⟩, ⟨2, [7], by decide⟩]

/-- A receive that times out before the packet comes, one that gets it, and one on another port, until both tasks wait again. -/
theorem rx_demultiplexed_timeout : ∃ s, (receiver two_packets).Reachable Machine.Free s ∧ s.obtained 1 = [[5, 6]] ∧
    s.obtained 2 = [[7]] ∧ ∃ done, Demuxed two_packets done [] s := by
  have hports : ∀ p ∈ two_packets, p.port.toNat < maxPorts := by decide
  have hrun : ((receiver two_packets).exec Machine.Free
      ⟨two_packets.flatMap Packet.frame, true, .idle, [], 0, fun _ => .idle, fun _ => [], []⟩
      (List.flatten [[.rx 1, .timeout 1, .isr, .isr, .isr, .timer, .rx 1, .rx 2, .get_bits 1], List.replicate 9 (.recv 1),
        [.isr, .isr, .rx 1, .isr, .timer, .get_bits 2], List.replicate 8 (.recv 2), [.rx 2]])).map
        (fun s => (s.obtained 1, s.obtained 2, s.trigger, s.chan, [s.task 1, s.task 2])) =
          some ([[5, 6]], [[7]], true, [], [.get_bits, .get_bits]) := by decide +kernel
  obtain ⟨s, hs, hobs⟩ := Option.map_eq_some_iff.1 hrun
  simp only [Prod.mk.injEq, List.cons.injEq, and_true] at hobs
  obtain ⟨hfirst, hsecond, htrigger, hchan, htask, htask'⟩ := hobs
  have hreach := Machine.exec_reachable rfl hs
  obtain ⟨done, rest, hd⟩ := rx_demultiplexed two_packets hports hreach
  have hinv : RxInv two_packets s := hreach.inv (fun _ => rx_init) fun _ _ _ h _ hs => rx_step hports h hs
  have hstuck : Stuck two_packets s := by
    cases hinv with
    | under_way _ ht _ =>
      rw [htrigger] at ht
      cases ht
    | between _ hb =>
      have hisr : s.isr = .idle := hb.isr.elim And.left fun h => absurd (htrigger.symm.trans h.2.1) (by decide)
      refine ⟨?_, ?_, fun port => ⟨?_, quiet_rx (hb.quiet port)⟩⟩
      · simp [receiver, rtos_intertile_isr, hisr, hchan]
      · simp [receiver, hb.deferred]
      · simp [receiver, hb.event_group]
  have hrest : rest = [] := by
    refine hd.complete hstuck fun p hp => ?_
    rcases List.mem_cons.1 hp with rfl | hp
    · rw [htask]
      exact fun h => nomatch h
    · obtain rfl := List.mem_singleton.1 hp
      intro hidle
      cases htask'.symm.trans hidle
  exact ⟨s, hreach, hfirst, hsecond, done, hrest ▸ hd⟩

end Intertile
