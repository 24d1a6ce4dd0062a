import XcoreSdk.Lib.Machine
import XcoreSdk.Lib.Toggle
import XcoreSdk.Usb.Xud
/-!
# Each packet once, whatever handshakes are lost

The host and the device exchange packets on the endpoints of a number, on the
OUT endpoint and on the IN endpoint. Handshakes get lost, so packets are
repeated; the data PIDs tell a packet from its repetition. The library takes an
OUT packet off the bus into a buffer that is ready, acknowledges it and
notifies the driver, whose interrupt routine looks at the PID later; of an IN
packet it notifies the driver when the host's acknowledgement has come. A SETUP
packet begins a control transfer, in whose data the PIDs begin anew; it may come
while the IN endpoint has still a packet, of which the host's acknowledgement was
lost.

A packet that is lost itself changes nothing, so it is not a step.
-/

namespace Usb
namespace DataPids

variable {α : Type*}

/-- What the interrupt routine of an OUT endpoint is notified of. -/
inductive Note (α : Type*)
  | data (m : α)
  | setup
deriving DecidableEq

/-- The endpoints of a number, but for their records. -/
structure Endpoint (α : Type*) where
  /-- The packets that the host has still to send, and the PID of the first of them. -/
  out_todo : List α
  out_pid : Word
  /-- The PID that the host expects, and the packets that it has accepted. -/
  in_pid : Word
  accepted : List α
  /-- The host repeats a SETUP packet. -/
  setting_up : Bool
  /-- There is a buffer for a packet from the host. -/
  out_ready : Bool
  out_note : Option (Note α)
  /-- The packet in the IN endpoint's buffer, until the interrupt routine knows that it is sent. -/
  in_data : Option α
  in_note : Bool
  /-- The packets whose receptions were reported with `XUD_RES_OKAY`. -/
  received : List α
  /-- All packets of the host, and all of the device, in this control transfer. -/
  out_sent : List α
  in_sent : List α

inductive Act (α : Type*)
  | host_submit (m : α)
  /-- An OUT packet that arrives. Its handshake may get lost. -/
  | host_out (junk : BitVec 24) (ack : Bool)
  | host_in (ack : Bool)
  | host_setup (ack : Bool)
  | isr_out
  | isr_in
  /-- `rtos_usb_endpoint_transfer_start`, for either endpoint. The packet for the host is in the buffer. -/
  | start_out (buffer : Word)
  | start_in (buffer len : Word) (m : α)

/-- A step on the endpoints of the number `n`. A SETUP packet leaves a packet for the host where it is, as part of the new
control transfer, and a further one that is started takes its place. -/
def step (pids : Pids) (base n : Nat) (mem : Mem) (e : Endpoint α) : Act α → Option (Mem × Endpoint α)
  | .host_submit m => some (mem, { e with out_todo := e.out_todo ++ [m], out_sent := e.out_sent ++ [m] })
  | .host_out junk ack =>
    match e.out_todo with
    | [] => none
    | m :: rest =>
      if e.out_ready ∧ ¬ e.setting_up then
        some (Function.update mem (out_ep base n + 6) (e.out_pid <<< 24 ||| junk.setWidth 32),
          { e with
            out_ready := false, out_note := some (.data m)
            out_todo := if ack then rest else m :: rest
            out_pid := if ack then e.out_pid ^^^ 0x88 else e.out_pid })
      else none
  | .host_in ack =>
    match e.in_data with
    | none => none
    | some m =>
      if ¬ e.in_note ∧ ¬ e.setting_up then
        if mem (in_ep base n + 4) = e.in_pid then
          some (mem, { e with accepted := e.accepted ++ [m], in_pid := e.in_pid ^^^ 0x88, in_note := ack })
        else some (mem, { e with in_note := ack })
      else none
  | .host_setup ack =>
    if e.out_ready then
      some (mem, { e with
        out_ready := false, out_note := some .setup, setting_up := !ack
        out_todo := [], out_pid := pids.USB_PIDn_DATA1, in_pid := pids.USB_PIDn_DATA1
        received := [], accepted := [], out_sent := [], in_sent := e.in_data.toList })
    else none
  | .isr_out =>
    match e.out_note with
    | none => none
    | some (.data m) =>
      let (res, mem) := xud_data_get_finish mem (out_ep base n)
      some (mem, { e with out_note := none, received := if res = .XUD_RES_OKAY then e.received ++ [m] else e.received })
    | some .setup =>
      let (_, mem) := xud_setup_data_get_finish pids mem (out_ep base n)
      some (mem, { e with out_note := none })
  | .isr_in =>
    if e.in_note then
      let (_, mem) := xud_data_set_finish mem (in_ep base n) false
      some (mem, { e with in_note := false, in_data := none })
    else none
  | .start_out buffer =>
    if ¬ e.out_ready ∧ e.out_note = none then
      let (res, mem) := xud_data_get_start mem (out_ep base n) buffer
      some (mem, { e with out_ready := res = .XUD_RES_OKAY })
    else none
  | .start_in buffer len m =>
    let (res, mem) := xud_data_set_start mem (in_ep base n) buffer len
    some (mem, if res = .XUD_RES_OKAY then
      { e with
        in_data := some m
        in_sent := (if e.in_data.isSome then e.in_sent.dropLast else e.in_sent) ++ [m] }
      else e)

/-- What the driver needs for its PIDs: no SETUP packet comes while it has still to hear of an IN packet that is
acknowledged, no IN packet leaves between a SETUP packet and its interrupt, and it starts a packet for the host only in
the place of none or of one that the host has not accepted. -/
def Endpoint.Orderly (e : Endpoint α) : Act α → Prop
  | .host_setup _ => e.in_note = false
  | .host_in _ => e.out_note ≠ some .setup
  | .start_in _ _ _ => e.in_data ≠ none → e.in_note = false ∧ e.accepted.length < e.in_sent.length
  | _ => True

/-- A device on the bus. -/
structure Device (α : Type*) where
  mem : Mem
  endpoints : Nat → Endpoint α

/-- Where the library keeps which endpoints are ready is not in the records. -/
def Tabled (base : Nat) (mem : Mem) : Prop :=
  ∀ n < 16, ¬ InRecords base ((mem (out_ep base n)).toNat / 4) ∧ ¬ InRecords base ((mem (in_ep base n)).toNat / 4)

/-- Nothing has been sent, and both sides begin with DATA0. -/
def Endpoint.fresh (pids : Pids) : Endpoint α :=
  ⟨[], pids.USB_PIDn_DATA0, pids.USB_PIDn_DATA0, [], false, false, none, none, false, [], [], []⟩

/-- An action names the number of its endpoint. -/
def device (pids : Pids) (base : Nat) : Machine (Device α) (Nat × Act α) where
  init s := (∀ n < 16, s.mem (out_ep base n + 4) = pids.USB_PIDn_DATA0 ∧ s.mem (in_ep base n + 4) = pids.USB_PIDn_DATA0) ∧
    Tabled base s.mem ∧ ∀ n, s.endpoints n = .fresh pids
  step s a :=
    if a.1 < 16 then
      (step pids base a.1 s.mem (s.endpoints a.1) a.2).map fun (mem, e) => ⟨mem, Function.update s.endpoints a.1 e⟩
    else none

instance [DecidableEq α] (e : Endpoint α) (act : Act α) : Decidable (e.Orderly act) :=
  match act with
  | .host_setup _ => inferInstanceAs (Decidable (_ = _))
  | .host_in _ => inferInstanceAs (Decidable (_ ≠ _))
  | .start_in _ _ _ => inferInstanceAs (Decidable (_ → _))
  | .host_submit _ | .host_out _ _ | .isr_out | .isr_in | .start_out _ => isTrue trivial

def Orderly (s : Device α) (a : Nat × Act α) : Prop := (s.endpoints a.1).Orderly a.2

instance [DecidableEq α] (s : Device α) (a : Nat × Act α) : Decidable (Orderly s a) :=
  inferInstanceAs (Decidable ((s.endpoints a.1).Orderly a.2))

/-! ## PIDs as bits -/

variable {pids : Pids} {base n : Nat} {mem mem' : Mem} {e e' : Endpoint α}

/-- One of the two PIDs. -/
def Valid (pids : Pids) (pid : Word) : Prop := pid = pids.USB_PIDn_DATA0 ∨ pid = pids.USB_PIDn_DATA1

def bit (pids : Pids) (pid : Word) : Bool := pid = pids.USB_PIDn_DATA1

theorem toggles_back (pids : Pids) : pids.USB_PIDn_DATA1 ^^^ 0x88 = pids.USB_PIDn_DATA0 := by
  rw [← pids.toggles, BitVec.xor_assoc, BitVec.xor_self, BitVec.xor_zero]

theorem data0_ne_data1 (pids : Pids) : pids.USB_PIDn_DATA0 ≠ pids.USB_PIDn_DATA1 := by
  intro h
  have hzero : pids.USB_PIDn_DATA0 ^^^ (pids.USB_PIDn_DATA0 ^^^ 0x88) = 0 := by
    rw [pids.toggles, h, BitVec.xor_self]
    rfl
  rw [← BitVec.xor_assoc, BitVec.xor_self, BitVec.zero_xor] at hzero
  exact absurd hzero (by decide)

theorem Valid.toggle {pid : Word} (h : Valid pids pid) : Valid pids (pid ^^^ 0x88) := by
  rcases h with rfl | rfl
  · exact .inr pids.toggles
  · exact .inl (toggles_back pids)

theorem bit_toggle {pid : Word} (h : Valid pids pid) : bit pids (pid ^^^ 0x88) = !bit pids pid := by
  unfold bit
  rcases h with rfl | rfl
  · rw [pids.toggles, decide_eq_true rfl, decide_eq_false (data0_ne_data1 pids)]
    rfl
  · rw [toggles_back, decide_eq_false (data0_ne_data1 pids), decide_eq_true rfl]
    rfl

theorem eq_iff_bit {p q : Word} (hp : Valid pids p) (hq : Valid pids q) : p = q ↔ bit pids p = bit pids q := by
  unfold bit
  rcases hp with rfl | rfl <;> rcases hq with rfl | rfl <;> simp [data0_ne_data1, Ne.symm (data0_ne_data1 pids)]

/-- The PID of a received packet, behind which there is junk. -/
theorem received_pid {pid : Word} (h : Valid pids pid) (junk : BitVec 24) : (pid <<< 24 ||| junk.setWidth 32) >>> 24 = pid := by
  have hbyte : pid.toNat < 2 ^ 8 := by
    rcases h with rfl | rfl
    · exact pids.byte0
    · exact pids.byte1
  refine BitVec.eq_of_getLsbD_eq fun i hi => ?_
  have hjunk : junk.getLsbD (24 + i) = false := BitVec.getLsbD_of_ge junk _ (Nat.le_add_right 24 i)
  have hnot : ¬ 24 + i < 24 := by omega
  rw [BitVec.getLsbD_ushiftRight, BitVec.getLsbD_or, BitVec.getLsbD_shiftLeft, BitVec.getLsbD_setWidth, hjunk, Bool.and_false,
    Bool.or_false, decide_eq_false hnot, Nat.add_sub_cancel_left, Bool.not_false, Bool.and_true]
  by_cases h8 : 24 + i < 32
  · rw [decide_eq_true h8, Bool.true_and]
  · have hhigh : pid.getLsbD i = false := by
      refine Nat.testBit_lt_two_pow (hbyte.trans_le ?_)
      exact Nat.pow_le_pow_right (by omega) (by omega)
    rw [hhigh, Bool.and_false]

/-! ## The invariant -/

/-- The host as the sender, and the device's OUT endpoint as the receiver. -/
def outPair (pids : Pids) (base n : Nat) (mem : Mem) (e : Endpoint α) : Toggle.Pair α where
  todo := e.out_todo
  tx := bit pids e.out_pid
  line := match e.out_note with
    | some (.data m) => some (bit pids (mem (out_ep base n + 6) >>> 24), m)
    | _ => none
  rx := bit pids (mem (out_ep base n + 4))
  taken := e.received

/-- The device's IN endpoint as the sender, and the host as the receiver. -/
def inPair (pids : Pids) (base n : Nat) (mem : Mem) (e : Endpoint α) : Toggle.Pair α where
  todo := e.in_data.toList
  tx := bit pids (mem (in_ep base n + 4))
  line := none
  rx := bit pids e.in_pid
  taken := e.accepted

structure Sane (pids : Pids) (base n : Nat) (mem : Mem) (e : Endpoint α) : Prop where
  out_type : mem (out_ep base n + 5) ≠ 0
  in_type : mem (in_ep base n + 5) ≠ 0
  out_pid : Valid pids e.out_pid
  in_pid : Valid pids e.in_pid
  out_record : Valid pids (mem (out_ep base n + 4))
  in_record : Valid pids (mem (in_ep base n + 4))
  ready : e.out_ready = true → e.out_note = none
  in_note : e.in_note = true → e.in_data ≠ none

/-- The interrupt routine has still to begin the control transfer, for which the host is ready. -/
structure SettingUp (pids : Pids) (e : Endpoint α) : Prop where
  note : e.out_note = some .setup
  received : e.received = []
  out_sent : e.out_sent = e.out_todo
  out_pid : e.out_pid = pids.USB_PIDn_DATA1
  in_note : e.in_note = false
  accepted : e.accepted = []
  in_sent : e.in_sent = e.in_data.toList
  in_pid : e.in_pid = pids.USB_PIDn_DATA1

/-- Packets go in both directions. -/
structure Exchanging (pids : Pids) (base n : Nat) (mem : Mem) (e : Endpoint α) : Prop where
  note : e.out_note ≠ some .setup
  line : ∀ m, e.out_note = some (.data m) → Valid pids (mem (out_ep base n + 6) >>> 24)
  out : Toggle.Agrees e.out_sent (outPair pids base n mem e)
  inn : Toggle.Agrees e.in_sent (inPair pids base n mem e)
  in_note : e.in_note = true → mem (in_ep base n + 4) ≠ e.in_pid

def Inv (pids : Pids) (base n : Nat) (mem : Mem) (e : Endpoint α) : Prop :=
  Sane pids base n mem e ∧ (SettingUp pids e ∨ Exchanging pids base n mem e)

/-- The words of the records that the invariant is about. -/
structure Same (base n : Nat) (mem mem' : Mem) : Prop where
  out_record : mem' (out_ep base n + 4) = mem (out_ep base n + 4)
  out_type : mem' (out_ep base n + 5) = mem (out_ep base n + 5)
  received : mem' (out_ep base n + 6) = mem (out_ep base n + 6)
  in_record : mem' (in_ep base n + 4) = mem (in_ep base n + 4)
  in_type : mem' (in_ep base n + 5) = mem (in_ep base n + 5)

theorem Inv.frame (h : Inv pids base n mem e) (hmem : Same base n mem mem') : Inv pids base n mem' e := by
  obtain ⟨hs, hphase⟩ := h
  refine ⟨⟨by rw [hmem.out_type]; exact hs.out_type, by rw [hmem.in_type]; exact hs.in_type, hs.out_pid, hs.in_pid,
    by rw [hmem.out_record]; exact hs.out_record, by rw [hmem.in_record]; exact hs.in_record, hs.ready, hs.in_note⟩, ?_⟩
  refine hphase.imp_right fun hx => ?_
  have houtp : outPair pids base n mem' e = outPair pids base n mem e := by
    simp only [outPair, hmem.out_record, hmem.received]
  have hinp : inPair pids base n mem' e = inPair pids base n mem e := by simp only [inPair, hmem.in_record]
  exact ⟨hx.note, by rw [hmem.received]; exact hx.line, by rw [houtp]; exact hx.out, by rw [hinp]; exact hx.inn,
    by rw [hmem.in_record]; exact hx.in_note⟩

/-! ## What each action keeps -/

theorem Inv.host_submit (h : Inv pids base n mem e) (m : α) :
    Inv pids base n mem { e with out_todo := e.out_todo ++ [m], out_sent := e.out_sent ++ [m] } := by
  obtain ⟨hs, hu | hx⟩ := h
  · exact ⟨{ hs with }, .inl { hu with out_sent := by rw [hu.out_sent] }⟩
  · exact ⟨{ hs with }, .inr ⟨hx.note, hx.line, hx.out.submit m, hx.inn, hx.in_note⟩⟩

/-- An OUT packet arrives: it is on the line, and with a handshake the host goes on. -/
theorem Inv.host_out (h : Inv pids base n mem e) (hready : e.out_ready = true) {m : α} {rest : List α}
    (htodo : e.out_todo = m :: rest) (junk : BitVec 24) (ack : Bool) :
    Inv pids base n (Function.update mem (out_ep base n + 6) (e.out_pid <<< 24 ||| junk.setWidth 32))
      { e with
        out_ready := false, out_note := some (.data m)
        out_todo := if ack then rest else m :: rest
        out_pid := if ack then e.out_pid ^^^ 0x88 else e.out_pid } := by
  obtain ⟨hs, hphase⟩ := h
  have hnote := hs.ready hready
  have hx : Exchanging pids base n mem e := by
    rcases hphase with hu | hx
    · cases hnote.symm.trans hu.note
    · exact hx
  have hmem : ∀ a, a ≠ out_ep base n + 6 →
      Function.update mem (out_ep base n + 6) (e.out_pid <<< 24 ||| junk.setWidth 32) a = mem a :=
    fun a ha => Function.update_of_ne ha _ _
  have hin : ∀ f < 10, in_ep base n + f ≠ out_ep base n + 6 := fun f hf => by
    unfold in_ep out_ep
    omega
  have hline : (outPair pids base n mem e).line = none := by simp only [outPair, hnote]
  have hsent := hx.out.send hline
  have hpid := received_pid hs.out_pid junk
  refine ⟨⟨?_, ?_, ?_, hs.in_pid, ?_, ?_, ?_, hs.in_note⟩, .inr ⟨?_, ?_, ?_, ?_, ?_⟩⟩
  · rw [hmem _ (by omega)]
    exact hs.out_type
  · rw [hmem _ (hin 5 (by omega))]
    exact hs.in_type
  · cases ack
    · exact hs.out_pid
    · exact hs.out_pid.toggle
  · rw [hmem _ (by omega)]
    exact hs.out_record
  · rw [hmem _ (hin 4 (by omega))]
    exact hs.in_record
  · intro hfalse
    cases hfalse
  · intro hsetup
    cases hsetup
  · intro m' _
    rw [Function.update_self, hpid]
    exact hs.out_pid
  · cases ack with
    | false =>
      refine (congrArg (Toggle.Agrees e.out_sent) ?_).mpr hsent
      simp only [outPair, Toggle.Pair.send, Function.update_self, hpid, hmem (out_ep base n + 4) (by omega), htodo]
      rfl
    | true =>
      refine (congrArg (Toggle.Agrees e.out_sent) ?_).mpr (hsent.ack ⟨?_, ?_⟩)
      · simp only [outPair, Toggle.Pair.send, Toggle.Pair.ack, Function.update_self, hpid, hmem (out_ep base n + 4) (by omega),
          htodo, if_true, bit_toggle hs.out_pid]
        rfl
      · simp [Toggle.Pair.send, outPair, htodo]
      · simp [Toggle.Pair.send, outPair, htodo]
  · refine (congrArg (Toggle.Agrees e.in_sent) ?_).mpr hx.inn
    simp only [inPair, hmem _ (hin 4 (by omega))]
  · rw [hmem _ (hin 4 (by omega))]
    exact hx.in_note

/-- An IN packet goes to the host, which takes it with the PID that it expects. -/
theorem Inv.host_in (h : Inv pids base n mem e) (hnote : e.out_note ≠ some .setup) {m : α} (hdata : e.in_data = some m)
    (ack : Bool) :
    Inv pids base n mem (if mem (in_ep base n + 4) = e.in_pid then
        { e with accepted := e.accepted ++ [m], in_pid := e.in_pid ^^^ 0x88, in_note := ack }
      else { e with in_note := ack }) := by
  obtain ⟨hs, hphase⟩ := h
  have hx : Exchanging pids base n mem e := by
    rcases hphase with hu | hx
    · exact absurd hu.note hnote
    · exact hx
  have hsome : e.in_data ≠ none := by
    rw [hdata]
    exact Option.some_ne_none m
  have htaken := (hx.inn.send rfl).take
  split
  · rename_i heq
    refine ⟨{ hs with in_pid := hs.in_pid.toggle, in_note := fun _ => hsome }, .inr ⟨hx.note, hx.line, hx.out, ?_, fun _ => ?_⟩⟩
    · have hpair : inPair pids base n mem { e with accepted := e.accepted ++ [m], in_pid := e.in_pid ^^^ 0x88, in_note := ack } =
          (inPair pids base n mem e).send.take := by
        simp only [inPair, Toggle.Pair.send, Toggle.Pair.take, hdata, heq, bit_toggle hs.in_pid, Option.toList_some,
          List.head?_cons, Option.map_some, if_true]
      rw [hpair]
      exact htaken
    · show mem (in_ep base n + 4) ≠ e.in_pid ^^^ 0x88
      rw [Ne, eq_iff_bit hs.in_record hs.in_pid.toggle, bit_toggle hs.in_pid, heq]
      simp
  · rename_i hne
    refine ⟨{ hs with in_note := fun _ => hsome }, .inr ⟨hx.note, hx.line, hx.out, ?_, fun _ => hne⟩⟩
    have hbit : bit pids (mem (in_ep base n + 4)) ≠ bit pids e.in_pid := fun h => hne ((eq_iff_bit hs.in_record hs.in_pid).2 h)
    have hpair : inPair pids base n mem { e with in_note := ack } = (inPair pids base n mem e).send.take := by
      simp only [inPair, Toggle.Pair.send, Toggle.Pair.take, hdata, Option.toList_some, List.head?_cons, Option.map_some,
        if_neg hbit]
    rw [hpair]
    exact htaken

/-- A control transfer begins. -/
theorem Inv.host_setup (h : Inv pids base n mem e) (hnote : e.in_note = false) (ack : Bool) :
    Inv pids base n mem { e with
      out_ready := false, out_note := some .setup, setting_up := !ack
      out_todo := [], out_pid := pids.USB_PIDn_DATA1, in_pid := pids.USB_PIDn_DATA1
      received := [], accepted := [], out_sent := [], in_sent := e.in_data.toList } := by
  obtain ⟨hs, -⟩ := h
  refine ⟨{ hs with out_pid := .inr rfl, in_pid := .inr rfl, ready := ?_ }, .inl ⟨rfl, rfl, rfl, rfl, hnote, rfl, rfl, rfl⟩⟩
  intro hfalse
  cases hfalse

/-- The interrupt routine looks at the packet that is on the line. -/
theorem Inv.isr_data (h : Inv pids base n mem e) {m : α} (hnote : e.out_note = some (.data m)) :
    Inv pids base n (xud_data_get_finish mem (out_ep base n)).2
      { e with
        out_note := none
        received := if (xud_data_get_finish mem (out_ep base n)).1 = .XUD_RES_OKAY then e.received ++ [m] else e.received } := by
  obtain ⟨hs, hphase⟩ := h
  have hx : Exchanging pids base n mem e := by
    rcases hphase with hu | hx
    · cases hnote.symm.trans hu.note
    · exact hx
  have hpid := hx.line m hnote
  have hin : ∀ f < 10, in_ep base n + f ≠ out_ep base n + 4 := fun f hf => by
    unfold in_ep out_ep
    omega
  have hmem : ∀ a, a ≠ out_ep base n + 4 → (xud_data_get_finish mem (out_ep base n)).2 a = mem a :=
    fun a ha => xud_data_get_finish_frame ha
  have hinp : ∀ e' : Endpoint α, inPair pids base n (xud_data_get_finish mem (out_ep base n)).2 e' = inPair pids base n mem e' := by
    intro e'
    simp only [inPair, hmem _ (hin 4 (by omega))]
  refine ⟨⟨?_, ?_, hs.out_pid, hs.in_pid, ?_, ?_, fun _ => rfl, hs.in_note⟩, .inr ⟨nofun, nofun, ?_, ?_, ?_⟩⟩
  · rw [hmem _ (by omega)]
    exact hs.out_type
  · rw [hmem _ (hin 5 (by omega))]
    exact hs.in_type
  · by_cases hexpected : mem (out_ep base n + 6) >>> 24 = mem (out_ep base n + 4)
    · simp only [xud_data_get_finish_expected hs.out_type hexpected, Function.update_self]
      exact hs.out_record.toggle
    · simp only [xud_data_get_finish_other hs.out_type hexpected]
      exact hs.out_record
  · rw [hmem _ (hin 4 (by omega))]
    exact hs.in_record
  · refine (congrArg (Toggle.Agrees e.out_sent) ?_).mpr hx.out.take
    by_cases hexpected : mem (out_ep base n + 6) >>> 24 = mem (out_ep base n + 4)
    · simp only [xud_data_get_finish_expected hs.out_type hexpected, outPair, Toggle.Pair.take, hnote, Function.update_self,
        bit_toggle hs.out_record, hexpected, if_true]
    · have hbit : bit pids (mem (out_ep base n + 6) >>> 24) ≠ bit pids (mem (out_ep base n + 4)) :=
        fun h => hexpected ((eq_iff_bit hpid hs.out_record).2 h)
      simp [xud_data_get_finish_other hs.out_type hexpected, outPair, Toggle.Pair.take, hnote, if_neg hbit]
  · rw [hinp]
    exact hx.inn
  · rw [hmem _ (hin 4 (by omega))]
    exact hx.in_note

/-- The interrupt routine begins the control transfer: both directions go on with DATA1. -/
theorem Inv.isr_setup (h : Inv pids base n mem e) (hnote : e.out_note = some .setup) :
    Inv pids base n (xud_setup_data_get_finish pids mem (out_ep base n)).2 { e with out_note := none } := by
  obtain ⟨hs, hphase⟩ := h
  have hu : SettingUp pids e := by
    rcases hphase with hu | hx
    · exact hu
    · exact absurd hnote hx.note
  have hin : in_ep base n + 4 = out_ep base n + 160 + 4 := by
    unfold in_ep out_ep
    omega
  have hmem : ∀ a, a ≠ out_ep base n + 4 → a ≠ out_ep base n + 160 + 4 →
      (xud_setup_data_get_finish pids mem (out_ep base n)).2 a = mem a :=
    fun a h h' => xud_setup_data_get_finish_frame h h'
  have hout4 : (xud_setup_data_get_finish pids mem (out_ep base n)).2 (out_ep base n + 4) = pids.USB_PIDn_DATA1 := by
    simp only [xud_setup_data_get_finish]
    rw [Function.update_of_ne (by omega), Function.update_self]
  have hin4 : (xud_setup_data_get_finish pids mem (out_ep base n)).2 (in_ep base n + 4) = pids.USB_PIDn_DATA1 := by
    simp only [xud_setup_data_get_finish]
    rw [hin, Function.update_self]
  refine ⟨⟨?_, ?_, hs.out_pid, hs.in_pid, .inr hout4, .inr hin4, fun _ => rfl, hs.in_note⟩, .inr ⟨?_, ?_, ?_, ?_, ?_⟩⟩
  · rw [hmem _ (by omega) (by omega)]
    exact hs.out_type
  · rw [hmem _ (by omega) (by omega)]
    exact hs.in_type
  · intro hnone
    cases hnone
  · intro m hm
    cases hm
  · refine .waiting (hu.out_sent.trans (List.nil_append _).symm) rfl ?_ hu.received
    show bit pids e.out_pid = _
    simp only [outPair, hout4, hu.out_pid]
  · refine .waiting (hu.in_sent.trans (List.nil_append _).symm) rfl ?_ hu.accepted
    simp only [inPair, hin4, hu.in_pid]
  · intro htrue
    cases htrue.symm.trans hu.in_note

/-- The interrupt routine knows that the IN packet is sent. -/
theorem Inv.isr_in (h : Inv pids base n mem e) (hnote : e.in_note = true) :
    Inv pids base n (xud_data_set_finish mem (in_ep base n) false).2 { e with in_note := false, in_data := none } := by
  obtain ⟨hs, hphase⟩ := h
  have hdata := hs.in_note hnote
  have hx : Exchanging pids base n mem e := by
    rcases hphase with hu | hx
    · cases hnote.symm.trans hu.in_note
    · exact hx
  have hfinish : (xud_data_set_finish mem (in_ep base n) false).2 =
      Function.update mem (in_ep base n + 4) (mem (in_ep base n + 4) ^^^ 0x88) := by
    unfold xud_data_set_finish
    rw [if_neg Bool.false_ne_true, if_neg hs.in_type]
  have hout : ∀ f < 10, out_ep base n + f ≠ in_ep base n + 4 := fun f hf => by
    unfold in_ep out_ep
    omega
  have hmem : ∀ a, a ≠ in_ep base n + 4 →
      Function.update mem (in_ep base n + 4) (mem (in_ep base n + 4) ^^^ 0x88) a = mem a :=
    fun a ha => Function.update_of_ne ha _ _
  rw [hfinish]
  refine ⟨⟨?_, ?_, hs.out_pid, hs.in_pid, ?_, ?_, hs.ready, nofun⟩, .inr ⟨hx.note, ?_, ?_, ?_, nofun⟩⟩
  · rw [hmem _ (hout 5 (by omega))]
    exact hs.out_type
  · rw [hmem _ (by omega)]
    exact hs.in_type
  · rw [hmem _ (hout 4 (by omega))]
    exact hs.out_record
  · rw [Function.update_self]
    exact hs.in_record.toggle
  · rw [hmem _ (hout 6 (by omega))]
    exact hx.line
  · have heq : ∀ e' : Endpoint α,
        outPair pids base n (Function.update mem (in_ep base n + 4) (mem (in_ep base n + 4) ^^^ 0x88)) e' =
          outPair pids base n mem e' := by
      intro e'
      simp only [outPair, hmem _ (hout 4 (by omega)), hmem _ (hout 6 (by omega))]
    rw [heq]
    exact hx.out
  · obtain ⟨m, hm⟩ := Option.ne_none_iff_exists'.1 hdata
    have heq : inPair pids base n (Function.update mem (in_ep base n + 4) (mem (in_ep base n + 4) ^^^ 0x88))
        { e with in_note := false, in_data := none } = (inPair pids base n mem e).ack := by
      simp only [inPair, Toggle.Pair.ack, Function.update_self, bit_toggle hs.in_record, hm, Option.toList_some, List.tail_cons,
        Option.toList_none]
    rw [heq]
    refine hx.inn.ack ⟨?_, ?_⟩
    · simp [inPair, hm]
    · exact fun hbit => hx.in_note hnote ((eq_iff_bit hs.in_record hs.in_pid).2 hbit)

theorem Inv.ready (h : Inv pids base n mem e) (hnote : e.out_note = none) (b : Bool) :
    Inv pids base n mem { e with out_ready := b } := by
  obtain ⟨hs, hphase⟩ := h
  exact ⟨{ hs with ready := fun _ => hnote }, hphase.imp (fun hu => { hu with }) fun hx => { hx with }⟩

/-- A packet for the host is in the buffer, in the place of one that the host has not accepted, if there was one. -/
theorem Inv.start_in (h : Inv pids base n mem e)
    (hfree : e.in_data ≠ none → e.in_note = false ∧ e.accepted.length < e.in_sent.length) (m : α) :
    Inv pids base n mem { e with
      in_data := some m
      in_sent := (if e.in_data.isSome then e.in_sent.dropLast else e.in_sent) ++ [m] } := by
  obtain ⟨hs, hu | hx⟩ := h
  · refine ⟨{ hs with in_note := fun _ => Option.some_ne_none m }, .inl { hu with in_sent := ?_ }⟩
    rw [hu.in_sent]
    cases e.in_data <;> rfl
  · refine ⟨{ hs with in_note := fun _ => Option.some_ne_none m }, .inr ⟨hx.note, hx.line, hx.out, ?_, hx.in_note⟩⟩
    cases hdata : e.in_data with
    | none =>
      have hpair : inPair pids base n mem { e with in_data := some m, in_sent := e.in_sent ++ [m] } =
          { inPair pids base n mem e with todo := (inPair pids base n mem e).todo ++ [m] } := by
        simp [inPair, hdata]
      have hsubmit := hx.inn.submit m
      rw [← hpair] at hsubmit
      exact hsubmit
    | some old =>
      have huntaken := (hfree (by rw [hdata]; exact Option.some_ne_none old)).2
      exact hx.inn.replace rfl (show e.in_data.toList = [old] by rw [hdata]; rfl) huntaken m

/-! ## Runs -/

/-- The words of the two records that a step on the number `n` does not write. -/
theorem step_frame {act : Act α} (hn : n < 16) (htable : Tabled base mem) (h : step pids base n mem e act = some (mem', e'))
    {a : Nat} (ha : InRecords base a) (h3 : a ≠ out_ep base n + 3 ∧ a ≠ in_ep base n + 3)
    (h4 : a ≠ out_ep base n + 4 ∧ a ≠ in_ep base n + 4) (h6 : a ≠ out_ep base n + 6 ∧ a ≠ in_ep base n + 6)
    (h7 : a ≠ in_ep base n + 7) : mem' a = mem a := by
  have hout : a ≠ (mem (out_ep base n)).toNat / 4 := fun heq => (htable n hn).1 (heq ▸ ha)
  have hin : a ≠ (mem (in_ep base n)).toNat / 4 := fun heq => (htable n hn).2 (heq ▸ ha)
  have hsetup : a ≠ out_ep base n + 160 + 4 := by
    unfold out_ep in_ep at *
    omega
  cases act with
  | host_submit m =>
    cases h
    rfl
  | host_out junk ack =>
    simp only [step] at h
    split at h
    · cases h
    · split at h
      · cases h
        exact Function.update_of_ne h6.1 _ _
      · cases h
  | host_in ack =>
    simp only [step] at h
    split at h
    · cases h
    · split at h
      · split at h <;> cases h <;> rfl
      · cases h
  | host_setup ack =>
    simp only [step] at h
    split at h <;> cases h
    rfl
  | isr_out =>
    simp only [step] at h
    split at h <;> cases h
    · exact xud_data_get_finish_frame h4.1
    · exact xud_setup_data_get_finish_frame h4.1 hsetup
  | isr_in =>
    simp only [step] at h
    split at h <;> cases h
    exact xud_data_set_finish_frame h4.2
  | start_out buffer =>
    simp only [step] at h
    split at h <;> cases h
    exact xud_data_get_start_frame h3.1 hout
  | start_in buffer len m =>
    cases h
    exact xud_data_set_start_frame h3.2 h6.2 h7 hin

/-- The transfers that are started leave the PIDs, the types and what has been received. -/
theorem same_get_start {buffer : Word} (hn : n < 16) (htable : Tabled base mem) :
    Same base n mem (xud_data_get_start mem (out_ep base n) buffer).2 := by
  have hframe : ∀ a, InRecords base a → a ≠ out_ep base n + 3 → (xud_data_get_start mem (out_ep base n) buffer).2 a = mem a :=
    fun a ha h3 => xud_data_get_start_frame h3 fun heq => (htable n hn).1 (heq ▸ ha)
  constructor <;> apply hframe <;> simp only [InRecords, out_ep, in_ep] <;> omega

theorem same_set_start {buffer len : Word} (hn : n < 16) (htable : Tabled base mem) :
    Same base n mem (xud_data_set_start mem (in_ep base n) buffer len).2 := by
  have hframe : ∀ a, InRecords base a → a ≠ in_ep base n + 3 → a ≠ in_ep base n + 6 → a ≠ in_ep base n + 7 →
      (xud_data_set_start mem (in_ep base n) buffer len).2 a = mem a :=
    fun a ha h3 h6 h7 => xud_data_set_start_frame h3 h6 h7 fun heq => (htable n hn).2 (heq ▸ ha)
  constructor <;> apply hframe <;> simp only [InRecords, out_ep, in_ep] <;> omega

theorem Inv.step {act : Act α} (hinv : Inv pids base n mem e) (horderly : e.Orderly act) (hn : n < 16)
    (htable : Tabled base mem) (h : step pids base n mem e act = some (mem', e')) : Inv pids base n mem' e' := by
  cases act with
  | host_submit m =>
    cases h
    exact hinv.host_submit m
  | host_out junk ack =>
    simp only [DataPids.step] at h
    split at h
    · cases h
    · rename_i m rest htodo
      split at h
      · rename_i hready
        cases h
        exact hinv.host_out hready.1 htodo junk ack
      · cases h
  | host_in ack =>
    simp only [DataPids.step] at h
    split at h
    · cases h
    · rename_i m hdata
      have hnext := hinv.host_in horderly hdata ack
      split at h
      · split at h
        · rename_i heq
          cases h
          rwa [if_pos heq] at hnext
        · rename_i hne
          cases h
          rwa [if_neg hne] at hnext
      · cases h
  | host_setup ack =>
    simp only [DataPids.step] at h
    split at h
    · cases h
      exact hinv.host_setup horderly ack
    · cases h
  | isr_out =>
    simp only [DataPids.step] at h
    split at h
    · cases h
    · rename_i m hnote
      cases h
      exact hinv.isr_data hnote
    · rename_i hnote
      cases h
      exact hinv.isr_setup hnote
  | isr_in =>
    simp only [DataPids.step] at h
    split at h
    · rename_i hnote
      cases h
      exact hinv.isr_in hnote
    · cases h
  | start_out buffer =>
    simp only [DataPids.step] at h
    split at h
    · rename_i hready
      cases h
      exact (hinv.ready hready.2 _).frame (same_get_start hn htable)
    · cases h
  | start_in buffer len m =>
    simp only [DataPids.step, Option.some.injEq, Prod.mk.injEq] at h
    obtain ⟨rfl, rfl⟩ := h
    split
    · exact (hinv.start_in horderly m).frame (same_set_start hn htable)
    · exact hinv.frame (same_set_start hn htable)

/-- Steps on one number leave the records of the others. -/
theorem step_other {act : Act α} {m : Nat} (hm : m < 16) (hn : n < 16) (hne : m ≠ n) (htable : Tabled base mem)
    (h : step pids base n mem e act = some (mem', e')) : Same base m mem mem' := by
  constructor <;> apply step_frame hn htable h <;> simp only [InRecords, out_ep, in_ep] <;> omega

theorem Tabled.step {act : Act α} (htable : Tabled base mem) (hn : n < 16)
    (h : DataPids.step pids base n mem e act = some (mem', e')) : Tabled base mem' := by
  intro m hm
  have hout : mem' (out_ep base m) = mem (out_ep base m) := by
    apply step_frame hn htable h <;> simp only [InRecords, out_ep, in_ep] <;> omega
  have hin : mem' (in_ep base m) = mem (in_ep base m) := by
    apply step_frame hn htable h <;> simp only [InRecords, out_ep, in_ep] <;> omega
  rw [hout, hin]
  exact htable m hm

/-- The endpoints of a number that are not isochronous. -/
def Handshaken (base n : Nat) (mem : Mem) : Prop := mem (out_ep base n + 5) ≠ 0 ∧ mem (in_ep base n + 5) ≠ 0

theorem inv_fresh (hmem : mem (out_ep base n + 4) = pids.USB_PIDn_DATA0 ∧ mem (in_ep base n + 4) = pids.USB_PIDn_DATA0)
    (htype : Handshaken base n mem) : Inv pids base n mem (.fresh pids : Endpoint α) := by
  refine ⟨⟨htype.1, htype.2, .inl rfl, .inl rfl, .inl hmem.1, .inl hmem.2, nofun, nofun⟩, .inr ⟨nofun, nofun, ?_, ?_, nofun⟩⟩
  · refine .waiting (List.nil_append _).symm rfl ?_ rfl
    simp only [outPair, hmem.1, Endpoint.fresh]
  · refine .waiting (List.nil_append _).symm rfl ?_ rfl
    simp only [inPair, hmem.2, Endpoint.fresh]

theorem types_kept {act : Act α} {m : Nat} (hm : m < 16) (hn : n < 16) (htable : Tabled base mem)
    (h : step pids base n mem e act = some (mem', e')) : Handshaken base m mem' ↔ Handshaken base m mem := by
  have hout : mem' (out_ep base m + 5) = mem (out_ep base m + 5) := by
    apply step_frame hn htable h <;> simp only [InRecords, out_ep, in_ep] <;> omega
  have hin : mem' (in_ep base m + 5) = mem (in_ep base m + 5) := by
    apply step_frame hn htable h <;> simp only [InRecords, out_ep, in_ep] <;> omega
  rw [Handshaken, hout, hin, Handshaken]

theorem reachable_inv {s : Device α} (h : (device pids base).Reachable Orderly s) :
    Tabled base s.mem ∧ ∀ n < 16, Handshaken base n s.mem → Inv pids base n s.mem (s.endpoints n) := by
  refine h.inv (I := fun s => Tabled base s.mem ∧ ∀ n < 16, Handshaken base n s.mem → Inv pids base n s.mem (s.endpoints n))
    ?_ ?_
  · intro s ⟨hpids, htable, hfresh⟩
    refine ⟨htable, fun n hn htype => ?_⟩
    rw [hfresh n]
    exact inv_fresh (hpids n hn) htype
  · intro s a s' ⟨htable, hinv⟩ horderly ht
    simp only [device] at ht
    split at ht
    · rename_i hn
      obtain ⟨⟨mem', e'⟩, hstep, rfl⟩ := Option.map_eq_some_iff.1 ht
      refine ⟨htable.step hn hstep, fun m hm htype => ?_⟩
      have hm' := hinv m hm ((types_kept hm hn htable hstep).1 htype)
      by_cases heq : m = a.1
      · subst heq
        simp only [Function.update_self]
        exact hm'.step horderly hn htable hstep
      · simp only [Function.update_of_ne heq]
        exact hm'.frame (step_other hm hn heq htable hstep)
    · cases ht

/-- What the driver has reported as received, and what the host has accepted. -/
structure Once (e : Endpoint α) : Prop where
  received : e.received <+: e.out_sent
  accepted : e.accepted <+: e.in_sent
  /-- Nothing that the host is done with is lost, but for what the interrupt routine has still to look at. -/
  nothing_lost : e.out_note = none → ∃ done, e.out_sent = done ++ e.out_todo ∧ done <+: e.received
  sent : ∃ done, e.in_sent = done ++ e.in_data.toList ∧ done <+: e.accepted

theorem Inv.once (h : Inv pids base n mem e) : Once e := by
  obtain ⟨-, hu | hx⟩ := h
  · refine ⟨?_, ?_, fun hnote => ?_, [], ?_, List.nil_prefix⟩
    · rw [hu.received]
      exact List.nil_prefix
    · rw [hu.accepted]
      exact List.nil_prefix
    · cases hu.note.symm.trans hnote
    · rw [hu.in_sent]
      rfl
  · refine ⟨hx.out.in_order, hx.inn.in_order, fun hnote => hx.out.complete ?_, hx.inn.complete rfl⟩
    simp only [outPair, hnote]

/-- In any run of transfers on any endpoints, with any handshakes lost, each packet of a control transfer, or of all
transfers since the beginning, is received once and in order: those of the host by the driver, and the driver's by the host. -/
theorem packets_once (pids : Pids) (base : Nat) {s : Device α} (h : (device pids base).Reachable Orderly s) {n : Nat}
    (hn : n < 16) (htype : Handshaken base n s.mem) : Once (s.endpoints n) :=
  ((reachable_inv h).2 n hn htype).once

/-- Both endpoints of number 1, with a handshake lost in either direction, and a SETUP packet that finds a packet for the
host, which another one replaces. -/
theorem packets_once_repeated :
    ∃ s, (device (α := Nat) ⟨0xC3, 0x4B, rfl, by decide, by decide⟩ 0).Reachable Orderly s ∧
      (s.endpoints 1).received = [7] ∧ (s.endpoints 1).accepted = [9] ∧ Once (s.endpoints 1) ∧
      (s.endpoints 0).accepted = [2] ∧ (s.endpoints 0).in_sent = [2] ∧ Once (s.endpoints 0) := by
  let mem : Mem := fun a => if a % 10 = 0 then 2000 else if a % 10 = 4 then 0xC3 else if a % 10 = 5 then 1 else 0
  let pids : Pids := ⟨0xC3, 0x4B, rfl, by decide, by decide⟩
  let acts : List (Nat × Act Nat) := [(1, .start_out 64), (1, .host_submit 7), (1, .host_out 0 false), (1, .isr_out),
    (1, .start_out 64), (1, .host_out 1 true), (1, .isr_out), (1, .start_in 128 5 9), (1, .host_in false), (1, .host_in true),
    (1, .isr_in), (0, .start_out 192), (0, .start_in 256 0 1), (0, .host_in false), (0, .host_setup true), (0, .isr_out),
    (0, .start_in 256 4 2), (0, .host_in true), (0, .isr_in)]
  let s₀ : Device Nat := ⟨mem, fun _ => .fresh pids⟩
  have hinit : (device pids 0).init s₀ := by
    refine ⟨by decide, ?_, fun _ => rfl⟩
    unfold Tabled InRecords
    decide
  obtain ⟨s, hs⟩ := Option.isSome_iff_exists.1
    (show ((device pids 0).exec Orderly s₀ acts).isSome = true by decide)
  have hresult : ((device pids 0).exec Orderly s₀ acts).map
      (fun s => ((s.endpoints 1).received, (s.endpoints 1).accepted, (s.endpoints 0).accepted, (s.endpoints 0).in_sent)) =
        some ([7], [9], [2], [2]) := by decide
  have htypes : ((device pids 0).exec Orderly s₀ acts).map (fun s => (s.mem 5, s.mem 15, s.mem 165, s.mem 175)) =
      some (1, 1, 1, 1) := by decide
  rw [hs] at hresult htypes
  simp only [Option.map_some, Option.some.injEq, Prod.mk.injEq] at hresult htypes
  obtain ⟨hreceived, haccepted, hstatus, hsent⟩ := hresult
  obtain ⟨hout0, hout1, hin0, hin1⟩ := htypes
  have hreach := Machine.exec_reachable hinit hs
  have htype0 : Handshaken 0 0 s.mem := ⟨ne_of_eq_of_ne hout0 (by decide), ne_of_eq_of_ne hin0 (by decide)⟩
  have htype1 : Handshaken 0 1 s.mem := ⟨ne_of_eq_of_ne hout1 (by decide), ne_of_eq_of_ne hin1 (by decide)⟩
  exact ⟨s, hreach, hreceived, haccepted, packets_once pids 0 hreach (by decide) htype1, hstatus, hsent,
    packets_once pids 0 hreach (by decide) htype0⟩

end DataPids
end Usb
