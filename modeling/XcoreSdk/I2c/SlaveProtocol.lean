import XcoreSdk.I2c.Slave
/-!
# What the I2C slave does on the bus

A transcript is a list of messages, each from a start to the next start or a
stop. In between the slave is in one of a few shapes: waiting, in the middle of an
address or of a byte, or acknowledging. Each bit on the bus takes it from one
shape to the next.
-/

namespace I2c
namespace Slave
open Bits (toBits ofBits)

/-! ## Transcripts -/

/-- A bit: SCL is low, and the others let SDA have this level while it is high. -/
def bit (b : Bool) : List Edge := [.sda b, .scl true, .scl false]

def bits (bs : List Bool) : List Edge := bs.flatMap bit

theorem bits_append (as bs : List Bool) : bits (as ++ bs) = bits as ++ bits bs := List.flatMap_append

/-- A start on a free bus, or a repeated one. -/
def start_edges : List Edge := [.sda true, .scl true, .sda false, .scl false]

def stop_edges : List Edge := [.sda false, .scl true, .sda true]

/-- From a start to the next one or to a stop. Where the slave acknowledges or sends, the others let SDA be high, and
`ack` or the byte stand for nothing. -/
structure Message where
  address : Fin 128
  read : Bool
  /-- The level with which another device acknowledges the address. -/
  ack : Bool
  /-- The bytes and the level with which each is acknowledged. -/
  bytes : List (UInt8 × Bool)
  stop : Bool

variable (app : App) (device_addr : UInt8)

/-- The message is for this slave. -/
def Message.own (m : Message) : Bool := m.address.val = device_addr.toNat

/-- What the others put on SDA for a byte. -/
def Message.byte_levels (m : Message) (b : UInt8 × Bool) : List Bool :=
  if m.own device_addr then
    if m.read then List.replicate 8 true ++ [b.2] else toBits 8 b.1.toNat ++ [true]
  else toBits 8 b.1.toNat ++ [b.2]

def Message.edges (m : Message) : List Edge :=
  start_edges ++ bits (toBits 7 m.address.val ++ [m.read] ++ [m.own device_addr || m.ack] ++
    m.bytes.flatMap (m.byte_levels device_addr)) ++ if m.stop then stop_edges else []

/-! ## What the transcript prescribes -/

def SlaveAck.level (ack : SlaveAck) : Bool := ack = .I2C_SLAVE_NACK

def Message.request (m : Message) : Call := if m.read then .ack_read_request else .ack_write_request

def Message.byte_call (m : Message) (b : UInt8 × Bool) : Call :=
  if m.read then .master_requires_data else .master_sent_data b.1

/-- SDA during the bytes of a message for this slave; `n` calls came before. -/
def Message.own_bytes (m : Message) : Nat → List (UInt8 × Bool) → List Bool
  | _, [] => []
  | n, b :: bs => (if m.read then toBits 8 (app.data n).toNat ++ [b.2] else toBits 8 b.1.toNat ++ [(app.ack n).level]) ++
      m.own_bytes (n + 1) bs

/-- What was called and seen so far, whether this slave was addressed since the last stop, and whether the bus is free. -/
structure Progress where
  calls : List Call
  seen : List Bool
  addressed : Bool
  free : Bool

def Message.seen (m : Message) (n : Nat) : List Bool :=
  toBits 7 m.address.val ++ [m.read] ++
    if m.own device_addr then (app.ack n).level :: m.own_bytes app (n + 1) m.bytes
    else m.ack :: m.bytes.flatMap fun b => toBits 8 b.1.toNat ++ [b.2]

def Progress.after (p : Progress) (m : Message) : Progress :=
  let addressed := p.addressed || m.own device_addr
  let calls := p.calls ++ if m.own device_addr then m.request :: m.bytes.map m.byte_call else []
  let seen := p.seen ++ (if p.free then [] else [true]) ++ m.seen app device_addr p.calls.length
  if m.stop then ⟨if addressed && app.has_stop_bit then calls ++ [.stop_bit] else calls, seen ++ [false], false, true⟩
  else ⟨calls, seen, addressed, false⟩

/-- No byte follows an address that is not acknowledged; of the bytes that are read the master acknowledges all but the
last one. -/
def Message.Proper (m : Message) (n : Nat) : Prop :=
  m.own device_addr → if app.ack n = .I2C_SLAVE_NACK then m.bytes = []
    else m.read → ∃ k, m.bytes.map Prod.snd = List.replicate k false ++ [true]

def WellFormed : Progress → List Message → Prop
  | _, [] => True
  | p, m :: ms => m.Proper app device_addr p.calls.length ∧ WellFormed (p.after app device_addr m) ms

/-! ## Shapes -/

/-- What is left of a state besides its shape. -/
structure Log where
  ignore_stop_bit : Bool
  calls : List Call
  seen : List Bool

def Log.see (l : Log) (bs : List Bool) : Log := { l with seen := l.seen ++ bs }

theorem Log.see_nil (l : Log) : l.see [] = l := by rw [Log.see, List.append_nil]

theorem Log.see_append (l : Log) (as bs : List Bool) : l.see (as ++ bs) = (l.see as).see bs := by
  rw [Log.see, Log.see, Log.see, List.append_assoc]

theorem Log.see_cons (l : Log) (b : Bool) (bs : List Bool) : l.see (b :: bs) = (l.see [b]).see bs :=
  Log.see_append l [b] bs

def Log.call (l : Log) (c : Call) : Log := { l with calls := l.calls ++ [c] }

def waiting (s : Ctx) (scl sda : Bool) (l : Log) : Ctx :=
  { s with
    state := .WAITING_FOR_START_OR_STOP, sda_val := !sda, stop_bit_check := false, p_scl := true, p_sda := true
    scl, sda, ignore_stop_bit := l.ignore_stop_bit, calls := l.calls, seen := l.seen }

/-- The bits `pre` of an address have come in. -/
def addressing (s : Ctx) (pre : List Bool) (sda : Bool) (l : Log) : Ctx :=
  { s with
    state := .READING_ADDR, bitnum := pre.length, data := ofBits pre, scl_val := true, stop_bit_check := false
    p_scl := true, p_sda := true, scl := false, sda
    ignore_stop_bit := l.ignore_stop_bit, calls := l.calls, seen := l.seen }

def acking (s : Ctx) (next_state : State) (p_sda sda : Bool) (l : Log) : Ctx :=
  { s with
    state := .ACK_WAIT_HIGH, next_state, scl_val := true, stop_bit_check := false, p_scl := true, p_sda
    scl := false, sda, ignore_stop_bit := l.ignore_stop_bit, calls := l.calls, seen := l.seen }

/-- The bits `pre` of a byte have come in. -/
def writing (s : Ctx) (pre : List Bool) (sda : Bool) (l : Log) : Ctx :=
  { s with
    state := .MASTER_WRITE, next_state := .MASTER_WRITE, bitnum := pre.length, data := ofBits pre, scl_val := true
    stop_bit_check := false, p_scl := true, p_sda := true, scl := false, sda
    ignore_stop_bit := l.ignore_stop_bit, calls := l.calls, seen := l.seen }

/-- The level of bit `k` of a byte, from the most significant one on. -/
def byte_bit (byte : UInt8) (k : Nat) : Bool := bit0 (msb_first byte >>> k)

/-- Bit `k` of a byte is on SDA. -/
def reading (s : Ctx) (k : Nat) (byte : UInt8) (sda : Bool) (l : Log) : Ctx :=
  { s with
    state := .MASTER_READ, bitnum := k, data := msb_first byte >>> (k + 1), scl_val := true, stop_bit_check := false
    p_scl := true, p_sda := byte_bit byte k, scl := false, sda
    ignore_stop_bit := l.ignore_stop_bit, calls := l.calls, seen := l.seen }

/-- A byte was read, and the master is to acknowledge it. -/
def sent (s : Ctx) (sda : Bool) (l : Log) : Ctx :=
  { s with
    state := .MASTER_READ, bitnum := 8, scl_val := true, stop_bit_check := false, p_scl := true, p_sda := true
    scl := false, sda, ignore_stop_bit := l.ignore_stop_bit, calls := l.calls, seen := l.seen }

variable {app device_addr} {f : Bool} {s s' s'' : Ctx} {es es' : List Edge} {l : Log} {sda b : Bool}

theorem Run.append (h : Run app device_addr f s es s') (h' : Run app device_addr f s' es' s'') :
    Run app device_addr f s (es ++ es') s'' := by
  induction h with
  | nil => exact h'
  | cons h _ ih => exact .cons h (ih h')

/-- The slave waits at once. -/
theorem Run.still {e : Edge} (h : round app device_addr f (drive s e) = .inr (some s'))
    (hs : Run app device_addr f s' es s'') : Run app device_addr f s (e :: es) s'' := .cons (Loop.ends_inr h) hs

/-- One event, then the slave waits. -/
theorem Run.event {t : Ctx} {e : Edge} (h : round app device_addr f (drive s e) = .inl t)
    (ht : round app device_addr f t = .inr (some s')) (hs : Run app device_addr f s' es s'') :
    Run app device_addr f s (e :: es) s'' := .cons (Loop.ends_inl h (Loop.ends_inr ht)) hs

/-! ## Waiting -/

theorem waiting_sda (s : Ctx) (sda v : Bool) (l : Log) (hs : Run app device_addr f (waiting s false v l) es s') :
    Run app device_addr f (waiting s false sda l) (.sda v :: es) s' := by
  cases sda <;> cases v
  · exact .still rfl hs
  · exact .event rfl rfl hs
  · exact .event rfl rfl hs
  · exact .still rfl hs

theorem waiting_bit (s : Ctx) (sda b : Bool) (l : Log) :
    Run app device_addr f (waiting s false sda l) (bit b) (waiting s false b (l.see [b])) := by
  refine waiting_sda s sda b l ?_
  cases b <;> exact .still rfl (.still rfl (.nil _))

theorem waiting_bits (bs : List Bool) (s : Ctx) (sda : Bool) (l : Log) :
    ∃ sda', Run app device_addr f (waiting s false sda l) (bits bs) (waiting s false sda' (l.see bs)) := by
  induction bs generalizing sda l with
  | nil => exact ⟨sda, by rw [Log.see_nil]; exact .nil _⟩
  | cons b bs ih =>
    obtain ⟨sda', h⟩ := ih b (l.see [b])
    rw [Log.see_cons]
    exact ⟨sda', (waiting_bit s sda b l).append h⟩

/-! ## Starts and stops -/

/-- A start on a free bus. -/
theorem waiting_start (s : Ctx) (l : Log) :
    ∃ s', Run app device_addr f (waiting s true true l) start_edges (addressing s' [] false l) := by
  refine ⟨{ s with sda_val := false }, ?_⟩
  exact .still rfl (.still rfl (.event rfl rfl (.event rfl rfl (.nil _))))

theorem waiting_restart (s : Ctx) (sda : Bool) (l : Log) :
    ∃ s', Run app device_addr f (waiting s false sda l) start_edges (addressing s' [] false (l.see [true])) := by
  refine ⟨{ s with sda_val := false }, waiting_sda s sda true l ?_⟩
  exact .still rfl (.event rfl rfl (.event rfl rfl (.nil _)))

/-- The first bit of a byte was none. -/
theorem writing_restart (s : Ctx) (sda : Bool) (l : Log) :
    ∃ s', Run app device_addr f (writing s [] sda l) start_edges (addressing s' [] false (l.see [true])) := by
  refine ⟨{ s with next_state := .MASTER_WRITE, sda_val := false }, ?_⟩
  exact .still rfl (.event rfl rfl (.event rfl rfl (.event rfl rfl (.nil _))))

/-- The log of a stop: the application is told if it was addressed. -/
def Log.stopped (l : Log) (has_stop_bit : Bool) : Log :=
  ⟨true, if !l.ignore_stop_bit && has_stop_bit then l.calls ++ [.stop_bit] else l.calls, l.seen ++ [false]⟩

theorem waiting_stop (s : Ctx) (sda : Bool) (l : Log) :
    ∃ s', Run app device_addr f (waiting s false sda l) stop_edges (waiting s' true true (l.stopped app.has_stop_bit)) := by
  obtain ⟨ack, data, has_stop_bit⟩ := app
  obtain ⟨ignore_stop_bit, calls, seen⟩ := l
  refine ⟨s, waiting_sda s sda false _ ?_⟩
  cases has_stop_bit <;> cases ignore_stop_bit
  · exact .still rfl (.event rfl rfl (.nil _))
  · exact .still rfl (.event rfl rfl (.nil _))
  · exact .still rfl (.event rfl rfl (.nil _))
  · exact .still rfl (.event rfl rfl (.nil _))

theorem writing_stop (s : Ctx) (sda : Bool) (l : Log) :
    ∃ s', Run app device_addr f (writing s [] sda l) stop_edges (waiting s' true true (l.stopped app.has_stop_bit)) := by
  obtain ⟨ack, data, has_stop_bit⟩ := app
  obtain ⟨ignore_stop_bit, calls, seen⟩ := l
  refine ⟨{ s with next_state := .MASTER_WRITE, bitnum := 1, data := ofBits [] <<< 1 ||| (false.toNat &&& 1), scl_val := false }, ?_⟩
  cases has_stop_bit <;> cases ignore_stop_bit
  · exact .still rfl (.event rfl rfl (.event rfl rfl (.nil _)))
  · exact .still rfl (.event rfl rfl (.event rfl rfl (.nil _)))
  · exact .still rfl (.event rfl rfl (.event rfl rfl (.nil _)))
  · exact .still rfl (.event rfl rfl (.event rfl rfl (.nil _)))

/-! ## The address -/

theorem shift_or (data : Nat) (b : Bool) : data <<< 1 ||| b.toNat = 2 * data + b.toNat := by
  have hlt : b.toNat < 2 ^ 1 := Bool.toNat_lt b
  rw [← Nat.shiftLeft_add_eq_or_of_lt hlt, Nat.shiftLeft_eq, Nat.pow_one, Nat.mul_comm]

/-- What `data` is after one more bit. -/
theorem ofBits_shift (pre : List Bool) (b : Bool) : ofBits pre <<< 1 ||| b.toNat = ofBits (pre ++ [b]) := by
  rw [shift_or, Bits.ofBits_concat]

theorem reading_addr_bit (hscl : s.scl_val = true) (hnum : s.bitnum < 7) : reading_addr device_addr s =
    { s with p_sda := true, data := s.data <<< 1 ||| s.sda.toNat, bitnum := s.bitnum + 1, scl_val := false } := by
  unfold reading_addr
  rw [if_neg (by rw [hscl]; exact Bool.noConfusion)]
  exact if_pos hnum

theorem reading_addr_last (hscl : s.scl_val = true) (hnum : s.bitnum = 7) : reading_addr device_addr s =
    if s.data = device_addr.toNat then { s with p_sda := true, state := .ACK_ADDR, rw := s.sda, scl_val := false }
    else { s with p_sda := true, state := .IGNORE_ACK, scl_val := false } := by
  unfold reading_addr
  rw [if_neg (by rw [hscl]; exact Bool.noConfusion)]
  dsimp only [port_in_sda]
  rw [if_neg (by omega)]
  by_cases hown : s.data = device_addr.toNat
  · rw [if_neg (not_not_intro hown), if_pos hown]
  · rw [if_pos hown, if_neg hown]

/-- One of the seven bits of an address. -/
theorem addressing_bit (s : Ctx) {pre : List Bool} (hpre : pre.length < 7) (sda b : Bool) (l : Log) :
    Run app device_addr f (addressing s pre sda l) (bit b) (addressing s (pre ++ [b]) b (l.see [b])) := by
  have hbit : reading_addr device_addr { addressing s pre b (l.see [b]) with scl := true } =
      { addressing s (pre ++ [b]) b (l.see [b]) with scl := true, scl_val := false } := by
    rw [reading_addr_bit rfl hpre]
    unfold addressing
    rw [← ofBits_shift, List.length_append]
    rfl
  exact .still rfl (.event (congrArg Sum.inl hbit) rfl (.event rfl rfl (.nil _)))

theorem addressing_bits (bs : List Bool) (s : Ctx) (pre : List Bool) (hlen : pre.length + bs.length ≤ 7) (sda : Bool)
    (l : Log) : ∃ sda', Run app device_addr f (addressing s pre sda l) (bits bs) (addressing s (pre ++ bs) sda' (l.see bs)) := by
  induction bs generalizing pre sda l with
  | nil => exact ⟨sda, by rw [Log.see_nil, List.append_nil]; exact .nil _⟩
  | cons b bs ih =>
    rw [List.length_cons] at hlen
    obtain ⟨sda', h⟩ := ih (pre ++ [b]) (by rw [List.length_append, List.length_singleton]; omega) b (l.see [b])
    rw [Log.see_cons, List.append_cons]
    exact ⟨sda', (addressing_bit s (by omega) sda b l).append h⟩

/-- The read bit of an address of another device. -/
theorem addressing_other (s : Ctx) {pre : List Bool} (hpre : pre.length = 7) (hother : ofBits pre ≠ device_addr.toNat)
    (sda b : Bool) (l : Log) : ∃ s', Run app device_addr f (addressing s pre sda l) (bit b)
      (acking s' .WAITING_FOR_START_OR_STOP true b (l.see [b])) := by
  have hbit : reading_addr device_addr { addressing s pre b (l.see [b]) with scl := true } =
      { addressing s pre b (l.see [b]) with scl := true, state := .IGNORE_ACK, scl_val := false } := by
    rw [reading_addr_last rfl hpre]
    exact if_neg hother
  exact ⟨addressing s pre b (l.see [b]),
    .still rfl (.event (congrArg Sum.inl hbit) rfl (.event rfl rfl (.nil _)))⟩

/-- The log of a request: the application is asked whether to acknowledge it. -/
def Log.asked (l : Log) (c : Call) : Log := ⟨false, l.calls ++ [c], l.seen⟩

def next_of (ack : SlaveAck) (read : Bool) : State :=
  if ack = .I2C_SLAVE_NACK then .WAITING_FOR_START_OR_STOP else if read then .MASTER_READ else .MASTER_WRITE

theorem ack_addr_eq (app : App) (s : Ctx) : ack_addr app s =
    { s with
      p_scl := true, p_sda := (app.ack s.calls.length).level, ignore_stop_bit := false, scl_val := true
      calls := s.calls ++ [if s.rw then .ack_read_request else .ack_write_request]
      next_state := next_of (app.ack s.calls.length) s.rw, state := .ACK_WAIT_HIGH } := by
  unfold ack_addr
  dsimp only [port_out_scl]
  cases app.ack s.calls.length with
  | I2C_SLAVE_ACK => rfl
  | I2C_SLAVE_NACK => rfl

/-- The read bit of this slave's address. -/
theorem addressing_own (s : Ctx) {pre : List Bool} (hpre : pre.length = 7) (hown : ofBits pre = device_addr.toNat)
    (sda b : Bool) (l : Log) : ∃ s', Run app device_addr f (addressing s pre sda l) (bit b)
      (acking s' (next_of (app.ack l.calls.length) b) (app.ack l.calls.length).level b
        ((l.see [b]).asked (if b then .ack_read_request else .ack_write_request))) := by
  have hbit : reading_addr device_addr { addressing s pre b (l.see [b]) with scl := true } =
      { addressing s pre b (l.see [b]) with scl := true, state := .ACK_ADDR, rw := b, scl_val := false } := by
    rw [reading_addr_last rfl hpre]
    exact if_pos hown
  exact ⟨{ addressing s pre b (l.see [b]) with rw := b },
    .still rfl (.event (congrArg Sum.inl hbit) rfl (.event (congrArg Sum.inl (ack_addr_eq app _)) rfl (.nil _)))⟩

/-! ## Acknowledging -/

/-- The slave goes back to waiting. -/
theorem acking_waiting (s : Ctx) (sda b : Bool) (l : Log) :
    ∃ s', Run app device_addr f (acking s .WAITING_FOR_START_OR_STOP true sda l) (bit b) (waiting s' false b (l.see [b])) := by
  refine ⟨{ s with next_state := .WAITING_FOR_START_OR_STOP, scl_val := false, bitnum := 0 }, ?_⟩
  cases b
  · exact .still rfl (.event rfl rfl (.cons (Loop.ends_inl rfl (Loop.ends_inl rfl (Loop.ends_inr rfl))) (.nil _)))
  · exact .still rfl (.event rfl rfl (.event rfl rfl (.nil _)))

/-- The next byte comes in. -/
theorem acking_writing (s : Ctx) (level sda : Bool) (l : Log) :
    Run app device_addr f (acking s .MASTER_WRITE level sda l) (bit true) (writing s [] true (l.see [level])) := by
  cases level <;> exact .still rfl (.event rfl rfl (.event rfl rfl (.nil _)))

/-! ## Bytes that are read -/

/-- The application is asked for a byte, and its first bit is put on SDA. -/
theorem acking_reading (s : Ctx) (sda : Bool) (l : Log) :
    ∃ s', Run app device_addr f (acking s .MASTER_READ false sda l) (bit true)
      (reading s' 0 (app.data l.calls.length) true ((l.see [false]).call .master_requires_data)) :=
  ⟨{ s with next_state := .MASTER_READ },
    .still rfl (.event rfl rfl (.cons (Loop.ends_inl rfl (Loop.ends_inl rfl (Loop.ends_inr rfl))) (.nil _)))⟩

theorem master_read_rise (app : App) (hscl : s.scl_val = true) (hnum : s.bitnum < 8) :
    master_read app s = { s with scl_val := false, bitnum := s.bitnum + 1 } := by
  unfold master_read
  rw [if_pos hscl, if_neg (by omega)]

theorem master_read_fall (app : App) (hscl : s.scl_val = false) (hnum : s.bitnum < 8) (h0 : s.bitnum ≠ 0) :
    master_read app s = { s with p_sda := bit0 s.data, data := s.data >>> 1, scl_val := true } := by
  unfold master_read
  rw [if_neg (by rw [hscl]; exact Bool.noConfusion), if_pos hnum, if_neg h0]
  rfl

/-- The master reads a bit that is not the last one of its byte. -/
theorem reading_bit (s : Ctx) {k : Nat} (hk : k < 7) (byte : UInt8) (sda : Bool) (l : Log) :
    Run app device_addr f (reading s k byte sda l) (bit true) (reading s (k + 1) byte true (l.see [byte_bit byte k])) := by
  have hseen : (byte_bit byte k && true) = byte_bit byte k := Bool.and_true _
  have hrise : master_read app { reading s k byte true (l.see [byte_bit byte k]) with scl := true } =
      { reading s k byte true (l.see [byte_bit byte k]) with scl := true, scl_val := false, bitnum := k + 1 } :=
    master_read_rise app rfl (show k < 8 by omega)
  have hfall : master_read app { reading s k byte true (l.see [byte_bit byte k]) with scl_val := false, bitnum := k + 1 } =
      reading s (k + 1) byte true (l.see [byte_bit byte k]) :=
    master_read_fall app rfl (show k + 1 < 8 by omega) (Nat.succ_ne_zero k)
  rw [← hseen] at hrise hfall ⊢
  exact .still rfl (.event (congrArg Sum.inl hrise) rfl (.event (congrArg Sum.inl hfall) rfl (.nil _)))

theorem reading_last_bit (s : Ctx) (byte : UInt8) (sda : Bool) (l : Log) :
    ∃ s', Run app device_addr f (reading s 7 byte sda l) (bit true) (sent s' true (l.see [byte_bit byte 7])) := by
  have hseen : (byte_bit byte 7 && true) = byte_bit byte 7 := Bool.and_true _
  rw [← hseen]
  exact ⟨{ s with data := msb_first byte >>> 8 }, .still rfl (.event rfl rfl (.event rfl rfl (.nil _)))⟩

theorem reading_bits (n : Nat) (s : Ctx) (k : Nat) (hk : k + n ≤ 7) (byte : UInt8) (sda : Bool) (l : Log) :
    ∃ sda', Run app device_addr f (reading s k byte sda l) (bits (List.replicate n true))
      (reading s (k + n) byte sda' (l.see (Bits.window (byte_bit byte) k n))) := by
  induction n generalizing k sda l with
  | zero => exact ⟨sda, by rw [show Bits.window (byte_bit byte) k 0 = [] from rfl, Log.see_nil]; exact .nil _⟩
  | succ n ih =>
    obtain ⟨sda', h⟩ := ih (k + 1) (by omega) true (l.see [byte_bit byte k])
    rw [Bits.window_succ, Log.see_cons, show k + (n + 1) = k + 1 + n by omega]
    exact ⟨sda', (reading_bit s (by omega) byte sda l).append h⟩

theorem byte_bit_eq (byte : UInt8) {k : Nat} (hk : k < 8) : byte_bit byte k = byte.toNat.testBit (8 - 1 - k) := by
  have hbit : byte_bit byte k = (msb_first byte).testBit k := by
    unfold byte_bit bit0 Nat.testBit
    rw [Nat.and_comm]
    rcases Nat.mod_two_eq_zero_or_one (msb_first byte >>> k) with h | h <;> simp [h]
  have h32 : 24 + k < 32 := by omega
  have hidx : 32 - 1 - (24 + k) = 8 - 1 - k := by omega
  have hlt : 8 - 1 - k < 32 := by omega
  rw [hbit, msb_first, BitVec.testBit_toNat, BitVec.getLsbD_ushiftRight, BitVec.getLsbD_reverse,
    BitVec.getMsbD_eq_getLsbD, decide_eq_true h32, Bool.true_and, hidx, BitVec.getLsbD_ofNat, decide_eq_true hlt,
    Bool.true_and]

theorem byte_bits (byte : UInt8) : Bits.window (byte_bit byte) 0 8 = toBits 8 byte.toNat :=
  List.map_congr_left fun k hk => by rw [Nat.zero_add, byte_bit_eq byte (List.mem_range.1 hk)]

/-- A byte is read, the most significant bit first. -/
theorem reading_byte (s : Ctx) (byte : UInt8) (sda : Bool) (l : Log) :
    ∃ s' sda', Run app device_addr f (reading s 0 byte sda l) (bits (List.replicate 8 true))
      (sent s' sda' (l.see (toBits 8 byte.toNat))) := by
  rw [← byte_bits, Bits.window_add _ 0 7 1, Log.see_append]
  obtain ⟨sda', h⟩ := reading_bits 7 s 0 (Nat.le_refl 7) byte sda l
  obtain ⟨s', hlast⟩ := reading_last_bit s byte sda' (l.see (Bits.window (byte_bit byte) 0 7))
  exact ⟨s', true, h.append hlast⟩

/-- The master wants another byte. -/
theorem sent_more (s : Ctx) (sda : Bool) (l : Log) :
    ∃ s', Run app device_addr f (sent s sda l) (bit false)
      (reading s' 0 (app.data l.calls.length) false ((l.see [false]).call .master_requires_data)) :=
  ⟨s, .still rfl (.event rfl rfl (.event rfl rfl (.nil _)))⟩

/-- The master wants no more. -/
theorem sent_last (s : Ctx) (sda : Bool) (l : Log) :
    ∃ s', Run app device_addr f (sent s sda l) (bit true) (waiting s' false true (l.see [true])) :=
  ⟨{ s with scl_val := true, bitnum := 8 }, .still rfl (.event rfl rfl (.still rfl (.nil _)))⟩

/-! ## Bytes that are written -/

theorem master_write_rise (app : App) (hscl : s.scl_val = true) (h0 : s.bitnum ≠ 0) : master_write app s =
    { s with p_sda := true, data := s.data <<< 1 ||| (s.sda.toNat &&& 1), scl_val := false, bitnum := s.bitnum + 1 } := by
  unfold master_write
  rw [if_pos hscl]
  dsimp only [port_in_sda]
  rw [if_neg h0]

theorem master_write_fall (app : App) (hscl : s.scl_val = false) (h8 : s.bitnum ≠ 8) :
    master_write app s = { s with stop_bit_check := false, scl_val := true } := by
  unfold master_write
  rw [if_neg (by rw [hscl]; exact Bool.noConfusion)]
  dsimp only
  rw [if_neg h8]

theorem toNat_and_one (b : Bool) : b.toNat &&& 1 = b.toNat := by
  cases b <;> rfl

/-- The first bit of a byte: while SCL is high it may be a start or a stop. -/
theorem writing_first_bit (s : Ctx) (sda b : Bool) (l : Log) :
    ∃ s', Run app device_addr f (writing s [] sda l) (bit b) (writing s' [b] b (l.see [b])) := by
  refine ⟨{ s with sda_val := !b }, ?_⟩
  have hdata : ofBits [] <<< 1 ||| (b.toNat &&& 1) = ofBits [b] := by
    rw [toNat_and_one, ofBits_shift, List.nil_append]
  unfold writing
  rw [← hdata]
  cases b <;> exact .still rfl (.event rfl rfl (.event rfl rfl (.nil _)))

/-- A bit in the middle of a byte. -/
theorem writing_bit (s : Ctx) {pre : List Bool} (h0 : pre ≠ []) (hpre : pre.length < 7) (sda b : Bool) (l : Log) :
    Run app device_addr f (writing s pre sda l) (bit b) (writing s (pre ++ [b]) b (l.see [b])) := by
  have hrise : master_write app { writing s pre b (l.see [b]) with scl := true } =
      { writing s (pre ++ [b]) b (l.see [b]) with scl := true, scl_val := false } := by
    rw [master_write_rise app rfl fun h => h0 (List.length_eq_zero_iff.1 h)]
    unfold writing
    dsimp only
    rw [toNat_and_one, ofBits_shift, List.length_append]
    rfl
  have hfall : master_write app { writing s (pre ++ [b]) b (l.see [b]) with scl_val := false } =
      writing s (pre ++ [b]) b (l.see [b]) := by
    rw [master_write_fall app rfl]
    · rfl
    · show (pre ++ [b]).length ≠ 8
      rw [List.length_append, List.length_singleton]
      omega
  exact .still rfl (.event (congrArg Sum.inl hrise) rfl (.event (congrArg Sum.inl hfall) rfl (.nil _)))

theorem writing_bits (bs : List Bool) (s : Ctx) (pre : List Bool) (h0 : pre ≠ []) (hlen : pre.length + bs.length ≤ 7)
    (sda : Bool) (l : Log) :
    ∃ sda', Run app device_addr f (writing s pre sda l) (bits bs) (writing s (pre ++ bs) sda' (l.see bs)) := by
  induction bs generalizing pre sda l with
  | nil => exact ⟨sda, by rw [Log.see_nil, List.append_nil]; exact .nil _⟩
  | cons b bs ih =>
    rw [List.length_cons] at hlen
    obtain ⟨sda', h⟩ := ih (pre ++ [b]) (by simp) (by rw [List.length_append, List.length_singleton]; omega) b
      (l.see [b])
    rw [Log.see_cons, List.append_cons]
    exact ⟨sda', (writing_bit s h0 (by omega) sda b l).append h⟩

theorem master_write_last (app : App) (hscl : s.scl_val = false) (h8 : s.bitnum = 8) : master_write app s =
    { s with
      stop_bit_check := false, p_scl := true, p_sda := (app.ack s.calls.length).level
      calls := s.calls ++ [.master_sent_data (UInt8.ofNat s.data)], state := .ACK_WAIT_HIGH, scl_val := true } := by
  cases hack : app.ack s.calls.length <;>
    simp [master_write, hscl, h8, hack, port_out_scl, call, port_in_sda, port_out_sda, port_in_scl, SlaveAck.level]

/-- The last bit of a byte: the application gets the byte and says whether to acknowledge it. -/
theorem writing_last_bit (s : Ctx) (pre : List Bool) (hpre : pre.length = 7) (sda b : Bool) (l : Log) :
    ∃ s', Run app device_addr f (writing s pre sda l) (bit b) (acking s' .MASTER_WRITE (app.ack l.calls.length).level b
      ((l.see [b]).call (.master_sent_data (UInt8.ofNat (ofBits (pre ++ [b])))))) := by
  have h0 : pre.length ≠ 0 := by omega
  have h8 : (pre ++ [b]).length = 8 := by rw [List.length_append, hpre, List.length_singleton]
  have hrise : master_write app { writing s pre b (l.see [b]) with scl := true } =
      { writing s (pre ++ [b]) b (l.see [b]) with scl := true, scl_val := false } := by
    rw [master_write_rise app rfl h0]
    unfold writing
    dsimp only
    rw [toNat_and_one, ofBits_shift, List.length_append]
    rfl
  have hfall := master_write_last (s := { writing s (pre ++ [b]) b (l.see [b]) with scl_val := false }) app rfl h8
  exact ⟨writing s (pre ++ [b]) b (l.see [b]),
    .still rfl (.event (congrArg Sum.inl hrise) rfl (.event (congrArg Sum.inl hfall) rfl (.nil _)))⟩

theorem ofNat_ofBits (byte : UInt8) : UInt8.ofNat (ofBits (toBits 8 byte.toNat)) = byte := by
  rw [Bits.ofBits_toBits, Nat.mod_eq_of_lt byte.toNat_lt, UInt8.ofNat_toNat]

/-- A byte comes in and is acknowledged, or not. -/
theorem writing_byte (s : Ctx) (byte : UInt8) (sda : Bool) (l : Log) :
    ∃ s', Run app device_addr f (writing s [] sda l) (bits (toBits 8 byte.toNat) ++ bit true)
      (writing s' [] true (((l.see (toBits 8 byte.toNat)).call (.master_sent_data byte)).see
        [(app.ack l.calls.length).level])) := by
  obtain ⟨first, middle, last, hbits, hmiddle⟩ : ∃ first middle last,
      toBits 8 byte.toNat = first :: (middle ++ [last]) ∧ middle.length = 6 :=
    ⟨_, (List.range 6).map fun i => byte.toNat.testBit (8 - 1 - (i + 1)), _, rfl, rfl⟩
  have hbyte : UInt8.ofNat (ofBits (first :: middle ++ [last])) = byte := by
    rw [List.cons_append, ← hbits, ofNat_ofBits]
  obtain ⟨s₁, h₁⟩ := writing_first_bit s sda first l
  obtain ⟨sda₂, h₂⟩ := writing_bits middle s₁ [first] (List.cons_ne_nil _ _)
    (by rw [hmiddle]; exact Nat.le_refl 7) first (l.see [first])
  obtain ⟨s₃, h₃⟩ := writing_last_bit s₁ (first :: middle) (by rw [List.length_cons, hmiddle]) sda₂ last
    ((l.see [first]).see middle)
  rw [hbyte] at h₃
  rw [hbits, show first :: (middle ++ [last]) = [first] ++ (middle ++ [last]) from rfl, Log.see_append, Log.see_append,
    bits_append, bits_append, List.append_assoc, List.append_assoc]
  exact ⟨s₃, h₁.append (h₂.append (h₃.append (acking_writing s₃ _ last _)))⟩

/-! ## A message -/

/-- The log after some bytes of a message for this slave. -/
def Log.bytes (app : App) (l : Log) (m : Message) (bs : List (UInt8 × Bool)) : Log :=
  ⟨l.ignore_stop_bit, l.calls ++ bs.map m.byte_call, l.seen ++ m.own_bytes app l.calls.length bs⟩

theorem Log.bytes_nil (app : App) (l : Log) (m : Message) : l.bytes app m [] = l := by
  rw [Log.bytes, Message.own_bytes, List.map_nil, List.append_nil, List.append_nil]

/-- The bytes of a message that is written to this slave. -/
theorem writing_bytes (m : Message) (hown : m.own device_addr = true) (hwrite : m.read = false)
    (bs : List (UInt8 × Bool)) (s : Ctx) (sda : Bool) (l : Log) : ∃ s' sda',
      Run app device_addr f (writing s [] sda l) (bits (bs.flatMap (m.byte_levels device_addr)))
        (writing s' [] sda' (l.bytes app m bs)) := by
  induction bs generalizing s sda l with
  | nil => exact ⟨s, sda, by rw [Log.bytes_nil]; exact .nil _⟩
  | cons b bs ih =>
    obtain ⟨s₁, h₁⟩ := writing_byte s b.1 sda l
    obtain ⟨s₂, sda₂, h₂⟩ := ih s₁ true (((l.see (toBits 8 b.1.toNat)).call (.master_sent_data b.1)).see
      [(app.ack l.calls.length).level])
    have hlevels : m.byte_levels device_addr b = toBits 8 b.1.toNat ++ [true] := by
      rw [Message.byte_levels, if_pos hown, hwrite]
      rfl
    have hlog : (((l.see (toBits 8 b.1.toNat)).call (.master_sent_data b.1)).see
        [(app.ack l.calls.length).level]).bytes app m bs = l.bytes app m (b :: bs) := by
      simp [Log.bytes, Log.see, Log.call, Message.own_bytes, Message.byte_call, hwrite]
    rw [List.flatMap_cons, hlevels, bits_append, bits_append, ← hlog]
    exact ⟨s₂, sda₂, h₁.append h₂⟩

/-- The bytes that the master reads from this slave: the first one was asked for. -/
theorem reading_bytes (m : Message) (hown : m.own device_addr = true) (hread : m.read = true) (k : Nat) :
    ∀ (bs : List (UInt8 × Bool)), bs.map Prod.snd = List.replicate k false ++ [true] →
      ∀ (s : Ctx) (sda : Bool) (l : Log), ∃ s',
        Run app device_addr f (reading s 0 (app.data l.calls.length) sda (l.call .master_requires_data))
          (bits (bs.flatMap (m.byte_levels device_addr))) (waiting s' false true (l.bytes app m bs)) := by
  have hlevels : ∀ b : UInt8 × Bool, m.byte_levels device_addr b = List.replicate 8 true ++ [b.2] := by
    intro b
    rw [Message.byte_levels, if_pos hown, if_pos hread]
  have hlog : ∀ (l : Log) (b : UInt8 × Bool) (bs : List (UInt8 × Bool)),
      (((l.call .master_requires_data).see (toBits 8 (app.data l.calls.length).toNat)).see [b.2]).bytes app m bs =
        l.bytes app m (b :: bs) := by
    intro l b bs
    simp [Log.bytes, Log.see, Log.call, Message.own_bytes, Message.byte_call, hread]
  induction k with
  | zero =>
    intro bs hbs s sda l
    obtain ⟨b, rfl, hb⟩ : ∃ b, bs = [b] ∧ b.2 = true := by
      rcases bs with _ | ⟨b, _ | ⟨b', bs⟩⟩
      · cases hbs
      · exact ⟨b, rfl, (List.cons.inj hbs).1⟩
      · cases (List.cons.inj hbs).2
    obtain ⟨s₁, sda₁, h₁⟩ := reading_byte s (app.data l.calls.length) sda (l.call .master_requires_data)
    obtain ⟨s₂, h₂⟩ := sent_last s₁ sda₁ ((l.call .master_requires_data).see (toBits 8 (app.data l.calls.length).toNat))
    rw [List.flatMap_singleton, hlevels, bits_append, ← hlog, hb, Log.bytes_nil]
    exact ⟨s₂, h₁.append h₂⟩
  | succ k ih =>
    intro bs hbs s sda l
    obtain ⟨b, bs, rfl, hb, hbs⟩ : ∃ b bs', bs = b :: bs' ∧ b.2 = false ∧
        bs'.map Prod.snd = List.replicate k false ++ [true] := by
      rcases bs with _ | ⟨b, bs⟩
      · cases hbs
      · exact ⟨b, bs, rfl, (List.cons.inj hbs).1, (List.cons.inj hbs).2⟩
    obtain ⟨s₁, sda₁, h₁⟩ := reading_byte s (app.data l.calls.length) sda (l.call .master_requires_data)
    obtain ⟨s₂, h₂⟩ := sent_more s₁ sda₁ ((l.call .master_requires_data).see (toBits 8 (app.data l.calls.length).toNat))
    obtain ⟨s₃, h₃⟩ := ih bs hbs s₂ false
      (((l.call .master_requires_data).see (toBits 8 (app.data l.calls.length).toNat)).see [false])
    rw [List.flatMap_cons, hlevels, bits_append, bits_append, ← hlog, hb]
    exact ⟨s₃, (h₁.append h₂).append h₃⟩

/-- SCL is low and a byte may follow, if the slave takes part in the message. -/
inductive Low (l : Log) : Ctx → Prop
  | idle (s : Ctx) (sda : Bool) : Low l (waiting s false sda l)
  | taking (s : Ctx) (sda : Bool) : Low l (writing s [] sda l)

/-- The log after a message, but for its start and its stop. -/
def Log.message (app : App) (device_addr : UInt8) (l : Log) (m : Message) : Log :=
  ⟨l.ignore_stop_bit && !m.own device_addr,
    l.calls ++ if m.own device_addr then m.request :: m.bytes.map m.byte_call else [],
    l.seen ++ m.seen app device_addr l.calls.length⟩

theorem address_bits (m : Message) : ofBits (toBits 7 m.address.val) = m.address.val := by
  rw [Bits.ofBits_toBits, Nat.mod_eq_of_lt (show m.address.val < 2 ^ 7 from m.address.isLt)]

def Message.levels (device_addr : UInt8) (m : Message) : List Bool :=
  toBits 7 m.address.val ++ [m.read] ++ [m.own device_addr || m.ack] ++ m.bytes.flatMap (m.byte_levels device_addr)

/-- A message for another device. -/
theorem message_other (m : Message) (hother : m.own device_addr = false) (s : Ctx) (sda : Bool) (l : Log) :
    ∃ s' sda', Run app device_addr f (addressing s [] sda l) (bits (m.levels device_addr))
      (waiting s' false sda' (l.message app device_addr m)) := by
  have haddr : ofBits (toBits 7 m.address.val) ≠ device_addr.toNat := by
    rw [address_bits]
    exact of_decide_eq_false hother
  have hlog : l.message app device_addr m = (((l.see (toBits 7 m.address.val)).see [m.read]).see [m.ack]).see
      (m.bytes.flatMap fun b => toBits 8 b.1.toNat ++ [b.2]) := by
    simp [Log.message, Log.see, Message.seen, hother]
  have hbytes : m.bytes.flatMap (m.byte_levels device_addr) = m.bytes.flatMap fun b => toBits 8 b.1.toNat ++ [b.2] :=
    congrArg (List.flatMap · m.bytes) (funext fun b => if_neg (by rw [hother]; exact Bool.noConfusion))
  obtain ⟨sda₁, h₁⟩ := addressing_bits (toBits 7 m.address.val) s [] (by simp) sda l
  obtain ⟨s₂, h₂⟩ := addressing_other s (Bits.length_toBits 7 _) haddr sda₁ m.read (l.see (toBits 7 m.address.val))
  obtain ⟨s₃, h₃⟩ := acking_waiting s₂ m.read m.ack ((l.see (toBits 7 m.address.val)).see [m.read])
  obtain ⟨sda₄, h₄⟩ := waiting_bits (m.bytes.flatMap fun b => toBits 8 b.1.toNat ++ [b.2]) s₃ m.ack
    (((l.see (toBits 7 m.address.val)).see [m.read]).see [m.ack])
  rw [Message.levels, hother, Bool.false_or, hbytes, bits_append, bits_append, bits_append, hlog]
  exact ⟨s₃, sda₄, ((h₁.append h₂).append h₃).append h₄⟩

/-- The acknowledgement of this slave's address, and the bytes. -/
theorem acking_own (m : Message) (hown : m.own device_addr = true) (ack : SlaveAck)
    (hproper : if ack = .I2C_SLAVE_NACK then m.bytes = []
      else m.read → ∃ k, m.bytes.map Prod.snd = List.replicate k false ++ [true]) (s : Ctx) (sda : Bool) (l : Log) :
    ∃ c, Run app device_addr f (acking s (next_of ack m.read) ack.level sda l)
        (bit true ++ bits (m.bytes.flatMap (m.byte_levels device_addr))) c ∧
      Low ((l.see [ack.level]).bytes app m m.bytes) c := by
  cases ack with
  | I2C_SLAVE_NACK =>
    rw [if_pos rfl] at hproper
    obtain ⟨s₁, h₁⟩ := acking_waiting s sda true l
    rw [hproper, Log.bytes_nil]
    exact ⟨_, h₁, .idle s₁ true⟩
  | I2C_SLAVE_ACK =>
    rw [if_neg (fun h => nomatch h)] at hproper
    cases hread : m.read with
    | false =>
      obtain ⟨s₂, sda₂, h₂⟩ := writing_bytes m hown hread m.bytes s true (l.see [false])
      exact ⟨_, (acking_writing s false sda l).append h₂, .taking s₂ sda₂⟩
    | true =>
      obtain ⟨k, hbytes⟩ := hproper hread
      obtain ⟨s₁, h₁⟩ := acking_reading s sda l
      obtain ⟨s₂, h₂⟩ := reading_bytes m hown hread k m.bytes hbytes s₁ true (l.see [false])
      exact ⟨_, h₁.append h₂, .idle s₂ true⟩

/-- A message for this slave. -/
theorem message_own (m : Message) (hown : m.own device_addr = true) (s : Ctx) (sda : Bool) (l : Log)
    (hproper : m.Proper app device_addr l.calls.length) :
    ∃ c, Run app device_addr f (addressing s [] sda l) (bits (m.levels device_addr)) c ∧
      Low (l.message app device_addr m) c := by
  have haddr : ofBits (toBits 7 m.address.val) = device_addr.toNat := by
    rw [address_bits]
    exact of_decide_eq_true hown
  have hlog : l.message app device_addr m =
      ((((l.see (toBits 7 m.address.val)).see [m.read]).asked m.request).see [(app.ack l.calls.length).level]).bytes app m
        m.bytes := by
    simp [Log.message, Log.see, Log.asked, Log.bytes, Message.seen, hown]
  obtain ⟨sda₁, h₁⟩ := addressing_bits (toBits 7 m.address.val) s [] (by simp) sda l
  obtain ⟨s₂, h₂⟩ := addressing_own s (Bits.length_toBits 7 _) haddr sda₁ m.read (l.see (toBits 7 m.address.val))
  obtain ⟨c, h₃, hlow⟩ := acking_own m hown (app.ack l.calls.length) (hproper hown) s₂ m.read
    (((l.see (toBits 7 m.address.val)).see [m.read]).asked m.request)
  rw [Message.levels, hown, Bool.true_or, bits_append, bits_append, bits_append, hlog, List.append_assoc]
  exact ⟨c, (h₁.append h₂).append h₃, hlow⟩

theorem message_levels (m : Message) (s : Ctx) (sda : Bool) (l : Log) (hproper : m.Proper app device_addr l.calls.length) :
    ∃ c, Run app device_addr f (addressing s [] sda l) (bits (m.levels device_addr)) c ∧
      Low (l.message app device_addr m) c := by
  cases hown : m.own device_addr with
  | false =>
    obtain ⟨s', sda', h⟩ := message_other m hown s sda l
    exact ⟨_, h, .idle s' sda'⟩
  | true => exact message_own m hown s sda l hproper

/-! ## Transcripts -/

theorem Low.restart {c : Ctx} (h : Low l c) :
    ∃ s', Run app device_addr f c start_edges (addressing s' [] false (l.see [true])) := by
  cases h with
  | idle s sda => exact waiting_restart s sda l
  | taking s sda => exact writing_restart s sda l

theorem Low.stop {c : Ctx} (h : Low l c) :
    ∃ s', Run app device_addr f c stop_edges (waiting s' true true (l.stopped app.has_stop_bit)) := by
  cases h with
  | idle s sda => exact waiting_stop s sda l
  | taking s sda => exact writing_stop s sda l

/-- Between two messages. -/
inductive Between (p : Progress) : Ctx → Prop
  | free (s : Ctx) (h : p.free = true) : Between p (waiting s true true ⟨!p.addressed, p.calls, p.seen⟩)
  | held {c : Ctx} (h : p.free = false) (hlow : Low ⟨!p.addressed, p.calls, p.seen⟩ c) : Between p c

theorem Between.start {p : Progress} {c : Ctx} (h : Between p c) : ∃ s', Run app device_addr f c start_edges
    (addressing s' [] false ⟨!p.addressed, p.calls, p.seen ++ if p.free then [] else [true]⟩) := by
  cases h with
  | free s hfree =>
    rw [hfree, if_pos rfl, List.append_nil]
    exact waiting_start s _
  | held hfree hlow =>
    rw [hfree]
    exact hlow.restart

/-- One message. -/
theorem Between.message {p : Progress} {c : Ctx} (h : Between p c) (m : Message)
    (hproper : m.Proper app device_addr p.calls.length) :
    ∃ c', Run app device_addr f c (m.edges device_addr) c' ∧ Between (p.after app device_addr m) c' := by
  obtain ⟨s₁, h₁⟩ := h.start
  obtain ⟨c₂, h₂, hlow⟩ := message_levels m s₁ false ⟨!p.addressed, p.calls, p.seen ++ if p.free then [] else [true]⟩
    hproper
  have haddressed : (!p.addressed && !m.own device_addr) = !(p.addressed || m.own device_addr) :=
    (Bool.not_or _ _).symm
  unfold Log.message at hlow
  rw [haddressed] at hlow
  unfold Progress.after Message.edges
  cases m.stop with
  | false => exact ⟨c₂, (h₁.append h₂).append (.nil _), .held rfl hlow⟩
  | true =>
    obtain ⟨s₃, h₃⟩ := hlow.stop
    unfold Log.stopped at h₃
    rw [Bool.not_not] at h₃
    exact ⟨_, (h₁.append h₂).append h₃, .free s₃ rfl⟩

theorem Run.unique {s₁ s₂ : Ctx} (h₁ : Run app device_addr f s es s₁) (h₂ : Run app device_addr f s es s₂) : s₁ = s₂ := by
  induction h₁ with
  | nil =>
    cases h₂
    rfl
  | cons h _ ih =>
    cases h₂ with
    | cons h' hs' =>
      rw [Option.some.inj (h'.unique h)] at hs'
      exact ih hs'

theorem Between.transcript (ms : List Message) {p : Progress} {c : Ctx} (h : Between p c)
    (hms : WellFormed app device_addr p ms) :
    ∃ c', Run app device_addr f c (ms.flatMap (Message.edges device_addr)) c' ∧
      Between (ms.foldl (Progress.after app device_addr) p) c' := by
  induction ms generalizing p c with
  | nil => exact ⟨c, .nil c, h⟩
  | cons m ms ih =>
    obtain ⟨hproper, hms⟩ := hms
    obtain ⟨c₁, h₁, hbetween⟩ := h.message m hproper
    obtain ⟨c₂, h₂, hbetween'⟩ := ih hbetween hms
    exact ⟨c₂, h₁.append h₂, hbetween'⟩

theorem Between.calls {p : Progress} {c : Ctx} (h : Between p c) : c.calls = p.calls ∧ c.seen = p.seen := by
  cases h with
  | free s _ => exact ⟨rfl, rfl⟩
  | held _ hlow =>
    cases hlow with
    | idle s sda => exact ⟨rfl, rfl⟩
    | taking s sda => exact ⟨rfl, rfl⟩

/-- Nothing was called or seen, and the bus is free. -/
def Progress.start : Progress := ⟨[], [], false, true⟩

/-- The slave handles every well-formed transcript: it makes the calls that the transcript prescribes, and SDA has the
prescribed level whenever SCL rises. -/
theorem slave_follows (app : App) (device_addr : UInt8) (sda_first : Bool) (ms : List Message)
    (hms : WellFormed app device_addr .start ms) :
    ∃ s, Run app device_addr sda_first started (ms.flatMap (Message.edges device_addr)) s ∧
      (∀ s', Run app device_addr sda_first started (ms.flatMap (Message.edges device_addr)) s' → s' = s) ∧
      s.calls = (ms.foldl (Progress.after app device_addr) .start).calls ∧
      s.seen = (ms.foldl (Progress.after app device_addr) .start).seen := by
  have hstart : Between .start started := .free started rfl
  obtain ⟨s, hrun, hbetween⟩ := hstart.transcript ms hms
  exact ⟨s, hrun, fun s' hrun' => hrun'.unique hrun, hbetween.calls⟩

/-! ## A register is read -/

/-- Everything is acknowledged, and each byte is 0xA5. -/
def steady : App := ⟨fun _ => .I2C_SLAVE_ACK, fun _ => 0xA5, true⟩

/-- The register's number is written, and its value is read after a repeated start; then another device is addressed. -/
def register_read : List Message :=
  [⟨0x50, false, true, [(7, true)], false⟩, ⟨0x50, true, true, [(0, true)], true⟩, ⟨0x51, false, false, [(3, false)], true⟩]

theorem slave_follows_register_read : ∃ s,
    Run steady 0x50 false started (register_read.flatMap (Message.edges 0x50)) s ∧
      s.calls = [.ack_write_request, .master_sent_data 7, .ack_read_request, .master_requires_data, .stop_bit] := by
  have hwrite : (Message.mk 0x50 false true [(7, true)] false).Proper steady 0x50 0 := fun _ h => nomatch h
  have hread : (Message.mk 0x50 true true [(0, true)] true).Proper steady 0x50 2 := fun _ _ => ⟨0, rfl⟩
  have hother : (Message.mk 0x51 false false [(3, false)] true).Proper steady 0x50 5 := fun h => nomatch h
  obtain ⟨s, hrun, -, hcalls, -⟩ := slave_follows steady 0x50 false register_read ⟨hwrite, hread, hother, trivial⟩
  exact ⟨s, hrun, hcalls⟩

end Slave
end I2c
