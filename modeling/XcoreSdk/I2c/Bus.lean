import XcoreSdk.I2c.Registers
import XcoreSdk.I2c.SlaveProtocol
/-!
# The I2C master and the I2C slave on one bus

What the master does to the lines are the changes that the slave sees, and what
the master samples is the level that the slave leaves on SDA. Nobody else is on
the bus. A read or a write of the master is then a call of the slave's
application, whatever that answers: its bytes are delivered and its answers come
back.
-/

namespace I2c
namespace Bus
open Slave (Ctx Edge Run App bit bits)
open Bits (toBits ofBits window)

/-- The changes of the lines. While it samples the master lets SDA be high. -/
def edges : Wire → List Edge
  | .start | .repeated_start => Slave.start_edges
  | .drive sda => bit sda
  | .sample _ => bit true
  | .stop => Slave.stop_edges

variable (app : App) (device_addr : UInt8) (f : Bool)

/-- The slave's run over what the master does, in which each sample is the level that SDA has when SCL rises. -/
inductive Follows : Ctx → List Wire → Ctx → Prop
  | nil (s : Ctx) : Follows s [] s
  | cons {s s' s'' : Ctx} {w : Wire} {ws : List Wire} (h : Run app device_addr f s (edges w) s')
      (hw : ∀ sda, w = .sample sda → s'.seen.getLast? = some sda) (hs : Follows s' ws s'') : Follows s (w :: ws) s''

/-! ## What the slave's application is to see -/

/-- An operation of the master. -/
inductive Op
  | write (device_addr : UInt8) (buf : List UInt8) (send_stop_bit : Bool)
  | read (device_addr : UInt8) (buf : List UInt8) (send_stop_bit : Bool)
  | stop

/-- What it returns; a read also leaves a buffer. -/
inductive Result
  | write (result : I2cRes) (num_bytes_sent : Nat)
  | read (result : I2cRes) (buf : List UInt8)
  | stop
deriving DecidableEq

def Op.run (m : Master) : Op → Result × Master
  | .write addr buf send_stop_bit =>
    let r := i2c_master_write m addr buf send_stop_bit
    (.write r.result r.num_bytes_sent, r.master)
  | .read addr buf send_stop_bit =>
    let r := i2c_master_read m addr buf buf.length send_stop_bit
    (.read r.result r.buf, r.master)
  | .stop => (.stop, i2c_master_stop_bit_send m)

def run_ops (m : Master) : List Op → List Result × Master
  | [] => ([], m)
  | op :: ops => ((op.run m).1 :: (run_ops (op.run m).2 ops).1, (run_ops (op.run m).2 ops).2)

/-- A read is of at least one byte, and a stop by itself ends what was left open. -/
def Op.Allowed (free : Bool) : Op → Prop
  | .write _ _ _ => True
  | .read _ buf _ => buf ≠ []
  | .stop => free = false

/-- Whether the bus is free after it. -/
def Op.releases : Op → Bool
  | .write _ _ send_stop_bit => send_stop_bit
  | .read _ _ send_stop_bit => send_stop_bit
  | .stop => true

def Proper : Bool → List Op → Prop
  | _, [] => True
  | free, op :: ops => op.Allowed free ∧ Proper op.releases ops

/-- The calls of the slave's application, and whether it was addressed since the last stop. -/
structure Served where
  calls : List Slave.Call
  addressed : Bool

/-- The bytes that the application gets, up to the first that it does not acknowledge, and whether it acknowledges all. -/
def delivered : Nat → List UInt8 → List UInt8 × Bool
  | _, [] => ([], true)
  | n, b :: bs =>
    if app.ack n = .I2C_SLAVE_NACK then ([b], false) else (b :: (delivered (n + 1) bs).1, (delivered (n + 1) bs).2)

def own (addr : UInt8) : Bool := addr.toNat % 128 = device_addr.toNat

def Served.finish (s : Served) (send_stop_bit : Bool) : Served :=
  if send_stop_bit then ⟨if s.addressed && app.has_stop_bit then s.calls ++ [.stop_bit] else s.calls, false⟩ else s

/-- What a write is to the application. -/
def serve_write (s : Served) (addr : UInt8) (buf : List UInt8) (send_stop_bit : Bool) : Result × Served :=
  if own device_addr addr then
    let calls := s.calls ++ [.ack_write_request]
    if app.ack s.calls.length = .I2C_SLAVE_NACK then (.write .nack 0, Served.finish app ⟨calls, true⟩ send_stop_bit)
    else
      let sent := delivered app calls.length buf
      (.write (if sent.2 then .ack else .nack) sent.1.length,
        Served.finish app ⟨calls ++ sent.1.map .master_sent_data, true⟩ send_stop_bit)
  else (.write .nack 0, s.finish app send_stop_bit)

/-- What a read is to the application. -/
def serve_read (s : Served) (addr : UInt8) (buf : List UInt8) (send_stop_bit : Bool) : Result × Served :=
  if own device_addr addr then
    let calls := s.calls ++ [.ack_read_request]
    if app.ack s.calls.length = .I2C_SLAVE_NACK then (.read .nack buf, Served.finish app ⟨calls, true⟩ send_stop_bit)
    else
      (.read .ack ((List.range buf.length).map fun i => app.data (calls.length + i)),
        Served.finish app ⟨calls ++ List.replicate buf.length .master_requires_data, true⟩ send_stop_bit)
  else (.read .nack buf, s.finish app send_stop_bit)

def Op.serve (s : Served) : Op → Result × Served
  | .write addr buf send_stop_bit => serve_write app device_addr s addr buf send_stop_bit
  | .read addr buf send_stop_bit => serve_read app device_addr s addr buf send_stop_bit
  | .stop => (.stop, s.finish app true)

def serve_ops (s : Served) : List Op → List Result × Served
  | [] => ([], s)
  | op :: ops =>
    ((op.serve app device_addr s).1 :: (serve_ops (op.serve app device_addr s).2 ops).1,
      (serve_ops (op.serve app device_addr s).2 ops).2)

/-! ## One step on the wire -/

variable {app device_addr f} {s s' s'' : Ctx} {ws ws' : List Wire}

theorem run_split {es es' : List Edge} (h : Run app device_addr f s (es ++ es') s'') :
    ∃ s', Run app device_addr f s es s' ∧ Run app device_addr f s' es' s'' := by
  induction es generalizing s with
  | nil => exact ⟨s, .nil s, h⟩
  | cons e es ih =>
    cases h with
    | cons h hs =>
      obtain ⟨s₁, h₁, h₂⟩ := ih hs
      exact ⟨s₁, .cons h h₁, h₂⟩

theorem follows_append : Follows app device_addr f s (ws ++ ws') s'' ↔
    ∃ s', Follows app device_addr f s ws s' ∧ Follows app device_addr f s' ws' s'' := by
  constructor
  · intro h
    induction ws generalizing s with
    | nil => exact ⟨s, .nil s, h⟩
    | cons w ws ih =>
      cases h with
      | cons h hw hs =>
        obtain ⟨s₁, h₁, h₂⟩ := ih hs
        exact ⟨s₁, .cons h hw h₁, h₂⟩
  · rintro ⟨s', h, h'⟩
    induction h with
    | nil => exact h'
    | cons h hw _ ih => exact .cons h hw (ih h')

/-- What the master drives, and what it sends besides, is followed as it stands. -/
theorem follows_cons {w : Wire} (hrun : Run app device_addr f s (edges w) s') (hw : ∀ sda, w ≠ .sample sda) :
    Follows app device_addr f s (w :: ws) s'' ↔ Follows app device_addr f s' ws s'' := by
  constructor
  · intro h
    cases h with
    | cons h _ hs =>
      rw [hrun.unique h]
      exact hs
  · exact fun h => .cons hrun (fun sda heq => absurd heq (hw sda)) h

/-- A sample is what the slave has put on SDA. -/
theorem follows_sample {v level : Bool} (hrun : Run app device_addr f s (bit true) s')
    (hseen : s'.seen.getLast? = some level) :
    Follows app device_addr f s (.sample v :: ws) s'' ↔ v = level ∧ Follows app device_addr f s' ws s'' := by
  constructor
  · intro h
    cases h with
    | cons h hw hs =>
      obtain rfl := hrun.unique h
      have hv := hw v rfl
      rw [hseen] at hv
      exact ⟨(Option.some.inj hv).symm, hs⟩
  · rintro ⟨rfl, h⟩
    refine .cons hrun (fun sda heq => ?_) h
    cases heq
    exact hseen

theorem follows_drives {bs : List Bool} (hrun : Run app device_addr f s (bits bs) s') :
    Follows app device_addr f s (bs.map .drive ++ ws) s'' ↔ Follows app device_addr f s' ws s'' := by
  induction bs generalizing s with
  | nil =>
    cases hrun
    exact Iff.rfl
  | cons b bs ih =>
    obtain ⟨s₁, h₁, h₂⟩ := run_split (show Run app device_addr f s (bit b ++ bits bs) s' from hrun)
    rw [List.map_cons, List.cons_append, follows_cons (w := .drive b) h₁ (fun _ h => Wire.noConfusion h), ih h₂]

/-- A byte and its acknowledgement. -/
theorem follows_tx8 {data : BitVec 32} {v level : Bool}
    (hrun : Run app device_addr f s (bits (toBits 8 data.toNat) ++ bit true) s') (hseen : s'.seen.getLast? = some level) :
    Follows app device_addr f s ((toBits 8 data.toNat).map .drive ++ .sample v :: ws) s'' ↔
      v = level ∧ Follows app device_addr f s' ws s'' := by
  obtain ⟨s₁, h₁, h₂⟩ := run_split hrun
  rw [follows_drives h₁, follows_sample h₂ hseen]

/-! ## Pieces of the master -/

variable (app device_addr f) in
/-- From state `s` of the slave the piece returns `r` and leaves the slave in `s'`, when the samples are right; and there are
such samples. -/
structure Serves {ρ : Type} (g : Master → ρ × Master) (s : Ctx) (r : ρ) (s' : Ctx) : Prop where
  wire : ∀ m, ∃ events, (g m).2.wire = m.wire ++ events
  follows : ∀ m events t, (g m).2.wire = m.wire ++ events → Follows app device_addr f s events t → (g m).1 = r ∧ t = s'
  answered : ∀ rest, ∃ sda, ∀ m, m.sda = sda → (g m).2.sda = rest ∧
    ∀ events, (g m).2.wire = m.wire ++ events → Follows app device_addr f s events s'

def andThen {ρ ρ' : Type} (g : Master → ρ × Master) (h : ρ → Master → ρ' × Master) (m : Master) : ρ' × Master :=
  h (g m).1 (g m).2

section Pieces
variable {ρ ρ' : Type} {g : Master → ρ × Master} {h : ρ → Master → ρ' × Master} {r : ρ} {r' : ρ'}

theorem serves_quiet {g : Master → ρ × Master} (r : ρ) (s : Ctx)
    (hg : ∀ m, (g m).1 = r ∧ (g m).2.wire = m.wire ∧ (g m).2.sda = m.sda) : Serves app device_addr f g s r s where
  wire m := ⟨[], by rw [(hg m).2.1, List.append_nil]⟩
  follows m events t hw hf := by
    rw [(hg m).2.1] at hw
    obtain rfl := List.self_eq_append_right.1 hw
    cases hf
    exact ⟨(hg m).1, rfl⟩
  answered rest := ⟨rest, fun m hm => ⟨by rw [(hg m).2.2, hm], fun events hw => by
    rw [(hg m).2.1] at hw
    obtain rfl := List.self_eq_append_right.1 hw
    exact .nil s⟩⟩

theorem Serves.andThen (hg : Serves app device_addr f g s r s')
    (hh : Serves app device_addr f (h r) s' r' s'')
    (hwire : ∀ a m, ∃ events, (h a m).2.wire = m.wire ++ events) :
    Serves app device_addr f (andThen g h) s r' s'' where
  wire m := by
    obtain ⟨events, hw⟩ := hg.wire m
    obtain ⟨events', hw'⟩ := hwire (g m).1 (g m).2
    exact ⟨events ++ events', by rw [Bus.andThen, hw', hw, List.append_assoc]⟩
  follows m events t hw hf := by
    obtain ⟨events₁, hw₁⟩ := hg.wire m
    obtain ⟨events₂, hw₂⟩ := hwire (g m).1 (g m).2
    rw [Bus.andThen, hw₂, hw₁, List.append_assoc] at hw
    obtain rfl := List.append_cancel_left hw
    obtain ⟨t₁, hf₁, hf₂⟩ := follows_append.1 hf
    obtain ⟨hr, rfl⟩ := hg.follows m events₁ t₁ hw₁ hf₁
    have hrest := hh.follows (g m).2 events₂ t (by rw [← hw₂, hr]) hf₂
    rw [Bus.andThen, hr]
    exact hrest
  answered rest := by
    obtain ⟨sda', hsda'⟩ := hh.answered rest
    obtain ⟨sda, hsda⟩ := hg.answered sda'
    refine ⟨sda, fun m hm => ?_⟩
    obtain ⟨hsda₁, hf₁⟩ := hsda m hm
    obtain ⟨events₁, hw₁⟩ := hg.wire m
    obtain ⟨hr, -⟩ := hg.follows m events₁ s' hw₁ (hf₁ events₁ hw₁)
    obtain ⟨hsda₂, hf₂⟩ := hsda' (g m).2 hsda₁
    rw [Bus.andThen, hr]
    refine ⟨hsda₂, fun events hw => ?_⟩
    obtain ⟨events₂, hw₂⟩ := hh.wire (g m).2
    rw [hw₂, hw₁, List.append_assoc] at hw
    obtain rfl := List.append_cancel_left hw
    exact follows_append.2 ⟨s', hf₁ events₁ hw₁, hf₂ events₂ hw₂⟩

theorem andThen_wire (hg : ∀ m, ∃ events, (g m).2.wire = m.wire ++ events)
    (hh : ∀ a m, ∃ events, (h a m).2.wire = m.wire ++ events) (m : Master) :
    ∃ events, (Bus.andThen g h m).2.wire = m.wire ++ events := by
  obtain ⟨events, hw⟩ := hg m
  obtain ⟨events', hw'⟩ := hh (g m).1 (g m).2
  exact ⟨events ++ events', by rw [Bus.andThen, hw', hw, List.append_assoc]⟩

/-- Something is sent. -/
theorem serves_send {w : Wire} (r : ρ) (hrun : Run app device_addr f s (edges w) s') (hw : ∀ sda, w ≠ .sample sda)
    (hg : ∀ m, (g m).1 = r ∧ (g m).2.wire = m.wire ++ [w] ∧ (g m).2.sda = m.sda) : Serves app device_addr f g s r s' where
  wire m := ⟨[w], (hg m).2.1⟩
  follows m events t hwire hf := by
    rw [(hg m).2.1] at hwire
    obtain rfl := List.append_cancel_left hwire
    rw [follows_cons hrun hw] at hf
    cases hf
    exact ⟨(hg m).1, rfl⟩
  answered rest := ⟨rest, fun m hm => ⟨by rw [(hg m).2.2, hm], fun events hwire => by
    rw [(hg m).2.1] at hwire
    obtain rfl := List.append_cancel_left hwire
    exact (follows_cons hrun hw).2 (.nil s')⟩⟩

/-- A level and the samples after it. -/
def before (level : Bool) (rest : Nat → Bool) : Nat → Bool
  | 0 => level
  | i + 1 => rest i

theorem serves_sample {level : Bool} (hrun : Run app device_addr f s (bit true) s')
    (hseen : s'.seen.getLast? = some level) : Serves app device_addr f Master.high_pulse_sample s level s' where
  wire m := ⟨_, rfl⟩
  follows m events t hw hf := by
    obtain rfl := List.append_cancel_left hw
    obtain ⟨hv, hf⟩ := (follows_sample hrun hseen).1 hf
    cases hf
    exact ⟨hv, rfl⟩
  answered rest := ⟨before level rest, fun m hm => ⟨by rw [Master.high_pulse_sample, hm]; rfl, fun events hw => by
    obtain rfl := List.append_cancel_left hw
    exact (follows_sample hrun hseen).2 ⟨by rw [hm]; rfl, .nil s'⟩⟩⟩

theorem serves_tx8 {data : BitVec 32} {level : Bool}
    (hrun : Run app device_addr f s (bits (toBits 8 data.toNat) ++ bit true) s') (hseen : s'.seen.getLast? = some level) :
    Serves app device_addr f (fun m => m.tx8 data) s level s' where
  wire m := (after_tx8 m data).wire
  follows m events t hw hf := by
    rw [tx8_wire, List.append_assoc] at hw
    obtain rfl := List.append_cancel_left hw
    obtain ⟨hv, hf⟩ := (follows_tx8 hrun hseen).1 hf
    cases hf
    exact ⟨(tx8_ack m data).trans hv, rfl⟩
  answered rest := ⟨before level rest, fun m hm => ⟨funext fun i => by
      rw [(after_tx8 m data).sda, hm, Nat.add_comm]
      rfl, fun events hw => by
    rw [tx8_wire, List.append_assoc] at hw
    obtain rfl := List.append_cancel_left hw
    exact (follows_tx8 hrun hseen).2 ⟨by rw [hm]; rfl, .nil s'⟩⟩⟩

end Pieces

end Bus
end I2c
