import XcoreSdk.I2c.Bus
/-!
# What an operation of the I2C master is to the slave's application

An address, the bytes of a write and those of a read are pieces of the master, and for each the slave is in one of its
shapes before and after. Operations are put together from these.
-/

namespace I2c
namespace Bus
open Slave (Ctx Edge Run App bit bits)
open Bits (toBits ofBits window)
variable {app : App} {device_addr : UInt8} {f : Bool} {s s' s'' : Ctx}

/-! ## Bytes -/

section Bytes
open Slave (Log SlaveAck waiting writing reading acking sent addressing)
variable {l : Log}

theorem byte_data (b : UInt8) : (b.toBitVec.setWidth 32).toNat = b.toNat := by
  rw [BitVec.toNat_setWidth]
  exact Nat.mod_eq_of_lt (b.toNat_lt.trans (by decide))

def write_piece (bs : List UInt8) (j : Nat) (ack : Bool) (m : Master) : (Nat × Bool) × Master :=
  (((write_bytes bs j ack m).1, (write_bytes bs j ack m).2.1), (write_bytes bs j ack m).2.2)

theorem write_piece_nack (bs : List UInt8) (j : Nat) (m : Master) : write_piece bs j true m = ((j, true), m) := by
  cases bs with
  | nil => rfl
  | cons b bs =>
    unfold write_piece
    rw [write_bytes, if_pos rfl]

theorem write_piece_cons (b : UInt8) (bs : List UInt8) (j : Nat) :
    write_piece (b :: bs) j false = andThen (fun m => m.tx8 (b.toBitVec.setWidth 32)) (write_piece bs (j + 1)) := by
  funext m
  unfold write_piece andThen
  rw [write_bytes, if_neg Bool.false_ne_true]

theorem write_piece_wire (bs : List UInt8) (j : Nat) (ack : Bool) (m : Master) :
    ∃ events, (write_piece bs j ack m).2.wire = m.wire ++ events := by
  induction bs generalizing j ack m with
  | nil => exact ⟨[], (List.append_nil _).symm⟩
  | cons b bs ih =>
    cases ack with
    | true => exact ⟨[], by rw [write_piece_nack, List.append_nil]⟩
    | false =>
      rw [write_piece_cons]
      exact andThen_wire (fun m => (after_tx8 m _).wire) (fun ack m => ih (j + 1) ack m) m

/-- The bytes of a write, up to the first that is not acknowledged. -/
theorem writing_serves (bs : List UInt8) (j : Nat) (s : Ctx) (sda : Bool) (l : Log) : ∃ s' sda' seen,
    Serves app device_addr f (write_piece bs j false) (writing s [] sda l)
      (j + (delivered app l.calls.length bs).1.length, !(delivered app l.calls.length bs).2)
      (writing s' [] sda' ⟨l.ignore_stop_bit, l.calls ++ (delivered app l.calls.length bs).1.map .master_sent_data, seen⟩) := by
  induction bs generalizing j s sda l with
  | nil =>
    refine ⟨s, sda, l.seen, ?_⟩
    rw [delivered, List.map_nil, List.append_nil]
    exact serves_quiet _ _ fun m => ⟨rfl, rfl, rfl⟩
  | cons b bs ih =>
    obtain ⟨s₁, hrun⟩ : ∃ s₁, Run app device_addr f (writing s [] sda l) _ _ := Slave.writing_byte s b sda l
    rw [← byte_data b] at hrun
    have hbyte := serves_tx8 hrun List.getLast?_concat
    rw [byte_data] at hbyte
    rw [write_piece_cons, delivered]
    cases hack : app.ack l.calls.length with
    | I2C_SLAVE_NACK =>
      rw [hack] at hbyte
      have hlast : Serves app device_addr f (write_piece bs (j + 1) true) (writing s₁ [] true _) (j + 1, true) _ :=
        serves_quiet (j + 1, true) (writing s₁ [] true (((l.see (toBits 8 b.toNat)).call (.master_sent_data b)).see [true]))
          fun m => by
            rw [write_piece_nack]
            exact ⟨rfl, rfl, rfl⟩
      exact ⟨s₁, true, _, hbyte.andThen hlast fun ack m => write_piece_wire bs (j + 1) ack m⟩
    | I2C_SLAVE_ACK =>
      rw [hack] at hbyte
      obtain ⟨s₂, sda₂, seen, hrest⟩ := ih (j + 1) s₁ true (((l.see (toBits 8 b.toNat)).call (.master_sent_data b)).see [false])
      have hall := hbyte.andThen hrest fun ack m => write_piece_wire bs (j + 1) ack m
      refine ⟨s₂, sda₂, seen, ?_⟩
      simpa [Log.see, Log.call, Nat.add_comm, Nat.add_left_comm, Nat.add_assoc] using hall

theorem read_bits_succ (n : Nat) (data : UInt8) : read_bits (n + 1) data =
    andThen Master.high_pulse_sample fun v => read_bits n ((data <<< 1) ||| if v then 1 else 0) := rfl

theorem read_bits_wire (n : Nat) (data : UInt8) (m : Master) : ∃ events, (read_bits n data m).2.wire = m.wire ++ events :=
  (after_read_bits n data m).wire

/-- The last `n + 1` bits of a byte. -/
theorem reading_bits_serve (n k : Nat) (hk : k + n = 7) (data byte : UInt8) (s : Ctx) (sda : Bool) (l : Log) :
    ∃ (r : UInt8) (s' : Ctx), Serves app device_addr f (read_bits (n + 1) data) (reading s k byte sda l) r
      (sent s' true (l.see (window (Slave.byte_bit byte) k (n + 1)))) ∧
      r.toNat = (data.toNat * 2 ^ (n + 1) + ofBits (window (Slave.byte_bit byte) k (n + 1))) % 256 := by
  induction n generalizing k data sda l with
  | zero =>
    obtain rfl : k = 7 := by omega
    obtain ⟨s₁, hrun⟩ : ∃ s₁, Run app device_addr f (reading s 7 byte sda l) _ _ := Slave.reading_last_bit s byte sda l
    have hbit := serves_sample hrun List.getLast?_concat
    rw [read_bits_succ]
    refine ⟨(data <<< 1) ||| if Slave.byte_bit byte 7 then 1 else 0, s₁,
      hbit.andThen (serves_quiet _ _ fun m => ⟨rfl, rfl, rfl⟩) fun a m => read_bits_wire 0 _ m, ?_⟩
    rw [shift_in]
    simp [window, ofBits, Nat.mul_comm]
  | succ n ih =>
    have hrun : Run app device_addr f (reading s k byte sda l) _ _ :=
      Slave.reading_bit s (show k < 7 by omega) byte sda l
    have hbit := serves_sample hrun List.getLast?_concat
    obtain ⟨r, s₁, hrest, hr⟩ := ih (k + 1) (by omega) ((data <<< 1) ||| if Slave.byte_bit byte k then 1 else 0) true
      (l.see [Slave.byte_bit byte k])
    rw [read_bits_succ, Bits.window_succ, Log.see_cons]
    refine ⟨r, s₁, hbit.andThen hrest fun a m => read_bits_wire _ _ m, ?_⟩
    rw [hr, shift_in, Bits.ofBits_cons, Bits.length_window, pow_succ 2 (n + 1), Nat.add_mod, Nat.mod_mul_mod, ← Nat.add_mod]
    congr 1
    ring

/-- A byte that the slave sends. -/
theorem reading_byte_serves (byte : UInt8) (s : Ctx) (sda : Bool) (l : Log) : ∃ s',
    Serves app device_addr f (read_bits 8 0) (reading s 0 byte sda l) byte (sent s' true (l.see (toBits 8 byte.toNat))) := by
  obtain ⟨r, s', h, hr⟩ := reading_bits_serve 7 0 rfl 0 byte s sda l
  rw [Slave.byte_bits] at h hr
  obtain rfl : r = byte := by
    apply UInt8.toNat_inj.1
    rw [hr, Bits.ofBits_toBits]
    have := byte.toNat_lt
    simp
  exact ⟨s', h⟩

def acknowledge (sda : Bool) (m : Master) : Unit × Master := ((), m.high_pulse_drive sda)

theorem read_bytes_succ (n left : Nat) (data : List UInt8) : read_bytes n (left + 1) data =
    andThen (read_bits 8 0) fun b => andThen (acknowledge (data.length = n - 1)) fun _ => read_bytes n left (data ++ [b]) := rfl

theorem read_bytes_wire (n left : Nat) (data : List UInt8) (m : Master) :
    ∃ events, (read_bytes n left data m).2.wire = m.wire ++ events := (read_bytes_spec n left data m).2.wire

theorem acknowledge_wire (sda : Bool) (n left : Nat) (data : List UInt8) (m : Master) :
    ∃ events, (andThen (acknowledge sda) (fun _ => read_bytes n left data) m).2.wire = m.wire ++ events :=
  andThen_wire (fun _ => ⟨_, rfl⟩) (fun _ m => read_bytes_wire n left data m) m

theorem acknowledge_serves {b : Bool} (hrun : Run app device_addr f s (bit b) s') :
    Serves app device_addr f (acknowledge b) s () s' :=
  serves_send (w := .drive b) () hrun (fun _ h => Wire.noConfusion h) fun _ => ⟨rfl, rfl, rfl⟩

/-- The bytes of a read. The first one was asked for, and the last one is not acknowledged. -/
theorem reading_serves (left : Nat) (data : List UInt8) {n : Nat} (hn : n = data.length + left + 1) (s : Ctx) (sda : Bool)
    (l : Log) : ∃ s' seen, Serves app device_addr f (read_bytes n (left + 1) data)
      (reading s 0 (app.data l.calls.length) sda (l.call .master_requires_data))
      (data ++ (List.range (left + 1)).map fun i => app.data (l.calls.length + i))
      (waiting s' false true ⟨l.ignore_stop_bit, l.calls ++ List.replicate (left + 1) .master_requires_data, seen⟩) := by
  induction left generalizing data s sda l with
  | zero =>
    obtain ⟨s₁, hbyte⟩ : ∃ s₁, Serves app device_addr f (read_bits 8 0) (reading s 0 _ sda _) _ (sent s₁ true _) :=
      reading_byte_serves (app.data l.calls.length) s sda (l.call .master_requires_data)
    obtain ⟨s₂, hrun⟩ : ∃ s₂, Run app device_addr f (sent s₁ true _) _ _ :=
      Slave.sent_last s₁ true ((l.call .master_requires_data).see (toBits 8 (app.data l.calls.length).toNat))
    have hack := acknowledge_serves hrun
    have hlast := hack.andThen (serves_quiet (g := read_bytes n 0 (data ++ [app.data l.calls.length])) _ _ fun m =>
      ⟨rfl, rfl, rfl⟩) fun _ m => read_bytes_wire n 0 _ m
    rw [read_bytes_succ, decide_eq_true (show data.length = n - 1 by omega)]
    exact ⟨s₂, _, hbyte.andThen hlast fun b m => acknowledge_wire true n 0 _ m⟩
  | succ left ih =>
    obtain ⟨s₁, hbyte⟩ : ∃ s₁, Serves app device_addr f (read_bits 8 0) (reading s 0 _ sda _) _ (sent s₁ true _) :=
      reading_byte_serves (app.data l.calls.length) s sda (l.call .master_requires_data)
    obtain ⟨s₂, hrun⟩ : ∃ s₂, Run app device_addr f (sent s₁ true _) _ _ :=
      Slave.sent_more s₁ true ((l.call .master_requires_data).see (toBits 8 (app.data l.calls.length).toNat))
    have hack := acknowledge_serves hrun
    obtain ⟨s₃, seen, hrest⟩ := ih (data ++ [app.data l.calls.length]) (by rw [List.length_append, List.length_singleton]; omega)
      s₂ false (((l.call .master_requires_data).see (toBits 8 (app.data l.calls.length).toNat)).see [false])
    have hlast := hack.andThen hrest fun _ m => read_bytes_wire n (left + 1) _ m
    have hall := hbyte.andThen (h := fun b => andThen (acknowledge false) fun _ => read_bytes n (left + 1) (data ++ [b]))
      hlast fun b m => acknowledge_wire false n (left + 1) _ m
    rw [read_bytes_succ, decide_eq_false (show data.length ≠ n - 1 by omega)]
    refine ⟨s₃, seen, ?_⟩
    rw [List.range_succ_eq_map (n := left + 1)]
    simpa [Log.see, Log.call, Function.comp_def, List.replicate_succ (n := left + 1), Nat.add_assoc, Nat.add_comm 1] using hall

/-! ## Operations -/

def start_tx8 (data : BitVec 32) : Master → Bool × Master :=
  andThen (fun m => ((), m.start_bit)) fun _ m => m.tx8 data

/-- The slave between two operations. -/
def Ready (served : Served) (free : Bool) (s : Ctx) : Prop :=
  ∃ seen, Slave.Between ⟨served.calls, seen, served.addressed, free⟩ s

/-- In the middle of an operation SCL is low. -/
def Held (served : Served) (s : Ctx) : Prop := ∃ seen, Slave.Low ⟨!served.addressed, served.calls, seen⟩ s

theorem finish_serves {ρ : Type} {served : Served} (h : Held served s) (r : ρ) (send_stop_bit : Bool) : ∃ s',
    Serves app device_addr f (fun m => (r, m.finish send_stop_bit)) s r s' ∧
      Ready (served.finish app send_stop_bit) send_stop_bit s' := by
  obtain ⟨seen, hlow⟩ := h
  cases send_stop_bit with
  | false => exact ⟨s, serves_quiet r s fun m => ⟨rfl, rfl, rfl⟩, seen, .held rfl hlow⟩
  | true =>
    obtain ⟨s₁, hrun⟩ : ∃ s₁, Run app device_addr f s _ _ := hlow.stop
    refine ⟨_, serves_send (w := .stop) r hrun (fun _ h => Wire.noConfusion h) fun m => ⟨rfl, rfl, rfl⟩, seen ++ [false], ?_⟩
    unfold Served.finish Slave.Log.stopped
    rw [Bool.not_not]
    exact .free s₁ rfl

/-- What goes over the bus after the start: an address, and whether it is a read. -/
structure Address (data : BitVec 32) (addr : UInt8) (read : Bool) : Prop where
  bits : toBits 8 data.toNat = toBits 7 addr.toNat ++ [read]

theorem address_write (addr : UInt8) : Address (addr.toBitVec.setWidth 32 <<< 1) addr false := by
  have hlt := addr.toNat_lt
  have hdata : (addr.toBitVec.setWidth 32 <<< 1).toNat = 2 * addr.toNat := by
    simp [Nat.shiftLeft_eq]
    omega
  refine ⟨?_⟩
  rw [hdata, Bits.toBits_succ, Nat.mul_div_cancel_left _ Nat.two_pos, Nat.testBit_zero]
  simp

theorem address_read (addr : UInt8) : Address ((addr.toBitVec.setWidth 32 <<< 1) ||| 1) addr true := by
  have hlt := addr.toNat_lt
  have hdata : ((addr.toBitVec.setWidth 32 <<< 1) ||| 1).toNat = 2 * addr.toNat + 1 := by
    have hshift : (addr.toBitVec.setWidth 32 <<< 1).toNat = addr.toNat <<< 1 := by
      simp [Nat.shiftLeft_eq]
      omega
    rw [BitVec.toNat_or, hshift, show (1 : BitVec 32).toNat = 1 from rfl, ← Nat.shiftLeft_add_eq_or_of_lt (by decide),
      Nat.shiftLeft_eq]
    omega
  refine ⟨?_⟩
  rw [hdata, Bits.toBits_succ, Nat.testBit_zero, show (2 * addr.toNat + 1) / 2 = addr.toNat by omega]
  simp

section Address
variable {served : Served} {free : Bool} {data : BitVec 32} {addr : UInt8} {read : Bool}

theorem start_bit_serves {t : Ctx} (hrun : Run app device_addr f s Slave.start_edges t) :
    Serves app device_addr f (fun m => ((), m.start_bit)) s () t where
  wire m := ⟨_, rfl⟩
  follows m events u hw hf := by
    obtain rfl := List.append_cancel_left hw
    -- a start and a repeated start change the lines in the same way
    cases hstopped : m.stopped with
    | false =>
      rw [hstopped, if_neg Bool.false_ne_true, follows_cons hrun fun _ h => Wire.noConfusion h] at hf
      cases hf
      exact ⟨rfl, rfl⟩
    | true =>
      rw [hstopped, if_pos rfl, follows_cons hrun fun _ h => Wire.noConfusion h] at hf
      cases hf
      exact ⟨rfl, rfl⟩
  answered rest := ⟨rest, fun m hm => ⟨hm, fun events hw => by
    obtain rfl := List.append_cancel_left hw
    cases m.stopped with
    | false => exact (follows_cons hrun fun _ h => Wire.noConfusion h).2 (.nil t)
    | true => exact (follows_cons hrun fun _ h => Wire.noConfusion h).2 (.nil t)⟩⟩

theorem start_serves {level : Bool} {P : Ctx → Prop} (h : Ready served free s) (hdata : Address data addr read)
    (hrun : ∀ s₁ seen, ∃ t : Ctx, Run app device_addr f (addressing s₁ [] false ⟨!served.addressed, served.calls, seen⟩)
      (bits (toBits 7 addr.toNat ++ [read]) ++ bit true) t ∧ t.seen.getLast? = some level ∧ P t) :
    ∃ t, Serves app device_addr f (start_tx8 data) s level t ∧ P t := by
  obtain ⟨seen, hbetween⟩ := h
  obtain ⟨s₁, hstart⟩ : ∃ s₁, Run app device_addr f s _ _ := hbetween.start
  obtain ⟨t, ht, hlevel, hP⟩ := hrun s₁ _
  rw [← hdata.bits] at ht
  exact ⟨t, (start_bit_serves hstart).andThen (serves_tx8 ht hlevel) fun _ m => (after_tx8 m data).wire, hP⟩

/-- Nobody acknowledges the address of another device. -/
theorem start_other (h : Ready served free s) (hdata : Address data addr read) (hown : own device_addr addr = false) :
    ∃ t, Serves app device_addr f (start_tx8 data) s true t ∧ Held served t := by
  refine start_serves h hdata fun s₁ seen => ?_
  have haddr : ofBits (toBits 7 addr.toNat) ≠ device_addr.toNat := by
    rw [Bits.ofBits_toBits]
    exact of_decide_eq_false hown
  obtain ⟨sda₁, h₁⟩ : ∃ sda, Run app device_addr f (addressing s₁ [] false _) _ _ :=
    Slave.addressing_bits (toBits 7 addr.toNat) s₁ [] (by simp) false ⟨!served.addressed, served.calls, seen⟩
  obtain ⟨s₂, h₂⟩ : ∃ s₂, Run app device_addr f (addressing s₁ _ sda₁ _) _ _ :=
    Slave.addressing_other s₁ (Bits.length_toBits 7 _) haddr sda₁ read
      (Log.see ⟨!served.addressed, served.calls, seen⟩ (toBits 7 addr.toNat))
  obtain ⟨s₃, h₃⟩ : ∃ s₃, Run app device_addr f (acking s₂ _ true read _) _ _ := Slave.acking_waiting s₂ read true
    (Log.see (Log.see ⟨!served.addressed, served.calls, seen⟩ (toBits 7 addr.toNat)) [read])
  rw [Slave.bits_append]
  exact ⟨_, (h₁.append h₂).append h₃, List.getLast?_concat, _, .idle s₃ true⟩

def request (read : Bool) : Slave.Call := if read then .ack_read_request else .ack_write_request

/-- The slave's own address: the application is asked. -/
theorem addressed_own (hown : own device_addr addr = true) (s₁ : Ctx) (l : Log) : ∃ s₂,
    Run app device_addr f (addressing s₁ [] false l) (bits (toBits 7 addr.toNat ++ [read]))
      (acking s₂ (Slave.next_of (app.ack l.calls.length) read) (app.ack l.calls.length).level read
        (((l.see (toBits 7 addr.toNat)).see [read]).asked (request read))) := by
  have haddr : ofBits (toBits 7 addr.toNat) = device_addr.toNat := by
    rw [Bits.ofBits_toBits]
    exact of_decide_eq_true hown
  obtain ⟨sda₁, h₁⟩ : ∃ sda, Run app device_addr f (addressing s₁ [] false l) _ _ :=
    Slave.addressing_bits (toBits 7 addr.toNat) s₁ [] (by simp) false l
  obtain ⟨s₂, h₂⟩ : ∃ s₂, Run app device_addr f (addressing s₁ _ sda₁ _) _ _ :=
    Slave.addressing_own s₁ (Bits.length_toBits 7 _) haddr sda₁ read (l.see (toBits 7 addr.toNat))
  rw [Slave.bits_append]
  exact ⟨s₂, h₁.append h₂⟩

theorem start_nacked (h : Ready served free s) (hdata : Address data addr read) (hown : own device_addr addr = true)
    (hack : app.ack served.calls.length = .I2C_SLAVE_NACK) : ∃ t, Serves app device_addr f (start_tx8 data) s true t ∧
      Held ⟨served.calls ++ [request read], true⟩ t := by
  refine start_serves h hdata fun s₁ seen => ?_
  obtain ⟨s₂, h₂⟩ : ∃ s₂, Run app device_addr f (addressing s₁ [] false _) (bits (toBits 7 addr.toNat ++ [read])) _ :=
    addressed_own hown s₁ ⟨!served.addressed, served.calls, seen⟩
  rw [hack] at h₂
  obtain ⟨s₃, h₃⟩ : ∃ s₃, Run app device_addr f (acking s₂ _ true read _) _ _ := Slave.acking_waiting s₂ read true
    ((Log.see (Log.see ⟨!served.addressed, served.calls, seen⟩ (toBits 7 addr.toNat)) [read]).asked (request read))
  exact ⟨_, h₂.append h₃, List.getLast?_concat, _, .idle s₃ true⟩

theorem start_writing (h : Ready served free s) (hdata : Address data addr false) (hown : own device_addr addr = true)
    (hack : app.ack served.calls.length = .I2C_SLAVE_ACK) : ∃ t, Serves app device_addr f (start_tx8 data) s false t ∧
      ∃ s' seen, t = writing s' [] true ⟨false, served.calls ++ [.ack_write_request], seen⟩ := by
  refine start_serves h hdata fun s₁ seen => ?_
  obtain ⟨s₂, h₂⟩ : ∃ s₂, Run app device_addr f (addressing s₁ [] false _) (bits (toBits 7 addr.toNat ++ [false])) _ :=
    addressed_own hown s₁ ⟨!served.addressed, served.calls, seen⟩
  rw [hack] at h₂
  have h₃ : Run app device_addr f (acking s₂ _ false false _) _ _ := Slave.acking_writing s₂ false false
    ((Log.see (Log.see ⟨!served.addressed, served.calls, seen⟩ (toBits 7 addr.toNat)) [false]).asked (request false))
  exact ⟨_, h₂.append h₃, List.getLast?_concat, s₂, _, rfl⟩

theorem start_reading (h : Ready served free s) (hdata : Address data addr true) (hown : own device_addr addr = true)
    (hack : app.ack served.calls.length = .I2C_SLAVE_ACK) : ∃ t, Serves app device_addr f (start_tx8 data) s false t ∧
      ∃ (s' : Ctx) (l : Log), t = reading s' 0 (app.data l.calls.length) true (l.call .master_requires_data) ∧
        l.ignore_stop_bit = false ∧ l.calls = served.calls ++ [.ack_read_request] := by
  refine start_serves h hdata fun s₁ seen => ?_
  obtain ⟨s₂, h₂⟩ : ∃ s₂, Run app device_addr f (addressing s₁ [] false _) (bits (toBits 7 addr.toNat ++ [true])) _ :=
    addressed_own hown s₁ ⟨!served.addressed, served.calls, seen⟩
  rw [hack] at h₂
  obtain ⟨s₃, h₃⟩ : ∃ s₃, Run app device_addr f (acking s₂ _ false true _) _ _ := Slave.acking_reading s₂ true
    ((Log.see (Log.see ⟨!served.addressed, served.calls, seen⟩ (toBits 7 addr.toNat)) [true]).asked (request true))
  exact ⟨_, h₂.append h₃, List.getLast?_concat, s₃, _, rfl, rfl, rfl⟩

end Address

theorem run_write (addr : UInt8) (buf : List UInt8) (send_stop_bit : Bool) :
    (Op.run · (.write addr buf send_stop_bit)) = andThen (start_tx8 (addr.toBitVec.setWidth 32 <<< 1)) fun ack =>
      andThen (write_piece buf 0 ack) fun r m =>
        (.write (if r.2 then .nack else .ack) r.1, m.finish send_stop_bit) := rfl

def read_rest (buf : List UInt8) (send_stop_bit : Bool) : Bool → Master → Result × Master
  | true => fun m => (.read .nack buf, m.finish send_stop_bit)
  | false => andThen (read_bytes buf.length buf.length []) fun data m => (.read .ack data, m.finish send_stop_bit)

theorem run_read (addr : UInt8) (buf : List UInt8) (send_stop_bit : Bool) :
    (Op.run · (.read addr buf send_stop_bit)) =
      andThen (start_tx8 ((addr.toBitVec.setWidth 32 <<< 1) ||| 1)) (read_rest buf send_stop_bit) := by
  funext m
  unfold Op.run i2c_master_read andThen start_tx8 andThen
  dsimp only
  cases (m.start_bit.tx8 ((addr.toBitVec.setWidth 32 <<< 1) ||| 1)).1 with
  | true => rfl
  | false =>
    rw [if_neg Bool.false_ne_true]
    dsimp only [read_rest, andThen]
    rw [List.drop_length, List.append_nil]

theorem finish_wire {ρ : Type} (r : ρ) (send_stop_bit : Bool) (m : Master) :
    ∃ events, ((r, m.finish send_stop_bit) : ρ × Master).2.wire = m.wire ++ events := by
  unfold Master.finish
  cases send_stop_bit with
  | false => exact ⟨[], (List.append_nil _).symm⟩
  | true => exact ⟨_, rfl⟩

variable {served : Served} {free : Bool}

theorem write_serves (addr : UInt8) (buf : List UInt8) (send_stop_bit : Bool) (h : Ready served free s) : ∃ t,
    Serves app device_addr f (Op.run · (.write addr buf send_stop_bit)) s
      (serve_write app device_addr served addr buf send_stop_bit).1 t ∧
      Ready (serve_write app device_addr served addr buf send_stop_bit).2 send_stop_bit t := by
  have hwire : ∀ (ack : Bool) m, ∃ events, (andThen (write_piece buf 0 ack) (fun r m =>
      (Result.write (if r.2 then .nack else .ack) r.1, m.finish send_stop_bit)) m).2.wire = m.wire ++ events := fun ack m =>
    andThen_wire (write_piece_wire buf 0 ack) (fun r m => finish_wire _ send_stop_bit m) m
  -- without an acknowledgement no byte is sent
  have hnack : ∀ {u : Ctx} {served' : Served}, Serves app device_addr f
      (start_tx8 (addr.toBitVec.setWidth 32 <<< 1)) s true u → Held served' u → ∃ t,
        Serves app device_addr f (Op.run · (.write addr buf send_stop_bit)) s (.write .nack 0) t ∧
          Ready (served'.finish app send_stop_bit) send_stop_bit t := by
    intro u served' hstart hheld
    obtain ⟨t, hfinish, hready⟩ : ∃ t, Serves app device_addr f _ u _ t ∧ _ :=
      finish_serves hheld (Result.write .nack 0) send_stop_bit
    have hnone : Serves app device_addr f (write_piece buf 0 true) u (0, true) u := serves_quiet _ _ fun m => by
      rw [write_piece_nack]
      exact ⟨rfl, rfl, rfl⟩
    rw [run_write]
    exact ⟨t, hstart.andThen (hnone.andThen hfinish fun r m => finish_wire _ send_stop_bit m) hwire, hready⟩
  unfold serve_write
  cases hown : own device_addr addr with
  | false =>
    obtain ⟨u, hstart, hheld⟩ : ∃ u, Serves app device_addr f _ s true u ∧ _ := start_other h (address_write addr) hown
    exact hnack hstart hheld
  | true =>
    rw [if_pos rfl]
    cases hack : app.ack served.calls.length with
    | I2C_SLAVE_NACK =>
      obtain ⟨u, hstart, hheld⟩ : ∃ u, Serves app device_addr f _ s true u ∧ _ :=
        start_nacked h (address_write addr) hown hack
      exact hnack hstart hheld
    | I2C_SLAVE_ACK =>
      obtain ⟨u, hstart, s₁, seen, rfl⟩ : ∃ u, Serves app device_addr f _ s false u ∧ _ :=
        start_writing h (address_write addr) hown hack
      obtain ⟨s₂, sda, seen', hbytes⟩ : ∃ s₂ sda seen', Serves app device_addr f _ (writing s₁ [] true _) _ _ :=
        writing_serves buf 0 s₁ true ⟨false, served.calls ++ [.ack_write_request], seen⟩
      rw [if_neg (fun h => SlaveAck.noConfusion h)]
      dsimp only at hbytes ⊢
      generalize delivered app (served.calls ++ [Slave.Call.ack_write_request]).length buf = sent at hbytes ⊢
      obtain ⟨bytes, ack⟩ := sent
      have hheld : Held ⟨served.calls ++ [.ack_write_request] ++ bytes.map .master_sent_data, true⟩ _ :=
        ⟨seen', .taking s₂ sda⟩
      obtain ⟨t, hfinish, hready⟩ : ∃ t, Serves app device_addr f _ _ _ t ∧ _ :=
        finish_serves hheld (Result.write (if ack then .ack else .nack) bytes.length) send_stop_bit
      rw [run_write]
      refine ⟨t, hstart.andThen (hbytes.andThen ?_ fun r m => finish_wire _ send_stop_bit m) hwire, hready⟩
      rw [Nat.zero_add]
      cases ack with
      | false => exact hfinish
      | true => exact hfinish

theorem read_serves (addr : UInt8) {buf : List UInt8} (hbuf : buf ≠ []) (send_stop_bit : Bool)
    (h : Ready served free s) : ∃ t,
      Serves app device_addr f (Op.run · (.read addr buf send_stop_bit)) s
        (serve_read app device_addr served addr buf send_stop_bit).1 t ∧
        Ready (serve_read app device_addr served addr buf send_stop_bit).2 send_stop_bit t := by
  have hwire : ∀ (ack : Bool) m, ∃ events, (read_rest buf send_stop_bit ack m).2.wire = m.wire ++ events := by
    intro ack m
    cases ack with
    | true => exact finish_wire (Result.read .nack buf) send_stop_bit m
    | false =>
      exact andThen_wire (read_bytes_wire buf.length buf.length []) (fun data m => finish_wire _ send_stop_bit m) m
  have hnack : ∀ {u : Ctx} {served' : Served}, Serves app device_addr f
      (start_tx8 ((addr.toBitVec.setWidth 32 <<< 1) ||| 1)) s true u → Held served' u → ∃ t,
        Serves app device_addr f (Op.run · (.read addr buf send_stop_bit)) s (.read .nack buf) t ∧
          Ready (served'.finish app send_stop_bit) send_stop_bit t := by
    intro u served' hstart hheld
    obtain ⟨t, hfinish, hready⟩ : ∃ t, Serves app device_addr f _ u _ t ∧ _ :=
      finish_serves hheld (Result.read .nack buf) send_stop_bit
    rw [run_read]
    exact ⟨t, hstart.andThen hfinish hwire, hready⟩
  unfold serve_read
  cases hown : own device_addr addr with
  | false =>
    obtain ⟨u, hstart, hheld⟩ : ∃ u, Serves app device_addr f _ s true u ∧ _ := start_other h (address_read addr) hown
    exact hnack hstart hheld
  | true =>
    rw [if_pos rfl]
    cases hack : app.ack served.calls.length with
    | I2C_SLAVE_NACK =>
      obtain ⟨u, hstart, hheld⟩ : ∃ u, Serves app device_addr f _ s true u ∧ _ :=
        start_nacked h (address_read addr) hown hack
      exact hnack hstart hheld
    | I2C_SLAVE_ACK =>
      obtain ⟨u, hstart, s₁, l, rfl, hignore, hcalls⟩ : ∃ u, Serves app device_addr f _ s false u ∧ _ :=
        start_reading h (address_read addr) hown hack
      obtain ⟨left, hleft⟩ := Nat.exists_eq_succ_of_ne_zero (mt List.length_eq_zero_iff.1 hbuf)
      obtain ⟨s₂, seen, hbytes⟩ : ∃ s₂ seen, Serves app device_addr f _ (reading s₁ 0 _ true _) _ _ :=
        reading_serves left [] (show buf.length = ([] : List UInt8).length + left + 1 by rw [List.length_nil]; omega) s₁ true l
      rw [hignore, hcalls, List.nil_append, ← Nat.succ_eq_add_one, ← hleft] at hbytes
      have hheld : Held ⟨served.calls ++ [.ack_read_request] ++ List.replicate buf.length .master_requires_data, true⟩ _ :=
        ⟨seen, .idle s₂ true⟩
      obtain ⟨t, hfinish, hready⟩ : ∃ t, Serves app device_addr f _ _ _ t ∧ _ := finish_serves hheld (Result.read .ack
        ((List.range buf.length).map fun i => app.data ((served.calls ++ [Slave.Call.ack_read_request]).length + i))) send_stop_bit
      rw [run_read, if_neg (fun h => SlaveAck.noConfusion h)]
      rw [hcalls] at hstart
      have hrest : Serves app device_addr f (read_rest buf send_stop_bit false) _ _ _ :=
        hbytes.andThen (h := fun data m => (Result.read .ack data, m.finish send_stop_bit)) hfinish
          fun data m => finish_wire _ send_stop_bit m
      exact ⟨t, hstart.andThen hrest hwire, hready⟩

theorem stop_serves (h : Ready served false s) : ∃ t,
    Serves app device_addr f (Op.run · .stop) s .stop t ∧ Ready (served.finish app true) true t := by
  obtain ⟨seen, hbetween⟩ := h
  cases hbetween with
  | free _ hfree => cases hfree
  | held _ hlow => exact finish_serves ⟨seen, hlow⟩ Result.stop true

theorem op_serves (op : Op) (hop : op.Allowed free) (h : Ready served free s) : ∃ t,
    Serves app device_addr f (Op.run · op) s (op.serve app device_addr served).1 t ∧
      Ready (op.serve app device_addr served).2 op.releases t := by
  cases op with
  | write addr buf send_stop_bit => exact write_serves addr buf send_stop_bit h
  | read addr buf send_stop_bit => exact read_serves addr hop send_stop_bit h
  | stop =>
    obtain rfl := hop
    exact stop_serves h

theorem run_ops_cons (op : Op) (ops : List Op) : (run_ops · (op :: ops)) =
    andThen (Op.run · op) fun r => andThen (run_ops · ops) fun rs m => (r :: rs, m) := rfl

theorem op_wire (op : Op) (m : Master) : ∃ events, (op.run m).2.wire = m.wire ++ events := by
  cases op with
  | write addr buf send_stop_bit =>
    obtain ⟨events, hw⟩ := (write_finished addr buf send_stop_bit m).wire
    exact ⟨_, hw.trans (List.append_assoc _ _ _)⟩
  | read addr buf send_stop_bit =>
    obtain ⟨events, hw⟩ := (read_finished m addr buf buf.length send_stop_bit).wire
    exact ⟨_, hw.trans (List.append_assoc _ _ _)⟩
  | stop => exact ⟨_, rfl⟩

theorem run_ops_wire (ops : List Op) (m : Master) : ∃ events, (run_ops m ops).2.wire = m.wire ++ events := by
  induction ops generalizing m with
  | nil => exact ⟨[], (List.append_nil _).symm⟩
  | cons op ops ih =>
    obtain ⟨events, hw⟩ := op_wire op m
    obtain ⟨events', hw'⟩ := ih (op.run m).2
    exact ⟨events ++ events', by rw [run_ops, hw', hw, List.append_assoc]⟩

theorem ops_serve (ops : List Op) (hops : Proper free ops) (h : Ready served free s) : ∃ t,
    Serves app device_addr f (run_ops · ops) s (serve_ops app device_addr served ops).1 t ∧
      ∃ free, Ready (serve_ops app device_addr served ops).2 free t := by
  induction ops generalizing served free s with
  | nil => exact ⟨s, serves_quiet _ _ fun m => ⟨rfl, rfl, rfl⟩, free, h⟩
  | cons op ops ih =>
    obtain ⟨t₁, hop, hready⟩ : ∃ t, Serves app device_addr f _ s _ t ∧ _ := op_serves op hops.1 h
    obtain ⟨t, hrest, hlast⟩ := ih hops.2 hready
    rw [run_ops_cons]
    refine ⟨t, hop.andThen (hrest.andThen (serves_quiet _ _ fun m => ⟨rfl, rfl, rfl⟩) ?_) ?_, hlast⟩
    · exact fun rs m => ⟨[], (List.append_nil _).symm⟩
    · exact fun r m => andThen_wire (run_ops_wire ops) (fun rs m => ⟨[], (List.append_nil _).symm⟩) m

end Bytes

/-! ## All operations -/

/-- Whatever the master does and the application answers: each operation returns what it is to the application, and the
application gets its calls. A bus on which the master samples what the slave sends is there. -/
theorem master_served (app : App) (device_addr : UInt8) (sda_first : Bool) (ops : List Op) (hops : Proper true ops) :
    (∃ sda t, Follows app device_addr sda_first Slave.started (run_ops ⟨true, sda, []⟩ ops).2.wire t) ∧
      ∀ sda t, Follows app device_addr sda_first Slave.started (run_ops ⟨true, sda, []⟩ ops).2.wire t →
        (run_ops ⟨true, sda, []⟩ ops).1 = (serve_ops app device_addr ⟨[], false⟩ ops).1 ∧
          t.calls = (serve_ops app device_addr ⟨[], false⟩ ops).2.calls := by
  have hstart : Ready ⟨[], false⟩ true Slave.started := ⟨[], .free Slave.started rfl⟩
  obtain ⟨t, hserves, free, seen, hbetween⟩ : ∃ t, Serves app device_addr sda_first _ _ _ t ∧ _ := ops_serve ops hops hstart
  constructor
  · obtain ⟨sda, hsda⟩ := hserves.answered fun _ => true
    exact ⟨sda, t, (hsda ⟨true, sda, []⟩ rfl).2 _ (List.nil_append _).symm⟩
  · intro sda u hu
    obtain ⟨hresult, rfl⟩ := hserves.follows ⟨true, sda, []⟩ _ u (List.nil_append _).symm hu
    exact ⟨hresult, hbetween.calls.1⟩

/-- A register is written and read back: its number, two bytes of which the application does not acknowledge the second, and
a read of two bytes after a repeated start. -/
theorem master_served_register :
    (∃ sda t, Follows ⟨fun n => if n = 3 then .I2C_SLAVE_NACK else .I2C_SLAVE_ACK, fun n => UInt8.ofNat n, true⟩ 0x50 false
      Slave.started (run_ops ⟨true, sda, []⟩ [.write 0x50 [7, 1, 2] false, .read 0x50 [0, 0] true]).2.wire t) ∧
      (serve_ops ⟨fun n => if n = 3 then .I2C_SLAVE_NACK else .I2C_SLAVE_ACK, fun n => UInt8.ofNat n, true⟩ 0x50
        ⟨[], false⟩ [.write 0x50 [7, 1, 2] false, .read 0x50 [0, 0] true]).1 = [.write .nack 3, .read .ack [5, 6]] :=
  ⟨(master_served _ 0x50 false [.write 0x50 [7, 1, 2] false, .read 0x50 [0, 0] true]
    ⟨trivial, List.cons_ne_nil _ _, trivial⟩).1, by decide⟩

end Bus
end I2c
