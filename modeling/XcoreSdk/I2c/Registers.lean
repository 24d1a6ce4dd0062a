import XcoreSdk.I2c.Master
/-!
# What reads and writes of registers return

A write ends with the first byte that is not acknowledged, and counts it among
those that it has sent. So a last byte that is not acknowledged is the one
case in which the count does not tell.
-/

namespace I2c
variable {m m' m'' : Master}

/-! ## Bits and bytes on the bus -/

/-- `m'` is `m` after `k` samples, between the start and the end of an operation. -/
structure After (m m' : Master) (k : Nat) : Prop where
  sda : ∀ i, m'.sda i = m.sda (k + i)
  stopped : m'.stopped = m.stopped
  wire : ∃ events, m'.wire = m.wire ++ events

theorem After.refl (m : Master) : After m m 0 := ⟨fun i => by rw [Nat.zero_add], rfl, [], (List.append_nil _).symm⟩

theorem After.trans {k l : Nat} (h : After m m' k) (h' : After m' m'' l) : After m m'' (k + l) := by
  obtain ⟨events, hw⟩ := h.wire
  obtain ⟨events', hw'⟩ := h'.wire
  refine ⟨fun i => ?_, h'.stopped.trans h.stopped, events ++ events', ?_⟩
  · rw [h'.sda, h.sda, Nat.add_assoc]
  · rw [hw', hw, List.append_assoc]

theorem after_drive (m : Master) (b : Bool) : After m (m.high_pulse_drive b) 0 :=
  ⟨fun i => by rw [Nat.zero_add]; rfl, rfl, _, rfl⟩

theorem after_sample (m : Master) : After m m.high_pulse_sample.2 1 :=
  ⟨fun i => by rw [Nat.add_comm]; rfl, rfl, _, rfl⟩

theorem after_start (m : Master) : After m m.start_bit 0 := ⟨fun i => by rw [Nat.zero_add]; rfl, rfl, _, rfl⟩

theorem drive_bits_eq (n : Nat) (data : BitVec 32) (m : Master) :
    m.drive_bits n data = { m with wire := m.wire ++ (List.range n).map fun i => Wire.drive (data.getLsbD i) } := by
  induction n generalizing data m with
  | zero => simp [Master.drive_bits]
  | succ n ih =>
    have hbit : ∀ i, (data >>> 1).getLsbD i = data.getLsbD (i + 1) := fun i => by
      rw [BitVec.getLsbD_ushiftRight, Nat.add_comm]
    rw [Master.drive_bits, ih, List.range_succ_eq_map, List.map_cons, List.map_map]
    simp only [Master.high_pulse_drive, List.append_assoc, List.singleton_append, hbit]
    rfl

/-- A byte goes out with its most significant bit first. -/
theorem tx8_wire (m : Master) (data : BitVec 32) :
    (m.tx8 data).2.wire = m.wire ++ (Bits.toBits 8 data.toNat).map .drive ++ [.sample (m.sda 0)] := by
  have hbits : (List.range 8).map (fun i => Wire.drive ((data.reverse >>> 24).getLsbD i)) =
      (Bits.toBits 8 data.toNat).map .drive := by
    unfold Bits.toBits
    rw [List.map_map]
    refine List.map_congr_left fun i hi => ?_
    have hlt := List.mem_range.1 hi
    have hrev : (data.reverse >>> 24).getLsbD i = data.getLsbD (8 - 1 - i) := by
      rw [BitVec.getLsbD_ushiftRight, BitVec.getLsbD_reverse, BitVec.getMsbD_eq_getLsbD]
      simp only [show 24 + i < 32 by omega, decide_true, Bool.true_and]
      congr 1
      omega
    rw [hrev]
    rfl
  unfold Master.tx8 Master.high_pulse_sample
  rw [drive_bits_eq, hbits]

theorem tx8_ack (m : Master) (data : BitVec 32) : (m.tx8 data).1 = m.sda 0 := by
  unfold Master.tx8
  rw [drive_bits_eq]
  rfl

theorem after_tx8 (m : Master) (data : BitVec 32) : After m (m.tx8 data).2 1 where
  sda i := by
    unfold Master.tx8
    rw [drive_bits_eq, Nat.add_comm]
    rfl
  stopped := by
    unfold Master.tx8
    rw [drive_bits_eq]
    rfl
  wire := ⟨_, by rw [tx8_wire, List.append_assoc]⟩

/-! ## Reading bytes -/

theorem shift_in (data : UInt8) (b : Bool) :
    ((data <<< 1) ||| if b then 1 else 0).toNat = (2 * data.toNat + b.toNat) % 256 := by
  have hshift : (data <<< 1).toNat = (data.toNat % 128) <<< 1 := by
    rw [UInt8.toNat_shiftLeft]
    simp [Nat.shiftLeft_eq]
    omega
  cases b
  · simp only [Bool.false_eq_true, if_false, Bool.toNat_false]
    rw [UInt8.toNat_or, hshift, Nat.shiftLeft_eq]
    simp
    omega
  · rw [if_pos rfl, UInt8.toNat_or, hshift, UInt8.toNat_one, ← Nat.shiftLeft_add_eq_or_of_lt (by decide), Nat.shiftLeft_eq]
    simp
    omega

theorem read_bits_value (n : Nat) (data : UInt8) (m : Master) :
    (read_bits n data m).1.toNat = (data.toNat * 2 ^ n + Bits.ofBits (Bits.window m.sda 0 n)) % 256 := by
  induction n generalizing data m with
  | zero => simp [read_bits, Bits.window, Nat.mod_eq_of_lt data.toNat_lt]
  | succ n ih =>
    have hsda := Bits.window_shift (after_sample m).sda 0 n
    have hbit : m.high_pulse_sample.1 = m.sda 0 := rfl
    rw [read_bits, ih, shift_in, hbit, hsda, Bits.window_succ, Bits.ofBits_cons, Bits.length_window, pow_succ,
      Nat.add_mod, Nat.mod_mul_mod, ← Nat.add_mod]
    congr 1
    ring

theorem after_read_bits (n : Nat) (data : UInt8) (m : Master) : After m (read_bits n data m).2 n := by
  induction n generalizing data m with
  | zero => exact .refl m
  | succ n ih =>
    have hafter := (after_sample m).trans (ih ((data <<< 1) ||| if m.high_pulse_sample.1 then 1 else 0) m.high_pulse_sample.2)
    rwa [Nat.add_comm] at hafter

/-- The bytes whose bits are sampled from the `i`th on. -/
def sampled (sda : Nat → Bool) (i : Nat) : Nat → List UInt8
  | 0 => []
  | n + 1 => UInt8.ofNat (Bits.ofBits (Bits.window sda i 8)) :: sampled sda (i + 8) n

theorem sampled_shift {sda sda' : Nat → Bool} {k : Nat} (h : ∀ i, sda' i = sda (k + i)) (i n : Nat) :
    sampled sda' i n = sampled sda (k + i) n := by
  induction n generalizing i with
  | zero => rfl
  | succ n ih => rw [sampled, sampled, Bits.window_shift h, ih, Nat.add_assoc]

theorem read_bytes_spec (n left : Nat) (data : List UInt8) (m : Master) :
    (read_bytes n left data m).1 = data ++ sampled m.sda 0 left ∧ After m (read_bytes n left data m).2 (8 * left) := by
  induction left generalizing data m with
  | zero => exact ⟨(List.append_nil data).symm, .refl m⟩
  | succ left ih =>
    have hbyte : (read_bits 8 0 m).1 = UInt8.ofNat (Bits.ofBits (Bits.window m.sda 0 8)) := by
      apply UInt8.toNat_inj.1
      rw [read_bits_value]
      simp
    have hafter := (after_read_bits 8 0 m).trans (after_drive _ (data.length = n - 1))
    obtain ⟨hdata, hrest⟩ := ih (data ++ [(read_bits 8 0 m).1]) ((read_bits 8 0 m).2.high_pulse_drive (data.length = n - 1))
    rw [read_bytes]
    refine ⟨?_, ?_⟩
    · rw [hdata, sampled_shift hafter.sda, hbyte, sampled, List.append_assoc]
      rfl
    · have hall := hafter.trans hrest
      rwa [show 8 + 0 + 8 * left = 8 * (left + 1) by omega] at hall

/-! ## Reads and writes -/

/-- The state and the events of an operation that has come to its end. -/
structure Finished (m m' : Master) (send_stop_bit : Bool) : Prop where
  stopped : m'.stopped = send_stop_bit
  wire : ∃ events, m'.wire =
    m.wire ++ (if m.stopped then .start else .repeated_start) :: events ++ if send_stop_bit then [.stop] else []

theorem After.finish {k : Nat} (h : After m.start_bit m' k) (send_stop_bit : Bool) :
    Finished m (m'.finish send_stop_bit) send_stop_bit := by
  obtain ⟨events, hw⟩ := h.wire
  unfold Master.finish
  cases send_stop_bit
  · exact ⟨rfl, events, by simp [hw, Master.start_bit]⟩
  · exact ⟨rfl, events, by simp [hw, Master.start_bit, Master.stop_bit]⟩

@[simp] theorem finish_sda (m : Master) (send_stop_bit : Bool) : (m.finish send_stop_bit).sda = m.sda := by
  cases send_stop_bit <;> rfl

theorem read_finished (m : Master) (device_addr : UInt8) (buf : List UInt8) (n : Nat) (send_stop_bit : Bool) :
    Finished m (i2c_master_read m device_addr buf n send_stop_bit).master send_stop_bit := by
  have hafter := after_tx8 m.start_bit ((device_addr.toBitVec.setWidth 32 <<< 1) ||| 1)
  unfold i2c_master_read
  dsimp only
  split
  · exact hafter.finish send_stop_bit
  · exact (hafter.trans (read_bytes_spec n n [] _).2).finish send_stop_bit

theorem read_nacked (device_addr : UInt8) (buf : List UInt8) (n : Nat) (send_stop_bit : Bool) (h : m.sda 0 = true) :
    (i2c_master_read m device_addr buf n send_stop_bit).result = .nack := by
  have hack := tx8_ack m.start_bit ((device_addr.toBitVec.setWidth 32 <<< 1) ||| 1)
  unfold i2c_master_read
  dsimp only
  rw [if_pos (hack.trans h)]

theorem read_acked (device_addr : UInt8) (buf : List UInt8) (n : Nat) (send_stop_bit : Bool) (h : m.sda 0 = false) :
    (i2c_master_read m device_addr buf n send_stop_bit).result = .ack ∧
      (i2c_master_read m device_addr buf n send_stop_bit).buf = sampled m.sda 1 n ++ buf.drop n := by
  have hack := tx8_ack m.start_bit ((device_addr.toBitVec.setWidth 32 <<< 1) ||| 1)
  have hsda := sampled_shift (after_tx8 m.start_bit ((device_addr.toBitVec.setWidth 32 <<< 1) ||| 1)).sda
  have hnot : ¬ (m.start_bit.tx8 ((device_addr.toBitVec.setWidth 32 <<< 1) ||| 1)).1 = true := by
    rw [hack, show m.start_bit.sda 0 = false from h]
    exact Bool.false_ne_true
  unfold i2c_master_read
  dsimp only
  rw [if_neg hnot]
  refine ⟨rfl, ?_⟩
  rw [(read_bytes_spec n n [] _).1, hsda]
  rfl

/-- All bytes are acknowledged. -/
theorem write_bytes_acked (bs : List UInt8) (j : Nat) (m : Master) (h : ∀ i < bs.length, m.sda i = false) :
    (write_bytes bs j false m).1 = j + bs.length ∧ (write_bytes bs j false m).2.1 = false ∧
      After m (write_bytes bs j false m).2.2 bs.length := by
  induction bs generalizing j m with
  | nil => exact ⟨rfl, rfl, .refl m⟩
  | cons b bs ih =>
    have hafter := after_tx8 m (b.toBitVec.setWidth 32)
    have hack : (m.tx8 (b.toBitVec.setWidth 32)).1 = false := (tx8_ack _ _).trans (h 0 (Nat.succ_pos _))
    obtain ⟨hj, hlast, hrest⟩ := ih (j + 1) (m.tx8 (b.toBitVec.setWidth 32)).2 fun i hi => by
      rw [hafter.sda, Nat.add_comm]
      exact h (i + 1) (Nat.succ_lt_succ hi)
    rw [write_bytes, if_neg Bool.false_ne_true, hack]
    refine ⟨?_, hlast, ?_⟩
    · rw [hj, List.length_cons]
      omega
    · have hall := hafter.trans hrest
      rwa [Nat.add_comm 1 bs.length] at hall

/-- Byte `k` is the first one that is not acknowledged. -/
theorem write_bytes_nacked (bs : List UInt8) (j : Nat) (m : Master) {k : Nat} (hk : k < bs.length)
    (h : ∀ i < k, m.sda i = false) (hnack : m.sda k = true) :
    (write_bytes bs j false m).1 = j + k + 1 ∧ (write_bytes bs j false m).2.1 = true ∧
      After m (write_bytes bs j false m).2.2 (k + 1) := by
  induction k generalizing bs j m with
  | zero =>
    cases bs with
    | nil => exact absurd hk (Nat.lt_irrefl 0)
    | cons b bs =>
      have hack : (m.tx8 (b.toBitVec.setWidth 32)).1 = true := (tx8_ack _ _).trans hnack
      have hstop : ∀ m', write_bytes bs (j + 1) true m' = (j + 1, true, m') := fun m' => by
        cases bs with
        | nil => rfl
        | cons b bs => rw [write_bytes, if_pos rfl]
      rw [write_bytes, if_neg Bool.false_ne_true, hack, hstop]
      exact ⟨rfl, rfl, after_tx8 m _⟩
  | succ k ih =>
    cases bs with
    | nil => exact absurd hk (Nat.not_lt_zero _)
    | cons b bs =>
      have hafter := after_tx8 m (b.toBitVec.setWidth 32)
      have hack : (m.tx8 (b.toBitVec.setWidth 32)).1 = false := (tx8_ack _ _).trans (h 0 (Nat.succ_pos _))
      obtain ⟨hj, hlast, hrest⟩ := ih bs (j + 1) (m.tx8 (b.toBitVec.setWidth 32)).2 (Nat.lt_of_succ_lt_succ hk)
        (fun i hi => by rw [hafter.sda, Nat.add_comm]; exact h (i + 1) (Nat.succ_lt_succ hi))
        (by rw [hafter.sda, Nat.add_comm]; exact hnack)
      rw [write_bytes, if_neg Bool.false_ne_true, hack]
      refine ⟨by rw [hj]; omega, hlast, ?_⟩
      have hall := hafter.trans hrest
      rwa [Nat.add_comm 1 (k + 1)] at hall

/-- The address and the first `n` bytes are acknowledged. -/
def Acked (m : Master) (n : Nat) : Prop := ∀ i ≤ n, m.sda i = false

/-- The address or some byte is the first that is not. -/
theorem first_nack {n : Nat} (h : ¬ Acked m n) : m.sda 0 = true ∨ ∃ k < n, Acked m k ∧ m.sda (k + 1) = true := by
  induction n with
  | zero =>
    left
    by_contra h0
    exact h fun i hi => by rw [Nat.le_zero.1 hi]; simpa using h0
  | succ n ih =>
    by_cases hn : Acked m n
    · refine .inr ⟨n, Nat.lt_succ_self n, hn, ?_⟩
      by_contra hlast
      refine h fun i hi => ?_
      rcases Nat.le_succ_iff.1 hi with hle | rfl
      · exact hn i hle
      · simpa using hlast
    · rcases ih hn with h0 | ⟨k, hk, hrest⟩
      · exact .inl h0
      · exact .inr ⟨k, Nat.lt_succ_of_lt hk, hrest⟩

section Write
variable (device_addr : UInt8) (buf : List UInt8) (send_stop_bit : Bool)

theorem write_acked (h : Acked m buf.length) :
    (i2c_master_write m device_addr buf send_stop_bit).result = .ack ∧
      (i2c_master_write m device_addr buf send_stop_bit).num_bytes_sent = buf.length ∧
      (i2c_master_write m device_addr buf send_stop_bit).master.sda = fun i => m.sda (buf.length + 1 + i) := by
  have hafter := after_tx8 m.start_bit (device_addr.toBitVec.setWidth 32 <<< 1)
  have hack : (m.start_bit.tx8 (device_addr.toBitVec.setWidth 32 <<< 1)).1 = false :=
    (tx8_ack _ _).trans (h 0 (Nat.zero_le _))
  obtain ⟨hj, hlast, hrest⟩ := write_bytes_acked buf 0 (m.start_bit.tx8 (device_addr.toBitVec.setWidth 32 <<< 1)).2
    fun i hi => by
      rw [hafter.sda, Nat.add_comm]
      exact h (i + 1) hi
  have hsda := ((after_start m).trans hafter).trans hrest
  unfold i2c_master_write
  dsimp only
  rw [hack, hlast, hj, finish_sda]
  refine ⟨rfl, Nat.zero_add _, funext fun i => ?_⟩
  rw [hsda.sda, Nat.zero_add, Nat.add_comm 1 buf.length]

theorem write_address_nacked (h : m.sda 0 = true) :
    (i2c_master_write m device_addr buf send_stop_bit).result = .nack ∧
      (i2c_master_write m device_addr buf send_stop_bit).num_bytes_sent = 0 := by
  have hack : (m.start_bit.tx8 (device_addr.toBitVec.setWidth 32 <<< 1)).1 = true := (tx8_ack _ _).trans h
  have hstop : ∀ m', write_bytes buf 0 true m' = (0, true, m') := fun m' => by
    cases buf with
    | nil => rfl
    | cons b bs => rw [write_bytes, if_pos rfl]
  unfold i2c_master_write
  dsimp only
  rw [hack, hstop]
  exact ⟨rfl, rfl⟩

theorem write_nacked {k : Nat} (hk : k < buf.length) (h : Acked m k) (hnack : m.sda (k + 1) = true) :
    (i2c_master_write m device_addr buf send_stop_bit).result = .nack ∧
      (i2c_master_write m device_addr buf send_stop_bit).num_bytes_sent = k + 1 ∧
      (i2c_master_write m device_addr buf send_stop_bit).master.sda = fun i => m.sda (k + 2 + i) := by
  have hafter := after_tx8 m.start_bit (device_addr.toBitVec.setWidth 32 <<< 1)
  have hack : (m.start_bit.tx8 (device_addr.toBitVec.setWidth 32 <<< 1)).1 = false :=
    (tx8_ack _ _).trans (h 0 (Nat.zero_le _))
  obtain ⟨hj, hlast, hrest⟩ := write_bytes_nacked buf 0 (m.start_bit.tx8 (device_addr.toBitVec.setWidth 32 <<< 1)).2 hk
    (fun i hi => by rw [hafter.sda, Nat.add_comm]; exact h (i + 1) hi)
    (by rw [hafter.sda, Nat.add_comm]; exact hnack)
  have hsda := ((after_start m).trans hafter).trans hrest
  unfold i2c_master_write
  dsimp only
  rw [hack, hlast, hj, finish_sda]
  refine ⟨rfl, by rw [Nat.zero_add], funext fun i => ?_⟩
  rw [hsda.sda, Nat.zero_add, Nat.add_comm 1 (k + 1)]

theorem write_finished (m : Master) :
    Finished m (i2c_master_write m device_addr buf send_stop_bit).master send_stop_bit := by
  have hafter := after_tx8 m.start_bit (device_addr.toBitVec.setWidth 32 <<< 1)
  have hbytes : ∀ (bs : List UInt8) j ack m, ∃ k, After m (write_bytes bs j ack m).2.2 k := by
    intro bs
    induction bs with
    | nil => exact fun _ _ m => ⟨0, .refl m⟩
    | cons b bs ih =>
      intro j ack m
      rw [write_bytes]
      split
      · exact ⟨0, .refl m⟩
      · obtain ⟨k, hk⟩ := ih (j + 1) (m.tx8 (b.toBitVec.setWidth 32)).1 (m.tx8 (b.toBitVec.setWidth 32)).2
        exact ⟨1 + k, (after_tx8 m _).trans hk⟩
  obtain ⟨k, hk⟩ := hbytes buf 0 (m.start_bit.tx8 (device_addr.toBitVec.setWidth 32 <<< 1)).1
    (m.start_bit.tx8 (device_addr.toBitVec.setWidth 32 <<< 1)).2
  exact (hafter.trans hk).finish send_stop_bit

end Write

end I2c
