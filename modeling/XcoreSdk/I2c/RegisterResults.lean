import XcoreSdk.I2c.Registers
/-!
# The results of the I2C master's functions

What they report against what the slave acknowledged, whatever that was.
-/

namespace I2c
variable {m : Master} {n : Nat}

instance (m : Master) (n : Nat) : Decidable (Acked m n) :=
  decidable_of_iff (∀ i < n + 1, m.sda i = false) ⟨fun h i hi => h i (Nat.lt_succ_of_le hi), fun h i hi => h i (Nat.le_of_lt_succ hi)⟩

/-- Of an address and `n` bytes the last byte, and only that, is not acknowledged. -/
def LastNacked (m : Master) (n : Nat) : Prop := 0 < n ∧ Acked m (n - 1) ∧ m.sda n = true

instance (m : Master) (n : Nat) : Decidable (LastNacked m n) :=
  inferInstanceAs (Decidable (0 < n ∧ Acked m (n - 1) ∧ m.sda n = true))

/-- A write of `n` bytes. -/
def WriteMeets (m : Master) (n : Nat) (r : WriteResult) : Prop :=
  (r.result = .ack ↔ Acked m n) ∧ ((∃ k < n, ¬ Acked m (k + 1)) → r.num_bytes_sent < n)

/-- A write of a register, in `n` bytes. -/
def RegWriteMeets (m : Master) (n : Nat) (result : RegopRes) : Prop :=
  (result = .success ↔ Acked m n) ∧ (result = .device_nack ↔ m.sda 0 = true) ∧
    (result = .incomplete ↔ m.sda 0 = false ∧ ¬ Acked m n)

/-- A read of a register of `n` bytes, with an address of `a`. -/
def RegReadMeets (m : Master) (a n : Nat) (result : RegopRes) (value : Nat) : Prop :=
  (Acked m (a + 1) → result = .success ∧ value = Bits.ofBits (Bits.window m.sda (a + 2) (8 * n))) ∧
    (¬ Acked m (a + 1) → result = .device_nack)

/-! ## Writes -/

theorem LastNacked.not_acked (h : LastNacked m n) : ¬ Acked m n := fun hack => by
  have := hack n (Nat.le_refl n)
  rw [h.2.2] at this
  cases this

theorem acked_of_lt {k : Nat} (h : Acked m n) (hk : k ≤ n) : Acked m k := fun i hi => h i (hi.trans hk)

/-- What a write reports, in the four cases. -/
theorem write_cases (m : Master) (device_addr : UInt8) (buf : List UInt8) (send_stop_bit : Bool) :
    let r := i2c_master_write m device_addr buf send_stop_bit
    (Acked m buf.length ∧ r.result = .ack ∧ r.num_bytes_sent = buf.length ∧ r.master.sda = fun i => m.sda (buf.length + 1 + i)) ∨
      (m.sda 0 = true ∧ r.result = .nack ∧ r.num_bytes_sent = 0) ∨
      (LastNacked m buf.length ∧ r.result = .nack ∧ r.num_bytes_sent = buf.length ∧
        r.master.sda = fun i => m.sda (buf.length + 1 + i)) ∨
      (m.sda 0 = false ∧ ¬ Acked m buf.length ∧ ¬ LastNacked m buf.length ∧ r.result = .nack ∧ 0 < r.num_bytes_sent ∧
        r.num_bytes_sent < buf.length) := by
  intro r
  by_cases hall : Acked m buf.length
  · exact .inl ⟨hall, write_acked device_addr buf send_stop_bit hall⟩
  · rcases first_nack hall with h0 | ⟨k, hk, hacked, hnack⟩
    · exact .inr (.inl ⟨h0, write_address_nacked device_addr buf send_stop_bit h0⟩)
    · obtain ⟨hres, hnum, hsda⟩ := write_nacked device_addr buf send_stop_bit hk hacked hnack
      by_cases hlast : k + 1 = buf.length
      · refine .inr (.inr (.inl ⟨⟨by omega, ?_, hlast ▸ hnack⟩, hres, hnum.trans hlast, ?_⟩))
        · rw [← hlast]
          exact hacked
        · rw [← hlast]
          exact hsda
      · refine .inr (.inr (.inr ⟨hacked 0 (Nat.zero_le k), hall, fun hl => ?_, hres, ?_, ?_⟩))
        · have := hl.2.1 (k + 1) (by omega)
          rw [hnack] at this
          cases this
        · rw [show r.num_bytes_sent = k + 1 from hnum]
          exact Nat.succ_pos k
        · rw [show r.num_bytes_sent = k + 1 from hnum]
          omega

theorem write_meets (m : Master) (device_addr : UInt8) (buf : List UInt8) (send_stop_bit : Bool) :
    WriteMeets m buf.length (i2c_master_write m device_addr buf send_stop_bit) ↔ ¬ LastNacked m buf.length := by
  have hsome : ¬ Acked m buf.length → 0 < buf.length → ∃ k < buf.length, ¬ Acked m (k + 1) := fun hnot hpos =>
    ⟨buf.length - 1, by omega, by rwa [Nat.sub_add_cancel hpos]⟩
  have hnone : (∃ k < buf.length, ¬ Acked m (k + 1)) → ¬ Acked m buf.length ∧ 0 < buf.length := by
    rintro ⟨k, hk, hnot⟩
    exact ⟨fun hall => hnot (acked_of_lt hall hk), by omega⟩
  unfold WriteMeets
  rcases write_cases m device_addr buf send_stop_bit with ⟨hall, hres, hnum, -⟩ | ⟨h0, hres, hnum⟩ |
    ⟨hlast, hres, hnum, -⟩ | ⟨h0, hall, hlast, hres, -, hnum⟩
  · rw [hres]
    exact ⟨fun _ hl => hl.not_acked hall, fun _ => ⟨⟨fun _ => hall, fun _ => rfl⟩, fun hk => absurd hall (hnone hk).1⟩⟩
  · have hnot : ¬ Acked m buf.length := fun hall => by rw [hall 0 (Nat.zero_le _)] at h0; cases h0
    have hl : ¬ LastNacked m buf.length := fun hl => by rw [hl.2.1 0 (Nat.zero_le _)] at h0; cases h0
    rw [hres, hnum]
    exact ⟨fun _ => hl, fun _ => ⟨⟨(fun h => by cases h), fun h => absurd h hnot⟩, fun hk => (hnone hk).2⟩⟩
  · rw [hres, hnum]
    exact ⟨fun h => absurd (h.2 (hsome hlast.not_acked hlast.1)) (Nat.lt_irrefl _), fun h => absurd hlast h⟩
  · rw [hres]
    exact ⟨fun _ => hlast, fun _ => ⟨⟨(fun h => by cases h), fun h => absurd h hall⟩, fun _ => hnum⟩⟩

theorem write_register_meets (m : Master) (device_addr : UInt8) (buf : List UInt8) (hpos : 0 < buf.length) :
    RegWriteMeets m buf.length (write_register m device_addr buf).1 ↔ ¬ LastNacked m buf.length := by
  unfold RegWriteMeets write_register
  dsimp only
  rcases write_cases m device_addr buf true with ⟨hall, -, hnum, -⟩ | ⟨h0, -, hnum⟩ | ⟨hlast, -, hnum, -⟩ |
    ⟨h0, hall, hlast, -, hone, hnum⟩
  · rw [hnum, if_neg (by omega), if_neg (Nat.lt_irrefl _)]
    have h0 := hall 0 (Nat.zero_le _)
    have hl : ¬ LastNacked m buf.length := fun hl => hl.not_acked hall
    simp [hall, h0, hl]
  · have hnot : ¬ Acked m buf.length := fun hall => by rw [hall 0 (Nat.zero_le _)] at h0; cases h0
    have hl : ¬ LastNacked m buf.length := fun hl => by rw [hl.2.1 0 (Nat.zero_le _)] at h0; cases h0
    rw [hnum, if_pos rfl]
    simp [hnot, h0, hl]
  · rw [hnum, if_neg (by omega), if_neg (Nat.lt_irrefl _)]
    simp [hlast.not_acked, hlast]
  · rw [if_neg (by omega), if_pos hnum]
    simp [hall, h0, hlast]

/-! ## Reads -/

/-- The second half of a read, after so many samples. -/
theorem read_half (device_addr : UInt8) (buf : List UInt8) (n : Nat) {m' : Master} {a : Nat}
    (hsda : m'.sda = fun i => m.sda (a + 1 + i)) :
    (m.sda (a + 1) = true → (i2c_master_read m' device_addr buf n true).result = .nack) ∧
      (m.sda (a + 1) = false → (i2c_master_read m' device_addr buf n true).result = .ack ∧
        (i2c_master_read m' device_addr buf n true).buf = sampled m.sda (a + 2) n ++ buf.drop n) := by
  have h0 : m'.sda 0 = m.sda (a + 1) := by rw [hsda]
  refine ⟨fun h => read_nacked device_addr buf n true (h0.trans h), fun h => ?_⟩
  obtain ⟨hres, hbuf⟩ := read_acked device_addr buf n true (h0.trans h)
  refine ⟨hres, ?_⟩
  rw [hbuf, sampled_shift (congrFun hsda)]

theorem read_register_meets (m : Master) (device_addr : UInt8) (reg : List UInt8) (size n : Nat)
    (value : Option (List UInt8) → Nat) (hpos : 0 < reg.length)
    (hvalue : ∀ sda i, value (some (sampled sda i n ++ (List.replicate size 0).drop n)) = Bits.ofBits (Bits.window sda i (8 * n))) :
    RegReadMeets m reg.length n (read_register m device_addr reg size n).1 (value (read_register m device_addr reg size n).2.1) ↔
      ¬ (LastNacked m reg.length ∧ m.sda (reg.length + 1) = false) := by
  have hnext : Acked m (reg.length + 1) ↔ Acked m reg.length ∧ m.sda (reg.length + 1) = false := by
    refine ⟨fun h => ⟨acked_of_lt h (Nat.le_succ _), h _ (Nat.le_refl _)⟩, fun h i hi => ?_⟩
    rcases Nat.le_succ_iff.1 hi with hle | rfl
    · exact h.1 i hle
    · exact h.2
  unfold RegReadMeets read_register
  dsimp only
  rw [hnext]
  rcases write_cases m device_addr reg false with ⟨hall, -, hnum, hsda⟩ | ⟨h0, -, hnum⟩ | ⟨hlast, -, hnum, hsda⟩ |
    ⟨h0, hall, hlast, -, hone, hnum⟩
  · obtain ⟨hnack, hack⟩ := read_half device_addr (List.replicate size 0) n hsda
    have hl : ¬ LastNacked m reg.length := fun hl => hl.not_acked hall
    rw [if_neg (not_not.2 hnum)]
    cases hread : m.sda (reg.length + 1) with
    | true => simp [hall, hl, hnack hread]
    | false =>
      obtain ⟨hres, hbuf⟩ := hack hread
      rw [hbuf, hvalue, hres]
      simp [hall, hl]
  · have hnot : ¬ Acked m reg.length := fun hall => by rw [hall 0 (Nat.zero_le _)] at h0; cases h0
    have hl : ¬ LastNacked m reg.length := fun hl => by rw [hl.2.1 0 (Nat.zero_le _)] at h0; cases h0
    rw [if_pos (by omega)]
    simp [hnot, hl]
  · obtain ⟨hnack, hack⟩ := read_half device_addr (List.replicate size 0) n hsda
    rw [if_neg (not_not.2 hnum)]
    cases hread : m.sda (reg.length + 1) with
    | true => simp [hlast.not_acked, hnack hread]
    | false => simp [hlast, hlast.not_acked, (hack hread).1]
  · rw [if_pos (by omega)]
    simp [hall, hlast]

/-! ## All of them -/

/-- A call of one of the functions. -/
inductive Call
  | write (device_addr : UInt8) (buf : List UInt8) (send_stop_bit : Bool)
  | read_reg (device_addr reg : UInt8)
  | read_reg8_addr16 (device_addr : UInt8) (reg : UInt16)
  | read_reg16_addr8 (device_addr reg : UInt8)
  | read_reg16 (device_addr : UInt8) (reg : UInt16)
  | write_reg (device_addr reg data : UInt8)
  | write_reg8_addr16 (device_addr : UInt8) (reg : UInt16) (data : UInt8)
  | write_reg16_addr8 (device_addr reg : UInt8) (data : UInt16)
  | write_reg16 (device_addr : UInt8) (reg data : UInt16)

def Call.Meets (m : Master) : Call → Prop
  | .write device_addr buf send_stop_bit => WriteMeets m buf.length (i2c_master_write m device_addr buf send_stop_bit)
  | .read_reg device_addr reg => RegReadMeets m 1 1 (I2c.read_reg m device_addr reg).result (I2c.read_reg m device_addr reg).value.toNat
  | .read_reg8_addr16 device_addr reg => RegReadMeets m 2 1 (I2c.read_reg8_addr16 m device_addr reg).result
      (I2c.read_reg8_addr16 m device_addr reg).value.toNat
  | .read_reg16_addr8 device_addr reg => RegReadMeets m 1 2 (I2c.read_reg16_addr8 m device_addr reg).result
      (I2c.read_reg16_addr8 m device_addr reg).value.toNat
  | .read_reg16 device_addr reg => RegReadMeets m 2 2 (I2c.read_reg16 m device_addr reg).result
      (I2c.read_reg16 m device_addr reg).value.toNat
  | .write_reg device_addr reg data => RegWriteMeets m 2 (I2c.write_reg m device_addr reg data).1
  | .write_reg8_addr16 device_addr reg data => RegWriteMeets m 3 (I2c.write_reg8_addr16 m device_addr reg data).1
  | .write_reg16_addr8 device_addr reg data => RegWriteMeets m 3 (I2c.write_reg16_addr8 m device_addr reg data).1
  | .write_reg16 device_addr reg data => RegWriteMeets m 4 (I2c.write_reg16 m device_addr reg data).1

/-- The last byte that is written is not acknowledged, but all before it is, and
so is the address when the register is read then. -/
def Call.LastNacked (m : Master) : Call → Prop
  | .write _ buf _ => I2c.LastNacked m buf.length
  | .read_reg _ _ | .read_reg16_addr8 _ _ => I2c.LastNacked m 1 ∧ m.sda 2 = false
  | .read_reg8_addr16 _ _ | .read_reg16 _ _ => I2c.LastNacked m 2 ∧ m.sda 3 = false
  | .write_reg _ _ _ => I2c.LastNacked m 2
  | .write_reg8_addr16 _ _ _ | .write_reg16_addr8 _ _ _ => I2c.LastNacked m 3
  | .write_reg16 _ _ _ => I2c.LastNacked m 4

theorem buf0_sampled (sda : Nat → Bool) (i : Nat) (rest : List UInt8) :
    (buf0 (some (sampled sda i 1 ++ rest))).toNat = Bits.ofBits (Bits.window sda i (8 * 1)) := by
  have hlt := Bits.ofBits_lt (Bits.window sda i 8)
  rw [Bits.length_window] at hlt
  simp [buf0, sampled]
  omega

theorem word_of_bytes (a b : UInt8) : ((a.toUInt16 <<< 8) ||| b.toUInt16).toNat = a.toNat * 256 + b.toNat := by
  have ha := a.toNat_lt
  have hshift : (a.toUInt16 <<< 8).toNat = a.toNat <<< 8 := by
    rw [UInt16.toNat_shiftLeft]
    simp [Nat.shiftLeft_eq]
    omega
  rw [UInt16.toNat_or, hshift, UInt8.toNat_toUInt16, ← Nat.shiftLeft_add_eq_or_of_lt b.toNat_lt, Nat.shiftLeft_eq]

theorem buf01_sampled (sda : Nat → Bool) (i : Nat) (rest : List UInt8) :
    (buf01 (some (sampled sda i 2 ++ rest))).toNat = Bits.ofBits (Bits.window sda i (8 * 2)) := by
  have hhigh := Bits.ofBits_lt (Bits.window sda i 8)
  have hlow := Bits.ofBits_lt (Bits.window sda (i + 8) 8)
  rw [Bits.length_window] at hhigh hlow
  have hsplit : Bits.ofBits (Bits.window sda i (8 * 2)) =
      Bits.ofBits (Bits.window sda i 8) * 256 + Bits.ofBits (Bits.window sda (i + 8) 8) := by
    rw [show 8 * 2 = 8 + 8 from rfl, Bits.window_add, Bits.ofBits_append, Bits.length_window]
    rfl
  rw [hsplit, buf01]
  simp only [sampled, List.cons_append, List.getD_cons_zero, List.getD_cons_succ]
  rw [word_of_bytes, UInt8.toNat_ofNat_of_lt' hhigh, UInt8.toNat_ofNat_of_lt' hlow]

/-- Whatever the slave acknowledges and sends. -/
theorem register_results_iff (m : Master) (call : Call) : call.Meets m ↔ ¬ call.LastNacked m := by
  cases call with
  | write device_addr buf send_stop_bit => exact write_meets m device_addr buf send_stop_bit
  | read_reg device_addr reg =>
    exact read_register_meets m device_addr [reg] 1 1 (fun buf => (buf0 buf).toNat) Nat.one_pos fun sda i => buf0_sampled sda i _
  | read_reg8_addr16 device_addr reg =>
    exact read_register_meets m device_addr (bytes16 reg) 2 1 (fun buf => (buf0 buf).toNat) Nat.two_pos fun sda i => buf0_sampled sda i _
  | read_reg16_addr8 device_addr reg =>
    exact read_register_meets m device_addr [reg] 2 2 (fun buf => (buf01 buf).toNat) Nat.one_pos fun sda i => buf01_sampled sda i _
  | read_reg16 device_addr reg =>
    exact read_register_meets m device_addr (bytes16 reg) 2 2 (fun buf => (buf01 buf).toNat) Nat.two_pos fun sda i => buf01_sampled sda i _
  | write_reg device_addr reg data => exact write_register_meets m device_addr [reg, data] Nat.two_pos
  | write_reg8_addr16 device_addr reg data =>
    exact write_register_meets m device_addr (bytes16 reg ++ [data]) (Nat.succ_pos _)
  | write_reg16_addr8 device_addr reg data =>
    exact write_register_meets m device_addr (reg :: bytes16 data) (Nat.succ_pos _)
  | write_reg16 device_addr reg data =>
    exact write_register_meets m device_addr (bytes16 reg ++ bytes16 data) (Nat.succ_pos _)

/-- A slave that acknowledges all but the data of a register. -/
theorem write_reg_data_nacked : (write_reg ⟨true, fun i => i = 2, []⟩ 0x18 0x2A 0x07).1 = .success ∧
    ¬ (Call.write_reg 0x18 0x2A 0x07).Meets ⟨true, fun i => i = 2, []⟩ := by
  refine ⟨by decide +kernel, fun h => ?_⟩
  exact (write_register_meets _ _ [0x2A, 0x07] Nat.two_pos).1 h (by decide)

end I2c
