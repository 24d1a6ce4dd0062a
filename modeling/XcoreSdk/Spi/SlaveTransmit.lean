import XcoreSdk.Spi.SlaveReceive
/-!
# What the SPI slave transmits

Two words are fetched when a transaction starts and one more for each word
that comes in, so the cursor in the output buffer is ahead of the wire.
-/

namespace Spi
namespace Slave
open Bits (window)
variable {mem : Mem} {p n m : Nat} {ctx : Ctx}

/-! ## A word -/

/-- The `i`th bit of the output buffer, from the most significant one of its first byte on; then zeros. -/
def out_bit (mem : Mem) (p n i : Nat) : Bool :=
  if i / 8 < n then (mem (p + i / 8)).toBitVec.getLsbD (7 - i % 8) else false

theorem getLsbD_out_byte {k i : Nat} (hk : k < 4) (hi : i < 32) :
    (out_byte ctx k (24 - 8 * k)).getLsbD i =
      (decide (i / 8 = k) && out_bit ctx.mem ctx.out_buf_cur (ctx.out_buf_end - ctx.out_buf_cur) i) := by
  unfold out_byte out_bit
  by_cases heq : i / 8 = k
  · subst heq
    split_ifs with hroom
    · rw [BitVec.getLsbD_reverse, BitVec.getMsbD_eq_getLsbD, BitVec.getLsbD_shiftLeft, BitVec.getLsbD_setWidth]
      have h31 : ¬ 32 - 1 - i < 24 - 8 * (i / 8) := by omega
      have hidx : 32 - 1 - i - (24 - 8 * (i / 8)) = 7 - i % 8 := by omega
      have h32 : 7 - i % 8 < 32 := by omega
      have h32' : 32 - 1 - i < 32 := by omega
      rw [hidx]
      simp only [hi, h31, h32, h32', decide_true, decide_false, Bool.true_and, Bool.not_false]
    · simp
  · rw [decide_eq_false heq, Bool.false_and]
    split_ifs with hroom
    · rw [BitVec.getLsbD_reverse, BitVec.getMsbD_eq_getLsbD, BitVec.getLsbD_shiftLeft, BitVec.getLsbD_setWidth]
      by_cases hlow : 32 - 1 - i < 24 - 8 * k
      · simp [hlow]
      · rw [BitVec.getLsbD_of_ge _ (32 - 1 - i - (24 - 8 * k)) (by omega)]
        simp
    · simp

/-- A fetched word holds the next bits of the buffer, the first one lowest. -/
theorem getLsbD_next_word {i : Nat} (hi : i < 32) :
    (get_next_word ctx).1.getLsbD i =
      out_bit ctx.mem ctx.out_buf_cur (ctx.out_buf_end - ctx.out_buf_cur) i := by
  have hk : i / 8 = 0 ∨ i / 8 = 1 ∨ i / 8 = 2 ∨ i / 8 = 3 := by omega
  unfold get_next_word
  dsimp only
  rw [BitVec.getLsbD_or, BitVec.getLsbD_or, BitVec.getLsbD_or, getLsbD_out_byte (k := 3) (by decide) hi,
    getLsbD_out_byte (k := 2) (by decide) hi, getLsbD_out_byte (k := 1) (by decide) hi,
    getLsbD_out_byte (k := 0) (by decide) hi]
  rcases hk with hk | hk | hk | hk <;> simp [hk]

/-! ## Transactions -/

/-- After `m` words have been fetched: all of their bits went to the port, and the rest of the buffer is untouched. -/
structure Sending (mem : Mem) (p n : Nat) (m : Nat) (ctx : Ctx) : Prop where
  running : ctx.running = true
  p_miso : ctx.p_miso = true
  out_buf : ctx.out_buf = p
  out_buf_cur : ctx.out_buf_cur = p + min n (4 * m)
  out_buf_end : ctx.out_buf_end = p + n
  rest : ∀ a, p + 4 * m ≤ a → a < p + n → ctx.mem a = mem a
  miso : ctx.miso = window (out_bit mem p n) 0 (32 * m)

/-- The bits of the next word. -/
theorem next_word_window (hcur : ctx.out_buf_cur = p + min n (4 * m)) (hend : ctx.out_buf_end = p + n)
    (hmem : ∀ a, p + 4 * m ≤ a → a < p + n → ctx.mem a = mem a) {i k : Nat} (hk : i + k ≤ 32) :
    window (fun j => (get_next_word ctx).1.getLsbD j) i k = window (out_bit mem p n) (32 * m + i) k := by
  refine Bits.window_congr fun j hj => ?_
  rw [getLsbD_next_word (by omega), hcur, hend]
  unfold out_bit
  have hbyte : (32 * m + i + j) / 8 = 4 * m + (i + j) / 8 := by omega
  have hbit : (32 * m + i + j) % 8 = (i + j) % 8 := by omega
  rw [hbyte, hbit]
  by_cases hin : 4 * m + (i + j) / 8 < n
  · rw [if_pos (by omega), if_pos hin, Nat.min_eq_right (by omega), Nat.add_assoc p, hmem _ (by omega) (by omega)]
  · rw [if_neg (by omega), if_neg hin]

/-- Fetching a word and handing it to the port. -/
theorem Sending.port_out (hs : Sending mem p n m ctx) :
    Sending mem p n (m + 1) (Slave.port_out (get_next_word ctx).2 (get_next_word ctx).1) := by
  have hcur := hs.out_buf_cur
  have hend := hs.out_buf_end
  refine ⟨hs.running, hs.p_miso, hs.out_buf, ?_, hend, fun a ha => hs.rest a (by omega), ?_⟩
  · show ctx.out_buf_cur + (if 4 < ctx.out_buf_end - ctx.out_buf_cur then 4 else _) = _
    rw [hcur, hend]
    split_ifs <;> omega
  · show ctx.miso ++ _ = _
    rw [next_word_window hcur hend hs.rest (Nat.le_refl 32), hs.miso, Nat.mul_succ, Bits.window_add, Nat.zero_add,
      Nat.add_zero]

/-- The first bit on its own, then the others. -/
theorem port_out_first (out_word : Word) :
    spi_io_port_outpw (spi_io_port_outpw ctx out_word 1) (out_word >>> 1) 31 = port_out ctx out_word := by
  have hrest : window (fun i => (out_word >>> 1).getLsbD i) 0 31 = window (fun i => out_word.getLsbD i) (0 + 1) 31 :=
    Bits.window_congr fun i _ => by rw [BitVec.getLsbD_ushiftRight, Nat.zero_add]
  unfold port_out spi_io_port_outpw
  dsimp only
  rw [hrest, List.append_assoc, ← Bits.window_add]

/-- What `cs_isr` sets up before it fetches. -/
theorem cs_asserted_sends (buffers : Buffers) (hport : ctx.p_miso = true) :
    ∃ c, Sending ctx.mem buffers.out_buf (if buffers.out_buf = NULL then 0 else buffers.out_buf_len) 0 c ∧
      c.in_buf_cur = (if ctx.p_mosi then buffers.in_buf else NULL) ∧
      ∃ c', c' = port_out (get_next_word c).2 (get_next_word c).1 ∧
        cs_asserted ctx buffers = port_out (get_next_word c').2 (get_next_word c').1 := by
  have hend : (if buffers.out_buf = NULL then NULL else buffers.out_buf + buffers.out_buf_len) =
      buffers.out_buf + if buffers.out_buf = NULL then 0 else buffers.out_buf_len := by
    split_ifs with hnull
    · exact hnull.symm
    · rfl
  refine ⟨{ ctx with
    out_buf := buffers.out_buf, out_buf_cur := buffers.out_buf
    out_buf_end := if buffers.out_buf = NULL then NULL else buffers.out_buf + buffers.out_buf_len
    in_buf := buffers.in_buf, in_buf_cur := if ctx.p_mosi then buffers.in_buf else NULL
    in_buf_end := if ctx.p_mosi then if buffers.in_buf = NULL then NULL else buffers.in_buf + buffers.in_buf_len
      else NULL
    running := true, miso := [] }, ⟨rfl, hport, rfl, ?_, hend, fun _ _ _ => rfl, rfl⟩, rfl, _, rfl, ?_⟩
  · rw [Nat.mul_zero, Nat.min_zero]
    rfl
  · unfold cs_asserted
    by_cases hmosi : ctx.p_mosi <;> by_cases hcpha : ctx.cpha <;>
      simp only [hport, hmosi, hcpha, if_true, port_out_first] <;> rfl

theorem sending_start (buffers : Buffers) (hport : ctx.p_miso = true) :
    Sending ctx.mem buffers.out_buf (if buffers.out_buf = NULL then 0 else buffers.out_buf_len) 2
      (cs_asserted ctx buffers) ∧
      (cs_asserted ctx buffers).in_buf_cur = if ctx.p_mosi then buffers.in_buf else NULL := by
  obtain ⟨c, hc, hcur, c', rfl, heq⟩ := cs_asserted_sends buffers hport
  rw [heq]
  exact ⟨hc.port_out.port_out, hcur⟩

theorem sending_word {q a : Nat} (hs : Sending mem p n (q + 2) ctx) (hlow : a ≤ ctx.in_buf_cur)
    (hhigh : ctx.in_buf_cur ≤ a + 4 * q) (happ : a ≤ p ∨ p + n ≤ a) (w : Word) :
    Sending mem p n (q + 3) (main_loop ctx w) ∧ a ≤ (main_loop ctx w).in_buf_cur ∧
      (main_loop ctx w).in_buf_cur ≤ a + 4 * (q + 1) := by
  have hcur := receive_word_cur ctx w
  have hrecv : Sending mem p n (q + 2) (receive_word ctx w) := by
    refine ⟨hs.running, hs.p_miso, hs.out_buf, hs.out_buf_cur, hs.out_buf_end, fun b hb hn => ?_, hs.miso⟩
    rw [receive_word_mem, if_neg (by omega)]
    exact hs.rest b hb hn
  have hstep : main_loop ctx w =
      port_out (get_next_word (receive_word ctx w)).2 (get_next_word (receive_word ctx w)).1 := by
    unfold main_loop
    rw [if_pos hs.running]
    exact if_pos hs.p_miso
  rw [hstep]
  refine ⟨hrecv.port_out, ?_, ?_⟩
  · show a ≤ (receive_word ctx w).in_buf_cur
    omega
  · show (receive_word ctx w).in_buf_cur ≤ _
    omega

theorem sending_words {a : Nat} (happ : a ≤ p ∨ p + n ≤ a) {words : List Word} :
    ∀ {q : Nat} {ctx : Ctx}, Sending mem p n (q + 2) ctx → a ≤ ctx.in_buf_cur → ctx.in_buf_cur ≤ a + 4 * q →
      Sending mem p n (q + words.length + 2) (words.foldl main_loop ctx) := by
  induction words with
  | nil => exact fun hs _ _ => hs
  | cons w words ih =>
    intro q ctx hs hlow hhigh
    obtain ⟨hs', hlow', hhigh'⟩ := sending_word hs hlow hhigh happ w
    rw [List.foldl_cons, List.length_cons, Nat.add_comm words.length, ← Nat.add_assoc]
    exact ih hs' hlow' hhigh'

/-- The end counts all that was fetched. -/
theorem released_written (hs : Sending mem p n m ctx) (data : Word) (bits : Nat) :
    (cs_released ctx data bits).1.bytes_written = min n (4 * m) ∧ (cs_released ctx data bits).2.miso = ctx.miso := by
  have hpart : ∃ mem in_buf_cur, (receive_part_word ctx data bits).1 = { ctx with mem, in_buf_cur } := by
    unfold receive_part_word
    dsimp only
    split_ifs <;> exact ⟨_, _, rfl⟩
  obtain ⟨mem', in_buf_cur, heq⟩ := hpart
  have hcur : ctx.out_buf_cur - ctx.out_buf = min n (4 * m) := by
    rw [hs.out_buf_cur, hs.out_buf, Nat.add_sub_cancel_left]
  unfold cs_released
  dsimp only
  by_cases hmosi : ctx.p_mosi
  · rw [if_pos hmosi]
    dsimp only
    rw [heq]
    exact ⟨(if_pos hs.p_miso).trans hcur, rfl⟩
  · rw [if_neg hmosi]
    exact ⟨(if_pos hs.p_miso).trans hcur, rfl⟩

/-- The length of the output buffer, if there is one. -/
def Buffers.out_len (buffers : Buffers) : Nat := if buffers.out_buf = NULL then 0 else buffers.out_buf_len

theorem sending_end (ctx : Ctx) (buffers : Buffers) (words : List Word) (hport : ctx.p_miso = true)
    (happ : buffers.in_buf ≤ buffers.out_buf ∨ buffers.out_buf + buffers.out_buf_len ≤ buffers.in_buf) :
    Sending ctx.mem buffers.out_buf buffers.out_len (words.length + 2)
      (words.foldl main_loop (cs_asserted ctx buffers)) := by
  obtain ⟨hs, hcur⟩ := sending_start buffers hport
  have happ' : (if ctx.p_mosi then buffers.in_buf else NULL) ≤ buffers.out_buf ∨
      buffers.out_buf + buffers.out_len ≤ (if ctx.p_mosi then buffers.in_buf else NULL) := by
    have hlen : buffers.out_len ≤ buffers.out_buf_len := by
      unfold Buffers.out_len
      split_ifs <;> omega
    split_ifs
    · omega
    · exact .inl (Nat.zero_le _)
  have hrun : Sending ctx.mem buffers.out_buf buffers.out_len (0 + words.length + 2)
      (words.foldl main_loop (cs_asserted ctx buffers)) := sending_words happ' hs hcur.ge hcur.le
  rwa [Nat.zero_add] at hrun

/-- The bits on MISO, while at most one full word that has come in is not handled yet. The input buffer may be the
output buffer, but it does not begin further inside of it. -/
theorem miso_bits {b : Nat} (ctx : Ctx) (buffers : Buffers) (words : List Word) (data : Word) (bits : Nat)
    (hport : ctx.p_miso = true)
    (happ : buffers.in_buf ≤ buffers.out_buf ∨ buffers.out_buf + buffers.out_buf_len ≤ buffers.in_buf)
    (hb : b / 32 ≤ words.length + 1) :
    (transaction ctx buffers words data bits).2.miso.take b =
      window (out_bit ctx.mem buffers.out_buf buffers.out_len) 0 b := by
  have hs := sending_end ctx buffers words hport happ
  obtain ⟨k, hk⟩ : ∃ k, 32 * (words.length + 2) = b + k := ⟨32 * (words.length + 2) - b, by omega⟩
  unfold transaction
  rw [(released_written hs data bits).2, hs.miso, hk, Bits.window_add, List.take_left' (Bits.length_window _ _ _)]

/-- The number of bytes written is right if and only if the whole buffer was clocked out. -/
theorem transmit_iff {b : Nat} (ctx : Ctx) (buffers : Buffers) (words : List Word) (data : Word) (bits : Nat)
    (hport : ctx.p_miso = true)
    (happ : buffers.in_buf ≤ buffers.out_buf ∨ buffers.out_buf + buffers.out_buf_len ≤ buffers.in_buf)
    (hb : b / 32 ≤ words.length + 1) :
    ((transaction ctx buffers words data bits).1.bytes_written = min buffers.out_len (b / 8) ∧
      (transaction ctx buffers words data bits).2.miso.take b =
        window (out_bit ctx.mem buffers.out_buf buffers.out_len) 0 b) ↔
      buffers.out_len ≤ b / 8 := by
  have hs := sending_end ctx buffers words hport happ
  have hwritten : (transaction ctx buffers words data bits).1.bytes_written =
      min buffers.out_len (4 * (words.length + 2)) := (released_written hs data bits).1
  rw [hwritten, and_iff_left (miso_bits ctx buffers words data bits hport happ hb)]
  omega

/-- A slave with all four ports, whose memory holds sevens. -/
def sevens : Ctx := ⟨fun _ => 7, 0, 0, 0, 0, 0, 0, false, true, true, false, []⟩

/-- Three bytes in three bytes' time, with the buffers the same, are counted right; eight of which only one was
clocked out are not. -/
theorem transmit_three_bytes :
    ((transaction sevens ⟨16, 3, 16, 3⟩ [] 0 24).1.bytes_written = 3 ∧
      (transaction sevens ⟨16, 3, 16, 3⟩ [] 0 24).2.miso.take 24 =
        window (out_bit (fun _ => 7) 16 3) 0 24) ∧
      ¬ ((transaction sevens ⟨16, 8, 32, 8⟩ [] 0 8).1.bytes_written = 1 ∧
        (transaction sevens ⟨16, 8, 32, 8⟩ [] 0 8).2.miso.take 8 = window (out_bit (fun _ => 7) 16 8) 0 8) :=
  ⟨(transmit_iff (b := 24) sevens ⟨16, 3, 16, 3⟩ [] 0 24 rfl (.inl (Nat.le_refl 16)) (by decide)).2 (by decide), fun hsent =>
    absurd ((transmit_iff (b := 8) sevens ⟨16, 8, 32, 8⟩ [] 0 8 rfl (.inr (by decide)) (by decide)).1 hsent) (by decide)⟩

/-- A byte is clocked out of eight, and eight are counted. -/
theorem transmit_one_of_eight_bytes :
    (transaction sevens ⟨16, 8, 32, 8⟩ [] 0 8).1.bytes_written ≠
      min (Buffers.out_len ⟨16, 8, 32, 8⟩) (8 / 8) := by
  decide

end Slave
end Spi
