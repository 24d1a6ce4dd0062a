import XcoreSdk.Spi.Slave
/-!
# What the SPI slave receives

Bytes are cut out of words and of the bits that are left at the end. In both
the bits stand in the order of the wire once they are reversed.
-/

namespace Spi
namespace Slave
open Bits (window ofBits)
variable {x : Word} {f : Nat → Bool} {i n : Nat}

/-! ## Bits in words -/

theorem toNat_mkmsk (h : n ≤ 32) : (mkmsk n).toNat = 2 ^ n - 1 := by
  have hle : 2 ^ n ≤ 2 ^ 32 := Nat.pow_le_pow_right Nat.zero_lt_two h
  have hpos : 0 < 2 ^ n := Nat.two_pow_pos n
  unfold mkmsk
  rw [BitVec.toNat_ofNat, Nat.mod_eq_of_lt (by omega)]

theorem toNat_and_mkmsk (h : n ≤ 32) : (x &&& mkmsk n).toNat = x.toNat % 2 ^ n := by
  rw [BitVec.toNat_and, toNat_mkmsk h, Nat.and_two_pow_sub_one_eq_mod]

/-- The last bits of a word that came in, in the order of the wire. -/
theorem toNat_reverse_and (h : n ≤ 32) :
    (x.reverse &&& mkmsk n).toNat = ofBits (window (fun i => x.getLsbD i) (32 - n) n) := by
  have hbits : Bits.toBits n x.reverse.toNat = window (fun i => x.getLsbD i) (32 - n) n := by
    unfold Bits.toBits window
    refine List.map_congr_left fun i hi => ?_
    have hlt := List.mem_range.1 hi
    rw [show x.reverse.toNat.testBit (n - 1 - i) = x.reverse.getLsbD (n - 1 - i) from rfl, BitVec.getLsbD_reverse,
      BitVec.getMsbD_eq_getLsbD]
    simp only [show n - 1 - i < 32 by omega, decide_true, Bool.true_and]
    congr 1
    omega
  rw [toNat_and_mkmsk h, ← Bits.ofBits_toBits, hbits]

theorem toNat_reverse (x : Word) : x.reverse.toNat = ofBits (window (fun i => x.getLsbD i) 0 32) := by
  have h := toNat_reverse_and (x := x) (Nat.le_refl 32)
  rwa [toNat_and_mkmsk (Nat.le_refl 32), Nat.mod_eq_of_lt x.reverse.isLt] at h

/-- Eight bits out of the middle. -/
theorem uint8_shift (hx : x.toNat = ofBits (window f i n)) {p : Nat} (hp : p + 8 ≤ n) :
    uint8 ((x >>> (n - 8 - p)) &&& 0xff) = UInt8.ofNat (ofBits (window f (i + p) 8)) := by
  obtain ⟨s, rfl⟩ := Nat.exists_eq_add_of_le hp
  have hs : p + 8 + s - 8 - p = s := by omega
  have hlow := Bits.ofBits_lt (window f (i + (p + 8)) s)
  have hbyte := Bits.ofBits_lt (window f (i + p) 8)
  rw [Bits.length_window] at hlow hbyte
  have hmask : (x >>> s &&& 0xff).toNat = x.toNat / 2 ^ s % 2 ^ 8 := by
    rw [BitVec.toNat_and, BitVec.toNat_ushiftRight, Nat.shiftRight_eq_div_pow]
    exact Nat.and_two_pow_sub_one_eq_mod _ 8
  have hval : x.toNat / 2 ^ s % 2 ^ 8 = ofBits (window f (i + p) 8) := by
    rw [hx, Bits.window_add, Bits.window_add, Bits.ofBits_append, Bits.ofBits_append, Bits.length_window,
      Bits.length_window, Nat.add_comm, Nat.add_mul_div_right _ _ (Nat.two_pow_pos s), Nat.div_eq_of_lt hlow,
      Nat.zero_add, Nat.add_comm, Nat.add_mul_mod_self_right, Nat.mod_eq_of_lt hbyte]
  rw [hs, uint8, hmask, hval]

/-- The bits behind the last full byte. -/
theorem uint8_mask (hx : x.toNat = ofBits (window f i n)) {r : Nat} (hr : r ≤ 32) (hn : r ≤ n) :
    uint8 (x &&& mkmsk r) = UInt8.ofNat (ofBits (window f (i + (n - r)) r)) := by
  have hlow := Bits.ofBits_lt (window f (i + (n - r)) r)
  rw [Bits.length_window] at hlow
  have hval : x.toNat % 2 ^ r = ofBits (window f (i + (n - r)) r) := by
    rw [hx, show n = n - r + r by omega, Bits.window_add, Bits.ofBits_append, Bits.length_window, Nat.add_sub_cancel,
      Nat.add_comm, Nat.add_mul_mod_self_right, Nat.mod_eq_of_lt hlow]
  rw [uint8, toNat_and_mkmsk hr, hval]

/-! ## Bytes -/

/-- A byte of bits that came in, the last one right-aligned. -/
def byte_of (bits : List Bool) : UInt8 := UInt8.ofNat (ofBits bits)

/-- The `j`th byte of `n` bits. -/
def nth_byte (f : Nat → Bool) (n j : Nat) : UInt8 := byte_of (window f (8 * j) (min 8 (n - 8 * j)))

theorem nth_byte_full {j : Nat} (h : 8 * (j + 1) ≤ n) : nth_byte f n j = byte_of (window f (8 * j) 8) := by
  rw [nth_byte, show min 8 (n - 8 * j) = 8 by omega]

theorem nth_byte_rest {j : Nat} (h : n ≤ 8 * (j + 1)) : nth_byte f n j = byte_of (window f (8 * j) (n - 8 * j)) := by
  rw [nth_byte, show min 8 (n - 8 * j) = n - 8 * j by omega]

theorem nth_byte_none {j : Nat} (h : n ≤ 8 * j) : nth_byte f n j = 0 := by
  rw [nth_byte, show n - 8 * j = 0 by omega]
  rfl

theorem nth_byte_shift {j : Nat} (hx : x.toNat = ofBits (window f 0 n)) (h : 8 * (j + 1) ≤ n) :
    uint8 ((x >>> (n - 8 * (j + 1))) &&& 0xff) = nth_byte f n j := by
  have hbyte := uint8_shift (p := 8 * j) hx h
  rwa [Nat.zero_add, show n - 8 - 8 * j = n - 8 * (j + 1) by omega, ← byte_of, ← nth_byte_full h] at hbyte

theorem nth_byte_mask {j : Nat} (hx : x.toNat = ofBits (window f 0 n)) (hlow : 8 * j ≤ n) (hhigh : n ≤ 8 * (j + 1)) :
    uint8 (x &&& mkmsk (n - 8 * j)) = nth_byte f n j := by
  rw [nth_byte_rest hhigh, byte_of, uint8_mask hx (by omega) (Nat.sub_le _ _), Nat.zero_add, Nat.sub_sub_self hlow]

theorem part_bytes_eq (hx : x.toNat = ofBits (window f 0 n)) (hn : n ≤ 32) :
    part_bytes x n = (nth_byte f n 0, nth_byte f n 1, nth_byte f n 2, nth_byte f n 3) := by
  unfold part_bytes
  split_ifs with h8 h16 h24
  · have hlow : x.toNat < 2 ^ 8 := by
      have hlt := Bits.ofBits_lt (window f 0 n)
      rw [Bits.length_window] at hlt
      exact hx ▸ hlt.trans_le (Nat.pow_le_pow_right Nat.zero_lt_two h8)
    have hmask : x &&& 0xff = x := by
      refine BitVec.eq_of_toNat_eq ?_
      rw [BitVec.toNat_and]
      exact (Nat.and_two_pow_sub_one_eq_mod _ 8).trans (Nat.mod_eq_of_lt hlow)
    have hfirst : uint8 (x &&& 0xff) = nth_byte f n 0 := by
      rw [hmask, nth_byte_rest h8, uint8, byte_of, hx]
      rfl
    rw [hfirst, nth_byte_none (j := 1) (by omega), nth_byte_none (j := 2) (by omega),
      nth_byte_none (j := 3) (by omega)]
  · rw [nth_byte_shift (j := 0) hx (by omega), nth_byte_mask (j := 1) hx (by omega) (by omega),
      nth_byte_none (j := 2) (by omega), nth_byte_none (j := 3) (by omega)]
  · rw [nth_byte_shift (j := 0) hx (by omega), nth_byte_shift (j := 1) hx (by omega),
      nth_byte_mask (j := 2) hx (by omega) (by omega), nth_byte_none (j := 3) (by omega)]
  · rw [nth_byte_shift (j := 0) hx (by omega), nth_byte_shift (j := 1) hx (by omega),
      nth_byte_shift (j := 2) hx (by omega), nth_byte_mask (j := 3) hx (by omega) (by omega)]

theorem store_one (mem : Mem) (cur diff k : Nat) (v : UInt8) (a : Nat) :
    (if k + 1 ≤ diff then Function.update mem (cur + k) v else mem) a =
      if a = cur + k ∧ k + 1 ≤ diff then v else mem a := by
  by_cases hk : k + 1 ≤ diff
  · simp [hk, Function.update_apply]
  · simp [hk]

/-- What is stored is inside the room that is left. -/
theorem store_apply (mem : Mem) (cur diff : Nat) (b : Nat → UInt8) (a : Nat) :
    store mem cur diff (b 0) (b 1) (b 2) (b 3) a =
      if cur ≤ a ∧ a < cur + min 4 diff then b (a - cur) else mem a := by
  unfold store
  rw [store_one _ cur diff 3, store_one _ cur diff 2, store_one _ cur diff 1, store_one _ cur diff 0]
  by_cases hin : cur ≤ a ∧ a < cur + min 4 diff
  · obtain ⟨k, rfl⟩ := Nat.exists_eq_add_of_le hin.1
    have hk : k < 4 ∧ k < diff := by omega
    rw [if_pos hin, Nat.add_sub_cancel_left]
    obtain rfl | rfl | rfl | rfl : k = 0 ∨ k = 1 ∨ k = 2 ∨ k = 3 := by omega
    all_goals simp; omega
  · rw [if_neg hin, if_neg (by omega), if_neg (by omega), if_neg (by omega), if_neg (by omega)]

/-! ## Words -/

theorem receive_word_mem (ctx : Ctx) (in_word : Word) (a : Nat) :
    (receive_word ctx in_word).mem a =
      if ctx.in_buf_cur ≤ a ∧ a < ctx.in_buf_cur + min 4 (ctx.in_buf_end - ctx.in_buf_cur)
      then nth_byte (fun i => in_word.getLsbD i) 32 (a - ctx.in_buf_cur) else ctx.mem a := by
  have hx := toNat_reverse in_word
  unfold receive_word
  dsimp only
  rw [nth_byte_shift (j := 0) hx (by omega), nth_byte_shift (j := 1) hx (by omega),
    nth_byte_shift (j := 2) hx (by omega), nth_byte_shift (j := 3) hx (by omega), store_apply]

theorem receive_word_cur (ctx : Ctx) (in_word : Word) :
    (receive_word ctx in_word).in_buf_cur = ctx.in_buf_cur + min 4 (ctx.in_buf_end - ctx.in_buf_cur) := by
  unfold receive_word
  dsimp only
  split_ifs <;> omega

theorem receive_part_word_mem (ctx : Ctx) (data : Word) {k : Nat} (hpos : 0 < k) (hk : k ≤ 32) (a : Nat) :
    (receive_part_word ctx data k).1.mem a =
      if ctx.in_buf_cur ≤ a ∧ a < ctx.in_buf_cur + min 4 (ctx.in_buf_end - ctx.in_buf_cur)
      then nth_byte (fun i => data.getLsbD (32 - k + i)) k (a - ctx.in_buf_cur) else ctx.mem a := by
  have hwin : window (fun i => data.getLsbD (32 - k + i)) 0 k = window (fun i => data.getLsbD i) (32 - k) k :=
    Bits.window_shift (fun _ => rfl) 0 k
  have hx := toNat_reverse_and (x := data) hk
  rw [← hwin] at hx
  unfold receive_part_word
  rw [if_pos hpos, part_bytes_eq hx hk, ← store_apply]
  dsimp only
  split_ifs <;> rfl

theorem receive_part_word_cur (ctx : Ctx) (data : Word) {k : Nat} (hk : k < 32) :
    (receive_part_word ctx data k).1.in_buf_cur =
      ctx.in_buf_cur + min (k / 8) (ctx.in_buf_end - ctx.in_buf_cur) := by
  have hshift : k >>> 3 = k / 8 := Nat.shiftRight_eq_div_pow k 3
  unfold receive_part_word
  dsimp only
  rw [hshift]
  split_ifs <;> dsimp only <;> omega

theorem receive_part_word_bits (ctx : Ctx) (data : Word) (k : Nat) :
    (receive_part_word ctx data k).2 = if k / 8 < ctx.in_buf_end - ctx.in_buf_cur then k % 8 else 0 := by
  have hshift : k >>> 3 = k / 8 := Nat.shiftRight_eq_div_pow k 3
  unfold receive_part_word
  dsimp only
  rw [hshift]
  split_ifs <;> dsimp only <;> omega

/-! ## Transactions -/

/-- What the port gets out of the bits on MOSI: full words, then the rest in the most significant bits. -/
structure Received (mosi : Nat → Bool) (b : Nat) (words : List Word) (data : Word) : Prop where
  count : words.length = b / 32
  full : ∀ q w, words[q]? = some w → ∀ i < 32, w.getLsbD i = mosi (32 * q + i)
  rest : ∀ i < b % 32, data.getLsbD (32 - b % 32 + i) = mosi (32 * (b / 32) + i)

/-- The bytes at `p` that there is room for after `q` words. -/
structure Filling (mosi : Nat → Bool) (p n : Nat) (mem : Mem) (q : Nat) (ctx : Ctx) : Prop where
  running : ctx.running = true
  p_mosi : ctx.p_mosi = true
  in_buf : ctx.in_buf = p
  in_buf_cur : ctx.in_buf_cur = p + min n (4 * q)
  in_buf_end : ctx.in_buf_end = p + n
  mem : ∀ a, ctx.mem a =
    if p ≤ a ∧ a < p + min n (4 * q) then byte_of (window mosi (8 * (a - p)) 8) else mem a

/-- What the application gets: the full bytes, the bits behind them if there is room, and nothing else changes. -/
structure Packed (mosi : Nat → Bool) (b p n : Nat) (mem : Mem) (ended : Ended) (mem' : Mem) : Prop where
  bytes_read : ended.bytes_read = min n (b / 8)
  bytes : ∀ j < min n (b / 8), mem' (p + j) = byte_of (window mosi (8 * j) 8)
  outside : ∀ a, a < p ∨ p + n ≤ a → mem' a = mem a
  read_bits : ended.read_bits = if b / 8 < n then b % 8 else 0
  bits : 0 < ended.read_bits → mem' (p + b / 8) = byte_of (window mosi (8 * (b / 8)) (b % 8))

section
variable {mosi : Nat → Bool} {p b q : Nat} {mem : Mem} {ctx : Ctx}

/-- What goes out at the start leaves the receiving side alone. -/
theorem cs_asserted_receives (buffers : Buffers) (h : ctx.p_mosi = true) :
    ∃ out_buf out_buf_cur out_buf_end miso, cs_asserted ctx buffers =
      { ctx with
        in_buf := buffers.in_buf
        in_buf_cur := buffers.in_buf
        in_buf_end := if buffers.in_buf = NULL then NULL else buffers.in_buf + buffers.in_buf_len
        running := true, out_buf, out_buf_cur, out_buf_end, miso } := by
  unfold cs_asserted
  by_cases hmiso : ctx.p_miso
  · by_cases hcpha : ctx.cpha
    · simp only [h, hmiso, hcpha, if_true]
      exact ⟨_, _, _, _, rfl⟩
    · simp only [h, hmiso, hcpha, if_true]
      exact ⟨_, _, _, _, rfl⟩
  · simp only [h, hmiso]
    exact ⟨_, _, _, _, rfl⟩

theorem filling_start (buffers : Buffers) (h : ctx.p_mosi = true) :
    Filling mosi buffers.in_buf (if buffers.in_buf = NULL then 0 else buffers.in_buf_len) ctx.mem 0
      (cs_asserted ctx buffers) := by
  obtain ⟨out_buf, out_buf_cur, out_buf_end, miso, heq⟩ := cs_asserted_receives buffers h
  rw [heq]
  refine ⟨rfl, h, rfl, ?_, ?_, fun a => (if_neg ?_).symm⟩
  · rw [Nat.mul_zero, Nat.min_zero]
    rfl
  · dsimp only
    split_ifs with hnull
    · exact hnull.symm
    · rfl
  · omega

theorem main_loop_receives (w : Word) (h : ctx.running = true) :
    ∃ out_buf_cur miso, main_loop ctx w = { receive_word ctx w with out_buf_cur, miso } := by
  unfold main_loop
  rw [if_pos h]
  dsimp only
  split_ifs <;> exact ⟨_, _, rfl⟩

theorem filling_word (hf : Filling mosi p n mem q ctx) {w : Word} (hw : ∀ i < 32, w.getLsbD i = mosi (32 * q + i)) :
    Filling mosi p n mem (q + 1) (main_loop ctx w) := by
  obtain ⟨out_buf_cur, miso, heq⟩ := main_loop_receives w hf.running
  have hcur := hf.in_buf_cur
  have hend := hf.in_buf_end
  rw [heq]
  refine ⟨hf.running, hf.p_mosi, hf.in_buf, ?_, hend, fun a => ?_⟩
  · exact (receive_word_cur ctx w).trans (by omega)
  · refine (receive_word_mem ctx w a).trans ?_
    rw [hf.mem a]
    by_cases hnew : ctx.in_buf_cur ≤ a ∧ a < ctx.in_buf_cur + min 4 (ctx.in_buf_end - ctx.in_buf_cur)
    · have hoff : 32 * q + 8 * (a - ctx.in_buf_cur) = 8 * (a - p) := by omega
      have hbits : window (fun i => w.getLsbD i) (8 * (a - ctx.in_buf_cur)) 8 = window mosi (8 * (a - p)) 8 := by
        refine Bits.window_congr fun i hi => ?_
        rw [hw _ (by omega), ← Nat.add_assoc, hoff]
      rw [if_pos hnew, if_pos (by omega), nth_byte_full (by omega), hbits]
    · rw [if_neg hnew]
      split_ifs <;> first | rfl | omega

theorem filling_words {words : List Word} :
    ∀ {q : Nat} {ctx : Ctx}, Filling mosi p n mem q ctx →
      (∀ k w, words[k]? = some w → ∀ i < 32, w.getLsbD i = mosi (32 * (q + k) + i)) →
      Filling mosi p n mem (q + words.length) (words.foldl main_loop ctx) := by
  induction words with
  | nil => exact fun hf _ => hf
  | cons w words ih =>
    intro q ctx hf hw
    rw [List.foldl_cons, List.length_cons, Nat.add_comm words.length, ← Nat.add_assoc]
    refine ih (filling_word hf (hw 0 w rfl)) fun k w hk => ?_
    rw [Nat.add_assoc, Nat.add_comm 1]
    exact hw (k + 1) w hk

/-- The memory behind the last bits: the bytes of all the bits that there is room for. -/
theorem rest_mem (hf : Filling mosi p n mem (b / 32) ctx) {data : Word}
    (hdata : ∀ i < b % 32, data.getLsbD (32 - b % 32 + i) = mosi (32 * (b / 32) + i)) (a : Nat) :
    (p ≤ a → a < p + n → 8 * (a - p) < b →
        (receive_part_word ctx data (b % 32)).1.mem a = nth_byte mosi b (a - p)) ∧
      (a < p ∨ p + n ≤ a → (receive_part_word ctx data (b % 32)).1.mem a = mem a) := by
  have hcur := hf.in_buf_cur
  have hend := hf.in_buf_end
  have hrest : b % 32 < 32 := Nat.mod_lt _ (by decide)
  have hfull : (p ≤ a ∧ a < p + min n (4 * (b / 32))) → ctx.mem a = nth_byte mosi b (a - p) := by
    intro ha
    rw [hf.mem a, if_pos ha, nth_byte_full (by omega)]
  have hsame : ¬ (p ≤ a ∧ a < p + min n (4 * (b / 32))) → ctx.mem a = mem a := fun ha => by
    rw [hf.mem a, if_neg ha]
  rcases Nat.eq_zero_or_pos (b % 32) with hzero | hpos
  · have heq : (receive_part_word ctx data (b % 32)).1 = ctx := by
      rw [hzero]
      rfl
    rw [heq]
    exact ⟨fun hp hn hb => hfull (by omega), fun ha => hsame (by omega)⟩
  · rw [receive_part_word_mem ctx data hpos hrest.le]
    refine ⟨fun hp hn hb => ?_, fun ha => ?_⟩
    · split_ifs with hnew
      · have hoff : 8 * (a - ctx.in_buf_cur) + 32 * (b / 32) = 8 * (a - p) := by omega
        have hlen : min 8 (b % 32 - 8 * (a - ctx.in_buf_cur)) = min 8 (b - 8 * (a - p)) := by omega
        unfold nth_byte
        rw [hlen]
        congr 1
        refine Bits.window_congr fun i hi => ?_
        rw [hdata _ (by omega), ← hoff]
        congr 1
        omega
      · exact hfull (by omega)
    · rw [if_neg (by omega)]
      exact hsame (by omega)

/-- The end of a transaction, after the words of `b` bits. -/
theorem released_packed (hf : Filling mosi p n mem (b / 32) ctx) {data : Word}
    (hdata : ∀ i < b % 32, data.getLsbD (32 - b % 32 + i) = mosi (32 * (b / 32) + i)) :
    Packed mosi b p n mem (cs_released ctx data (b % 32)).1 (cs_released ctx data (b % 32)).2.mem := by
  have hcur := hf.in_buf_cur
  have hroom : ctx.in_buf_end - ctx.in_buf_cur = n - min n (4 * (b / 32)) := by
    rw [hf.in_buf_end, hcur]
    omega
  have hread : (receive_part_word ctx data (b % 32)).1.in_buf_cur = p + min n (b / 8) := by
    rw [receive_part_word_cur ctx data (Nat.mod_lt _ (by decide))]
    omega
  have hin : (receive_part_word ctx data (b % 32)).1.in_buf = p := by
    rw [← hf.in_buf]
    unfold receive_part_word
    dsimp only
    split_ifs <;> rfl
  have hbits : (receive_part_word ctx data (b % 32)).2 = if b / 8 < n then b % 8 else 0 := by
    rw [receive_part_word_bits, hroom]
    split_ifs <;> omega
  unfold cs_released
  rw [if_pos hf.p_mosi]
  refine ⟨?_, fun j hj => ?_, fun a ha => (rest_mem hf hdata a).2 ha, hbits, fun hpos => ?_⟩
  · dsimp only
    rw [hread, hin, Nat.add_sub_cancel_left]
  · have hbyte := (rest_mem hf hdata (p + j)).1 (by omega) (by omega) (by omega)
    rwa [Nat.add_sub_cancel_left, nth_byte_full (by omega)] at hbyte
  · dsimp only at hpos
    rw [hbits] at hpos
    have hlt : b / 8 < n := by
      by_contra hge
      rw [if_neg hge] at hpos
      exact lt_irrefl 0 hpos
    rw [if_pos hlt] at hpos
    have hbyte := (rest_mem hf hdata (p + b / 8)).1 (by omega) (by omega) (by omega)
    rwa [Nat.add_sub_cancel_left, nth_byte_rest (by omega), show b - 8 * (b / 8) = b % 8 by omega] at hbyte

/-- Received bits are packed into the buffer, whatever goes out. -/
theorem receive_packed {words : List Word} {data : Word} (ctx : Ctx) (buffers : Buffers) (hport : ctx.p_mosi = true)
    (hr : Received mosi b words data) :
    Packed mosi b buffers.in_buf (if buffers.in_buf = NULL then 0 else buffers.in_buf_len) ctx.mem
      (transaction ctx buffers words data (b % 32)).1 (transaction ctx buffers words data (b % 32)).2.mem := by
  have hf := filling_words (filling_start buffers hport) fun k w hk => by
    rw [Nat.zero_add]
    exact hr.full k w hk
  rw [Nat.zero_add, hr.count] at hf
  exact released_packed hf hr.rest

/-- A word and thirteen bits, with room for all. -/
theorem receive_packed_45_bits :
    Packed (fun i => (0x1a5c30f7b2e9#64).getLsbD i) 45 16 8 (fun _ => 0)
      (transaction ⟨fun _ => 0, 0, 0, 0, 0, 0, 0, false, false, true, false, []⟩ ⟨0, 0, 16, 8⟩ [0x30f7b2e9#32]
        0xd2e1ffff#32 13).1
      (transaction ⟨fun _ => 0, 0, 0, 0, 0, 0, 0, false, false, true, false, []⟩ ⟨0, 0, 16, 8⟩ [0x30f7b2e9#32]
        0xd2e1ffff#32 13).2.mem := by
  have hfull : ∀ q w, [0x30f7b2e9#32][q]? = some w →
      ∀ i < 32, w.getLsbD i = (0x1a5c30f7b2e9#64).getLsbD (32 * q + i) := by
    intro q w h
    cases q with
    | zero =>
      obtain rfl := Option.some.inj h
      decide
    | succ q => simp at h
  have hrest : ∀ i < 45 % 32, (0xd2e1ffff#32).getLsbD (32 - 45 % 32 + i) =
      (0x1a5c30f7b2e9#64).getLsbD (32 * (45 / 32) + i) := by
    decide
  exact receive_packed (b := 45) ⟨fun _ => 0, 0, 0, 0, 0, 0, 0, false, false, true, false, []⟩ ⟨0, 0, 16, 8⟩ rfl
    ⟨rfl, hfull, hrest⟩

end

end Slave
end Spi
