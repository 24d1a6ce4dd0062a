import XcoreSdk.Spi.Master
/-!
# What an SPI transfer moves

Bytes go out two slots a bit, and a byte that comes in is read from the second
slot of each bit. After `n` bytes out and `k` bytes in the logs of the transfer
hold exactly those; a word out and a word in take it to `n + 2` and `k + 2`.
-/

namespace Spi
namespace Master
open Bits (toBits ofBits window)
open Slave (Word Mem NULL uint8)

/-! ## A byte on the wire -/

/-- The slots of a byte: the most significant bit first, and each for two slots. -/
def byte_slots (b : UInt8) : List Bool := (toBits 8 b.toNat).flatMap fun bit => [bit, bit]

/-- The slots of `n` bytes of the memory. -/
def slots (mem : Mem) (p n : Nat) : List Bool := (List.range n).flatMap fun i => byte_slots (mem (p + i))

/-- The byte in sixteen slots. -/
def sampled (miso : Nat → Bool) (s : Nat) : UInt8 :=
  UInt8.ofNat (ofBits ((List.range 8).map fun i => miso (s + (2 * i + 1))))

theorem length_byte_slots (b : UInt8) : (byte_slots b).length = 16 := rfl

theorem slots_zero (mem : Mem) (p : Nat) : slots mem p 0 = [] := rfl

theorem slots_succ (mem : Mem) (p n : Nat) : slots mem p (n + 1) = slots mem p n ++ byte_slots (mem (p + n)) := by
  unfold slots
  rw [List.range_succ, List.flatMap_append, List.flatMap_singleton]

theorem length_slots (mem : Mem) (p n : Nat) : (slots mem p n).length = 16 * n := by
  induction n with
  | zero => rfl
  | succ n ih => rw [slots_succ, List.length_append, ih, length_byte_slots, Nat.mul_succ]

theorem byte_slots_window (b : UInt8) : byte_slots b = window (fun i => b.toBitVec.getLsbD (7 - i / 2)) 0 16 := rfl

theorem toBits_uint8 (w : Word) : toBits 8 (uint8 w).toNat = (List.range 8).map fun i => w.getLsbD (7 - i) := by
  refine List.map_congr_left fun i hi => ?_
  have hlt := List.mem_range.1 hi
  show (w.toNat % 2 ^ 8).testBit (8 - 1 - i) = w.toNat.testBit (7 - i)
  rw [Nat.testBit_mod_two_pow, decide_eq_true (by omega), Bool.true_and]

theorem eq_of_toBits {a b : UInt8} (h : toBits 8 a.toNat = toBits 8 b.toNat) : a = b := by
  have hmod := congrArg ofBits h
  rw [Bits.ofBits_toBits, Bits.ofBits_toBits, Nat.mod_eq_of_lt a.toNat_lt, Nat.mod_eq_of_lt b.toNat_lt] at hmod
  exact UInt8.toNat_inj.1 hmod

theorem toBits_sampled (miso : Nat → Bool) (s : Nat) :
    toBits 8 (sampled miso s).toNat = (List.range 8).map fun i => miso (s + (2 * i + 1)) := by
  have hlt := Bits.ofBits_lt ((List.range 8).map fun i => miso (s + (2 * i + 1)))
  have hbits := Bits.toBits_ofBits ((List.range 8).map fun i => miso (s + (2 * i + 1)))
  rw [List.length_map, List.length_range] at hlt hbits
  rwa [sampled, UInt8.toNat_ofNat', Nat.mod_eq_of_lt hlt]

/-- The slots of a byte give it back. -/
theorem sampled_eq {miso : Nat → Bool} {s : Nat} {b : UInt8} (h : window miso s 16 = byte_slots b) :
    sampled miso s = b := by
  refine eq_of_toBits ?_
  rw [toBits_sampled]
  refine List.map_congr_left fun i hi => ?_
  have hlt := List.mem_range.1 hi
  rw [byte_slots_window] at h
  have hget := congrArg (fun bs : List Bool => bs[2 * i + 1]?) h
  have h16 : 2 * i + 1 < 16 := by omega
  have hhalf : 7 - (2 * i + 1) / 2 = 8 - 1 - i := by omega
  simp only [window, List.getElem?_map, List.getElem?_range h16, Option.map_some, Option.some.injEq, Nat.zero_add,
    hhalf] at hget
  exact hget

/-! ## A word -/

variable {env : Env} {dev : Dev} {ctx : Ctx} {i : Nat}

theorem getLsbD_load (ctx : Ctx) (data_out : Nat) (len : Int) (hi : i < 32) :
    (load_data_out ctx data_out len).1.getLsbD i =
      if i < 16 then (ctx.mem data_out).toBitVec.getLsbD (7 - i / 2)
      else (decide (1 < len) && (ctx.mem (data_out + 1)).toBitVec.getLsbD (7 - (i - 16) / 2)) := by
  have hidx : (32 - 1 - i) / 2 = 15 - i / 2 := by omega
  have hbit : (load_data_out ctx data_out len).1.getLsbD i =
      (if 1 < len then (ctx.mem data_out).toBitVec.setWidth 32 <<< 8 ||| (ctx.mem (data_out + 1)).toBitVec.setWidth 32
        else (ctx.mem data_out).toBitVec.setWidth 32 <<< 8).getLsbD (15 - i / 2) := by
    unfold load_data_out zip
    dsimp only
    rw [BitVec.getLsbD_reverse, BitVec.getMsbD_eq_getLsbD, Bits.getLsbD_word, decide_eq_true hi,
      decide_eq_true (show 32 - 1 - i < 32 by omega), Bool.true_and, Bool.true_and, hidx, ite_self]
  rw [hbit]
  by_cases hfirst : i < 16
  · have h8 : ¬ 15 - i / 2 < 8 := by omega
    have h32 : 15 - i / 2 < 32 := by omega
    have hsub : 15 - i / 2 - 8 = 7 - i / 2 := by omega
    have hbyte : (ctx.mem (data_out + 1)).toBitVec.getLsbD (15 - i / 2) = false := BitVec.getLsbD_of_ge _ _ (by omega)
    split_ifs <;> simp [h8, h32, hsub, hbyte]
  · have h8 : 15 - i / 2 < 8 := by omega
    have h32 : 15 - i / 2 < 32 := by omega
    have hsub : 15 - i / 2 = 7 - (i - 16) / 2 := by omega
    rw [if_neg hfirst]
    split_ifs with hlen
    · rw [BitVec.getLsbD_or, BitVec.getLsbD_shiftLeft, decide_eq_true h8, Bool.not_true, Bool.and_false, Bool.false_and,
        Bool.false_or, BitVec.getLsbD_setWidth, decide_eq_true h32, hsub, decide_eq_true hlen]
    · rw [BitVec.getLsbD_shiftLeft, decide_eq_true h8, decide_eq_false hlen]
      simp

/-- A word of the first byte only, in its first half. -/
theorem load_first (ctx : Ctx) (data_out : Nat) (len : Int) :
    window (fun i => (load_data_out ctx data_out len).1.getLsbD i) 0 16 = byte_slots (ctx.mem data_out) := by
  rw [byte_slots_window]
  refine Bits.window_congr fun j hj => ?_
  rw [Nat.zero_add, getLsbD_load ctx data_out len (by omega), if_pos hj]

theorem load_both (ctx : Ctx) (data_out : Nat) {len : Int} (hlen : 1 < len) :
    window (fun i => (load_data_out ctx data_out len).1.getLsbD i) 0 32 =
      byte_slots (ctx.mem data_out) ++ byte_slots (ctx.mem (data_out + 1)) := by
  rw [Bits.window_add _ 0 16 16, load_first, byte_slots_window (ctx.mem (data_out + 1))]
  congr 1
  refine Bits.window_congr fun j hj => ?_
  rw [getLsbD_load ctx data_out len (by omega), if_neg (by omega), decide_eq_true hlen, Bool.true_and]
  congr 1
  omega

/-- The bits that are left of a word after `unzip`. -/
theorem getLsbD_unzip (tmp w : Word) (hi : i < 16) : (unzip tmp w.reverse).2.getLsbD i = w.getLsbD (31 - 2 * i) := by
  have hlow : 2 * i < 32 := by omega
  have hidx : 32 - 1 - 2 * i = 31 - 2 * i := by omega
  unfold unzip
  rw [Bits.getLsbD_word, decide_eq_true (show i < 32 by omega), Bool.true_and, BitVec.getLsbD_append, if_pos hlow,
    BitVec.getLsbD_reverse, BitVec.getMsbD_eq_getLsbD, decide_eq_true hlow, Bool.true_and, hidx]

theorem getLsbD_port_in (env : Env) (ctx : Ctx) (hi : i < 32) (hin : 32 - ctx.shift_count ≤ i) :
    (port_in env ctx).1.getLsbD i = env.miso (ctx.taken + (i - (32 - ctx.shift_count))) := by
  unfold port_in
  rw [Bits.getLsbD_word, decide_eq_true hi, Bool.true_and, if_pos hin]

/-- The byte that a word holds in the slots from `s` on. -/
theorem sampled_of_word (tmp : Word) {w : Word} {s : Nat} {miso : Nat → Bool} {j : Nat} (hj : j ≤ 8)
    (h : ∀ i < 8, w.getLsbD (31 - 2 * (7 - i + j)) = miso (s + (2 * i + 1))) :
    uint8 ((unzip tmp w.reverse).2 >>> j) = sampled miso s := by
  refine eq_of_toBits ?_
  rw [toBits_uint8, toBits_sampled]
  refine List.map_congr_left fun i hi => ?_
  have hlt := List.mem_range.1 hi
  rw [BitVec.getLsbD_ushiftRight, getLsbD_unzip _ _ (by omega), Nat.add_comm j, h i hlt]

/-- The low byte of a word, once it is masked. -/
theorem uint8_mask (w : Word) : uint8 (w &&& 0xFF) = uint8 w := by
  refine eq_of_toBits ?_
  rw [toBits_uint8, toBits_uint8]
  refine List.map_congr_left fun i hi => ?_
  have hlt := List.mem_range.1 hi
  have hmask : (0xFF#32).getLsbD (7 - i) = true := by
    rw [show (0xFF#32) = BitVec.ofNat 32 (2 ^ 8 - 1) from rfl, BitVec.getLsbD_ofNat, Nat.testBit_two_pow_sub_one]
    simp only [Bool.and_eq_true, decide_eq_true_eq]
    omega
  rw [BitVec.getLsbD_and]
  exact (congrArg _ hmask).trans (Bool.and_true _)

/-! ## The logs of a transfer -/

/-- The memory with `k` bytes of MISO from `q` on. -/
def received (miso : Nat → Bool) (mem : Mem) (q k : Nat) : Mem :=
  fun a => if q ≤ a ∧ a < q + k then sampled miso (16 * (a - q)) else mem a

theorem received_zero (miso : Nat → Bool) (mem : Mem) (q : Nat) : received miso mem q 0 = mem := by
  funext a
  exact if_neg (by omega)

theorem received_succ (miso : Nat → Bool) (mem : Mem) (q k : Nat) :
    received miso mem q (k + 1) = Function.update (received miso mem q k) (q + k) (sampled miso (16 * k)) := by
  funext a
  unfold received
  by_cases ha : a = q + k
  · rw [ha, Function.update_self, if_pos (by omega), Nat.add_sub_cancel_left]
  · rw [Function.update_of_ne ha]
    by_cases hin : q ≤ a ∧ a < q + k
    · rw [if_pos hin, if_pos (by omega)]
    · rw [if_neg hin, if_neg (by omega)]

/-- After `m` bytes of clock, `n` bytes out and `k` bytes in. -/
structure Moved (miso : Nat → Bool) (mem : Mem) (do_output do_input : Bool) (p q m n k : Nat) (ctx : Ctx) : Prop where
  sclk : ctx.sclk.length = 16 * m
  mosi : ctx.mosi = if do_output then slots mem p n else []
  read : ctx.read = if do_output then (List.range n).map (p + ·) else []
  taken : ctx.taken = if do_input then 16 * k else 0
  written : ctx.written.Perm (if do_input then (List.range k).map (q + ·) else [])
  mem : ctx.mem = if do_input then received miso mem q k else mem

variable {mem : Mem} {do_output do_input : Bool} {p q m n k len : Nat}

theorem Moved.op (hm : Moved env.miso mem do_output do_input p q m n k ctx) (o : Op) :
    Moved env.miso mem do_output do_input p q m n k (op ctx o) :=
  ⟨hm.sclk, hm.mosi, hm.read, hm.taken, hm.written, hm.mem⟩

theorem Moved.outpw_sclk (hm : Moved env.miso mem do_output do_input p q m n k ctx) (word : Word) {b : Nat} :
    Moved env.miso mem do_output do_input p q (m + b) n k (outpw_sclk ctx word (16 * b)) := by
  refine ⟨?_, hm.mosi, hm.read, hm.taken, hm.written, hm.mem⟩
  show (ctx.sclk ++ _).length = _
  rw [List.length_append, hm.sclk, Bits.length_window, Nat.mul_add]

/-- The output is read before the input is written over it. -/
theorem Moved.mem_out (hm : Moved env.miso mem do_output do_input p q m n k ctx) (hk : k ≤ n) {i : Nat} (hn : n ≤ i)
    (hi : i < len) (happ : do_input = true → q ≤ p ∨ p + len ≤ q) : ctx.mem (p + i) = mem (p + i) := by
  rw [hm.mem]
  split_ifs with hin
  · have := happ hin
    exact if_neg (by omega)
  · rfl

theorem Moved.output_two (hm : Moved env.miso mem do_output do_input p q m n k ctx) (hk : k ≤ n) (hn : n + 2 ≤ len)
    (happ : do_output = true → do_input = true → q ≤ p ∨ p + len ≤ q)
    (hp : do_output = true → ctx.data_out = p + n) {bytes : Int} (hbytes : 1 < bytes) :
    Moved env.miso mem do_output do_input p q m (n + 2) k (output do_output ctx bytes 32) := by
  cases do_output with
  | false => exact ⟨hm.sclk, hm.mosi, hm.read, hm.taken, hm.written, hm.mem⟩
  | true =>
    have hmosi : ctx.mosi = slots mem p n := hm.mosi
    have hread : ctx.read = (List.range n).map (p + ·) := hm.read
    have h0 := hm.mem_out hk (Nat.le_refl n) (by omega) (happ rfl)
    have h1 := hm.mem_out hk (Nat.le_succ n) (by omega) (happ rfl)
    refine ⟨hm.sclk, ?_, ?_, hm.taken, hm.written, hm.mem⟩
    · show ctx.mosi ++ window (fun i => (load_data_out ctx ctx.data_out bytes).1.getLsbD i) 0 32 = slots mem p (n + 2)
      rw [load_both ctx ctx.data_out hbytes, hp rfl, Nat.add_assoc, h0, h1, hmosi, slots_succ, slots_succ,
        List.append_assoc]
    · show (ctx.read ++ if 1 < bytes then _ else _) = (List.range (n + 2)).map (p + ·)
      rw [if_pos hbytes, hp rfl, hread, List.range_succ, List.range_succ, List.map_append, List.map_append,
        List.append_assoc]
      rfl

theorem Moved.output_one (hm : Moved env.miso mem do_output do_input p q m n k ctx) (hk : k ≤ n) (hn : n < len)
    (happ : do_output = true → do_input = true → q ≤ p ∨ p + len ≤ q)
    (hp : do_output = true → ctx.data_out = p + n) :
    Moved env.miso mem do_output do_input p q m (n + 1) k (output do_output ctx 1 16) := by
  cases do_output with
  | false => exact ⟨hm.sclk, hm.mosi, hm.read, hm.taken, hm.written, hm.mem⟩
  | true =>
    have hmosi : ctx.mosi = slots mem p n := hm.mosi
    have hread : ctx.read = (List.range n).map (p + ·) := hm.read
    have h0 := hm.mem_out hk (Nat.le_refl n) hn (happ rfl)
    refine ⟨hm.sclk, ?_, ?_, hm.taken, hm.written, hm.mem⟩
    · show ctx.mosi ++ window (fun i => (load_data_out ctx ctx.data_out 1).1.getLsbD i) 0 16 = slots mem p (n + 1)
      rw [load_first, hp rfl, h0, hmosi, slots_succ]
    · show ctx.read ++ [ctx.data_out] = (List.range (n + 1)).map (p + ·)
      rw [hp rfl, hread, List.range_succ, List.map_append]
      rfl

/-! ## A word in -/

/-- A full word that comes in is stored as two bytes, whatever is said of the next one. -/
theorem Moved.save_two (hm : Moved env.miso mem do_output true p q m n k ctx) (hq : ctx.data_in = q + k)
    (hcount : ctx.shift_count = 32) {bytes : Nat} (hbytes : bytes ≠ 1) (next : Nat) :
    Moved env.miso mem do_output true p q m n (k + 2)
      (save_data_in env { (port_in env ctx).2 with shift_count := next } ctx.data_in (port_in env ctx).1 bytes) := by
  have htaken : ctx.taken = 16 * k := hm.taken
  have hword : ∀ i < 32, (port_in env ctx).1.getLsbD i = env.miso (16 * k + i) := by
    intro i hi
    rw [getLsbD_port_in env ctx hi (by omega), htaken, hcount]
    rfl
  have hlow : ∀ tmp, uint8 (unzip tmp (port_in env ctx).1.reverse).2 = sampled env.miso (16 * (k + 1)) := by
    intro tmp
    have h := @sampled_of_word tmp (port_in env ctx).1 (16 * (k + 1)) env.miso 0 (Nat.zero_le 8) fun i hi => by
        rw [hword _ (by omega)]
        congr 1
        omega
    rwa [BitVec.ushiftRight_zero] at h
  have hhigh : ∀ tmp, uint8 (((unzip tmp (port_in env ctx).1.reverse).2 >>> 8) &&& 0xFF) =
      sampled env.miso (16 * k) := by
    intro tmp
    rw [uint8_mask]
    refine sampled_of_word tmp (Nat.le_refl 8) fun i hi => ?_
    rw [hword _ (by omega)]
    congr 1
    omega
  unfold save_data_in
  rw [if_neg hbytes]
  refine ⟨hm.sclk, hm.mosi, hm.read, ?_, ?_, ?_⟩
  · show ctx.taken + ctx.shift_count = 16 * (k + 2)
    omega
  · show (ctx.written ++ [ctx.data_in + 1, ctx.data_in]).Perm ((List.range (k + 2)).map (q + ·))
    rw [hq, List.range_succ, List.range_succ, List.map_append, List.map_append, List.append_assoc]
    exact hm.written.append (List.Perm.swap _ _ _)
  · show Function.update (Function.update ctx.mem _ _) _ _ = received env.miso mem q (k + 2)
    have hmem : ctx.mem = received env.miso mem q k := hm.mem
    dsimp only
    rw [hlow, hhigh, hq, hmem, received_succ, received_succ, Nat.add_assoc, Function.update_comm (by omega)]

/-- The last byte of an odd length. -/
theorem Moved.save_one (hm : Moved env.miso mem do_output true p q m n k ctx) (hq : ctx.data_in = q + k)
    (hcount : ctx.shift_count = 16) :
    Moved env.miso mem do_output true p q m n (k + 1)
      (save_data_in env (port_in env ctx).2 ctx.data_in (port_in env ctx).1 1) := by
  have htaken : ctx.taken = 16 * k := hm.taken
  have hlow : ∀ tmp, uint8 (unzip tmp (port_in env ctx).1.reverse).2 = sampled env.miso (16 * k) := by
    intro tmp
    have h := @sampled_of_word tmp (port_in env ctx).1 (16 * k) env.miso 0 (Nat.zero_le 8) fun i hi => by
        rw [getLsbD_port_in env ctx (by omega) (by omega), htaken, hcount]
        congr 1
        omega
    rwa [BitVec.ushiftRight_zero] at h
  unfold save_data_in
  rw [if_pos rfl]
  refine ⟨hm.sclk, hm.mosi, hm.read, ?_, ?_, ?_⟩
  · show ctx.taken + ctx.shift_count = 16 * (k + 1)
    omega
  · show (ctx.written ++ [ctx.data_in]).Perm ((List.range (k + 1)).map (q + ·))
    rw [hq, List.range_succ, List.map_append]
    exact hm.written.append (List.Perm.refl _)
  · show Function.update ctx.mem _ _ = received env.miso mem q (k + 1)
    have hmem : ctx.mem = received env.miso mem q k := hm.mem
    rw [hlow, hq, hmem, received_succ]

/-! ## The whole transfer -/

/-- The loop is about to go round once more: a word is on its way. -/
structure Head (miso : Nat → Bool) (mem : Mem) (do_output do_input : Bool) (p q r : Nat) (ctx : Ctx) : Prop where
  moved : Moved miso mem do_output do_input p q (2 * (r + 1)) (2 * (r + 1)) (2 * r) ctx
  data_out : do_output = true → ctx.data_out = p + 2 * (r + 1)
  data_in : do_input = true → ctx.data_in = q + 2 * r
  shift_count : do_input = true → ctx.shift_count = 32

theorem output_frame (do_output : Bool) (ctx : Ctx) (bytes : Int) (n : Nat) :
    (output do_output ctx bytes n).data_out = ctx.data_out ∧ (output do_output ctx bytes n).data_in = ctx.data_in ∧
      (output do_output ctx bytes n).shift_count = ctx.shift_count := by
  cases do_output with
  | false => exact ⟨rfl, rfl, rfl⟩
  | true => exact ⟨rfl, rfl, rfl⟩

theorem save_data_in_frame (env : Env) (ctx : Ctx) (data_in : Nat) (w : Word) (bytes : Nat) :
    (save_data_in env ctx data_in w bytes).data_out = ctx.data_out ∧
      (save_data_in env ctx data_in w bytes).data_in = ctx.data_in ∧
      (save_data_in env ctx data_in w bytes).shift_count = ctx.shift_count := by
  unfold save_data_in
  dsimp only
  split_ifs <;> exact ⟨rfl, rfl, rfl⟩

/-- A round of the loop. -/
theorem Head.round {r : Nat} (len : Nat) (hh : Head env.miso mem do_output do_input p q r ctx) (hr : 2 * (r + 2) ≤ len)
    (happ : do_output = true → do_input = true → q ≤ p ∨ p + len ≤ q) (w : Word) :
    ∃ c, input env do_input (output do_output (Master.outpw_sclk ctx w 32) 2 32) 2 = c ∧
      Head env.miso mem do_output do_input p q (r + 1)
        { c with data_out := c.data_out + 2, data_in := c.data_in + 2 } := by
  have hframe := output_frame do_output (Master.outpw_sclk ctx w 32) 2 32
  have hout := (hh.moved.outpw_sclk w (b := 2)).output_two (by omega) hr happ hh.data_out (by decide : (1 : Int) < 2)
  refine ⟨_, rfl, ?_⟩
  generalize output do_output (Master.outpw_sclk ctx w 32) 2 32 = c at hframe hout
  obtain ⟨hfo, hfi, hfc⟩ := hframe
  cases do_input with
  | false =>
    refine ⟨⟨hout.sclk, hout.mosi, hout.read, hout.taken, hout.written, hout.mem⟩, fun h => ?_, nofun, nofun⟩
    show c.data_out + 2 = _
    rw [hfo]
    exact congrArg (· + 2) (hh.data_out h)
  | true =>
    have hq : c.data_in = q + 2 * r := hfi.trans (hh.data_in rfl)
    have hin := hout.save_two hq (hfc.trans (hh.shift_count rfl)) (show 2 ≠ 1 by decide) 32
    obtain ⟨hso, hsi, hsc⟩ := save_data_in_frame env (port_in env c).2 c.data_in (port_in env c).1 2
    refine ⟨⟨hin.sclk, hin.mosi, hin.read, hin.taken, hin.written, hin.mem⟩, fun h => ?_, fun _ => ?_, fun _ => hsc⟩
    · show (save_data_in env (port_in env c).2 c.data_in (port_in env c).1 2).data_out + 2 = _
      rw [hso]
      show c.data_out + 2 = _
      rw [hfo]
      exact congrArg (· + 2) (hh.data_out h)
    · show (save_data_in env (port_in env c).2 c.data_in (port_in env c).1 2).data_in + 2 = _
      rw [hsi]
      show c.data_in + 2 = _
      rw [hq]
      rfl

theorem Head.words (dev : Dev) (len rounds : Nat) {r : Nat} (hh : Head env.miso mem do_output do_input p q r ctx)
    (hlen : 2 * (r + rounds + 1) ≤ len) (happ : do_output = true → do_input = true → q ≤ p ∨ p + len ≤ q) :
    Head env.miso mem do_output do_input p q (r + rounds) (words env dev do_output do_input rounds ctx) := by
  induction rounds generalizing r ctx with
  | zero => exact hh
  | succ rounds ih =>
    obtain ⟨c, hc, hh'⟩ := hh.round len (by omega) happ dev.clock_bits
    rw [Master.words, hc, Nat.add_comm rounds, ← Nat.add_assoc]
    exact ih hh' (by omega)

/-- The first output: a word, or the only byte. -/
theorem Moved.output_first (hm : Moved env.miso mem do_output do_input p q m 0 0 ctx) (hlen : 0 < len)
    (hsize : do_output = true → len < 2 ^ 31) (happ : do_output = true → do_input = true → q ≤ p ∨ p + len ≤ q)
    (hp : do_output = true → ctx.data_out = p) :
    Moved env.miso mem do_output do_input p q m (if len = 1 then 1 else 2) 0
      (output do_output ctx (int len) (if len = 1 then 16 else 32)) := by
  split_ifs with hone
  · subst hone
    exact hm.output_one (Nat.le_refl 0) hlen happ hp
  · cases do_output with
    | false => exact ⟨hm.sclk, hm.mosi, hm.read, hm.taken, hm.written, hm.mem⟩
    | true =>
      have hint : int len = len := by
        have := hsize rfl
        rw [int, BitVec.toInt_ofNat', Int.bmod_eq_of_le (by omega) (by omega)]
      exact hm.output_two (Nat.le_refl 0) (by omega) happ hp (by omega)

/-- The state in which the clock starts. -/
theorem first_word_moved (dev : Dev) (hm : Moved env.miso mem do_output do_input p q 0 0 0 ctx) (hlen : 0 < len)
    (hsize : do_output = true → len < 2 ^ 31) (happ : do_output = true → do_input = true → q ≤ p ∨ p + len ≤ q)
    (hp : ctx.data_out = p) (hq : ctx.data_in = q) {b : Nat} (hb : b = if len = 1 then 1 else 2) :
    Moved env.miso mem do_output do_input p q b b 0 (first_word dev do_output do_input ctx len) ∧
      (do_output = true → (first_word dev do_output do_input ctx len).data_out = p + 2) ∧
      (first_word dev do_output do_input ctx len).data_in = q ∧
      (do_input = true → (first_word dev do_output do_input ctx len).shift_count = 16 * b) := by
  have hsetup : ∃ c, Moved env.miso mem do_output do_input p q 0 0 0 c ∧ c.data_out = p ∧ c.data_in = q ∧
      first_word dev do_output do_input ctx len =
        let tw := if len = 1 then 16 else 32
        let c := output do_output (Master.outpw_sclk c dev.clock_bits tw) (int len) tw
        let c := if do_output then { c with data_out := c.data_out + 2 } else c
        let c := if do_input then
            set_trigger_time_miso dev c (start_time + (tw - 2) + dev.miso_initial_trigger_delay)
          else c
        Master.op c .clock_start := by
    have hdelay : Moved env.miso mem do_output do_input p q 0 0 0
        { Master.op ctx (.sync .cs) with delay_before_transfer := false } :=
      ⟨hm.sclk, hm.mosi, hm.read, hm.taken, hm.written, hm.mem⟩
    unfold first_word
    dsimp only
    cases ctx.delay_before_transfer <;> cases do_output <;> simp only [Bool.false_eq_true, if_false, if_true]
    · exact ⟨_, (hm.op _).op _, hp, hq, rfl⟩
    · exact ⟨_, ((hm.op _).op _).op _, hp, hq, rfl⟩
    · exact ⟨_, hdelay.op _, hp, hq, rfl⟩
    · exact ⟨_, (hdelay.op _).op _, hp, hq, rfl⟩
  obtain ⟨c, hc, hcp, hcq, heq⟩ := hsetup
  have htw : (if len = 1 then 16 else 32) = 16 * b := by
    rw [hb]
    split_ifs <;> rfl
  have hout := (hc.outpw_sclk dev.clock_bits (b := b)).output_first hlen hsize happ fun _ => hcp
  obtain ⟨hfo, hfi, -⟩ := output_frame do_output (Master.outpw_sclk c dev.clock_bits (16 * b)) (int len) (16 * b)
  rw [heq, htw]
  rw [htw, ← hb, Nat.zero_add] at hout
  dsimp only
  generalize output do_output (Master.outpw_sclk c dev.clock_bits (16 * b)) (int len) (16 * b) = c' at hfo hfi hout
  have hb2 : start_time + (16 * b - 2) + dev.miso_initial_trigger_delay -
      (start_time + dev.miso_initial_trigger_delay) + 2 = 16 * b := by
    have : 0 < b := by
      rw [hb]
      split_ifs <;> decide
    omega
  refine ⟨?_, fun h => ?_, ?_, fun h => ?_⟩
  · cases do_output <;> cases do_input <;> exact ⟨hout.sclk, hout.mosi, hout.read, hout.taken, hout.written, hout.mem⟩
  · subst h
    cases do_input <;> exact congrArg (· + 2) (hfo.trans hcp)
  · cases do_output <;> cases do_input <;> exact hfi.trans hcq
  · subst h
    cases do_output <;> exact hb2

theorem Moved.finish (hm : Moved env.miso mem do_output do_input p q m n k ctx) :
    Moved env.miso mem do_output do_input p q m n k (finish dev ctx) := by
  unfold Master.finish
  dsimp only
  split_ifs
  · exact ((((hm.op _).op _).op _).op _).op _
  · exact (((hm.op _).op _).op _).op _

/-- The last byte or two come in. -/
theorem Moved.input_last (hm : Moved env.miso mem do_output do_input p q len len k ctx)
    (hk : k + (if len % 2 = 1 then 1 else 2) = len) (hq : do_input = true → ctx.data_in = q + k)
    (hcount : do_input = true → ctx.shift_count = if len % 2 = 1 then 16 else 32) :
    Moved env.miso mem do_output do_input p q len len len (input env do_input ctx (len % 2)) := by
  cases do_input with
  | false => exact ⟨hm.sclk, hm.mosi, hm.read, hm.taken, hm.written, hm.mem⟩
  | true =>
    rcases Nat.mod_two_eq_zero_or_one len with hmod | hmod
    · rw [hmod] at hk hcount ⊢
      have hin := hm.save_two (hq rfl) (hcount rfl) (show 0 ≠ 1 by decide) 32
      rwa [show k + 2 = len from hk] at hin
    · rw [hmod] at hk hcount ⊢
      have hin := hm.save_one (hq rfl) (hcount rfl)
      rwa [show k + 1 = len from hk] at hin

/-- The odd byte goes out behind the last word. -/
theorem Head.odd_byte (dev : Dev) (len : Nat) {r : Nat} (hh : Head env.miso mem do_output do_input p q r ctx) (hr : 2 * (r + 1) < len)
    (happ : do_output = true → do_input = true → q ≤ p ∨ p + len ≤ q) :
    Moved env.miso mem do_output do_input p q (2 * (r + 1) + 1) (2 * (r + 1) + 1) (2 * (r + 1))
      (odd_byte env dev do_output do_input ctx) ∧
      (do_input = true → (odd_byte env dev do_output do_input ctx).data_in = q + 2 * (r + 1)) ∧
      (do_input = true → (odd_byte env dev do_output do_input ctx).shift_count = 16) := by
  obtain ⟨-, hfi, hfc⟩ := output_frame do_output (Master.outpw_sclk ctx dev.clock_bits 16) 1 16
  have hout := (hh.moved.outpw_sclk dev.clock_bits (b := 1)).output_one (by omega) hr happ hh.data_out
  unfold Master.odd_byte
  dsimp only
  rw [Nat.mul_one] at hout
  generalize output do_output (Master.outpw_sclk ctx dev.clock_bits 16) 1 16 = c at hfi hfc hout
  cases do_input with
  | false => exact ⟨⟨hout.sclk, hout.mosi, hout.read, hout.taken, hout.written, hout.mem⟩, nofun, nofun⟩
  | true =>
    have hq : c.data_in = q + 2 * r := hfi.trans (hh.data_in rfl)
    have hin := hout.save_two hq (hfc.trans (hh.shift_count rfl)) (show 2 ≠ 1 by decide) 16
    obtain ⟨-, hsi, hsc⟩ := save_data_in_frame env { (port_in env c).2 with shift_count := 16 } c.data_in
      (port_in env c).1 2
    refine ⟨⟨hin.sclk, hin.mosi, hin.read, hin.taken, hin.written, hin.mem⟩, fun _ => ?_, fun _ => hsc⟩
    exact congrArg (· + 2) (hsi.trans hq)

theorem transfer_moved (dev : Dev) (hm : Moved env.miso mem do_output do_input p q 0 0 0 ctx) (hlen : 0 < len)
    (hsize : do_output = true → len < 2 ^ 31) (happ : do_output = true → do_input = true → q ≤ p ∨ p + len ≤ q)
    (hp : ctx.data_out = p) (hq : ctx.data_in = q) :
    Moved env.miso mem do_output do_input p q len len len (transfer env dev do_output do_input ctx len) := by
  obtain ⟨hfirst, hfp, hfq, hfc⟩ := first_word_moved dev hm hlen hsize happ hp hq rfl
  unfold transfer
  dsimp only
  rw [show len &&& (2 - 1) = len % 2 from Nat.and_one_is_mod len]
  refine Moved.finish ?_
  by_cases hone : len = 1
  · subst hone
    rw [if_neg (by decide)]
    exact hfirst.input_last rfl (fun _ => hfq) hfc
  · rw [if_neg hone] at hfirst hfc
    have hhead : Head env.miso mem do_output do_input p q 0 (first_word dev do_output do_input ctx len) :=
      ⟨hfirst, hfp, fun _ => hfq, hfc⟩
    have hloop := hhead.words dev len (len / 2 - 1) (by omega) happ
    rw [Nat.zero_add] at hloop
    rw [if_pos (by omega)]
    generalize words env dev do_output do_input (len / 2 - 1) (first_word dev do_output do_input ctx len) = c at hloop
    rcases Nat.mod_two_eq_zero_or_one len with hmod | hmod
    · have hn : 2 * (len / 2 - 1 + 1) = len := by omega
      have hmoved := hloop.moved
      rw [if_neg (by omega)]
      rw [hn] at hmoved
      refine hmoved.input_last ?_ hloop.data_in fun h => ?_
      · rw [if_neg (by omega)]
        omega
      · rw [if_neg (by omega)]
        exact hloop.shift_count h
    · have hn : 2 * (len / 2 - 1 + 1) + 1 = len := by omega
      obtain ⟨hmoved, hdata_in, hcount⟩ := hloop.odd_byte dev len (by omega) happ
      rw [if_pos (by omega)]
      rw [hn] at hmoved
      refine hmoved.input_last ?_ hdata_in fun h => ?_
      · rw [if_pos hmod]
        exact hn
      · rw [if_pos hmod]
        exact hcount h

/-- What is looped back is received as it was sent. -/
theorem sampled_slots {miso : Nat → Bool} (h : window miso 0 (16 * len) = slots mem p len) {i : Nat} (hi : i < len) :
    sampled miso (16 * i) = mem (p + i) := by
  induction len with
  | zero => exact absurd hi (Nat.not_lt_zero i)
  | succ n ih =>
    rw [slots_succ, Nat.mul_succ, Bits.window_add, Nat.zero_add] at h
    obtain ⟨hn, hlast⟩ := List.append_inj h (by rw [Bits.length_window, length_slots])
    rcases Nat.lt_or_eq_of_le (Nat.le_of_lt_succ hi) with hlt | rfl
    · exact ih hn hlt
    · exact sampled_eq hlast

/-- The buffers of a transfer. Each that is given has `len` bytes, and no object has 2^31 of them. The input buffer may
be the output buffer, but it does not begin further inside of it. -/
structure Buffers where
  data_out : Nat
  data_in : Nat
  len : Nat
  len_lt : data_out ≠ NULL → len < 2 ^ 31
  apart : data_out ≠ NULL → data_in ≠ NULL → data_in ≤ data_out ∨ data_out + len ≤ data_in

/-- A transfer of at least one byte, with a clock bit for each slot. -/
theorem transfer_packed (env : Env) (dev : Dev) (mem : Mem) (delay_before_transfer : Bool) (b : Buffers)
    (hlen : 0 < b.len) :
    let ctx := spi_master_transfer env dev mem delay_before_transfer b.data_out b.data_in b.len
    let do_output := decide (b.data_out ≠ NULL) && dev.mosi_port
    let do_input := decide (b.data_in ≠ NULL) && dev.miso_port
    ctx.sclk.length = 16 * b.len ∧
      ctx.mosi = (if do_output then slots mem b.data_out b.len else []) ∧
      ctx.read = (if do_output then (List.range b.len).map (b.data_out + ·) else []) ∧
      ctx.written.Perm (if do_input then (List.range b.len).map (b.data_in + ·) else []) ∧
      ctx.mem = (if do_input then received env.miso mem b.data_in b.len else mem) ∧
      (do_output = true → do_input = true → window env.miso 0 (16 * b.len) = ctx.mosi →
        ∀ i < b.len, ctx.mem (b.data_in + i) = mem (b.data_out + i)) := by
  intro ctx do_output do_input
  have hgiven : ∀ {p : Nat} {port : Bool}, (decide (p ≠ NULL) && port) = true → p ≠ NULL := fun h =>
    of_decide_eq_true (Bool.and_eq_true_iff.1 h).1
  have hm : Moved env.miso mem do_output do_input b.data_out b.data_in b.len b.len b.len ctx := by
    have hstart : Moved env.miso mem do_output do_input b.data_out b.data_in 0 0 0
        ⟨mem, delay_before_transfer, b.data_out, b.data_in, [], [], [], [], [], 0, 32⟩ :=
      ⟨rfl, (ite_self []).symm, (ite_self []).symm, (ite_self 0).symm, List.Perm.of_eq (ite_self []).symm, by
        rw [received_zero, ite_self]⟩
    have htransfer := transfer_moved dev hstart hlen (fun h => b.len_lt (hgiven h))
      (fun ho hi => b.apart (hgiven ho) (hgiven hi)) rfl rfl
    rwa [show ctx = _ from if_neg (Nat.ne_of_gt hlen)]
  refine ⟨hm.sclk, hm.mosi, hm.read, hm.written, hm.mem, fun hout hin hloop i hi => ?_⟩
  rw [hm.mosi, if_pos hout] at hloop
  rw [hm.mem, if_pos hin, received, if_pos (by omega), Nat.add_sub_cancel_left]
  exact sampled_slots hloop hi

/-- Three bytes, with MISO high all the time. -/
theorem transfer_packed_three :
    (spi_master_transfer ⟨fun _ => true, fun _ => 0, fun _ => 0⟩ ⟨true, true, 0xAAAAAAAA, 0, 3, 1, 0⟩ UInt8.ofNat false
        16 32 3).mosi = slots UInt8.ofNat 16 3 ∧
      (spi_master_transfer ⟨fun _ => true, fun _ => 0, fun _ => 0⟩ ⟨true, true, 0xAAAAAAAA, 0, 3, 1, 0⟩ UInt8.ofNat
        false 16 32 3).written.Perm [32, 33, 34] :=
  have h := transfer_packed ⟨fun _ => true, fun _ => 0, fun _ => 0⟩ ⟨true, true, 0xAAAAAAAA, 0, 3, 1, 0⟩ UInt8.ofNat
    false ⟨16, 32, 3, fun _ => by decide, fun _ _ => .inr (by decide)⟩ (by decide)
  ⟨h.2.1, h.2.2.2.1⟩

end Master
end Spi
