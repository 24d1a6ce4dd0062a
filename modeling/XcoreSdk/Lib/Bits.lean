import Mathlib.Algebra.Order.Ring.Nat
import Mathlib.Data.List.Induction
import Mathlib.Tactic.Ring
/-!
# Numbers as bits, the most significant first

`toBits n v` are the `n` low bits of `v` in the order in which they go over a
wire, `ofBits` reads them back. `window f i n` are `n` bits of a sequence from
the `i`th on.
-/

namespace Bits

def toBits (n v : Nat) : List Bool := (List.range n).map fun i => v.testBit (n - 1 - i)

def ofBits (bs : List Bool) : Nat := bs.foldl (fun v b => 2 * v + b.toNat) 0

@[simp] theorem length_toBits (n v : Nat) : (toBits n v).length = n := by simp [toBits]

@[simp] theorem ofBits_nil : ofBits [] = 0 := rfl

theorem ofBits_concat (bs : List Bool) (b : Bool) : ofBits (bs ++ [b]) = 2 * ofBits bs + b.toNat := by
  simp [ofBits]

theorem ofBits_append (bs cs : List Bool) : ofBits (bs ++ cs) = ofBits bs * 2 ^ cs.length + ofBits cs := by
  induction cs using List.reverseRecOn with
  | nil => simp
  | append_singleton cs c ih =>
    rw [← List.append_assoc, ofBits_concat, ih, ofBits_concat, List.length_append, List.length_singleton, pow_succ]
    ring

theorem ofBits_cons (b : Bool) (bs : List Bool) : ofBits (b :: bs) = b.toNat * 2 ^ bs.length + ofBits bs := by
  have h := ofBits_append [b] bs
  rwa [← List.nil_append [b], ofBits_concat, ofBits_nil, Nat.mul_zero, Nat.zero_add] at h

theorem ofBits_lt (bs : List Bool) : ofBits bs < 2 ^ bs.length := by
  induction bs using List.reverseRecOn with
  | nil => simp
  | append_singleton bs b ih =>
    have hb : b.toNat ≤ 1 := Bool.toNat_le b
    rw [ofBits_concat, List.length_append, List.length_singleton, pow_succ]
    omega

theorem toBits_succ (n v : Nat) : toBits (n + 1) v = toBits n (v / 2) ++ [v.testBit 0] := by
  unfold toBits
  rw [List.range_succ, List.map_append, List.map_singleton]
  congr 1
  · refine List.map_congr_left fun i hi => ?_
    have hlt := List.mem_range.1 hi
    rw [← Nat.testBit_succ]
    congr 1
    omega
  · congr 2
    omega

theorem ofBits_toBits (n v : Nat) : ofBits (toBits n v) = v % 2 ^ n := by
  induction n generalizing v with
  | zero => simp [toBits, Nat.mod_one]
  | succ n ih =>
    have hb : (v.testBit 0).toNat = v % 2 := by
      rw [Nat.testBit_zero]
      rcases Nat.mod_two_eq_zero_or_one v with h | h <;> simp [h]
    rw [toBits_succ, ofBits_concat, ih, hb, pow_succ', Nat.mod_mul, Nat.add_comm]

theorem toBits_ofBits (bs : List Bool) : toBits bs.length (ofBits bs) = bs := by
  induction bs using List.reverseRecOn with
  | nil => rfl
  | append_singleton bs b ih =>
    have hdiv : (2 * ofBits bs + b.toNat) / 2 = ofBits bs := by
      have := Bool.toNat_le b
      omega
    have hbit : (2 * ofBits bs + b.toNat).testBit 0 = b := by
      rw [Nat.testBit_zero]
      cases b <;> simp
    rw [List.length_append, List.length_singleton, ofBits_concat, toBits_succ, hdiv, hbit, ih]

theorem testBit_of_toBits {n v : Nat} {f : Nat → Bool} (h : toBits n v = (List.range n).map fun i => f (n - 1 - i))
    {i : Nat} (hi : i < n) : v.testBit i = f i := by
  have hget := congrArg (fun bs : List Bool => bs[n - 1 - i]?) h
  have hlt : n - 1 - i < n := by omega
  have hsub : n - 1 - (n - 1 - i) = i := by omega
  simpa [toBits, hlt, hsub] using hget

/-! ## Bytes -/

/-- The bytes in a sequence of bits. Bits behind the last whole byte are none. -/
def bytes : List Bool → List UInt8
  | b7 :: b6 :: b5 :: b4 :: b3 :: b2 :: b1 :: b0 :: bs => UInt8.ofNat (ofBits [b7, b6, b5, b4, b3, b2, b1, b0]) :: bytes bs
  | _ => []

theorem bytes_append (b : UInt8) (bs : List Bool) : bytes (toBits 8 b.toNat ++ bs) = b :: bytes bs := by
  have hb : UInt8.ofNat (ofBits (toBits 8 b.toNat)) = b := by
    rw [ofBits_toBits, Nat.mod_eq_of_lt b.toNat_lt, UInt8.ofNat_toNat]
  have hlist : toBits 8 b.toNat = [b.toNat.testBit 7, b.toNat.testBit 6, b.toNat.testBit 5, b.toNat.testBit 4,
      b.toNat.testBit 3, b.toNat.testBit 2, b.toNat.testBit 1, b.toNat.testBit 0] := rfl
  rw [hlist] at hb ⊢
  exact congrArg (· :: bytes bs) hb

/-- What a sequence of bytes looks like bit by bit is read back. -/
theorem bytes_flatMap (l : List UInt8) : bytes (l.flatMap fun b => toBits 8 b.toNat) = l := by
  induction l with
  | nil => rfl
  | cons b l ih => rw [List.flatMap_cons, bytes_append, ih]

/-! ## Words -/

/-- The word with these bits, the least significant one first. -/
def word (n : Nat) (f : Nat → Bool) : BitVec n := BitVec.ofNat n (ofBits ((List.range n).map fun i => f (n - 1 - i)))

theorem getLsbD_word (n : Nat) (f : Nat → Bool) (i : Nat) : (word n f).getLsbD i = (decide (i < n) && f i) := by
  unfold word
  rw [BitVec.getLsbD_ofNat]
  by_cases hi : i < n
  · have h := toBits_ofBits ((List.range n).map fun i => f (n - 1 - i))
    rw [List.length_map, List.length_range] at h
    rw [testBit_of_toBits h hi]
  · rw [decide_eq_false hi, Bool.false_and, Bool.false_and]

/-! ## Part of a sequence -/

def window (f : Nat → Bool) (i n : Nat) : List Bool := (List.range n).map fun k => f (i + k)

@[simp] theorem length_window (f : Nat → Bool) (i n : Nat) : (window f i n).length = n := by simp [window]

theorem window_add (f : Nat → Bool) (i n k : Nat) : window f i (n + k) = window f i n ++ window f (i + n) k := by
  unfold window
  rw [List.range_add, List.map_append, List.map_map]
  congr 1
  exact List.map_congr_left fun j _ => by rw [Function.comp_apply, Nat.add_assoc]

theorem window_succ (f : Nat → Bool) (i n : Nat) : window f i (n + 1) = f i :: window f (i + 1) n := by
  rw [Nat.add_comm, window_add]
  rfl

theorem window_congr {f g : Nat → Bool} {i k n : Nat} (h : ∀ j < n, g (i + j) = f (k + j)) :
    window g i n = window f k n :=
  List.map_congr_left fun j hj => h j (List.mem_range.1 hj)

/-- A window of a sequence that begins later. -/
theorem window_shift {f g : Nat → Bool} {k : Nat} (h : ∀ i, g i = f (k + i)) (i n : Nat) :
    window g i n = window f (k + i) n :=
  window_congr fun j _ => by rw [h, Nat.add_assoc]

end Bits
