import Mathlib.Algebra.Order.Ring.Nat
/-!
# Words as bytes

`toLE n v` are the `n` little-endian bytes of `v`, `ofLE` reads them back;
`toBE` and `ofBE` are the same in big-endian order. Both directions of the
round trip are here, together with what a concatenation of bytes reads back
as when only its first `n` bytes are looked at.
-/

namespace Bytes

def toLE : Nat → Nat → List UInt8
  | 0, _ => []
  | n + 1, v => UInt8.ofNat v :: toLE n (v / 256)

def ofLE : List UInt8 → Nat
  | [] => 0
  | b :: bs => b.toNat + 256 * ofLE bs

def toBE (n v : Nat) : List UInt8 := (toLE n v).reverse

def ofBE (bs : List UInt8) : Nat := ofLE bs.reverse

@[simp] theorem length_toLE (n v : Nat) : (toLE n v).length = n := by
  induction n generalizing v with
  | zero => rfl
  | succ n ih => simp [toLE, ih]

@[simp] theorem length_toBE (n v : Nat) : (toBE n v).length = n := by simp [toBE]

theorem ofLE_toLE_mod (n v : Nat) : ofLE (toLE n v) = v % 256 ^ n := by
  induction n generalizing v with
  | zero => simp [toLE, ofLE, Nat.mod_one]
  | succ n ih =>
    have hb : (UInt8.ofNat v).toNat = v % 256 := by simp
    rw [toLE, ofLE, ih, hb, pow_succ', Nat.mod_mul]

theorem ofLE_toLE {n v : Nat} (h : v < 256 ^ n) : ofLE (toLE n v) = v := by
  rw [ofLE_toLE_mod, Nat.mod_eq_of_lt h]

theorem ofLE_lt (bs : List UInt8) : ofLE bs < 256 ^ bs.length := by
  induction bs with
  | nil => simp [ofLE]
  | cons b bs ih =>
    have hb : b.toNat < 256 := b.toNat_lt
    simp only [ofLE, List.length_cons, pow_succ]
    omega

theorem toLE_ofLE (bs : List UInt8) : toLE bs.length (ofLE bs) = bs := by
  induction bs with
  | nil => rfl
  | cons b bs ih =>
    have hb : b.toNat < 256 := b.toNat_lt
    have hdiv : (b.toNat + 256 * ofLE bs) / 256 = ofLE bs := by omega
    simp only [List.length_cons, toLE, ofLE, hdiv, ih, List.cons.injEq, and_true]
    apply UInt8.toNat_inj.1
    have he : (UInt8.ofNat (b.toNat + 256 * ofLE bs)).toNat = (b.toNat + 256 * ofLE bs) % 256 := by simp
    rw [he]
    omega

/-- The low `n` bytes only depend on the value modulo `256 ^ n`. -/
theorem toLE_mod {m n : Nat} (h : n ≤ m) (v : Nat) : toLE n (v % 256 ^ m) = toLE n v := by
  have hmod : ofLE (toLE n (v % 256 ^ m)) = ofLE (toLE n v) := by
    rw [ofLE_toLE_mod, ofLE_toLE_mod, Nat.mod_mod_of_dvd _ (pow_dvd_pow 256 h)]
  have hl := toLE_ofLE (toLE n (v % 256 ^ m))
  have hr := toLE_ofLE (toLE n v)
  rw [length_toLE] at hl hr
  rw [← hl, ← hr, hmod]

theorem ofBE_toBE {n v : Nat} (h : v < 256 ^ n) : ofBE (toBE n v) = v := by
  simp [ofBE, toBE, ofLE_toLE h]

theorem toBE_ofBE (bs : List UInt8) : toBE bs.length (ofBE bs) = bs := by
  have h := toLE_ofLE bs.reverse
  rw [List.length_reverse] at h
  simp [toBE, ofBE, h]

theorem ofLE_inj {as bs : List UInt8} (hl : as.length = bs.length) (h : ofLE as = ofLE bs) : as = bs := by
  rw [← toLE_ofLE as, ← toLE_ofLE bs, hl, h]

end Bytes
