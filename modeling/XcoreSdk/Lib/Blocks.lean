import Mathlib.Algebra.Order.Ring.Nat
/-!
# Blocks of addresses

Addresses in blocks of `n`: block `a / n` holds the addresses `a`. Below are the
block that begins at an address, the blocks that a range meets (`Meets`) and how
far a run of blocks reaches that covers a range.
-/

namespace Blocks
variable {n a x len : Nat}

/-- The block of `a` has an address in common with the `len` ones from `x` on. -/
def Meets (n x len a : Nat) : Prop := ∃ b, x ≤ b ∧ b < x + len ∧ a / n = b / n

/-- The block that begins at `x`. -/
theorem div_eq_iff (hn : 0 < n) (hx : n ∣ x) : a / n = x / n ↔ x ≤ a ∧ a < x + n := by
  obtain ⟨q, rfl⟩ := hx
  rw [Nat.mul_div_cancel_left q hn]
  constructor
  · rintro rfl
    have hdiv := Nat.div_add_mod a n
    have hmod := Nat.mod_lt a hn
    omega
  · rintro ⟨hle, hlt⟩
    rw [← Nat.mul_succ] at hlt
    have hge : q ≤ a / n := (Nat.le_div_iff_mul_le hn).2 (by rwa [Nat.mul_comm])
    have hless : a / n < q + 1 := (Nat.div_lt_iff_lt_mul hn).2 (by rwa [Nat.mul_comm])
    omega

/-- An address lies behind the start of a block if and only if its block does. -/
theorem start_le_iff (hn : 0 < n) : x / n * n ≤ a ↔ x / n ≤ a / n := (Nat.le_div_iff_mul_le hn).symm

theorem start_le (n x : Nat) : x / n * n ≤ x := Nat.div_mul_le_self x n

theorem start_eq_iff : x / n * n = x ↔ n ∣ x :=
  ⟨fun h => ⟨x / n, by rw [Nat.mul_comm]; exact h.symm⟩, fun h => Nat.div_mul_cancel h⟩

/-- The blocks that a range meets are the ones from its first to its last address. -/
theorem meets_iff (hlen : 0 < len) : Meets n x len a ↔ x / n ≤ a / n ∧ a / n ≤ (x + len - 1) / n := by
  constructor
  · rintro ⟨b, hle, hlt, hab⟩
    rw [hab]
    exact ⟨Nat.div_le_div_right hle, Nat.div_le_div_right (by omega)⟩
  · rintro ⟨hfirst, hlast⟩
    by_cases hlow : a < x
    · exact ⟨x, Nat.le_refl x, by omega, Nat.le_antisymm (Nat.div_le_div_right (by omega)) hfirst⟩
    · by_cases hhigh : a < x + len
      · exact ⟨a, by omega, hhigh, rfl⟩
      · exact ⟨x + len - 1, by omega, by omega, Nat.le_antisymm hlast (Nat.div_le_div_right (by omega))⟩

/-- A range and an address that are moved by whole blocks. -/
theorem meets_add {k : Nat} (hn : 0 < n) (hk : n ∣ k) : Meets n (x + k) len (a + k) ↔ Meets n x len a := by
  obtain ⟨q, rfl⟩ := hk
  constructor
  · rintro ⟨b, hle, hlt, hab⟩
    obtain ⟨c, rfl⟩ := Nat.exists_eq_add_of_le' (show n * q ≤ b by omega)
    rw [Nat.add_mul_div_left _ _ hn, Nat.add_mul_div_left _ _ hn] at hab
    exact ⟨c, by omega, by omega, by omega⟩
  · rintro ⟨b, hle, hlt, hab⟩
    refine ⟨b + n * q, by omega, by omega, ?_⟩
    rw [Nat.add_mul_div_left _ _ hn, Nat.add_mul_div_left _ _ hn, hab]

theorem not_meets_zero : ¬ Meets n x 0 a := fun ⟨_, hle, hlt, _⟩ => by omega

/-- Whole blocks up to `p` cover a range that ends in the last of them, and no block behind. -/
theorem lt_iff_div_le {p last : Nat} (hn : 0 < n) (hp : n ∣ p) (hlt : last < p) (hle : p ≤ last + n) :
    a < p ↔ a / n ≤ last / n := by
  obtain ⟨q, rfl⟩ := hp
  have hlast : last / n + 1 = q := by
    have hless : last / n < q := (Nat.div_lt_iff_lt_mul hn).2 (by rwa [Nat.mul_comm])
    have hge : q - 1 ≤ last / n := by
      rw [Nat.le_div_iff_mul_le hn, Nat.sub_mul, Nat.one_mul, Nat.mul_comm]
      omega
    omega
  rw [← hlast, Nat.mul_comm, ← Nat.div_lt_iff_lt_mul hn]
  exact Nat.lt_succ_iff

/-- A range of whole blocks meets no others. -/
theorem meets_aligned (hn : 0 < n) (hx : n ∣ x) (hend : n ∣ x + len) : Meets n x len a ↔ x ≤ a ∧ a < x + len := by
  by_cases hlen : len = 0
  · subst hlen
    exact iff_of_false not_meets_zero (by omega)
  · have hfirst := start_le_iff (x := x) (a := a) hn
    rw [start_eq_iff.2 hx] at hfirst
    have hlast := lt_iff_div_le (a := a) hn hend (show x + len - 1 < x + len by omega) (by omega)
    rw [meets_iff (Nat.pos_of_ne_zero hlen), hfirst, hlast]

end Blocks
