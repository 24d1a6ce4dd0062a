import Mathlib.Logic.Equiv.Basic
import Mathlib.Order.Lattice
/-!
# Bubble sort

The loops compare neighbours and exchange them where `exchanges` says so, which
may also be where the keys are equal. After each pass one more of the greatest
keys is in its place.
-/

namespace Bubble
variable {α κ : Type*} [LinearOrder κ]

section Loops
variable (exchanges : α → α → Prop) [DecidableRel exchanges]

/-- The body of the inner loop. -/
def step (t : Nat → α) (j : Nat) : Nat → α :=
  if exchanges (t j) (t (j + 1)) then t ∘ Equiv.swap j (j + 1) else t

/-- The inner loop with `j` from 0 to `m - 1`. -/
def pass (t : Nat → α) : Nat → Nat → α
  | 0 => t
  | m + 1 => step exchanges (pass t m) m

/-- The outer loop over `n` elements after so many passes. -/
def passes (n : Nat) (t : Nat → α) : Nat → Nat → α
  | 0 => t
  | i + 1 => pass exchanges (passes n t i) (n - i - 1)

@[irreducible] def sort (n : Nat) (t : Nat → α) : Nat → α := passes exchanges n t (n - 1)

end Loops

variable {exchanges : α → α → Prop} [DecidableRel exchanges] {t t' : Nat → α} {n m i j : Nat}

/-! ## A permutation -/

/-- The elements at the indexes below `n` in some order, and the others where they are. -/
def Permuted (n : Nat) (t t' : Nat → α) : Prop :=
  ∃ σ : Equiv.Perm Nat, (∀ i, n ≤ i → σ i = i) ∧ t' = t ∘ σ

theorem Permuted.refl (n : Nat) (t : Nat → α) : Permuted n t t := ⟨Equiv.refl _, fun _ _ => rfl, rfl⟩

theorem Permuted.trans {t'' : Nat → α} (h : Permuted n t t') (h' : Permuted n t' t'') : Permuted n t t'' := by
  obtain ⟨σ, hσ, rfl⟩ := h
  obtain ⟨τ, hτ, rfl⟩ := h'
  refine ⟨τ.trans σ, fun i hi => ?_, rfl⟩
  rw [Equiv.trans_apply, hτ i hi, hσ i hi]

theorem Permuted.symm (h : Permuted n t t') : Permuted n t' t := by
  obtain ⟨σ, hσ, rfl⟩ := h
  refine ⟨σ.symm, fun i hi => ?_, funext fun i => ?_⟩
  · rw [Equiv.symm_apply_eq, hσ i hi]
  · exact congrArg t (σ.apply_symm_apply i).symm

theorem Permuted.mono (h : Permuted n t t') (hnm : n ≤ m) : Permuted m t t' := by
  obtain ⟨σ, hσ, rfl⟩ := h
  exact ⟨σ, fun i hi => hσ i (Nat.le_trans hnm hi), rfl⟩

/-- What holds of all the elements still does. -/
theorem Permuted.all {p : α → Prop} (h : Permuted n t t') (hp : ∀ i < n, p (t i)) (hi : i < n) : p (t' i) := by
  obtain ⟨σ, hσ, rfl⟩ := h
  refine hp (σ i) (Nat.lt_of_not_le fun hle => ?_)
  have hfix : σ i = i := σ.injective (hσ _ hle)
  exact absurd (hfix ▸ hle) (Nat.not_le_of_lt hi)

theorem Permuted.of_le (h : Permuted n t t') (hi : n ≤ i) : t' i = t i := by
  obtain ⟨σ, hσ, rfl⟩ := h
  exact congrArg t (hσ i hi)

theorem step_permuted (t : Nat → α) (j : Nat) : Permuted (j + 2) t (step exchanges t j) := by
  rw [step]
  split
  · refine ⟨Equiv.swap j (j + 1), fun i hi => ?_, rfl⟩
    exact Equiv.swap_apply_of_ne_of_ne (Nat.ne_of_gt (by omega)) (Nat.ne_of_gt (by omega))
  · exact Permuted.refl _ _

theorem pass_permuted (t : Nat → α) (m : Nat) : Permuted (m + 1) t (pass exchanges t m) := by
  induction m with
  | zero => exact Permuted.refl _ _
  | succ m ih => exact (ih.mono (Nat.le_succ _)).trans (step_permuted _ _)

theorem passes_permuted (t : Nat → α) (hi : i < n) : Permuted n t (passes exchanges n t i) := by
  induction i with
  | zero => exact Permuted.refl _ _
  | succ i ih => exact (ih (Nat.lt_of_succ_lt hi)).trans ((pass_permuted _ _).mono (by omega))

theorem sort_permuted (t : Nat → α) (hn : 0 < n) : Permuted n t (sort exchanges n t) := by
  rw [sort]
  exact passes_permuted t (by omega)

/-! ## In order -/

/-- An exchange never moves the greater key down, and without one the keys are in order. -/
structure Keyed (exchanges : α → α → Prop) (key : α → κ) : Prop where
  le : ∀ a b, exchanges a b → key b ≤ key a
  ge : ∀ a b, ¬ exchanges a b → key a ≤ key b

variable {key : α → κ}

/-- The greater of the two neighbours is the second. -/
theorem step_max (hk : Keyed exchanges key) (t : Nat → α) (j : Nat) :
    key (t j) ≤ key (step exchanges t j (j + 1)) ∧ key (step exchanges t j j) ≤ key (step exchanges t j (j + 1)) := by
  rw [step]
  split
  · rename_i h
    rw [Function.comp_apply, Function.comp_apply, Equiv.swap_apply_left, Equiv.swap_apply_right]
    exact ⟨le_refl _, hk.le _ _ h⟩
  · rename_i h
    exact ⟨hk.ge _ _ h, hk.ge _ _ h⟩

theorem step_of_ne (t : Nat → α) (hj : i ≠ j) (hj' : i ≠ j + 1) : step exchanges t j i = t i := by
  rw [step]
  split
  · exact congrArg t (Equiv.swap_apply_of_ne_of_ne hj hj')
  · rfl

/-- A pass takes the greatest key of those it looks at to the end. -/
theorem pass_max (hk : Keyed exchanges key) (t : Nat → α) (hi : i ≤ m) :
    key (pass exchanges t m i) ≤ key (pass exchanges t m m) := by
  induction m generalizing i with
  | zero =>
    obtain rfl := Nat.le_zero.1 hi
    exact le_refl _
  | succ m ih =>
    obtain ⟨hold, hpair⟩ := step_max hk (pass exchanges t m) m
    rw [pass]
    rcases Nat.lt_or_ge i m with h | h
    · rw [step_of_ne _ (Nat.ne_of_lt h) (by omega)]
      exact le_trans (ih (Nat.le_of_lt h)) hold
    · obtain rfl | rfl : i = m ∨ i = m + 1 := by omega
      · exact hpair
      · exact le_refl _

/-- The keys from `m` on are in order, and none before them is greater. -/
def Settled (key : α → κ) (n m : Nat) (t : Nat → α) : Prop :=
  ∀ i j, i ≤ j → m ≤ j → j < n → key (t i) ≤ key (t j)

theorem pass_settled (hk : Keyed exchanges key) (h : Settled key n (m + 1) t) : Settled key n m (pass exchanges t m) := by
  intro i j hij hmj hjn
  rcases Nat.lt_or_ge m j with hj | hj
  · -- the pass does not get to `j`, and before it are the same keys as before
    rw [(pass_permuted t m).of_le hj]
    rcases Nat.lt_or_ge m i with hi | hi
    · rw [(pass_permuted t m).of_le hi]
      exact h i j hij hj hjn
    · exact (pass_permuted t m).all (p := fun a => key a ≤ key (t j)) (fun k hk => h k j (by omega) hj hjn) (by omega)
  · obtain rfl : j = m := Nat.le_antisymm hj hmj
    exact pass_max hk t hij

theorem passes_settled (hk : Keyed exchanges key) (t : Nat → α) (hi : i < n) :
    Settled key n (n - i) (passes exchanges n t i) := by
  induction i with
  | zero =>
    intro i j _ hj hjn
    omega
  | succ i ih =>
    rw [passes, ← Nat.sub_sub]
    apply pass_settled hk
    rw [Nat.sub_add_cancel (by omega)]
    exact ih (Nat.lt_of_succ_lt hi)

theorem sort_le (hk : Keyed exchanges key) (t : Nat → α) (hij : i ≤ j) (hj : j < n) :
    key (sort exchanges n t i) ≤ key (sort exchanges n t j) := by
  rcases Nat.eq_or_lt_of_le hij with rfl | hlt
  · exact le_refl _
  · rw [sort]
    exact passes_settled hk t (by omega : n - 1 < n) i j hij (by omega) hj

end Bubble
