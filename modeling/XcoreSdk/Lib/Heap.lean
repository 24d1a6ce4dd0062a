import Mathlib.Logic.Equiv.Basic
import Mathlib.Algebra.Order.Ring.Int
import Mathlib.Algebra.Order.Ring.Nat
/-!
# Binary heaps

The keys of an array's elements, of which those from `first` to `last` form a
heap: no child is greater than its parent. In a heap that is `Sifting` only the
children of one node may be.
-/

namespace BinaryHeap
variable {κ : Type*} [LinearOrder κ] {k : Nat → κ} {first last root c : Nat}

def Child (c p : Nat) : Prop := c = 2 * p + 1 ∨ c = 2 * p + 2

theorem Child.lt {c p : Nat} (h : Child c p) : p < c := by
  rcases h with h | h <;> omega

/-- A node has one parent. -/
theorem Child.inj {c p p' : Nat} (h : Child c p) (h' : Child c p') : p = p' := by
  rcases h with h | h <;> rcases h' with h' | h' <;> omega

def HeapFrom (k : Nat → κ) (first last : Nat) : Prop := ∀ p c, first ≤ p → Child c p → c ≤ last → k c ≤ k p

structure Sifting (k : Nat → κ) (first last root : Nat) : Prop where
  first_le : first ≤ root
  except : ∀ p c, first ≤ p → p ≠ root → Child c p → c ≤ last → k c ≤ k p
  /-- The node's children could take its place. -/
  grand : ∀ p c, first ≤ p → Child root p → Child c root → c ≤ last → k c ≤ k p

theorem HeapFrom.sifting (h : HeapFrom k (root + 1) last) : Sifting k root last root := by
  refine ⟨Nat.le_refl _, fun p c hp hne => h p c (by omega), fun p c hp hroot => ?_⟩
  have := hroot.lt
  omega

/-- The last element takes the place of the greatest. -/
theorem HeapFrom.swap_root (h : HeapFrom k 0 (last + 1)) : Sifting (k ∘ Equiv.swap (last + 1) 0) 0 last 0 := by
  refine ⟨Nat.zero_le _, fun p c _ hne hc hcl => ?_, fun p c _ hroot => absurd hroot.lt (Nat.not_lt_zero p)⟩
  have := hc.lt
  have hsame : ∀ i, i ≠ 0 → i ≤ last → (k ∘ Equiv.swap (last + 1) 0) i = k i := fun i hi hil => by
    rw [Function.comp_apply, Equiv.swap_apply_of_ne_of_ne (by omega) hi]
  rw [hsame c (by omega) hcl, hsame p hne (by omega)]
  exact h p c (Nat.zero_le _) hc (by omega)

/-- The node changes places with its greatest child. -/
theorem Sifting.swap (h : Sifting k first last root) (hc : Child c root) (hcl : c ≤ last) (hlt : k root ≤ k c)
    (hmax : ∀ c', Child c' root → c' ≤ last → k c' ≤ k c) : Sifting (k ∘ Equiv.swap root c) first last c := by
  have hne : root ≠ c := Nat.ne_of_lt hc.lt
  have hroot : (k ∘ Equiv.swap root c) root = k c := by simp
  have hchild : (k ∘ Equiv.swap root c) c = k root := by simp
  have hsame : ∀ i, i ≠ root → i ≠ c → (k ∘ Equiv.swap root c) i = k i := fun i hi hi' => by
    rw [Function.comp_apply, Equiv.swap_apply_of_ne_of_ne hi hi']
  have hfirst := h.first_le
  have hlt' := hc.lt
  refine ⟨by omega, fun p c' hp hpc hc' hcl' => ?_, fun p c' hp hp' hc' hcl' => ?_⟩
  · by_cases hpr : p = root
    · subst hpr
      rw [hroot]
      by_cases hcc : c' = c
      · rw [hcc, hchild]
        exact hlt
      · rw [hsame c' (Nat.ne_of_gt hc'.lt) hcc]
        exact hmax c' hc' hcl'
    · rw [hsame p hpr hpc]
      by_cases hcr : c' = root
      · subst hcr
        rw [hroot]
        exact h.grand p c hp hc' hc hcl
      · have hcc : c' ≠ c := fun heq => hpr (hc'.inj (heq ▸ hc))
        rw [hsame c' hcr hcc]
        exact h.except p c' hp hpr hc' hcl'
  · obtain rfl : root = p := hc.inj hp'
    have := hc'.lt
    rw [hroot, hsame c' (by omega) (by omega)]
    exact h.except c c' (by omega) (Ne.symm hne) hc' hcl'

/-- The node is in its place. -/
theorem Sifting.heap (h : Sifting k first last root) (hmax : ∀ c, Child c root → c ≤ last → k c ≤ k root) :
    HeapFrom k first last := by
  intro p c hp hc hcl
  by_cases hpr : p = root
  · subst hpr
    exact hmax c hc hcl
  · exact h.except p c hp hpr hc hcl

theorem HeapFrom.le_root (h : HeapFrom k 0 last) (i : Nat) (hi : i ≤ last) : k i ≤ k 0 := by
  induction i using Nat.strongRecOn with
  | _ i ih =>
    by_cases hzero : i = 0
    · rw [hzero]
    · have hchild : Child i ((i - 1) / 2) := by
        unfold Child
        omega
      have hlt := hchild.lt
      exact le_trans (h _ _ (Nat.zero_le _) hchild hi) (ih _ hlt (by omega))

end BinaryHeap
