import XcoreSdk.Lib.Machine
import Mathlib.Algebra.BigOperators.Group.Finset.Piecewise
import Mathlib.Algebra.Order.Ring.Nat
import Mathlib.Data.Fintype.Basic
/-!
# The work that is left

A run whose steps all lower a measure is no longer than the measure. The work
left to finitely many parties is a sum over them, of which a step of one party
changes its own summand.
-/

open scoped BigOperators

/-- A run is no longer than a measure that every step of it lowers. -/
theorem Machine.Run.length_le {σ α : Type*} {M : Machine σ α} {C : σ → α → Prop} {I : σ → Prop} {work : σ → Nat}
    {s s' : σ} {as : List α} (hstep : ∀ s a s', I s → C s a → M.step s a = some s' → I s' ∧ work s' < work s)
    (hr : M.Run C s as s') (hs : I s) : as.length ≤ work s := by
  induction hr with
  | nil => exact Nat.zero_le _
  | cons hc ht _ ih =>
    obtain ⟨hI, hlt⟩ := hstep _ _ _ hs hc ht
    have := ih hI
    rw [List.length_cons]
    omega

/-- Where every step lowers a measure, some run comes to rest. -/
theorem Machine.exists_rest {σ α : Type*} {M : Machine σ α} {I : σ → Prop} {work : σ → Nat} {s : σ}
    (hstep : ∀ s a s', I s → M.step s a = some s' → I s' ∧ work s' < work s) (hs : I s) :
    ∃ as s', M.Run Free s as s' ∧ ∀ a, M.step s' a = none := by
  induction hn : work s using Nat.strongRecOn generalizing s with
  | ind n ih =>
    by_cases hrest : ∀ a, M.step s a = none
    · exact ⟨[], s, .nil s, hrest⟩
    · obtain ⟨a, ha⟩ := not_forall.1 hrest
      obtain ⟨s', hs'⟩ := Option.ne_none_iff_exists'.1 ha
      obtain ⟨hI, hlt⟩ := hstep s a s' hs hs'
      obtain ⟨as, t, hrun, ht⟩ := ih (work s') (hn ▸ hlt) hI rfl
      exact ⟨a :: as, t, .cons trivial hs' hrun, ht⟩

/-- Those who are not idle are all in `u`, also once one of `u` is somewhere else. -/
theorem mem_of_update_ne {ι β : Type*} [DecidableEq ι] {u : Finset ι} {f : ι → β} {i x : ι} {b idle : β}
    (h : ∀ x, f x ≠ idle → x ∈ u) (hi : i ∈ u) (hne : Function.update f i b x ≠ idle) : x ∈ u := by
  by_cases hx : x = i
  · rw [hx]
    exact hi
  · rw [Function.update_of_ne hx] at hne
    exact h x hne

theorem sum_update_mem {ι β : Type*} [DecidableEq ι] {u : Finset ι} (f : ι → β) (w : β → Nat) {i : ι} (b : β) (hi : i ∈ u) :
    ∑ x ∈ u, w (Function.update f i b x) + w (f i) = ∑ x ∈ u, w (f x) + w b := by
  have hsum : ∀ b, ∑ x ∈ u, w (Function.update f i b x) = w b + ∑ x ∈ u \ {i}, w (f x) := by
    intro b
    rw [← Finset.sum_update_of_mem hi]
    refine Finset.sum_congr rfl fun x _ => ?_
    rw [Function.update_apply, Function.update_apply]
    split <;> rfl
  have hself := hsum (f i)
  rw [Function.update_eq_self] at hself
  rw [hsum b, hself]
  omega

theorem sum_update {ι β : Type*} [Fintype ι] [DecidableEq ι] (f : ι → β) (w : β → Nat) (i : ι) (b : β) :
    ∑ x, w (Function.update f i b x) + w (f i) = ∑ x, w (f x) + w b := sum_update_mem f w b (Finset.mem_univ i)
