import Mathlib.Data.List.Induction
/-!
# Segments of a list

The items of a list that satisfy a predicate stand next to each other
(`Contiguous`), or even at the end (`Trailing`). Growing a list keeps a trailing
segment as long as the new items belong to it, and a contiguous one as long as
they do not.
-/

variable {α : Type*} {p : α → Prop} {l : List α} {a : α}

def Contiguous (p : α → Prop) (l : List α) : Prop :=
  ∃ xs ys zs, l = xs ++ ys ++ zs ∧ (∀ a ∈ xs, ¬ p a) ∧ (∀ a ∈ ys, p a) ∧ ∀ a ∈ zs, ¬ p a

def Trailing (p : α → Prop) (l : List α) : Prop :=
  ∃ xs ys, l = xs ++ ys ∧ (∀ a ∈ xs, ¬ p a) ∧ ∀ a ∈ ys, p a

theorem Trailing.of_none (h : ∀ a ∈ l, ¬ p a) : Trailing p l :=
  ⟨l, [], (List.append_nil l).symm, h, fun _ ha => absurd ha List.not_mem_nil⟩

theorem Trailing.contiguous (h : Trailing p l) : Contiguous p l := by
  obtain ⟨xs, ys, rfl, hxs, hys⟩ := h
  exact ⟨xs, ys, [], (List.append_nil _).symm, hxs, hys, fun _ ha => absurd ha List.not_mem_nil⟩

theorem Trailing.append (h : Trailing p l) (ha : p a) : Trailing p (l ++ [a]) := by
  obtain ⟨xs, ys, rfl, hxs, hys⟩ := h
  refine ⟨xs, ys ++ [a], List.append_assoc .., hxs, fun b hb => ?_⟩
  rcases List.mem_append.1 hb with hb | hb
  · exact hys b hb
  · rwa [List.mem_singleton.1 hb]

theorem Contiguous.append (h : Contiguous p l) (ha : ¬ p a) : Contiguous p (l ++ [a]) := by
  obtain ⟨xs, ys, zs, rfl, hxs, hys, hzs⟩ := h
  refine ⟨xs, ys, zs ++ [a], List.append_assoc .., hxs, hys, fun b hb => ?_⟩
  rcases List.mem_append.1 hb with hb | hb
  · exact hzs b hb
  · rwa [List.mem_singleton.1 hb]

theorem Contiguous.of_concat (h : Contiguous p (l ++ [a])) : Contiguous p l := by
  obtain ⟨xs, ys, zs, heq, hxs, hys, hzs⟩ := h
  rcases List.eq_nil_or_concat zs with rfl | ⟨zs, b, rfl⟩
  · rw [List.append_nil] at heq
    rcases List.eq_nil_or_concat ys with rfl | ⟨ys, b, rfl⟩
    · refine (Trailing.of_none fun b hb => ?_).contiguous
      rw [List.append_nil] at heq
      exact hxs b (heq ▸ List.mem_append_left _ hb)
    · rw [List.concat_eq_append, ← List.append_assoc] at heq
      refine Trailing.contiguous ⟨xs, ys, (List.append_inj' heq rfl).1, hxs, fun c hc => hys c ?_⟩
      exact List.concat_eq_append ▸ List.mem_append_left _ hc
  · rw [List.concat_eq_append, ← List.append_assoc] at heq
    refine ⟨xs, ys, zs, (List.append_inj' heq rfl).1, hxs, hys, fun c hc => hzs c ?_⟩
    exact List.concat_eq_append ▸ List.mem_append_left _ hc

theorem Contiguous.of_append {r : List α} (h : Contiguous p (l ++ r)) : Contiguous p l := by
  induction r using List.reverseRecOn with
  | nil => rwa [List.append_nil] at h
  | append_singleton r a ih =>
    rw [← List.append_assoc] at h
    exact ih h.of_concat
