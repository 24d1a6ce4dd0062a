import Mathlib.Logic.Function.Basic
import Mathlib.Data.List.Nodup
/-!
# Chains in a table of successors

A table has for every node the one that follows it, or a value that is no node:
there the chain ends. `Linked` are the nodes of a chain from some node to its
end. Since it ends, no node comes twice, and what is written elsewhere does not
matter. A chain is stretched at its end, and cut anywhere.
-/

namespace Chain
variable {α : Type*} {T T' : α → α} {Out : α → Prop} {l l' l₁ l₂ : List α} {c d e : α}

/-- The nodes of a chain, in order. -/
def Linked (Out : α → Prop) (T : α → α) : List α → Prop
  | [] => True
  | [c] => ¬ Out c ∧ Out (T c)
  | c :: d :: l => ¬ Out c ∧ T c = d ∧ Linked Out T (d :: l)

theorem Linked.tail (h : Linked Out T (c :: l)) : Linked Out T l := by
  cases l with
  | nil => trivial
  | cons d l => exact h.2.2

theorem Linked.of_append (h : Linked Out T (l₁ ++ l₂)) : Linked Out T l₂ := by
  induction l₁ with
  | nil => exact h
  | cons c l₁ ih => exact ih h.tail

theorem Linked.not_out (h : Linked Out T l) (hc : c ∈ l) : ¬ Out c := by
  obtain ⟨l₁, l₂, rfl⟩ := List.append_of_mem hc
  have h' := h.of_append
  cases l₂ with
  | nil => exact h'.1
  | cons d l₂ => exact h'.1

/-- A chain is given by its first node. -/
theorem Linked.unique (h : Linked Out T (c :: l)) (h' : Linked Out T (c :: l')) : l = l' := by
  induction l generalizing c l' with
  | nil =>
    cases l' with
    | nil => rfl
    | cons d l' => exact absurd h.2 (h'.2.1 ▸ h'.2.2.not_out (List.mem_cons_self ..))
  | cons d l ih =>
    cases l' with
    | nil => exact absurd h'.2 (h.2.1 ▸ h.2.2.not_out (List.mem_cons_self ..))
    | cons d' l' =>
      obtain rfl : d = d' := h.2.1.symm.trans h'.2.1
      rw [ih h.2.2 h'.2.2]

theorem Linked.nodup (h : Linked Out T l) : l.Nodup := by
  induction l with
  | nil => exact List.nodup_nil
  | cons c l ih =>
    refine List.nodup_cons.2 ⟨fun hc => ?_, ih h.tail⟩
    -- the chain would go on from its first node as it does from the later one
    obtain ⟨l₁, l₂, rfl⟩ := List.append_of_mem hc
    have heq := congrArg List.length (h.unique h.tail.of_append)
    simp only [List.length_append, List.length_cons] at heq
    omega

theorem Linked.congr (h : Linked Out T l) (heq : ∀ c ∈ l, T' c = T c) : Linked Out T' l := by
  induction l with
  | nil => trivial
  | cons c l ih =>
    have hl := ih h.tail fun d hd => heq d (List.mem_cons_of_mem c hd)
    have hc := heq c (List.mem_cons_self ..)
    cases l with
    | nil => exact ⟨h.1, hc ▸ h.2⟩
    | cons d l => exact ⟨h.1, hc.trans h.2.1, hl⟩

/-- The value behind the last node is no node. -/
theorem Linked.last (h : Linked Out T (l ++ [c])) : Out (T c) := (h.of_append : Linked Out T [c]).2

/-- The node behind another one. -/
theorem Linked.next (h : Linked Out T (l ++ c :: d :: l')) : T c = d := h.of_append.2.1

variable [DecidableEq α]

/-- What is in front of a node is a chain, once that node ends it. -/
theorem Linked.cut (h : Linked Out T (l ++ c :: l')) (he : Out e) : Linked Out (Function.update T c e) (l ++ [c]) := by
  induction l with
  | nil => exact ⟨h.not_out (List.mem_cons_self ..), by rwa [Function.update_self]⟩
  | cons d l ih =>
    have hne : d ≠ c := by
      intro heq
      have hnodup := h.nodup
      rw [List.cons_append, List.nodup_cons] at hnodup
      exact hnodup.1 (heq ▸ List.mem_append_right l (List.mem_cons_self ..))
    have hl := ih h.tail
    cases l with
    | nil => exact ⟨h.1, (Function.update_of_ne hne _ _).trans h.2.1, hl⟩
    | cons d' l => exact ⟨h.1, (Function.update_of_ne hne _ _).trans h.2.1, hl⟩

/-- A chain whose last node is followed by another one, which ends it. -/
theorem Linked.stretch (h : Linked Out T (l ++ [c])) (hd : d ∉ l ++ [c]) (hnode : ¬ Out d) (he : Out e) :
    Linked Out (Function.update (Function.update T d e) c d) (l ++ [c] ++ [d]) := by
  have hcd : d ≠ c := fun heq => hd (heq ▸ List.mem_append_right l (List.mem_cons_self ..))
  induction l with
  | nil =>
    refine ⟨h.1, Function.update_self .., hnode, ?_⟩
    rwa [Function.update_of_ne hcd, Function.update_self]
  | cons x l ih =>
    have hnodup := h.nodup
    rw [List.cons_append, List.nodup_cons] at hnodup
    have hxc : x ≠ c := fun heq => hnodup.1 (heq ▸ List.mem_append_right l (List.mem_cons_self ..))
    have hxd : x ≠ d := fun heq => hd (heq ▸ List.mem_cons_self ..)
    have hl := ih h.tail fun hmem => hd (List.mem_cons_of_mem x hmem)
    have hx : Function.update (Function.update T d e) c d x = T x := by
      rw [Function.update_of_ne hxc, Function.update_of_ne hxd]
    cases l with
    | nil => exact ⟨h.1, hx.trans h.2.1, hl⟩
    | cons y l => exact ⟨h.1, hx.trans h.2.1, hl⟩

end Chain
