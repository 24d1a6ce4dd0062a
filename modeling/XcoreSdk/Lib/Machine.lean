import Mathlib.Logic.Function.Basic
import Mathlib.Data.List.Basic
/-!
# Labelled machines and their runs

A machine has initial states and a partial step function: `step s a = none`
says that action `a` is not enabled in `s`. Interleavings of several threads
are machines whose actions name the thread that moves, so a theorem about
every run holds for every schedule.

`Run C` is a run all of whose steps satisfy the side condition `C`; `Free` is
the condition that excludes nothing. Invariants are proved once for a step
(`Run.inv`, `Reachable.inv`); `exec` computes a run from a list of actions.
-/

/-- A partial labelled transition system. -/
structure Machine (σ α : Type*) where
  init : σ → Prop
  step : σ → α → Option σ

namespace Machine
variable {σ α : Type*} (M : Machine σ α)

/-- The side condition that excludes no step. -/
def Free : σ → α → Prop := fun _ _ => True

/-- A run whose steps all satisfy `C`. -/
inductive Run (C : σ → α → Prop) : σ → List α → σ → Prop
  | nil (s : σ) : Run C s [] s
  | cons {s s' s'' : σ} {a : α} {as : List α} :
      C s a → M.step s a = some s' → Run C s' as s'' → Run C s (a :: as) s''

/-- The states of the runs from an initial state whose steps satisfy `C`. -/
def Reachable (C : σ → α → Prop) (s : σ) : Prop := ∃ s₀ as, M.init s₀ ∧ M.Run C s₀ as s

variable {M} {C : σ → α → Prop} {s s' s'' : σ} {as bs : List α}

theorem Run.append (h : M.Run C s as s') (h' : M.Run C s' bs s'') : M.Run C s (as ++ bs) s'' := by
  induction h with
  | nil => exact h'
  | cons hc hs _ ih => exact .cons hc hs (ih h')

theorem Run.snoc {a : α} (h : M.Run C s as s') (hc : C s' a) (hs : M.step s' a = some s'') :
    M.Run C s (as ++ [a]) s'' :=
  h.append (.cons hc hs (.nil _))

theorem Run.mono {D : σ → α → Prop} (hCD : ∀ s a, C s a → D s a) (h : M.Run C s as s') : M.Run D s as s' := by
  induction h with
  | nil => exact .nil _
  | cons hc hs _ ih => exact .cons (hCD _ _ hc) hs ih

/-- What every step keeps, a run keeps. -/
theorem Run.inv {I : σ → Prop} (hstep : ∀ s a s', I s → C s a → M.step s a = some s' → I s')
    (h : M.Run C s as s') (hs : I s) : I s' := by
  induction h with
  | nil => exact hs
  | cons hc ht _ ih => exact ih (hstep _ _ _ hs hc ht)

/-- Where a step that violates `C` leads to a state without `P`, and `C` keeps an invariant that gives `P`, a run has `P`
in every state that it goes through just where all its steps satisfy `C`. -/
theorem Run.holds_iff {I P : σ → Prop} (hI : ∀ s, I s → P s)
    (hstep : ∀ s a s', I s → C s a → M.step s a = some s' → I s')
    (hbad : ∀ s a s', I s → ¬ C s a → M.step s a = some s' → ¬ P s') (hs : I s) (h : M.Run Free s as s') :
    (∀ bs t, bs <+: as → M.Run Free s bs t → P t) ↔ M.Run C s as s' := by
  constructor
  · intro hall
    induction h with
    | nil => exact .nil _
    | @cons s t _ a as _ ht hr ih =>
      have hc : C s a := by
        by_contra hc
        exact hbad s a t hs hc ht (hall [a] t ⟨as, rfl⟩ (.cons trivial ht (.nil _)))
      refine .cons hc ht (ih (hstep s a t hs hc ht) fun bs u hbs hu => ?_)
      exact hall (a :: bs) u (List.cons_prefix_cons.2 ⟨rfl, hbs⟩) (.cons trivial ht hu)
  · intro hr bs t hbs ht
    clear h
    induction hr generalizing bs t with
    | nil =>
      obtain rfl := List.prefix_nil.1 hbs
      cases ht
      exact hI _ hs
    | cons hc hs' _ ih =>
      cases ht with
      | nil => exact hI _ hs
      | cons _ ht htr =>
        obtain ⟨rfl, hprefix⟩ := List.cons_prefix_cons.1 hbs
        rw [hs'] at ht
        cases ht
        exact ih (hstep _ _ _ hs hc hs') _ _ hprefix htr

theorem Reachable.init (h : M.init s) : M.Reachable C s := ⟨s, [], h, .nil _⟩

theorem Reachable.step {a : α} (h : M.Reachable C s) (hc : C s a) (hs : M.step s a = some s') :
    M.Reachable C s' := by
  obtain ⟨s₀, as, h0, hr⟩ := h
  exact ⟨s₀, as ++ [a], h0, hr.snoc hc hs⟩

theorem Reachable.run (h : M.Reachable C s) (hr : M.Run C s as s') : M.Reachable C s' := by
  obtain ⟨s₀, bs, h0, hr0⟩ := h
  exact ⟨s₀, bs ++ as, h0, hr0.append hr⟩

/-- An invariant of the initial states that every step keeps holds in every
reachable state. -/
theorem Reachable.inv {I : σ → Prop} (hinit : ∀ s, M.init s → I s)
    (hstep : ∀ s a s', I s → C s a → M.step s a = some s' → I s') (h : M.Reachable C s) : I s := by
  obtain ⟨s₀, as, h0, hr⟩ := h
  exact hr.inv hstep (hinit _ h0)

/-- A refinement: where every step of a machine is one of another one, or none at
all, the states it reaches are the other one's. -/
theorem Reachable.refines {τ β : Type*} {N : Machine τ β} {D : τ → β → Prop} {I : σ → Prop} {f : σ → τ}
    (hI : ∀ s, M.Reachable C s → I s) (hinit : ∀ s, M.init s → N.init (f s))
    (hstep : ∀ s a s', I s → C s a → M.step s a = some s' →
      f s' = f s ∨ ∃ b, D (f s) b ∧ N.step (f s) b = some (f s')) (h : M.Reachable C s) :
    N.Reachable D (f s) := by
  obtain ⟨s₀, as, h0, hr⟩ := h
  have h0' : M.Reachable C s₀ ∧ N.Reachable D (f s₀) := ⟨.init h0, .init (hinit _ h0)⟩
  refine (hr.inv (I := fun s => M.Reachable C s ∧ N.Reachable D (f s)) (fun s a s' ⟨hs, ih⟩ hc ht => ?_) h0').2
  refine ⟨hs.step hc ht, ?_⟩
  rcases hstep s a s' (hI s hs) hc ht with heq | ⟨b, hd, hb⟩
  · rwa [heq]
  · exact ih.step hd hb

instance (s : σ) (a : α) : Decidable (Free s a) := isTrue trivial

variable (M C) in
/-- The state after a list of actions, if each of them in turn is enabled and
satisfies `C`. -/
def exec [∀ s a, Decidable (C s a)] : σ → List α → Option σ
  | s, [] => some s
  | s, a :: as => if C s a then (M.step s a).bind (exec · as) else none

theorem exec_cons {a : α} : M.exec Free s (a :: as) = (M.step s a).bind (M.exec Free · as) := if_pos trivial

variable [∀ s a, Decidable (C s a)]

theorem exec_append : M.exec C s (as ++ bs) = (M.exec C s as).bind (M.exec C · bs) := by
  induction as generalizing s with
  | nil => rfl
  | cons a as ih =>
    simp only [List.cons_append, exec]
    split
    · simp [ih, Option.bind_assoc]
    · rfl

theorem exec_run (h : M.exec C s as = some s') : M.Run C s as s' := by
  induction as generalizing s with
  | nil => cases h; exact .nil _
  | cons a as ih =>
    simp only [exec] at h
    split at h
    · rename_i hc
      obtain ⟨t, ht, h⟩ := Option.bind_eq_some_iff.1 h
      exact .cons hc ht (ih h)
    · cases h

theorem exec_reachable (h0 : M.init s) (h : M.exec C s as = some s') : M.Reachable C s' :=
  ⟨s, as, h0, exec_run h⟩

end Machine
