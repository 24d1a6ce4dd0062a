import Mathlib.Logic.Basic
/-!
# Programs with loops that need not end

A program works on a state, and is given a number of rounds that no loop in it
may exceed. `Does` says that it comes to an end with enough rounds, and how:
there is a rule for each way of putting programs together, and what a program
does is unique. `repeated` is a loop, `Repeats` what it does from one of its
values on.
-/

/-- A program that may need more rounds than it has. -/
abbrev Prog (σ : Type) := StateT σ (ReaderT Nat Option)

namespace Prog
variable {σ α β γ : Type} {p : Prog σ α} {f : α → Prog σ β} {s s' s'' : σ} {a a' : α} {b : β}

/-- With enough rounds, the program leaves the state `s'` and the result `a`. -/
def Does (p : Prog σ α) (s : σ) (a : α) (s' : σ) : Prop := ∃ n, ∀ m, n ≤ m → p s m = some (a, s')

theorem Does.unique {t : σ} (h : Does p s a s') (h' : Does p s a' t) : a = a' ∧ s' = t := by
  obtain ⟨n, hn⟩ := h
  obtain ⟨m, hm⟩ := h'
  have heq := (hn (n + m) (Nat.le_add_right n m)).symm.trans (hm (n + m) (Nat.le_add_left m n))
  cases heq
  exact ⟨rfl, rfl⟩

theorem does_pure (a : α) (s : σ) : Does (pure a : Prog σ α) s a s := ⟨0, fun _ _ => rfl⟩

theorem does_get (s : σ) : Does (get : Prog σ σ) s s s := ⟨0, fun _ _ => rfl⟩

theorem does_modify (f : σ → σ) (s : σ) : Does (modify f : Prog σ PUnit) s ⟨⟩ (f s) := ⟨0, fun _ _ => rfl⟩

theorem Does.bind (h : Does p s a s') (h' : Does (f a) s' b s'') : Does (p >>= f) s b s'' := by
  obtain ⟨n, hn⟩ := h
  obtain ⟨k, hk⟩ := h'
  refine ⟨n + k, fun m hm => ?_⟩
  show (p s m).bind (fun r => f r.1 r.2 m) = _
  rw [hn m (by omega)]
  exact hk m (by omega)

theorem Does.get_bind {f : σ → Prog σ β} (h : Does (f s) s b s'') : Does (get >>= f) s b s'' := (does_get s).bind h

theorem Does.modify_bind {g : σ → σ} {f : PUnit → Prog σ β} (h : Does (f ⟨⟩) (g s) b s'') : Does (modify g >>= f) s b s'' :=
  (does_modify g s).bind h

theorem Does.of_eq {q : Prog σ α} (h : Does p s a s') (heq : q = p) : Does q s a s' := heq ▸ h

/-! ## Loops -/

/-- A loop within so many rounds. The body leaves it with a result, or has the value of the next round. -/
def rounds (body : α → Prog σ (α ⊕ β)) (m : Nat) : Nat → α → σ → Option (β × σ)
  | 0, _, _ => none
  | n + 1, a, s =>
    match body a s m with
    | none => none
    | some (.inr b, s') => some (b, s')
    | some (.inl a', s') => rounds body m n a' s'

def repeated (body : α → Prog σ (α ⊕ β)) (a : α) : Prog σ β := fun s m => rounds body m m a s

variable {body : α → Prog σ (α ⊕ β)}

/-- What the loop does, if it has enough rounds left. -/
def Repeats (body : α → Prog σ (α ⊕ β)) (a : α) (s : σ) (b : β) (s' : σ) : Prop :=
  ∃ n, ∀ m k, n ≤ m → n ≤ k → rounds body m k a s = some (b, s')

theorem Repeats.leave (h : Does (body a) s (.inr b) s') : Repeats body a s b s' := by
  obtain ⟨n, hn⟩ := h
  refine ⟨n + 1, fun m k hm hk => ?_⟩
  obtain ⟨k, rfl⟩ : ∃ j, k = j + 1 := ⟨k - 1, by omega⟩
  rw [rounds, hn m (by omega)]

theorem Repeats.again (h : Does (body a) s (.inl a') s') (h' : Repeats body a' s' b s'') : Repeats body a s b s'' := by
  obtain ⟨n, hn⟩ := h
  obtain ⟨j, hj⟩ := h'
  refine ⟨n + j + 1, fun m k hm hk => ?_⟩
  obtain ⟨k, rfl⟩ : ∃ i, k = i + 1 := ⟨k - 1, by omega⟩
  rw [rounds, hn m (by omega)]
  exact hj m k (by omega) (by omega)

theorem Repeats.does (h : Repeats body a s b s') : Does (repeated body a) s b s' := by
  obtain ⟨n, hn⟩ := h
  exact ⟨n, fun m hm => hn m m hm hm⟩

end Prog
