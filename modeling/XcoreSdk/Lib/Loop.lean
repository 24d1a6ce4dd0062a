import Mathlib.Data.Sum.Basic
/-!
# Loops

A loop is its body: from the values of its variables it goes round once more
(`Sum.inl`) or leaves with a result (`Sum.inr`). `run` is the loop with a bound
on its rounds, `Ends` says that it leaves at all. The rules are the ones of a
`while` loop: an invariant gives what holds of the result, and with a variant
also that there is one; a body that goes round from every state of the
invariant never leaves.
-/

namespace Loop
variable {σ ρ : Type*}

/-- The result of the loop, where it leaves within so many rounds. -/
def run (body : σ → σ ⊕ ρ) : Nat → σ → Option ρ
  | 0, _ => none
  | rounds + 1, s =>
    match body s with
    | .inl s' => run body rounds s'
    | .inr r => some r

/-- The loop leaves with this result. -/
def Ends (body : σ → σ ⊕ ρ) (s : σ) (r : ρ) : Prop := ∃ rounds, run body rounds s = some r

variable {body : σ → σ ⊕ ρ} {s s' : σ} {r r' : ρ} {I : σ → Prop} {Q : ρ → Prop}

theorem run_inl (h : body s = .inl s') (rounds : Nat) : run body (rounds + 1) s = run body rounds s' := by
  rw [run, h]

theorem run_inr (h : body s = .inr r) (rounds : Nat) : run body (rounds + 1) s = some r := by
  rw [run, h]

theorem ends_inl (h : body s = .inl s') (hr : Ends body s' r) : Ends body s r := by
  obtain ⟨rounds, hr⟩ := hr
  exact ⟨rounds + 1, (run_inl h rounds).trans hr⟩

theorem ends_inr (h : body s = .inr r) : Ends body s r := ⟨1, run_inr h 0⟩

/-- A loop that leaves goes round first, or does so at once. -/
theorem Ends.cases (h : Ends body s r) : (∃ s', body s = .inl s' ∧ Ends body s' r) ∨ body s = .inr r := by
  obtain ⟨rounds, h⟩ := h
  cases rounds with
  | zero => cases h
  | succ rounds =>
    rcases hb : body s with s' | r'
    · rw [run_inl hb] at h
      exact .inl ⟨s', rfl, rounds, h⟩
    · rw [run_inr hb] at h
      exact .inr (congrArg Sum.inr (Option.some.inj h))

theorem run_mono {rounds : Nat} (h : run body rounds s = some r) (more : Nat) :
    run body (rounds + more) s = some r := by
  induction rounds generalizing s with
  | zero => cases h
  | succ rounds ih =>
    rw [Nat.add_right_comm]
    rcases hb : body s with s' | r'
    · rw [run_inl hb] at h ⊢
      exact ih h
    · rw [run_inr hb] at h ⊢
      exact h

theorem Ends.unique (h : Ends body s r) (h' : Ends body s r') : r = r' := by
  obtain ⟨n, h⟩ := h
  obtain ⟨m, h'⟩ := h'
  have hr := run_mono h m
  rw [Nat.add_comm, run_mono h' n] at hr
  exact (Option.some.inj hr).symm

/-- The loop ends from one state as it does from another. -/
def Leads (body : σ → σ ⊕ ρ) (s s' : σ) : Prop := ∀ r, Ends body s' r → Ends body s r

theorem Leads.refl : Leads body s s := fun _ h => h

theorem Leads.trans {s'' : σ} (h : Leads body s s') (h' : Leads body s' s'') : Leads body s s'' :=
  fun r hr => h r (h' r hr)

theorem leads_inl (h : body s = .inl s') : Leads body s s' := fun _ => ends_inl h

/-- States with the same round lead to each other. -/
theorem leads_of_eq (h : body s = body s') : Leads body s s' := fun r hr => by
  rcases hr.cases with ⟨s'', hb, hends⟩ | hb
  · exact ends_inl (h.trans hb) hends
  · exact ends_inr (h.trans hb)

/-- What the body keeps from round to round gives what holds of the result. -/
theorem run_post {rounds : Nat} (hround : ∀ s s', I s → body s = .inl s' → I s')
    (hleave : ∀ s r, I s → body s = .inr r → Q r) (hs : I s) (h : run body rounds s = some r) : Q r := by
  induction rounds generalizing s with
  | zero => cases h
  | succ rounds ih =>
    rcases hb : body s with s' | r'
    · rw [run_inl hb] at h
      exact ih (hround s s' hs hb) h
    · rw [run_inr hb] at h
      obtain rfl := Option.some.inj h
      exact hleave s r' hs hb

/-- A loop whose rounds all lower a variant leaves. -/
theorem ends_of_variant (variant : σ → Nat) (hround : ∀ s s', I s → body s = .inl s' → I s' ∧ variant s' < variant s)
    (hleave : ∀ s r, I s → body s = .inr r → Q r) (hs : I s) : ∃ r, Ends body s r ∧ Q r := by
  induction h : variant s using Nat.strongRecOn generalizing s with
  | ind n ih =>
    rcases hb : body s with s' | r
    · obtain ⟨hs', hlt⟩ := hround s s' hs hb
      obtain ⟨r, hr, hq⟩ := ih _ (h ▸ hlt) hs' rfl
      exact ⟨r, ends_inl hb hr, hq⟩
    · exact ⟨r, ends_inr hb, hleave s r hs hb⟩

/-- The variant bounds the rounds. -/
theorem run_of_variant (variant : σ → Nat) (hround : ∀ s s', body s = .inl s' → variant s' < variant s) {rounds : Nat}
    (h : variant s < rounds) : ∃ r, run body rounds s = some r := by
  induction rounds generalizing s with
  | zero => exact absurd h (Nat.not_lt_zero _)
  | succ rounds ih =>
    rcases hb : body s with s' | r
    · rw [run_inl hb]
      exact ih (Nat.lt_of_lt_of_le (hround s s' hb) (Nat.le_of_lt_succ h))
    · exact ⟨r, run_inr hb rounds⟩

/-- A loop whose rounds are the images of another's. -/
theorem run_map {τ ρ' : Type*} {body' : τ → τ ⊕ ρ'} {f : σ → τ} {g : ρ → ρ'}
    (h : ∀ s, body' (f s) = Sum.map f g (body s)) (rounds : Nat) (s : σ) :
    run body' rounds (f s) = (run body rounds s).map g := by
  induction rounds generalizing s with
  | zero => rfl
  | succ rounds ih =>
    have hbody := h s
    rcases hb : body s with s' | r
    · rw [hb] at hbody
      rw [run_inl hb, run_inl hbody]
      exact ih s'
    · rw [hb] at hbody
      rw [run_inr hb, run_inr hbody]
      rfl

/-- A loop that goes round from every state of an invariant never leaves. -/
theorem run_none (hround : ∀ s, I s → ∃ s', body s = .inl s' ∧ I s') (hs : I s) (rounds : Nat) :
    run body rounds s = none := by
  induction rounds generalizing s with
  | zero => rfl
  | succ rounds ih =>
    obtain ⟨s', hb, hs'⟩ := hround s hs
    rw [run_inl hb, ih hs']

end Loop
