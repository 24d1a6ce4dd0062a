import XcoreSdk.Lib.Machine
import XcoreSdk.Lib.Segment
/-!
# Sections of a log

Tasks issue items, each of them one at a time, and send them to a log. A task
can open sections, one inside another; an item is in those that its task had
open when it issued it. As long as nobody sends anything while another task has
a section open (`Alone`), the items of a section stand next to each other in the
log. The items of a task stand there in the order in which it issued them.
-/

variable {T E : Type*}

/-- What an item says about its origin: it is its task's how manieth one, and in which sections. -/
structure Stamp (T : Type*) where
  task : T
  number : Nat
  sections : List Nat
deriving DecidableEq

structure Log (T E : Type*) where
  /-- What a task has issued and not sent yet. -/
  pending : T → Option E
  /-- The sections a task has open, the last one first. -/
  sections : T → List Nat
  /-- The number of sections opened so far. -/
  opened : Nat
  issued : T → Nat
  sent : List E

namespace Log

inductive Act (T E : Type*)
  | issue (e : E)
  | send (t : T)
  | opens (t : T)
  | closes (t : T)

variable [DecidableEq T] (stamp : E → Stamp T)

def step (l : Log T E) : Act T E → Option (Log T E)
  | .issue e =>
    let t := (stamp e).task
    if (l.pending t).isNone ∧ stamp e = ⟨t, l.issued t + 1, l.sections t⟩ then
      some { l with
        pending := Function.update l.pending t (some e)
        issued := Function.update l.issued t (l.issued t + 1) }
    else none
  | .send t => (l.pending t).map fun e =>
      { l with pending := Function.update l.pending t none, sent := l.sent ++ [e] }
  | .opens t =>
    if (l.pending t).isNone then
      some { l with sections := Function.update l.sections t (l.opened :: l.sections t), opened := l.opened + 1 }
    else none
  | .closes t =>
    if (l.pending t).isNone then some { l with sections := Function.update l.sections t (l.sections t).tail }
    else none

def machine : Machine (Log T E) (Act T E) where
  init l := l = ⟨fun _ => none, fun _ => [], 0, fun _ => 0, []⟩
  step := step stamp

/-- Nobody sends anything while another task has a section open. -/
def Alone (l : Log T E) : Act T E → Prop
  | .send t => ∀ t', l.sections t' ≠ [] → t' = t
  | _ => True

/-- The items of section `x`. -/
def In (x : Nat) (e : E) : Prop := x ∈ (stamp e).sections

/-- The numbers of a task's items. -/
def numbers (t : T) (es : List E) : List Nat :=
  (es.filter fun e => (stamp e).task = t).map fun e => (stamp e).number

@[simp]
theorem numbers_append (t : T) (es es' : List E) :
    numbers stamp t (es ++ es') = numbers stamp t es ++ numbers stamp t es' := by
  simp [numbers]

theorem numbers_self {t : T} {e : E} (h : (stamp e).task = t) : numbers stamp t [e] = [(stamp e).number] := by
  simp [numbers, h]

theorem numbers_other {t : T} {e : E} (h : (stamp e).task ≠ t) : numbers stamp t [e] = [] := by
  simp [numbers, h]

/-- The item of a step. -/
def Act.issued : Act T E → Option E
  | .issue e => some e
  | _ => none

/-- A task's items: what it has sent and what is pending. -/
def items (l : Log T E) (t : T) : List E := l.sent.filter (fun e => (stamp e).task = t) ++ (l.pending t).toList

structure Ordered (l : Log T E) : Prop where
  pending : ∀ t e, l.pending t = some e → (stamp e).task = t ∧ (stamp e).sections = l.sections t
  /-- What a task has sent and what is pending is everything it has issued. -/
  numbers : ∀ t, numbers stamp t (l.sent ++ (l.pending t).toList) = List.range' 1 (l.issued t)

structure Sectioned (l : Log T E) : Prop where
  fresh : ∀ t, ∀ x ∈ l.sections t, x < l.opened
  sent_fresh : ∀ e ∈ l.sent, ∀ x ∈ (stamp e).sections, x < l.opened
  disjoint : ∀ t t' x, x ∈ l.sections t → x ∈ l.sections t' → t = t'
  /-- An open section is at the end of the log. -/
  trailing : ∀ t, ∀ x ∈ l.sections t, Trailing (In stamp x) l.sent ∧ ∀ e ∈ l.sent, In stamp x e → (stamp e).task = t
  contiguous : ∀ x, Contiguous (In stamp x) l.sent
  same : ∀ x, ∀ e ∈ l.sent, ∀ e' ∈ l.sent, In stamp x e → In stamp x e' → (stamp e).task = (stamp e').task

variable {stamp} {l l' : Log T E}

/-- The sections of a task that has nothing pending may change. -/
theorem Ordered.of_sections {t : T} {xs : List Nat} {opened : Nat} (h : Ordered stamp l) (hnone : l.pending t = none) :
    Ordered stamp { l with sections := Function.update l.sections t xs, opened } := by
  refine ⟨fun t' e he => ?_, h.numbers⟩
  have ht : t' ≠ t := fun heq => by
    subst heq
    rw [hnone] at he
    cases he
  dsimp only
  rw [Function.update_of_ne ht]
  exact h.pending t' e he

theorem Ordered.step {a : Act T E} (h : Ordered stamp l) (hs : step stamp l a = some l') : Ordered stamp l' := by
  cases a with
  | issue e =>
    simp only [Log.step] at hs
    split at hs
    case isFalse => cases hs
    rename_i hnone
    obtain ⟨hnone, hstamp⟩ := hnone
    rw [Option.isNone_iff_eq_none] at hnone
    cases hs
    refine ⟨fun t e' he' => ?_, fun t => ?_⟩
    · by_cases ht : t = (stamp e).task
      · subst ht
        dsimp only at he'
        rw [Function.update_self] at he'
        cases he'
        exact ⟨rfl, congrArg Stamp.sections hstamp⟩
      · dsimp only at he'
        rw [Function.update_of_ne ht] at he'
        exact h.pending t e' he'
    · by_cases ht : t = (stamp e).task
      · have hold := h.numbers (stamp e).task
        rw [hnone, Option.toList_none, List.append_nil] at hold
        subst ht
        dsimp only
        rw [Function.update_self, Function.update_self, Option.toList_some, numbers_append, numbers_self stamp rfl, hold,
          congrArg Stamp.number hstamp, List.range'_concat]
        simp [Nat.add_comm]
      · dsimp only
        rw [Function.update_of_ne ht, Function.update_of_ne ht]
        exact h.numbers t
  | send t =>
    obtain ⟨e, he, rfl⟩ := Option.map_eq_some_iff.1 hs
    obtain ⟨htask, -⟩ := h.pending t e he
    refine ⟨fun t' e' he' => ?_, fun t' => ?_⟩
    · by_cases ht : t' = t
      · subst ht
        simp at he'
      · dsimp only at he'
        rw [Function.update_of_ne ht] at he'
        exact h.pending t' e' he'
    · have hold := h.numbers t'
      by_cases ht : t' = t
      · subst ht
        rw [he] at hold
        dsimp only
        rwa [Function.update_self, Option.toList_none, List.append_nil]
      · dsimp only
        rw [numbers_append] at hold
        rw [Function.update_of_ne ht, numbers_append, numbers_append,
          numbers_other stamp (by rw [htask]; exact Ne.symm ht), List.append_nil]
        exact hold
  | opens t =>
    simp only [Log.step] at hs
    split at hs
    · rename_i hnone
      cases hs
      exact h.of_sections (Option.isNone_iff_eq_none.1 hnone)
    · cases hs
  | closes t =>
    simp only [Log.step] at hs
    split at hs
    · rename_i hnone
      cases hs
      exact h.of_sections (Option.isNone_iff_eq_none.1 hnone)
    · cases hs

/-- A step adds the item that it issues to its task's, behind the others. -/
theorem Ordered.items_step {a : Act T E} (h : Ordered stamp l) (hs : Log.step stamp l a = some l') (t : T) :
    items stamp l' t = items stamp l t ++ (a.issued.filter fun e => (stamp e).task = t).toList := by
  cases a with
  | issue e =>
    simp only [Log.step] at hs
    split at hs
    case isFalse => cases hs
    rename_i hguard
    have hnone := Option.isNone_iff_eq_none.1 hguard.1
    cases hs
    by_cases ht : t = (stamp e).task
    · subst ht
      simp [items, Act.issued, hnone, Option.filter]
    · simp [items, Act.issued, Ne.symm ht, Function.update_of_ne ht, Option.filter]
  | send t' =>
    obtain ⟨e, he, rfl⟩ := Option.map_eq_some_iff.1 hs
    obtain ⟨htask, -⟩ := h.pending t' e he
    by_cases ht : t = t'
    · subst ht
      simp [items, Act.issued, he, htask]
    · have hne : (stamp e).task ≠ t := by
        rw [htask]
        exact Ne.symm ht
      simp [items, Act.issued, hne, Function.update_of_ne ht]
  | opens t' =>
    simp only [Log.step] at hs
    split at hs
    · cases hs
      simp [items, Act.issued]
    · cases hs
  | closes t' =>
    simp only [Log.step] at hs
    split at hs
    · cases hs
      simp [items, Act.issued]
    · cases hs

/-- What is sent is in the open sections and in no others. -/
theorem Sectioned.send {t : T} {e : E} (h : Sectioned stamp l) (hpending : (stamp e).sections = l.sections t)
    (htask : (stamp e).task = t) (halone : ∀ t', l.sections t' ≠ [] → t' = t) :
    Sectioned stamp { l with pending := Function.update l.pending t none, sent := l.sent ++ [e] } := by
  have hmem : ∀ {x t'}, x ∈ l.sections t' → In stamp x e ∧ t' = t := fun {x t'} hx => by
    have ht := halone t' (List.ne_nil_of_mem hx)
    subst ht
    rw [In, hpending]
    exact ⟨hx, rfl⟩
  refine ⟨h.fresh, fun e' he' x hx => ?_, h.disjoint, fun t' x hx => ?_, fun x => ?_, fun x e' he' e'' he'' hx hx' => ?_⟩
  · rcases List.mem_append.1 he' with he' | he'
    · exact h.sent_fresh e' he' x hx
    · rw [List.mem_singleton.1 he', hpending] at hx
      exact h.fresh t x hx
  · obtain ⟨hin, rfl⟩ := hmem hx
    obtain ⟨htrailing, hsame⟩ := h.trailing t' x hx
    refine ⟨htrailing.append hin, fun e' he' hx' => ?_⟩
    rcases List.mem_append.1 he' with he' | he'
    · exact hsame e' he' hx'
    · rwa [List.mem_singleton.1 he']
  · by_cases hx : x ∈ l.sections t
    · exact ((h.trailing t x hx).1.append (hmem hx).1).contiguous
    · exact (h.contiguous x).append fun hin => hx (hpending ▸ hin)
  · have hopen : ∀ {e'}, e' ∈ l.sent → In stamp x e' → In stamp x e → (stamp e').task = (stamp e).task :=
      fun {e'} he' hx' hx => by
        rw [htask]
        exact (h.trailing t x (hpending ▸ hx)).2 e' he' hx'
    rcases List.mem_append.1 he' with hsent | hlast <;> rcases List.mem_append.1 he'' with hsent' | hlast'
    · exact h.same x e' hsent e'' hsent' hx hx'
    · rw [List.mem_singleton.1 hlast'] at hx' ⊢
      exact hopen hsent hx hx'
    · rw [List.mem_singleton.1 hlast] at hx ⊢
      exact (hopen hsent' hx' hx).symm
    · rw [List.mem_singleton.1 hlast, List.mem_singleton.1 hlast']

theorem Sectioned.opens {t : T} (h : Sectioned stamp l) : Sectioned stamp { l with
    sections := Function.update l.sections t (l.opened :: l.sections t), opened := l.opened + 1 } := by
  have hmem : ∀ {t' x}, x ∈ Function.update l.sections t (l.opened :: l.sections t) t' →
      x = l.opened ∧ t' = t ∨ x ∈ l.sections t' := fun {t' x} hx => by
    by_cases ht : t' = t
    · subst ht
      rw [Function.update_self, List.mem_cons] at hx
      exact hx.imp (fun hx => ⟨hx, rfl⟩) id
    · rw [Function.update_of_ne ht] at hx
      exact .inr hx
  have hnot : ∀ t', l.opened ∉ l.sections t' := fun t' hx => Nat.lt_irrefl _ (h.fresh t' _ hx)
  have hsent : ∀ e ∈ l.sent, ¬ In stamp l.opened e := fun e he hx =>
    Nat.lt_irrefl _ (h.sent_fresh e he _ hx)
  refine ⟨fun t' x hx => ?_, fun e he x hx => Nat.lt_succ_of_lt (h.sent_fresh e he x hx), fun t' t'' x hx hx' => ?_,
    fun t' x hx => ?_, h.contiguous, h.same⟩
  · rcases hmem hx with ⟨rfl, -⟩ | hx
    · exact Nat.lt_succ_self _
    · exact Nat.lt_succ_of_lt (h.fresh t' x hx)
  · rcases hmem hx with ⟨rfl, ht⟩ | hold <;> rcases hmem hx' with ⟨heq, ht'⟩ | hold'
    · exact ht.trans ht'.symm
    · exact absurd hold' (hnot t'')
    · exact absurd (heq ▸ hold) (hnot t')
    · exact h.disjoint t' t'' x hold hold'
  · rcases hmem hx with ⟨rfl, -⟩ | hx
    · exact ⟨.of_none hsent, fun e he hin => absurd hin (hsent e he)⟩
    · exact h.trailing t' x hx

theorem Sectioned.closes {t : T} (h : Sectioned stamp l) :
    Sectioned stamp { l with sections := Function.update l.sections t (l.sections t).tail } := by
  have hmem : ∀ {t' x}, x ∈ Function.update l.sections t (l.sections t).tail t' → x ∈ l.sections t' :=
    fun {t' x} hx => by
      by_cases ht : t' = t
      · subst ht
        rw [Function.update_self] at hx
        exact List.mem_of_mem_tail hx
      · rwa [Function.update_of_ne ht] at hx
  exact ⟨fun t' x hx => h.fresh t' x (hmem hx), h.sent_fresh, fun t' t'' x hx hx' => h.disjoint t' t'' x (hmem hx) (hmem hx'),
    fun t' x hx => h.trailing t' x (hmem hx), h.contiguous, h.same⟩

theorem Sectioned.step {a : Act T E} (h : Sectioned stamp l) (hordered : Ordered stamp l) (halone : Alone l a)
    (hs : step stamp l a = some l') : Sectioned stamp l' := by
  cases a with
  | issue e =>
    simp only [Log.step] at hs
    split at hs
    · cases hs
      exact ⟨h.fresh, h.sent_fresh, h.disjoint, h.trailing, h.contiguous, h.same⟩
    · cases hs
  | send t =>
    obtain ⟨e, he, rfl⟩ := Option.map_eq_some_iff.1 hs
    obtain ⟨htask, hpending⟩ := hordered.pending t e he
    exact h.send hpending htask halone
  | opens t =>
    simp only [Log.step] at hs
    split at hs
    · cases hs
      exact h.opens
    · cases hs
  | closes t =>
    simp only [Log.step] at hs
    split at hs
    · cases hs
      exact h.closes
    · cases hs

/-- In every run the sections stay in one piece and the items of a task in order. -/
theorem ordered_sectioned (h : (machine stamp).Reachable Alone l) : Ordered stamp l ∧ Sectioned stamp l := by
  refine h.inv (I := fun l => Ordered stamp l ∧ Sectioned stamp l) (fun l hl => ?_) fun l a l' ⟨ho, hs⟩ halone hstep =>
    ⟨ho.step hstep, hs.step ho halone hstep⟩
  obtain rfl : l = _ := hl
  refine ⟨⟨by simp, fun t => rfl⟩, by simp, by simp, by simp, by simp, fun x => ?_, by simp⟩
  exact (Trailing.of_none (by simp)).contiguous

end Log
