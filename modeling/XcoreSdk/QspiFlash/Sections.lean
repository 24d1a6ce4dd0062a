import XcoreSdk.QspiFlash.Locking
/-!
# The QSPI flash driver's lock: who holds it

Between a task's lock and its unlock the host's mutex is held by the actor of
the task, and the mutex of its client tile by the task. So while a section is
open, whatever is sent to the operation thread belongs to it.
-/

namespace QspiFlash
namespace Locking
open FreeRtos
variable {ι κ ρ : Type*}

/-! ## The host's mutex -/

/-- Whether an actor holds the mutex for its request. -/
def Local.crit : Local ι κ ρ → Nat
  | .send _ | .put_mutex _ => 1
  | _ => 0

/-- The mutex is held as often as the actor's sections and its request say. -/
structure Mutexed (s : State ι κ ρ) (depth : Actor ι κ → Nat) : Prop where
  free : s.mutex = none → ∀ a, depth a = 0 ∧ (s.actor a).crit = 0
  held : ∀ a c, s.mutex = some (a, c) → 0 < c ∧ c = depth a + (s.actor a).crit ∧
    ∀ a', a' ≠ a → depth a' = 0 ∧ (s.actor a').crit = 0

variable {s s' : State ι κ ρ} {depth depth' : Actor ι κ → Nat} {a : Actor ι κ}

theorem Mutexed.holder (h : Mutexed s depth) (ha : 0 < depth a + (s.actor a).crit) :
    s.mutex = some (a, depth a + (s.actor a).crit) ∧ ∀ a', a' ≠ a → depth a' = 0 ∧ (s.actor a').crit = 0 := by
  cases hm : s.mutex with
  | none =>
    have := h.free hm a
    omega
  | some m =>
    obtain ⟨a', c⟩ := m
    obtain ⟨-, hc, hothers⟩ := h.held a' c hm
    by_cases haa : a = a'
    · subst haa
      exact ⟨by rw [hc], hothers⟩
    · have := hothers a haa
      omega

theorem Mutexed.of_held (ha : 0 < depth a + (s.actor a).crit) (hm : s.mutex = some (a, depth a + (s.actor a).crit))
    (hothers : ∀ a', a' ≠ a → depth a' = 0 ∧ (s.actor a').crit = 0) : Mutexed s depth where
  free hnone := by
    rw [hm] at hnone
    cases hnone
  held a' c hc := by
    rw [hm] at hc
    cases hc
    exact ⟨ha, rfl, hothers⟩

theorem Mutexed.frame (h : Mutexed s depth) (hm : s'.mutex = s.mutex) (hd : ∀ a, depth' a = depth a)
    (hcrit : ∀ a, (s'.actor a).crit = (s.actor a).crit) : Mutexed s' depth' where
  free hnone a := by
    rw [hm] at hnone
    rw [hd, hcrit]
    exact h.free hnone a
  held a c hc := by
    rw [hm] at hc
    rw [hd, hcrit]
    obtain ⟨hpos, hcount, hothers⟩ := h.held a c hc
    exact ⟨hpos, hcount, fun a' ha' => by rw [hd, hcrit]; exact hothers a' ha'⟩

section
variable [DecidableEq ι] [DecidableEq κ] [DecidableEq ρ]

omit [DecidableEq ρ] in
/-- An actor takes the mutex. -/
theorem Mutexed.get {mutex : Mutex (Actor ι κ)} (h : Mutexed s depth) (hget : mutex_get s.mutex a = some mutex)
    (hm : s'.mutex = mutex) (ha : depth' a + (s'.actor a).crit = depth a + (s.actor a).crit + 1)
    (hd : ∀ a', a' ≠ a → depth' a' = depth a') (hcrit : ∀ a', a' ≠ a → (s'.actor a').crit = (s.actor a').crit) :
    Mutexed s' depth' := by
  have hgot : mutex = some (a, depth a + (s.actor a).crit + 1) ∧
      ∀ a', a' ≠ a → depth a' = 0 ∧ (s.actor a').crit = 0 := by
    unfold mutex_get at hget
    split at hget
    · rename_i hnone
      cases hget
      have := h.free hnone
      exact ⟨by rw [(this a).1, (this a).2], fun a' _ => this a'⟩
    · rename_i holder count hsome
      split at hget
      case isFalse => cases hget
      rename_i heq
      subst heq
      cases hget
      obtain ⟨-, hc, hothers⟩ := h.held _ _ hsome
      exact ⟨by rw [hc], hothers⟩
  refine .of_held (a := a) (by omega) (by rw [hm, hgot.1, ha]) fun a' ha' => ?_
  rw [hd a' ha', hcrit a' ha']
  exact hgot.2 a' ha'

omit [DecidableEq ρ] in
/-- An actor gives the mutex back. -/
theorem Mutexed.put (h : Mutexed s depth) (hpos : 0 < depth a + (s.actor a).crit) (hm : s'.mutex = mutex_put s.mutex a)
    (ha : depth' a + (s'.actor a).crit + 1 = depth a + (s.actor a).crit) (hd : ∀ a', a' ≠ a → depth' a' = depth a')
    (hcrit : ∀ a', a' ≠ a → (s'.actor a').crit = (s.actor a').crit) : Mutexed s' depth' := by
  obtain ⟨hholder, hothers⟩ := h.holder hpos
  have hothers' : ∀ a', a' ≠ a → depth' a' = 0 ∧ (s'.actor a').crit = 0 := fun a' ha' => by
    rw [hd a' ha', hcrit a' ha']
    exact hothers a' ha'
  rw [hholder] at hm
  by_cases hone : depth a + (s.actor a).crit = 1
  · have hnone : s'.mutex = none := by simp [hm, mutex_put, hone]
    refine ⟨fun _ a' => ?_, fun a' c hc => ?_⟩
    · by_cases haa : a' = a
      · subst haa
        omega
      · exact hothers' a' haa
    · rw [hnone] at hc
      cases hc
  · refine .of_held (a := a) (by omega) ?_ hothers'
    simp only [hm, mutex_put, if_true, if_neg hone, Option.some.injEq, Prod.mk.injEq, true_and]
    omega


end

/-! ## A client tile -/

/-- What there is of a client tile. -/
structure View (ι κ ρ : Type*) where
  mutex : Mutex ρ
  remote : ρ → Remote
  requests : List (Msg ι κ ρ)
  responses : Nat
  rpc : Local ι κ ρ
  sections : ρ → List Nat

def State.view (s : State ι κ ρ) (t : κ) : View ι κ ρ :=
  ⟨s.client_mutex t, s.remote t, s.requests t, s.responses t, s.actor (.rpc t), fun j => s.sections (.client t j)⟩

/-- How much more often than its sections say a task holds the tile's mutex,
before its call has been carried out and after that. -/
def Call.before : Call → Nat
  | .unlock => 0
  | _ => 1

def Call.after : Call → Nat
  | .lock => 0
  | _ => 1

/-- The message of a task's call. -/
def Msg.For (τ : Task ι κ ρ) : Msg ι κ ρ → Call → Prop
  | .lock τ', .lock => τ' = τ
  | .unlock τ', .unlock => τ' = τ
  | .op o, .op _ => o.task = τ
  | _, _ => False

/-- The tile's thread carries out a task's call. -/
def Local.Runs (τ : Task ι κ ρ) : Local ι κ ρ → Call → Prop
  | .lock τ', .lock => τ' = τ
  | .unlock τ', .unlock => τ' = τ
  | .get_mutex o, .op _ | .send o, .op _ | .put_mutex o, .op _ => o.task = τ
  | .wait, .op _ => True
  | _, _ => False

/-- Not in a call, or before the tile's mutex. -/
def Remote.Outside : Remote → Prop
  | .idle => True
  | .get_mutex c => c ≠ .unlock
  | _ => False

variable {t : κ} {j : ρ} {v v' : View ι κ ρ} {d count : Nat}

structure View.Quiet (v : View ι κ ρ) : Prop where
  requests : v.requests = []
  responses : v.responses = 0
  rpc : v.rpc = .idle

/-- The holder of the tile's mutex. -/
inductive View.Own (v : View ι κ ρ) (t : κ) (j : ρ) (count : Nat) : Prop
  | rest : (v.remote j).Outside → count = (v.sections j).length → v.Quiet → Own v t j count
  | call (c : Call) : v.remote j = .call c → count = (v.sections j).length + c.before →
      (c = .unlock → v.sections j ≠ []) → v.Quiet → Own v t j count
  | sent (c : Call) (m : Msg ι κ ρ) : v.remote j = .wait c → count = (v.sections j).length + c.before →
      (c = .unlock → v.sections j ≠ []) → v.requests = [m] → m.For (.client t j) c → v.responses = 0 → v.rpc = .idle →
      Own v t j count
  | running (c : Call) : v.remote j = .wait c → count = (v.sections j).length + c.before →
      (c = .unlock → v.sections j ≠ []) → v.requests = [] → v.responses = 0 → v.rpc.Runs (.client t j) c → Own v t j count
  | answered (c : Call) : v.remote j = .wait c → count = (v.sections j).length + c.after → v.requests = [] →
      v.responses = 0 → v.rpc = .respond → Own v t j count
  | received (c : Call) : v.remote j = .wait c → count = (v.sections j).length + c.after → v.requests = [] →
      v.responses = 1 → v.rpc = .idle → Own v t j count
  | put : v.remote j = .put_mutex → count = (v.sections j).length + 1 → v.Quiet → Own v t j count

structure View.Away (v : View ι κ ρ) (j : ρ) : Prop where
  outside : (v.remote j).Outside
  sections : v.sections j = []

/-- A tile whose thread has `d` sections open. -/
inductive Tile (v : View ι κ ρ) (t : κ) (d : Nat) : Prop
  | free : v.mutex = none → (∀ j, v.Away j) → v.Quiet → d = 0 → Tile v t d
  | held (j : ρ) (count : Nat) : v.mutex = some (j, count) → 0 < count → v.Own t j count →
      (∀ j', j' ≠ j → v.Away j') → d = (v.sections j).length → Tile v t d

theorem Remote.Outside.cases {pc : Remote} (h : pc.Outside) : pc = .idle ∨ ∃ c, pc = .get_mutex c := by
  cases pc with
  | idle => exact .inl rfl
  | get_mutex c => exact .inr ⟨c, rfl⟩
  | call | wait | put_mutex => exact h.elim

/-- The holder between its calls. -/
theorem View.Own.between (h : v.Own t j count) (hj : v.remote j = .idle ∨ ∃ c, v.remote j = .get_mutex c) :
    (v.remote j).Outside ∧ count = (v.sections j).length ∧ v.Quiet := by
  cases h with
  | rest ho hc hquiet => exact ⟨ho, hc, hquiet⟩
  | call _ hr | sent _ _ hr | running _ hr | answered _ hr | received _ hr | put hr =>
    rcases hj with hj | ⟨_, hj⟩
    · exact absurd (hr.symm.trans hj) nofun
    · exact absurd (hr.symm.trans hj) nofun

/-- The tile's thread is at work for the task that holds the tile's mutex. -/
theorem Tile.working (h : Tile v t d) (hidle : v.rpc ≠ .idle) :
    ∃ j count c, v.mutex = some (j, count) ∧ 0 < count ∧ v.remote j = .wait c ∧ v.requests = [] ∧ v.responses = 0 ∧
      (∀ j', j' ≠ j → v.Away j') ∧ d = (v.sections j).length ∧
      (count = (v.sections j).length + c.before ∧ (c = .unlock → v.sections j ≠ []) ∧ v.rpc.Runs (.client t j) c ∨
        count = (v.sections j).length + c.after ∧ v.rpc = .respond) := by
  cases h with
  | free _ _ hquiet => exact absurd hquiet.rpc hidle
  | held j count hm hpos hown haway hd =>
    cases hown with
    | rest _ _ hquiet => exact absurd hquiet.rpc hidle
    | call _ _ _ _ hquiet => exact absurd hquiet.rpc hidle
    | sent _ _ _ _ _ _ _ _ hrpc => exact absurd hrpc hidle
    | running c hr hc hu hreq hresp hrun =>
      exact ⟨j, count, c, hm, hpos, hr, hreq, hresp, haway, hd, .inl ⟨hc, hu, hrun⟩⟩
    | answered c hr hc hreq hresp hrpc =>
      exact ⟨j, count, c, hm, hpos, hr, hreq, hresp, haway, hd, .inr ⟨hc, hrpc⟩⟩
    | received _ _ _ _ _ hrpc => exact absurd hrpc hidle
    | put _ _ hquiet => exact absurd hquiet.rpc hidle

/-! ### The tile's thread -/

theorem Msg.For.start {m : Msg ι κ ρ} {τ : Task ι κ ρ} {c : Call} (h : m.For τ c) : m.start.Runs τ c := by
  cases m <;> cases c <;> exact h

theorem Tile.receive {m : Msg ι κ ρ} {rest : List (Msg ι κ ρ)} (h : Tile v t d) (hreq : v.requests = m :: rest) :
    Tile { v with requests := rest, rpc := m.start } t d := by
  cases h with
  | free _ _ hquiet => rw [hquiet.requests] at hreq; cases hreq
  | held j count hm hpos hown haway hd =>
    refine .held j count hm hpos ?_ (fun j' hj' => ⟨(haway j' hj').1, (haway j' hj').2⟩) hd
    cases hown with
    | rest _ _ hquiet => rw [hquiet.requests] at hreq; cases hreq
    | call _ _ _ _ hquiet => rw [hquiet.requests] at hreq; cases hreq
    | sent c m' hr hc hu hreq' hfor hresp hrpc =>
      rw [hreq'] at hreq
      cases hreq
      exact .running c hr hc hu rfl hresp hfor.start
    | running _ _ _ _ hreq' => rw [hreq'] at hreq; cases hreq
    | answered _ _ _ hreq' => rw [hreq'] at hreq; cases hreq
    | received _ _ _ hreq' => rw [hreq'] at hreq; cases hreq
    | put _ _ hquiet => rw [hquiet.requests] at hreq; cases hreq

/-- The thread goes on with the same call. -/
theorem Tile.work {pc : Local ι κ ρ} (h : Tile v t d) (hidle : v.rpc ≠ .idle) (hrespond : v.rpc ≠ .respond)
    (hpc : ∀ τ c, v.rpc.Runs τ c → pc.Runs τ c ∨ pc = .respond ∧ ∃ r, c = .op r) : Tile { v with rpc := pc } t d := by
  obtain ⟨j, count, c, hm, hpos, hr, hreq, hresp, haway, hd, ⟨hc, hu, hrun⟩ | ⟨-, hrpc⟩⟩ := h.working hidle
  · refine .held j count hm hpos ?_ (fun j' hj' => ⟨(haway j' hj').1, (haway j' hj').2⟩) hd
    rcases hpc _ _ hrun with hrun' | ⟨rfl, r, rfl⟩
    · exact .running c hr hc hu hreq hresp hrun'
    · exact .answered _ hr hc hreq hresp rfl
  · exact absurd hrpc hrespond

theorem Tile.respond (h : Tile v t d) (hrpc : v.rpc = .respond) :
    Tile { v with rpc := .idle, responses := v.responses + 1 } t d := by
  obtain ⟨j, count, c, hm, hpos, hr, hreq, hresp, haway, hd, ⟨-, -, hrun⟩ | ⟨hc, -⟩⟩ :=
    h.working (by rw [hrpc]; nofun)
  · rw [hrpc] at hrun
    exact hrun.elim
  · refine .held j count hm hpos ?_ (fun j' hj' => ⟨(haway j' hj').1, (haway j' hj').2⟩) hd
    exact .received c hr hc hreq (by rw [hresp]) rfl

section
variable [DecidableEq ρ]

theorem Tile.lock {τ : Task ι κ ρ} (h : Tile v t d) (hrpc : v.rpc = .lock τ) (x : Nat) :
    ∃ j, τ = .client t j ∧
      Tile { v with rpc := .respond, sections := Function.update v.sections j (x :: v.sections j) } t (d + 1) := by
  obtain ⟨j, count, c, hm, hpos, hr, hreq, hresp, haway, hd, ⟨hc, -, hrun⟩ | ⟨-, hrpc'⟩⟩ :=
    h.working (by rw [hrpc]; nofun)
  · rw [hrpc] at hrun
    cases c with
    | lock =>
      refine ⟨j, hrun, .held j count hm hpos ?_ (fun j' hj' => ⟨(haway j' hj').1, ?_⟩) ?_⟩
      · refine .answered .lock hr ?_ hreq hresp rfl
        simp only [Function.update_self, List.length_cons, Call.after, hc, Call.before]
      · exact (Function.update_of_ne hj' ..).trans (haway j' hj').2
      · simp [hd]
    | _ => exact hrun.elim
  · rw [hrpc] at hrpc'
    cases hrpc'

theorem Tile.unlock {τ : Task ι κ ρ} (h : Tile v t d) (hrpc : v.rpc = .unlock τ) :
    0 < d ∧ ∃ j, τ = .client t j ∧
      Tile { v with rpc := .respond, sections := Function.update v.sections j (v.sections j).tail } t (d - 1) := by
  obtain ⟨j, count, c, hm, hpos, hr, hreq, hresp, haway, hd, ⟨hc, hu, hrun⟩ | ⟨-, hrpc'⟩⟩ :=
    h.working (by rw [hrpc]; nofun)
  · rw [hrpc] at hrun
    cases c with
    | unlock =>
      have hlen := List.length_pos_iff.2 (hu rfl)
      refine ⟨by omega, j, hrun, .held j count hm hpos ?_ (fun j' hj' => ⟨(haway j' hj').1, ?_⟩) ?_⟩
      · refine .answered .unlock hr ?_ hreq hresp rfl
        simp only [Function.update_self, List.length_tail, Call.after, hc, Call.before]
        omega
      · exact (Function.update_of_ne hj' ..).trans (haway j' hj').2
      · simp [hd]
    | _ => exact hrun.elim
  · rw [hrpc] at hrpc'
    cases hrpc'

/-! ### The tile's tasks -/

/-- A task other than the holder, or the holder between its calls. -/
theorem Tile.outside {pc : Remote} (h : Tile v t d) (hj : (v.remote j).Outside) (hpc : pc.Outside) :
    Tile { v with remote := Function.update v.remote j pc } t d := by
  have houtside : ∀ j', (v.remote j').Outside → (Function.update v.remote j pc j').Outside := fun j' hj' => by
    rw [Function.update_apply]
    split
    · exact hpc
    · exact hj'
  cases h with
  | free hm haway hquiet hd =>
    exact .free hm (fun j' => ⟨houtside j' (haway j').1, (haway j').2⟩) ⟨hquiet.1, hquiet.2, hquiet.3⟩ hd
  | held j' count hm hpos hown haway hd =>
    refine .held j' count hm hpos ?_ (fun i hi => ⟨houtside i (haway i hi).1, (haway i hi).2⟩) hd
    by_cases hjj : j' = j
    · subst hjj
      obtain ⟨-, hc, hquiet⟩ := hown.between hj.cases
      exact .rest (houtside j' hj) hc ⟨hquiet.1, hquiet.2, hquiet.3⟩
    · have hsame : Function.update v.remote j pc j' = v.remote j' := Function.update_of_ne hjj ..
      cases hown with
      | rest ho hc hquiet => exact .rest (houtside j' ho) hc ⟨hquiet.1, hquiet.2, hquiet.3⟩
      | call c hr hc hu hquiet => exact .call c (hsame.trans hr) hc hu ⟨hquiet.1, hquiet.2, hquiet.3⟩
      | sent c m hr hc hu hreq hfor hresp hrpc => exact .sent c m (hsame.trans hr) hc hu hreq hfor hresp hrpc
      | running c hr hc hu hreq hresp hrun => exact .running c (hsame.trans hr) hc hu hreq hresp hrun
      | answered c hr hc hreq hresp hrpc => exact .answered c (hsame.trans hr) hc hreq hresp hrpc
      | received c hr hc hreq hresp hrpc => exact .received c (hsame.trans hr) hc hreq hresp hrpc
      | put hr hc hquiet => exact .put (hsame.trans hr) hc ⟨hquiet.1, hquiet.2, hquiet.3⟩

/-- A task inside a call, or with an open section, is the holder. -/
theorem Tile.holder (h : Tile v t d) (hj : ¬ (v.remote j).Outside ∨ v.sections j ≠ []) :
    ∃ count, v.mutex = some (j, count) ∧ 0 < count ∧ v.Own t j count ∧ (∀ j', j' ≠ j → v.Away j') ∧
      d = (v.sections j).length := by
  cases h with
  | free _ haway =>
    rcases hj with hj | hj
    · exact absurd (haway j).1 hj
    · exact absurd (haway j).2 hj
  | held j' count hm hpos hown haway hd =>
    by_cases hjj : j = j'
    · subst hjj
      exact ⟨count, hm, hpos, hown, haway, hd⟩
    · rcases hj with hj | hj
      · exact absurd (haway j hjj).1 hj
      · exact absurd (haway j hjj).2 hj

theorem Tile.start_unlock (h : Tile v t d) (hidle : v.remote j = .idle) (hj : v.sections j ≠ []) :
    Tile { v with remote := Function.update v.remote j (.call .unlock) } t d := by
  obtain ⟨count, hm, hpos, hown, haway, hd⟩ := h.holder (.inr hj)
  refine .held j count hm hpos ?_ (fun j' hj' => ⟨?_, (haway j' hj').2⟩) hd
  · obtain ⟨-, hc, hquiet⟩ := hown.between (.inl hidle)
    exact .call .unlock (Function.update_self ..) hc (fun _ => hj) ⟨hquiet.1, hquiet.2, hquiet.3⟩
  · dsimp only
    rw [Function.update_of_ne hj']
    exact (haway j' hj').1


/-- A task gets the tile's mutex. -/
theorem Tile.get_mutex {c : Call} {mutex : Mutex ρ} (h : Tile v t d) (hj : v.remote j = .get_mutex c)
    (hget : mutex_get v.mutex j = some mutex) :
    Tile { v with mutex, remote := Function.update v.remote j (.call c) } t d := by
  have hout : (v.remote j).Outside := by
    cases h with
    | free _ haway => exact (haway j).1
    | held j' count _ _ hown haway _ =>
      by_cases hjj : j = j'
      · subst hjj
        exact (hown.between (.inr ⟨c, hj⟩)).1
      · exact (haway j hjj).1
  rw [hj] at hout
  have hbefore : c.before = 1 := by cases c <;> first | rfl | exact absurd rfl hout
  have hother : ∀ j', j' ≠ j → Function.update v.remote j (.call c) j' = v.remote j' := fun j' hj' =>
    Function.update_of_ne hj' ..
  unfold mutex_get at hget
  split at hget
  · rename_i hnone
    cases hget
    cases h with
    | held _ _ hm => rw [hnone] at hm; cases hm
    | free _ haway hquiet hd =>
      have hlen : (v.sections j).length = 0 := by rw [(haway j).2]; rfl
      refine .held j 1 rfl Nat.one_pos (.call c (Function.update_self ..) ?_ (fun hu => absurd hu hout)
        ⟨hquiet.1, hquiet.2, hquiet.3⟩) (fun j' hj' => ⟨?_, (haway j').2⟩) (hd.trans hlen.symm)
      · dsimp only
        omega
      · dsimp only
        rw [hother j' hj']
        exact (haway j').1
  · rename_i holder count' hsome
    split at hget
    case isFalse => cases hget
    rename_i heq
    subst heq
    cases hget
    cases h with
    | free hm => rw [hsome] at hm; cases hm
    | held j' count hm hpos hown haway hd =>
      rw [hsome] at hm
      cases hm
      refine .held holder (count' + 1) rfl (Nat.succ_pos _) ?_ (fun j' hj' => ⟨?_, (haway j' hj').2⟩) hd
      · obtain ⟨-, hc, hquiet⟩ := hown.between (.inr ⟨c, hj⟩)
        refine .call c (Function.update_self ..) ?_ (fun hu => absurd hu hout) ⟨hquiet.1, hquiet.2, hquiet.3⟩
        dsimp only
        omega
      · dsimp only
        rw [hother j' hj']
        exact (haway j' hj').1

/-- The holder sends the message of its call. -/
theorem Tile.call {c : Call} {m : Msg ι κ ρ} (h : Tile v t d) (hj : v.remote j = .call c) (hm : m.For (.client t j) c) :
    v.Quiet ∧ Tile { v with requests := v.requests ++ [m], remote := Function.update v.remote j (.wait c) } t d := by
  obtain ⟨count, hmutex, hpos, hown, haway, hd⟩ := h.holder (j := j) (.inl (by rw [hj]; exact id))
  cases hown with
  | rest ho => rw [hj] at ho; exact ho.elim
  | call c' hr hc hu hquiet =>
    rw [hj] at hr
    cases hr
    refine ⟨hquiet, .held j count hmutex hpos (.sent c m (Function.update_self ..) hc hu ?_ hm hquiet.responses hquiet.rpc)
      (fun j' hj' => ⟨?_, (haway j' hj').2⟩) hd⟩
    · rw [hquiet.requests]
      rfl
    · dsimp only
      rw [Function.update_of_ne hj']
      exact (haway j' hj').1
  | sent _ _ hr => rw [hj] at hr; cases hr
  | running _ hr => rw [hj] at hr; cases hr
  | answered _ hr => rw [hj] at hr; cases hr
  | received _ hr => rw [hj] at hr; cases hr
  | put hr => rw [hj] at hr; cases hr

/-- The holder takes the response. -/
theorem Tile.answered {c : Call} {responses : Nat} (h : Tile v t d) (hj : v.remote j = .wait c)
    (hget : v.responses = responses + 1) :
    Tile { v with responses, remote := Function.update v.remote j c.answered } t d := by
  obtain ⟨count, hmutex, hpos, hown, haway, hd⟩ := h.holder (j := j) (.inl (by rw [hj]; exact id))
  cases hown with
  | rest ho => rw [hj] at ho; exact ho.elim
  | call _ hr => rw [hj] at hr; cases hr
  | sent _ _ _ _ _ _ _ hresp => omega
  | running _ _ _ _ _ hresp => omega
  | answered _ _ _ _ hresp => omega
  | put hr => rw [hj] at hr; cases hr
  | received c' hr hc hreq hresp hrpc =>
    rw [hj] at hr
    cases hr
    have hquiet : View.Quiet { v with responses, remote := Function.update v.remote j c.answered } :=
      ⟨hreq, by dsimp only; omega, hrpc⟩
    refine .held j count hmutex hpos ?_ (fun j' hj' => ⟨?_, (haway j' hj').2⟩) hd
    · cases c with
      | lock => exact .rest (by simp [Call.answered, Remote.Outside]) hc hquiet
      | unlock => exact .put (by simp [Call.answered]) hc hquiet
      | op r =>
        cases hrest : r.rest with
        | some rest => exact .call (.op rest) (by simp [Call.answered, hrest]) hc nofun hquiet
        | none => exact .put (by simp [Call.answered, hrest]) hc hquiet
    · dsimp only
      rw [Function.update_of_ne hj']
      exact (haway j' hj').1

/-- The holder gives the tile's mutex back. -/
theorem Tile.put (h : Tile v t d) (hj : v.remote j = .put_mutex) :
    Tile { v with mutex := mutex_put v.mutex j, remote := Function.update v.remote j .idle } t d := by
  obtain ⟨count, hmutex, hpos, hown, haway, hd⟩ := h.holder (j := j) (.inl (by rw [hj]; exact id))
  cases hown with
  | rest ho => rw [hj] at ho; exact ho.elim
  | call _ hr => rw [hj] at hr; cases hr
  | sent _ _ hr => rw [hj] at hr; cases hr
  | running _ hr => rw [hj] at hr; cases hr
  | answered _ hr => rw [hj] at hr; cases hr
  | received _ hr => rw [hj] at hr; cases hr
  | put _ hc hquiet =>
    have hidle : (Function.update v.remote j .idle j).Outside := by simp [Remote.Outside]
    have haway' : ∀ j', j' ≠ j → View.Away { v with
        mutex := mutex_put v.mutex j, remote := Function.update v.remote j .idle } j' := fun j' hj' => by
      refine ⟨?_, (haway j' hj').2⟩
      dsimp only
      rw [Function.update_of_ne hj']
      exact (haway j' hj').1
    by_cases hone : count = 1
    · have hnil : v.sections j = [] := List.length_eq_zero_iff.1 (by omega)
      refine .free (by simp [mutex_put, hmutex, hone]) (fun j' => ?_) ⟨hquiet.1, hquiet.2, hquiet.3⟩ (by rw [hd, hnil]; rfl)
      by_cases hjj : j' = j
      · subst hjj
        exact ⟨hidle, hnil⟩
      · exact haway' j' hjj
    · refine .held j (count - 1) (by simp [mutex_put, hmutex, hone]) (by omega)
        (.rest hidle (by dsimp only; omega) ⟨hquiet.1, hquiet.2, hquiet.3⟩) haway' hd


end

end Locking
end QspiFlash
