import XcoreSdk.QspiFlash.Held
import XcoreSdk.Lib.Log
/-!
# Sections of the QSPI flash are atomic

What the tasks send to the operation thread is a log with sections: a request is
pending from its call until its actor, which then holds the mutex, sends it.
The operation thread performs what was sent in the order in which it was sent.
-/

namespace QspiFlash
namespace Locking
open FreeRtos
variable {ι κ ρ : Type*}

/-! ## What is pending -/

def Op.stamp (o : Op ι κ ρ) : Stamp (Task ι κ ρ) := ⟨o.task, o.number, o.sections⟩

def Local.unsent : Local ι κ ρ → Option (Op ι κ ρ)
  | .get_mutex o | .send o => some o
  | _ => none

/-- A client tile's request is in its message, or with the thread that serves the tile. -/
def View.unsent (v : View ι κ ρ) : Option (Op ι κ ρ) :=
  match v.rpc, v.requests with
  | .idle, [.op o] => some o
  | pc, _ => pc.unsent

section
variable [DecidableEq ι] [DecidableEq κ] [DecidableEq ρ]

def State.unsent (s : State ι κ ρ) : Task ι κ ρ → Option (Op ι κ ρ)
  | .host i => (s.actor (.host i)).unsent
  | .client t j => (s.view t).unsent.filter (·.task = .client t j)

def State.log (s : State ι κ ρ) : Log (Task ι κ ρ) (Op ι κ ρ) := ⟨s.unsent, s.sections, s.locked, s.issued, s.sent⟩

end

variable {s s' : State ι κ ρ} {v : View ι κ ρ} {depth : Actor ι κ → Nat} {d : Nat} {a : Actor ι κ} {i : ι} {t : κ} {j : ρ}
  {τ : Task ι κ ρ} {o : Op ι κ ρ}

theorem View.unsent_idle (hrpc : v.rpc = .idle) (hreq : v.requests = []) : v.unsent = none := by
  simp [View.unsent, hrpc, hreq, Local.unsent]

theorem View.unsent_busy (hrpc : v.rpc ≠ .idle) : v.unsent = v.rpc.unsent := by
  unfold View.unsent
  split
  · rename_i hidle _
    exact absurd hidle hrpc
  · rfl

theorem View.Quiet.unsent (h : v.Quiet) : v.unsent = none := View.unsent_idle h.rpc h.requests

/-- What is pending on a client tile is of the task that holds its mutex. -/
theorem Tile.unsent (h : Tile v t d) (ho : v.unsent = some o) : ∃ j count, o.task = .client t j ∧
    v.mutex = some (j, count) ∧ ∀ j', j' ≠ j → v.sections j' = [] := by
  cases h with
  | free _ _ hquiet =>
    rw [hquiet.unsent] at ho
    cases ho
  | held j count hm _ hown haway =>
    refine ⟨j, count, ?_, hm, fun j' hj' => (haway j' hj').2⟩
    cases hown with
    | rest _ _ hquiet | call _ _ _ _ hquiet | put _ _ hquiet =>
      rw [hquiet.unsent] at ho
      cases ho
    | sent c m _ _ _ hreq hfor _ hrpc =>
      cases m with
      | op o' =>
        simp only [View.unsent, hrpc, hreq, Option.some.injEq] at ho
        subst ho
        cases c <;> first | exact hfor | exact hfor.elim
      | _ => simp [View.unsent, hrpc, hreq, Local.unsent] at ho
    | running c _ _ _ hreq _ hrun =>
      unfold View.unsent at ho
      rw [hreq] at ho
      cases hrpc : v.rpc with
      | get_mutex o' | send o' =>
        rw [hrpc] at ho hrun
        cases ho
        cases c <;> first | exact hrun | exact hrun.elim
      | _ => simp [hrpc, Local.unsent] at ho
    | answered _ _ _ hreq _ hrpc | received _ _ _ hreq _ hrpc => simp [View.unsent, hreq, hrpc, Local.unsent] at ho

theorem Tile.receive_unsent {m : Msg ι κ ρ} {rest : List (Msg ι κ ρ)} (h : Tile v t d) (hreq : v.requests = m :: rest)
    (hrpc : v.rpc = .idle) : v.unsent = m.start.unsent := by
  have hone : rest = [] := by
    cases h with
    | free _ _ hquiet => rw [hquiet.requests] at hreq; cases hreq
    | held j count hm hpos hown =>
      cases hown with
      | rest _ _ hquiet | call _ _ _ _ hquiet | put _ _ hquiet => rw [hquiet.requests] at hreq; cases hreq
      | sent _ _ _ _ _ hreq' => rw [hreq'] at hreq; cases hreq; rfl
      | running _ _ _ _ hreq' => rw [hreq'] at hreq; cases hreq
      | answered _ _ _ hreq' | received _ _ _ hreq' => rw [hreq'] at hreq; cases hreq
  subst hone
  cases m <;> simp [View.unsent, hrpc, hreq, Msg.start, Local.unsent]

section
variable [DecidableEq ι] [DecidableEq κ] [DecidableEq ρ]

theorem unsent_same (hhosts : ∀ i, (s'.actor (.host i)).unsent = (s.actor (.host i)).unsent)
    (hviews : ∀ t, (s'.view t).unsent = (s.view t).unsent) : s'.unsent = s.unsent := by
  funext τ
  cases τ with
  | host i => exact hhosts i
  | client t j => simp only [State.unsent, hviews]

theorem unsent_host (i : ι) (hhosts : ∀ i', i' ≠ i → s'.actor (.host i') = s.actor (.host i'))
    (hviews : ∀ t, (s'.view t).unsent = (s.view t).unsent) :
    s'.unsent = Function.update s.unsent (.host i) (s'.actor (.host i)).unsent := by
  funext τ
  cases τ with
  | host i' =>
    by_cases hi : i' = i
    · subst hi
      rw [Function.update_self]
      rfl
    · rw [Function.update_of_ne (by simpa using hi)]
      simp only [State.unsent, hhosts i' hi]
  | client t j =>
    rw [Function.update_of_ne (by simp)]
    simp only [State.unsent, hviews]

/-- What is pending changes on a client tile, from or to a request of one task. -/
theorem unsent_client (t : κ) (j : ρ) (hhosts : ∀ i, s'.actor (.host i) = s.actor (.host i))
    (hviews : ∀ t', t' ≠ t → (s'.view t').unsent = (s.view t').unsent)
    (hold : ∀ o, (s.view t).unsent = some o → o.task = .client t j)
    (hnew : ∀ o, (s'.view t).unsent = some o → o.task = .client t j) :
    s'.unsent = Function.update s.unsent (.client t j) (s'.view t).unsent := by
  funext τ
  cases τ with
  | host i =>
    rw [Function.update_of_ne (by simp)]
    simp only [State.unsent, hhosts]
  | client t' j' =>
    by_cases ht : t' = t
    · subst ht
      by_cases hj : j' = j
      · subst hj
        rw [Function.update_self]
        simp only [State.unsent]
        cases hv : (s'.view t').unsent with
        | none => rfl
        | some o => simp [hnew o hv]
      · have hne : ∀ o : Op ι κ ρ, o.task = .client t' j → ¬ o.task = .client t' j' := fun o ho ho' => by
          rw [ho] at ho'
          exact hj (Task.client.inj ho').2.symm
        rw [Function.update_of_ne (by simpa using hj)]
        simp only [State.unsent]
        rw [Option.filter_eq_none_iff.2 fun o ho => by simpa using hne o (hnew o ho),
          Option.filter_eq_none_iff.2 fun o ho => by simpa using hne o (hold o ho)]
    · rw [Function.update_of_ne (by simp [ht])]
      simp only [State.unsent, hviews t' ht]

/-! ## Alone -/

omit [DecidableEq ι] [DecidableEq κ] in
theorem Held.depth_pos (h : Held s depth) (hne : s.sections τ ≠ []) : 0 < depth τ.actor := by
  have hlen := List.length_pos_of_ne_nil hne
  cases τ with
  | host i =>
    have := (h.hosts i).2
    simp only [Task.actor]
    omega
  | client t j =>
    obtain ⟨_, -, -, -, -, hd⟩ := (h.tiles t).holder (j := j) (.inr hne)
    have hview : (s.view t).sections j = s.sections (.client t j) := rfl
    simp only [Task.actor]
    rw [hd, hview]
    exact hlen

/-- What an actor is about to send is of a task of its own. -/
theorem Held.send_task (h : Held s depth) (hpc : s.actor a = .send o) : o.task.actor = a ∧ s.unsent o.task = some o := by
  cases a with
  | host i =>
    have hof := (h.hosts i).1
    rw [hpc] at hof
    have htask : o.task = .host i := hof
    simp [htask, Task.actor, State.unsent, hpc, Local.unsent]
  | rpc t =>
    have hunsent : (s.view t).unsent = some o := by
      have hrpc : (s.view t).rpc = .send o := hpc
      rw [View.unsent_busy (by simp [hrpc]), hrpc]
      rfl
    obtain ⟨j, -, htask, -⟩ := (h.tiles t).unsent hunsent
    simp [htask, Task.actor, State.unsent, hunsent]

/-- While an actor sends, nobody but the task it sends for has a section open. -/
theorem Held.alone (h : Held s depth) (hpc : s.actor a = .send o) (hne : s.sections τ ≠ []) : τ = o.task := by
  have hcrit : (s.actor a).crit = 1 := by rw [hpc]; rfl
  obtain ⟨-, hothers⟩ := h.mutexed.holder (a := a) (by omega)
  have hdepth := h.depth_pos hne
  have hactor : τ.actor = a := by
    by_contra hactor
    have := (hothers τ.actor hactor).1
    omega
  obtain ⟨htask, hunsent⟩ := h.send_task hpc
  cases a with
  | host i =>
    cases τ with
    | host i' =>
      cases ho : o.task with
      | host i'' =>
        rw [ho] at htask
        rw [← htask] at hactor
        cases hactor
        rfl
      | client t j => rw [ho] at htask; cases htask
    | client t j => cases hactor
  | rpc t =>
    have hview : (s.view t).unsent = some o := by
      have hrpc : (s.view t).rpc = .send o := hpc
      rw [View.unsent_busy (by simp [hrpc]), hrpc]
      rfl
    obtain ⟨j, -, ho, -, hsections⟩ := (h.tiles t).unsent hview
    cases τ with
    | host i' => cases hactor
    | client t' j' =>
      cases hactor
      by_cases hj : j' = j
      · rw [hj, ho]
      · exact absurd (hsections j' hj) hne

/-! ## The log -/

theorem log_same (hunsent : s'.unsent = s.unsent) (hsections : s'.sections = s.sections) (hlocked : s'.locked = s.locked)
    (hissued : s'.issued = s.issued) (hsent : s'.sent = s.sent) : s'.log = s.log := by
  simp only [State.log, hunsent, hsections, hlocked, hissued, hsent]

theorem log_issue {r : Request} (hnone : s.unsent τ = none)
    (hunsent : s'.unsent = Function.update s.unsent τ (some (s.issue τ r)))
    (hissued : s'.issued = Function.update s.issued τ (s.issued τ + 1)) (hsections : s'.sections = s.sections)
    (hlocked : s'.locked = s.locked) (hsent : s'.sent = s.sent) :
    Log.step Op.stamp s.log (.issue (s.issue τ r)) = some s'.log := by
  have hguard : (s.log.pending τ).isNone ∧ Op.stamp (s.issue τ r) = ⟨τ, s.log.issued τ + 1, s.log.sections τ⟩ := by
    simp [State.log, hnone, Op.stamp, State.issue]
  refine (if_pos hguard).trans ?_
  simp only [State.log, hunsent, hissued, hsections, hlocked, hsent]
  rfl

theorem log_send (hpending : s.unsent o.task = some o) (hunsent : s'.unsent = Function.update s.unsent o.task none)
    (hsent : s'.sent = s.sent ++ [o]) (hsections : s'.sections = s.sections) (hlocked : s'.locked = s.locked)
    (hissued : s'.issued = s.issued) : Log.step Op.stamp s.log (.send o.task) = some s'.log := by
  simp only [Log.step, State.log, hpending, Option.map_some, hunsent, hissued, hsections, hlocked, hsent]

theorem log_opens (hnone : s.unsent τ = none) (hunsent : s'.unsent = s.unsent)
    (hsections : s'.sections = Function.update s.sections τ (s.locked :: s.sections τ)) (hlocked : s'.locked = s.locked + 1)
    (hissued : s'.issued = s.issued) (hsent : s'.sent = s.sent) :
    Log.step Op.stamp s.log (.opens τ) = some s'.log := by
  simp only [Log.step, State.log, hnone, Option.isNone_none, if_true, hunsent, hissued, hsections, hlocked, hsent]

theorem log_closes (hnone : s.unsent τ = none) (hunsent : s'.unsent = s.unsent)
    (hsections : s'.sections = Function.update s.sections τ (s.sections τ).tail) (hlocked : s'.locked = s.locked)
    (hissued : s'.issued = s.issued) (hsent : s'.sent = s.sent) :
    Log.step Op.stamp s.log (.closes τ) = some s'.log := by
  simp only [Log.step, State.log, hnone, Option.isNone_none, if_true, hunsent, hissued, hsections, hlocked, hsent]

/-- The request that a step issues. -/
def State.issues (s : State ι κ ρ) : Act ι κ ρ → Option (Op ι κ ρ)
  | .call (.host i) (.op r) => some (s.issue (.host i) r)
  | .remote t j =>
    match s.remote t j with
    | .call (.op r) => some (s.issue (.client t j) r.chunk)
    | _ => none
  | _ => none

/-- A step leaves the log as it is, or is a step of the log, with the request that it issues. -/
def Logs (s : State ι κ ρ) (act : Act ι κ ρ) (s' : State ι κ ρ) : Prop :=
  s'.log = s.log ∧ s.issues act = none ∨
    ∃ b, Log.Alone s.log b ∧ Log.step Op.stamp s.log b = some s'.log ∧ b.issued = s.issues act

theorem logs_start_call {c : Call} (hs : start_call s τ c = some s') : Logs s (.call τ c) s' := by
  cases τ with
  | host i =>
    simp only [start_call] at hs
    split at hs
    case isFalse => cases hs
    rename_i hidle
    have hnone : s.unsent (.host i) = none := by simp [State.unsent, hidle, Local.unsent]
    have hsame : ∀ pc : Local ι κ ρ, pc.unsent = none → (s.goto (.host i) pc).unsent = s.unsent := fun pc hpc => by
      rw [unsent_host (s := s) i (fun i' hi' => by simp [State.goto, hi']) fun t => by simp [State.view, State.goto]]
      simp [State.goto, hpc, ← hnone]
    cases c with
    | lock =>
      cases hs
      exact .inl ⟨log_same (hsame _ rfl) rfl rfl rfl rfl, rfl⟩
    | unlock =>
      cases hs
      exact .inl ⟨log_same (hsame _ rfl) rfl rfl rfl rfl, rfl⟩
    | op r =>
      cases hs
      refine .inr ⟨.issue (s.issue (.host i) r), trivial, log_issue hnone ?_ rfl rfl rfl rfl, rfl⟩
      rw [unsent_host (s := s) i (fun i' hi' => by simp [State.goto, State.count, hi'])
        fun t => by simp [State.view, State.goto, State.count]]
      simp [State.goto, Local.unsent]
  | client t j =>
    simp only [start_call] at hs
    split at hs
    case isFalse => cases hs
    have hsame : ∀ pc, (s.remote_goto t j pc).log = s.log := fun pc =>
      log_same (unsent_same (fun _ => rfl) fun _ => rfl) rfl rfl rfl rfl
    cases c <;>
    · cases hs
      exact .inl ⟨hsame _, rfl⟩

/-- A client tile's request goes into its message. -/
theorem unsent_message (hquiet : (s.view t).Quiet) (hactor : s'.actor = s.actor)
    (hreq : s'.requests = Function.update s.requests t (s.requests t ++ [Msg.op o])) (htask : o.task = .client t j) :
    s'.unsent = Function.update s.unsent (.client t j) (some o) := by
  have hrpc : s.actor (.rpc t) = .idle := hquiet.rpc
  have hempty : s.requests t = [] := hquiet.requests
  have hnew : (s'.view t).unsent = some o := by simp [View.unsent, State.view, hactor, hreq, hrpc, hempty]
  rw [unsent_client (s := s) t j (fun i => by rw [hactor]) (fun t' ht' => ?_) (by simp [hquiet.unsent]) fun o' ho' => ?_,
    hnew]
  · simp [View.unsent, State.view, hactor, hreq, ht']
  · cases hnew.symm.trans ho'
    exact htask

theorem unsent_other {m : Msg ι κ ρ} (hquiet : (s.view t).Quiet) (hactor : s'.actor = s.actor)
    (hreq : s'.requests = Function.update s.requests t (s.requests t ++ [m])) (hm : ∀ o, m ≠ .op o) :
    s'.unsent = s.unsent := by
  have hrpc : s.actor (.rpc t) = .idle := hquiet.rpc
  have hempty : s.requests t = [] := hquiet.requests
  refine unsent_same (fun i => by rw [hactor]) fun t' => ?_
  by_cases ht : t' = t
  · subst ht
    rw [hquiet.unsent]
    cases m with
    | op o => exact absurd rfl (hm o)
    | _ => simp [View.unsent, State.view, hactor, hreq, hrpc, hempty, Local.unsent]
  · simp [View.unsent, State.view, hactor, hreq, ht]

theorem logs_remote_step (h : Held s depth) (hs : remote_step s t j = some s') : Logs s (.remote t j) s' := by
  unfold remote_step at hs
  cases hpc : s.remote t j with
  | idle => rw [hpc] at hs; cases hs
  | get_mutex c =>
    rw [hpc] at hs
    obtain ⟨mutex, -, rfl⟩ := Option.map_eq_some_iff.1 hs
    exact .inl ⟨log_same (unsent_same (fun _ => rfl) fun _ => rfl) rfl rfl rfl rfl, by simp [State.issues, hpc]⟩
  | wait c =>
    rw [hpc] at hs
    obtain ⟨responses, -, rfl⟩ := Option.map_eq_some_iff.1 hs
    exact .inl ⟨log_same (unsent_same (fun _ => rfl) fun _ => rfl) rfl rfl rfl rfl, by simp [State.issues, hpc]⟩
  | put_mutex =>
    rw [hpc] at hs
    cases hs
    exact .inl ⟨log_same (unsent_same (fun _ => rfl) fun _ => rfl) rfl rfl rfl rfl, by simp [State.issues, hpc]⟩
  | call c =>
    rw [hpc] at hs
    have hfor : (s.message (.client t j) c).For (.client t j) c := by cases c <;> rfl
    obtain ⟨hquiet, -⟩ := (h.tiles t).call hpc hfor
    cases hs
    cases c with
    | op r =>
      refine .inr ⟨.issue (s.issue (.client t j) r.chunk), trivial, log_issue ?_ ?_ rfl rfl rfl rfl, by simp [Log.Act.issued, State.issues, hpc]⟩
      · simp [State.unsent, hquiet.unsent]
      · exact unsent_message hquiet rfl rfl rfl
    | lock | unlock =>
      exact .inl ⟨log_same (unsent_other hquiet rfl rfl fun o ho => by cases ho) rfl rfl rfl rfl, by simp [State.issues, hpc]⟩

/-- With a task of the host, what is pending changes for this task only, and as its place in the code says. -/
theorem unsent_host_update (i : ι) (hactor : s'.actor = Function.update s.actor (.host i) (s'.actor (.host i)))
    (hreq : s'.requests = s.requests) : s'.unsent = Function.update s.unsent (.host i) (s'.actor (.host i)).unsent := by
  refine unsent_host i (fun i' hi' => ?_) fun t => ?_
  · rw [hactor, Function.update_of_ne (by simpa using hi')]
  · simp only [View.unsent, State.view, hreq]
    rw [hactor, Function.update_of_ne (by simp)]

theorem unsent_host_kept (i : ι) (hactor : s'.actor = Function.update s.actor (.host i) (s'.actor (.host i)))
    (hreq : s'.requests = s.requests) (heq : (s'.actor (.host i)).unsent = (s.actor (.host i)).unsent) :
    s'.unsent = s.unsent := by
  rw [unsent_host_update i hactor hreq, heq]
  exact Function.update_eq_self ..

/-- With a thread that serves a tile, what is pending changes for this tile only. -/
theorem unsent_rpc_kept (t : κ) (hactor : s'.actor = Function.update s.actor (.rpc t) (s'.actor (.rpc t)))
    (hreq : ∀ t', t' ≠ t → s'.requests t' = s.requests t') (heq : (s'.view t).unsent = (s.view t).unsent) :
    s'.unsent = s.unsent := by
  refine unsent_same (fun i => ?_) fun t' => ?_
  · rw [hactor, Function.update_of_ne (by simp)]
  · by_cases htt : t' = t
    · subst htt
      exact heq
    · simp only [View.unsent, State.view, hreq t' htt]
      rw [hactor, Function.update_of_ne (by simpa using htt)]

omit [DecidableEq ι] [DecidableEq κ] [DecidableEq ρ] in
theorem unsent_rpc_busy {pc : Local ι κ ρ} (hpc : pc ≠ .idle) (heq : s.actor (.rpc t) = pc) :
    (s.view t).unsent = pc.unsent := by
  rw [← heq] at hpc ⊢
  exact View.unsent_busy hpc

theorem logs_host_step (h : Held s depth) (hs : actor_step s (.host i) = some s') : Logs s (.actor (.host i)) s' := by
  have hof := (h.hosts i).1
  unfold actor_step at hs
  cases hpc : s.actor (.host i) with
  | idle => rw [hpc] at hs; cases hs
  | respond => rw [hpc] at hs; cases hs
  | lock τ =>
    rw [hpc] at hs hof
    obtain rfl : τ = .host i := hof
    obtain ⟨mutex, -, rfl⟩ := Option.map_eq_some_iff.1 hs
    refine .inr ⟨.opens (.host i), trivial, log_opens ?_ (unsent_host_kept i ?_ rfl ?_) rfl rfl rfl rfl, rfl⟩
    · simp [State.unsent, hpc, Local.unsent]
    · simp [State.goto]
    · simp [State.goto, hpc, Actor.returned, Local.unsent]
  | unlock τ =>
    rw [hpc] at hs hof
    obtain ⟨rfl, -⟩ : τ = .host i ∧ s.sections (.host i) ≠ [] := hof
    cases hs
    refine .inr ⟨.closes (.host i), trivial, log_closes ?_ (unsent_host_kept i ?_ rfl ?_) rfl rfl rfl rfl, rfl⟩
    · simp [State.unsent, hpc, Local.unsent]
    · simp [State.goto]
    · simp [State.goto, hpc, Actor.returned, Local.unsent]
  | get_mutex o =>
    rw [hpc] at hs
    obtain ⟨mutex, -, rfl⟩ := Option.map_eq_some_iff.1 hs
    refine .inl ⟨log_same (unsent_host_kept i ?_ rfl ?_) rfl rfl rfl rfl, rfl⟩
    · simp [State.goto]
    · simp [State.goto, hpc, Local.unsent]
  | send o =>
    rw [hpc] at hs hof
    have htask : o.task = .host i := hof
    obtain ⟨op_queue, -, rfl⟩ := Option.map_eq_some_iff.1 hs
    refine .inr ⟨.send o.task, fun τ hne => h.alone hpc hne, log_send (h.send_task hpc).2 ?_ rfl rfl rfl rfl, rfl⟩
    refine Eq.trans (unsent_host_update (s := s) i ?_ rfl) ?_
    · simp [State.goto]
    · rw [htask]
      simp [State.goto, Local.unsent]
  | put_mutex o =>
    rw [hpc] at hs
    cases hs
    refine .inl ⟨log_same (unsent_host_kept i ?_ rfl ?_) rfl rfl rfl rfl, rfl⟩
    · simp [State.goto]
    · simp only [State.goto, Function.update_self, hpc, Actor.returned]
      split <;> rfl
  | wait =>
    rw [hpc] at hs
    obtain ⟨data_ready, -, rfl⟩ := Option.map_eq_some_iff.1 hs
    refine .inl ⟨log_same (unsent_host_kept i ?_ rfl ?_) rfl rfl rfl rfl, rfl⟩
    · simp [State.goto]
    · simp [State.goto, hpc, Actor.returned, Local.unsent]

theorem logs_rpc_step (h : Held s depth) (hs : actor_step s (.rpc t) = some s') : Logs s (.actor (.rpc t)) s' := by
  have ht := h.tiles t
  have hbusy : s'.actor (.rpc t) ≠ .idle → (s'.view t).unsent = (s'.actor (.rpc t)).unsent :=
    fun hpc => View.unsent_busy hpc
  unfold actor_step at hs
  cases hpc : s.actor (.rpc t) with
  | idle =>
    rw [hpc] at hs
    obtain ⟨⟨m, rest⟩, hreq, rfl⟩ := Option.map_eq_some_iff.1 hs
    have hreq' : s.requests t = m :: rest := by
      revert hreq
      cases s.requests t <;> simp [rtos_osal_queue_receive]
    refine .inl ⟨log_same (unsent_rpc_kept t (by simp [State.goto]) (fun t' ht' => by simp [State.goto, ht']) ?_) rfl rfl rfl rfl, rfl⟩
    have hreceived : (s.view t).unsent = m.start.unsent := ht.receive_unsent hreq' hpc
    rw [hreceived, hbusy]
    · simp [State.goto]
    · simp only [State.goto, Function.update_self]
      cases m <;> simp [Msg.start]
  | lock τ =>
    rw [hpc] at hs
    obtain ⟨mutex, -, rfl⟩ := Option.map_eq_some_iff.1 hs
    obtain ⟨j, rfl, -⟩ := ht.lock hpc s.locked
    refine .inr ⟨.opens (.client t j), trivial, log_opens ?_ (unsent_rpc_kept t ?_ (fun _ _ => rfl) ?_) rfl rfl rfl rfl, rfl⟩
    · simp [State.unsent, unsent_rpc_busy (by simp) hpc, Local.unsent]
    · simp [State.goto]
    · rw [unsent_rpc_busy (by simp) hpc, hbusy (by simp [State.goto, Actor.returned])]
      simp [State.goto, Actor.returned, Local.unsent]
  | unlock τ =>
    rw [hpc] at hs
    cases hs
    obtain ⟨-, j, rfl, -⟩ := ht.unlock hpc
    refine .inr ⟨.closes (.client t j), trivial, log_closes ?_ (unsent_rpc_kept t ?_ (fun _ _ => rfl) ?_) rfl rfl rfl rfl, rfl⟩
    · simp [State.unsent, unsent_rpc_busy (by simp) hpc, Local.unsent]
    · simp [State.goto]
    · rw [unsent_rpc_busy (by simp) hpc, hbusy (by simp [State.goto, Actor.returned])]
      simp [State.goto, Actor.returned, Local.unsent]
  | get_mutex o =>
    rw [hpc] at hs
    obtain ⟨mutex, -, rfl⟩ := Option.map_eq_some_iff.1 hs
    refine .inl ⟨log_same (unsent_rpc_kept t (by simp [State.goto]) (fun _ _ => rfl) ?_) rfl rfl rfl rfl, rfl⟩
    rw [unsent_rpc_busy (by simp) hpc, hbusy (by simp [State.goto])]
    simp [State.goto, Local.unsent]
  | send o =>
    rw [hpc] at hs
    obtain ⟨op_queue, -, rfl⟩ := Option.map_eq_some_iff.1 hs
    refine .inr ⟨.send o.task, fun τ hne => h.alone hpc hne, log_send (h.send_task hpc).2 ?_ rfl rfl rfl rfl, rfl⟩
    have hold : (s.view t).unsent = some o := unsent_rpc_busy (by simp) hpc
    obtain ⟨j, -, htask, -⟩ := ht.unsent hold
    have hnew := hbusy (by simp [State.goto])
    simp only [State.goto, Function.update_self, Local.unsent] at hnew
    rw [htask]
    refine (unsent_client (s := s) t j (fun i => by simp [State.goto]) (fun t' ht' => ?_) ?_ ?_).trans (congrArg _ hnew)
    · simp [View.unsent, State.view, State.goto, ht']
    · intro o' ho'
      rw [hold] at ho'
      cases ho'
      exact htask
    · intro o' ho'
      cases hnew.symm.trans ho'
  | put_mutex o =>
    rw [hpc] at hs
    cases hs
    refine .inl ⟨log_same (unsent_rpc_kept t (by simp [State.goto]) (fun _ _ => rfl) ?_) rfl rfl rfl rfl, rfl⟩
    rw [unsent_rpc_busy (by simp) hpc, hbusy]
    · simp only [State.goto, Function.update_self, Actor.returned]
      split <;> rfl
    · simp only [State.goto, Function.update_self, Actor.returned]
      split <;> simp
  | wait =>
    rw [hpc] at hs
    obtain ⟨data_ready, -, rfl⟩ := Option.map_eq_some_iff.1 hs
    refine .inl ⟨log_same (unsent_rpc_kept t (by simp [State.goto]) (fun _ _ => rfl) ?_) rfl rfl rfl rfl, rfl⟩
    rw [unsent_rpc_busy (by simp) hpc, hbusy (by simp [State.goto, Actor.returned])]
    simp [State.goto, Actor.returned, Local.unsent]
  | respond =>
    rw [hpc] at hs
    cases hs
    obtain ⟨_, _, _, -, -, -, hreq, -⟩ := ht.working (by simp [State.view, hpc])
    refine .inl ⟨log_same (unsent_rpc_kept t (by simp [State.goto]) (fun _ _ => rfl) ?_) rfl rfl rfl rfl, rfl⟩
    rw [unsent_rpc_busy (by simp) hpc]
    exact View.unsent_idle (by simp [State.view, State.goto]) hreq

theorem logs_step {act : Act ι κ ρ} (h : Held s depth) (hs : flash.step s act = some s') : Logs s act s' := by
  cases act with
  | call τ c => exact logs_start_call hs
  | actor a =>
    cases a with
    | host i => exact logs_host_step h hs
    | rpc t => exact logs_rpc_step h hs
  | remote t j => exact logs_remote_step h hs
  | thread =>
    have hs : qspi_flash_op_thread s = some s' := hs
    unfold qspi_flash_op_thread at hs
    split at hs
    · obtain ⟨_, -, rfl⟩ := Option.map_eq_some_iff.1 hs
      exact .inl ⟨log_same (unsent_same (fun _ => rfl) fun _ => rfl) rfl rfl rfl rfl, rfl⟩
    · cases hs
      exact .inl ⟨log_same (unsent_same (fun _ => rfl) fun _ => rfl) rfl rfl rfl rfl, rfl⟩
    · cases hs
      exact .inl ⟨log_same (unsent_same (fun _ => rfl) fun _ => rfl) rfl rfl rfl rfl, rfl⟩

/-- The driver refines a log in which nobody sends while another task has a section open. -/
theorem log_reachable (h : flash.Reachable Allowed s) : (Log.machine Op.stamp).Reachable Log.Alone s.log := by
  refine h.refines (I := fun s => ∃ depth, Held s depth) (fun s hs => held_reachable hs) (fun s hinit => ?_)
    fun s a s' ⟨depth, h⟩ _ hs => (logs_step h hs).imp And.left fun ⟨b, halone, hb, _⟩ => ⟨b, halone, hb⟩
  obtain rfl : s = _ := hinit
  refine congrArg (fun unsent => Log.mk unsent _ _ _ _) (funext fun τ => ?_)
  cases τ <;> rfl

/-! ## The operation thread -/

def Thread.performs : Thread ι κ ρ → List (Op ι κ ρ)
  | .perform o => [o]
  | _ => []

/-- What was sent has been performed, is being performed or is queued. -/
def Queued (s : State ι κ ρ) : Prop := s.sent = s.executed ++ s.thread.performs ++ s.op_queue

omit [DecidableEq ι] [DecidableEq κ] [DecidableEq ρ] in
theorem Queued.thread (h : Queued s) (hs : qspi_flash_op_thread s = some s') : Queued s' := by
  unfold Queued at h
  unfold qspi_flash_op_thread at hs
  split at hs
  · rename_i hthread
    obtain ⟨⟨o, op_queue⟩, hget, rfl⟩ := Option.map_eq_some_iff.1 hs
    have hqueue : s.op_queue = o :: op_queue := by
      revert hget
      cases s.op_queue <;> simp [rtos_osal_queue_receive]
    simpa [Queued, Thread.performs, hthread, hqueue] using h
  · rename_i o hthread
    cases hs
    unfold Queued
    split <;> simpa [Thread.performs, hthread] using h
  · rename_i hthread
    cases hs
    simpa [Queued, Thread.performs, hthread] using h

omit [DecidableEq ι] [DecidableEq κ] [DecidableEq ρ] in
theorem Queued.frame (h : Queued s) (hsent : s'.sent = s.sent) (hexecuted : s'.executed = s.executed)
    (hthread : s'.thread = s.thread) (hqueue : s'.op_queue = s.op_queue) : Queued s' := by
  unfold Queued
  rw [hsent, hexecuted, hthread, hqueue]
  exact h

theorem Queued.actor_step (h : Queued s) (hs : actor_step s a = some s') : Queued s' := by
  unfold Locking.actor_step at hs
  split at hs
  · split at hs
    · cases hs
    · obtain ⟨_, -, rfl⟩ := Option.map_eq_some_iff.1 hs
      exact h.frame rfl rfl rfl rfl
  · obtain ⟨_, -, rfl⟩ := Option.map_eq_some_iff.1 hs
    exact h.frame rfl rfl rfl rfl
  · cases hs
    exact h.frame rfl rfl rfl rfl
  · obtain ⟨_, -, rfl⟩ := Option.map_eq_some_iff.1 hs
    exact h.frame rfl rfl rfl rfl
  · rename_i o _
    obtain ⟨op_queue, hsend, rfl⟩ := Option.map_eq_some_iff.1 hs
    have hqueue : op_queue = s.op_queue ++ [o] := by
      unfold rtos_osal_queue_send at hsend
      split at hsend
      · cases hsend
        rfl
      · cases hsend
    have hsent : s.sent = s.executed ++ s.thread.performs ++ s.op_queue := h
    simp only [Queued, State.goto, hsent, hqueue, List.append_assoc]
  · cases hs
    exact h.frame rfl rfl rfl rfl
  · obtain ⟨_, -, rfl⟩ := Option.map_eq_some_iff.1 hs
    exact h.frame rfl rfl rfl rfl
  · split at hs
    · cases hs
    · cases hs
      exact h.frame rfl rfl rfl rfl

theorem queued_reachable (h : flash.Reachable Allowed s) : Queued s := by
  refine h.inv (fun s hinit => ?_) fun s act s' h _ hs => ?_
  · obtain rfl : s = _ := hinit
    rfl
  · cases act with
    | thread => exact h.thread hs
    | actor a => exact h.actor_step hs
    | call τ c =>
      have hs : start_call s τ c = some s' := hs
      unfold start_call at hs
      repeat' split at hs
      all_goals
        cases hs
        try exact h.frame rfl rfl rfl rfl
    | remote t j =>
      have hs : remote_step s t j = some s' := hs
      unfold remote_step at hs
      split at hs
      · cases hs
      · obtain ⟨_, -, rfl⟩ := Option.map_eq_some_iff.1 hs
        exact h.frame rfl rfl rfl rfl
      · cases hs
        exact h.frame rfl rfl rfl rfl
      · obtain ⟨_, -, rfl⟩ := Option.map_eq_some_iff.1 hs
        exact h.frame rfl rfl rfl rfl
      · cases hs
        exact h.frame rfl rfl rfl rfl

end
end Locking
end QspiFlash
