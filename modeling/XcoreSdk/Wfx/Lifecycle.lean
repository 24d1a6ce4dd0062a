import XcoreSdk.Wfx.ReceiveTask
import Mathlib.Data.Fintype.Basic
/-!
# At most one receive task

Stopping a receive task sets a bit, which the task takes when it waits the next time;
starting one, and `WIFI_Off`, clear all bits. As long as nothing clears the bit before
it is taken, and no task is started while another start or stop is under way
(`Orderly`), the receive tasks are never more than one that can read frames.
-/

namespace Wfx

variable {ι : Type*}

/-- The task may still come to read frames from the module. -/
def Task.canRead : Task → Bool
  | .none | .deleted => false
  | .woken _ bits => !bits.SL_WFX_DEINITIALIZED
  | _ => true

/-- The call has taken the handle away, or seen it missing, and is not done with the event group. -/
def Call.critical : Call → Bool
  | .start_clear | .start_set | .start_create | .stop_clear _ | .stop_set _ => true
  | _ => false

/-- `SL_WFX_INITIALIZED` is set before the handle is, and cleared after it. -/
def Call.midway : Call → Bool
  | .start_create | .stop_clear _ => true
  | _ => false

/-- A task runs: it may read frames, and has not been stopped. -/
def Tasks.Running (c : Tasks) (t : Nat) : Prop := (c.task t).canRead ∧ c.stopped t = false

structure Lifecycle (s : State ι) : Prop where
  one_reader : ∀ t u, (s.tasks.task t).canRead → (s.tasks.task u).canRead → t = u
  /-- A stopped task has taken no interrupt since, it does not wait, and its next wait, if there is
  one, tells it to delete itself. -/
  stopped : ∀ t, s.tasks.stopped t → s.tasks.late t = false ∧ (s.tasks.task t).isWaiting = false ∧
    ((s.tasks.task t).canRead → s.tasks.sl_wfx_event_group.SL_WFX_DEINITIALIZED)
  initialized : s.tasks.sl_wfx_event_group.SL_WFX_INITIALIZED ↔
    (∃ t, s.tasks.receive_task_handle = some t ∧ s.tasks.Running t) ∨ ∃ w call, s.call w = some call ∧ call.midway

/-- No start or stop is under way. -/
def State.Free (s : State ι) : Prop :=
  (∀ i, (s.call (.app i)).any Call.critical = false) ∧
    ∀ t < s.tasks.created, (s.call (.receive_task t)).any Call.critical = false

/-- Bits are cleared only when no stopped task has its stop still to take, and by `WIFI_Off` only when
the receive task is stopped; nobody starts a task while another start or stop is under way, and
memory for it is found. -/
def Orderly (s : State ι) : Action ι → Prop
  | .call w => (s.call w = some .start_handle → s.tasks.receive_task_handle = none → s.Free) ∧
      (s.call w = some .start_clear → s.tasks.sl_wfx_event_group.SL_WFX_DEINITIALIZED = false)
  | .create_fails _ => False
  | .app i _ => s.app i = .off_clear → s.tasks.sl_wfx_event_group.SL_WFX_DEINITIALIZED = false ∧
      s.tasks.sl_wfx_event_group.SL_WFX_INITIALIZED = false
  | _ => True

instance [Fintype ι] (s : State ι) : ∀ a, Decidable (Orderly s a)
  | .call w => inferInstanceAs (Decidable ((s.call w = some .start_handle → s.tasks.receive_task_handle = none →
      (∀ i, (s.call (.app i)).any Call.critical = false) ∧
        ∀ t < s.tasks.created, (s.call (.receive_task t)).any Call.critical = false) ∧
      (s.call w = some .start_clear → s.tasks.sl_wfx_event_group.SL_WFX_DEINITIALIZED = false)))
  | .create_fails _ => isFalse id
  | .app i _ => inferInstanceAs (Decidable (s.app i = .off_clear →
      s.tasks.sl_wfx_event_group.SL_WFX_DEINITIALIZED = false ∧
        s.tasks.sl_wfx_event_group.SL_WFX_INITIALIZED = false))
  | .on _ | .off _ | .lock_timeout _ | .task _ _ | .frames _ _ | .exception _ | .wait_timeout _ | .isr | .timer =>
    isTrue trivial

/-! ## The invariant -/

/-- What holds of the receive tasks at any time. -/
structure Sound (c : Tasks) : Prop where
  awaited : ∀ t, (c.task t).isWaiting → c.sl_wfx_event_group.awaited = false
  fresh : ∀ t, c.created ≤ t → c.task t = .none ∧ c.stopped t = false
  one_reader : ∀ t u, (c.task t).canRead → (c.task u).canRead → t = u
  late : ∀ t, c.late t = false
  stopped : ∀ t, c.stopped t → (c.task t).canRead → c.sl_wfx_event_group.SL_WFX_DEINITIALIZED

/-- Whoever can read has been stopped. -/
def Ending (c : Tasks) : Prop := ∀ t, (c.task t).canRead → c.stopped t

/-- The bits and the handle, by the critical call that is under way. -/
def Phase (c : Tasks) : Option Call → Prop
  | none => match c.receive_task_handle with
    | some t => c.sl_wfx_event_group.SL_WFX_INITIALIZED = true ∧
        c.sl_wfx_event_group.SL_WFX_DEINITIALIZED = false ∧ c.Running t
    | none => c.sl_wfx_event_group.SL_WFX_INITIALIZED = false ∧ Ending c
  | some .start_clear => c.receive_task_handle = none ∧ c.sl_wfx_event_group.SL_WFX_INITIALIZED = false ∧ Ending c
  | some .start_set => c.receive_task_handle = none ∧ c.sl_wfx_event_group.SL_WFX_INITIALIZED = false ∧
      c.sl_wfx_event_group.SL_WFX_DEINITIALIZED = false ∧ Ending c
  | some .start_create => c.receive_task_handle = none ∧ c.sl_wfx_event_group.SL_WFX_INITIALIZED = true ∧
      c.sl_wfx_event_group.SL_WFX_DEINITIALIZED = false ∧ Ending c
  | some (.stop_clear t) => c.receive_task_handle = none ∧ c.sl_wfx_event_group.SL_WFX_INITIALIZED = true ∧
      c.sl_wfx_event_group.SL_WFX_DEINITIALIZED = false ∧ c.Running t
  | some (.stop_set t) => c.receive_task_handle = none ∧ c.sl_wfx_event_group.SL_WFX_INITIALIZED = false ∧
      c.sl_wfx_event_group.SL_WFX_DEINITIALIZED = false ∧ c.Running t
  | some _ => False

/-- At most one critical call is under way, and it is `k`. -/
def Sole (call : Caller ι → Option Call) : Option Call → Prop
  | none => ∀ w k, call w = some k → k.critical = false
  | some k => k.critical ∧ ∃ w, call w = some k ∧ ∀ v ≠ w, ∀ l, call v = some l → l.critical = false

/-- The task is in `sl_wfx_host_deinit_bus` or `sl_wfx_init`. -/
def Task.calling : Task → Bool
  | .resetting _ _ .deinit_bus | .resetting _ _ .init => true
  | _ => false

def App.calling : App → Bool
  | .on_init | .off_deinit => true
  | _ => false

/-- Who is elsewhere is in no call. -/
structure Calls (s : State ι) : Prop where
  app : ∀ i, (s.app i).calling = false → s.call (.app i) = none
  task : ∀ t, (s.tasks.task t).calling = false → s.call (.receive_task t) = none

structure Inv (s : State ι) : Prop where
  sound : Sound s.tasks
  calls : Calls s
  phase : ∃ k, Sole s.call k ∧ Phase s.tasks k

/-- Nobody that is at work waits. -/
theorem Sound.not_waiting {c : Tasks} (h : Sound c) {t : Nat} (ht : c.stopped t) : (c.task t).isWaiting = false := by
  cases hw : (c.task t).isWaiting with
  | false => rfl
  | true =>
    have hread : (c.task t).canRead := by
      cases htask : c.task t with
      | waiting vars => rfl
      | _ => rw [htask] at hw; cases hw
    have hdeinit := h.stopped t ht hread
    have hawaited := h.awaited t hw
    rw [Bits.awaited, hdeinit, Bool.or_true] at hawaited
    cases hawaited

/-! ## The receive task's steps -/

/-- What a step of a receive task or an interrupt leaves as it is. -/
structure Goes (c c' : Tasks) : Prop where
  handle : c'.receive_task_handle = c.receive_task_handle
  stopped : c'.stopped = c.stopped
  initialized : c'.sl_wfx_event_group.SL_WFX_INITIALIZED = c.sl_wfx_event_group.SL_WFX_INITIALIZED
  deinitialized : c'.sl_wfx_event_group.SL_WFX_DEINITIALIZED → c.sl_wfx_event_group.SL_WFX_DEINITIALIZED
  reads : ∀ t, (c'.task t).canRead → (c.task t).canRead
  /-- Who can read goes on so, unless it is told to delete itself. -/
  keeps : c.sl_wfx_event_group.SL_WFX_DEINITIALIZED = false → ∀ t, (c.task t).canRead → (c'.task t).canRead

theorem Goes.running {c c' : Tasks} (h : Goes c c') {t : Nat}
    (hdeinit : c.sl_wfx_event_group.SL_WFX_DEINITIALIZED = false) (ht : c.Running t) : c'.Running t :=
  ⟨h.keeps hdeinit t ht.1, by rw [h.stopped]; exact ht.2⟩

theorem Goes.ending {c c' : Tasks} (h : Goes c c') (he : Ending c) : Ending c' := fun t ht => by
  rw [h.stopped]
  exact he t (h.reads t ht)

theorem Goes.deinit {c c' : Tasks} (h : Goes c c') (hdeinit : c.sl_wfx_event_group.SL_WFX_DEINITIALIZED = false) :
    c'.sl_wfx_event_group.SL_WFX_DEINITIALIZED = false := by
  cases hd : c'.sl_wfx_event_group.SL_WFX_DEINITIALIZED with
  | false => rfl
  | true => rw [← hdeinit, h.deinitialized hd]

theorem Goes.phase {c c' : Tasks} (h : Goes c c') {k : Option Call} (hp : Phase c k) : Phase c' k := by
  unfold Phase at hp ⊢
  rw [h.handle, h.initialized]
  split at hp
  · split at hp
    · exact ⟨hp.1, h.deinit hp.2.1, h.running hp.2.1 hp.2.2⟩
    · exact ⟨hp.1, h.ending hp.2⟩
  · exact ⟨hp.1, hp.2.1, h.ending hp.2.2⟩
  · exact ⟨hp.1, hp.2.1, h.deinit hp.2.2.1, h.ending hp.2.2.2⟩
  · exact ⟨hp.1, hp.2.1, h.deinit hp.2.2.1, h.ending hp.2.2.2⟩
  · exact ⟨hp.1, hp.2.1, h.deinit hp.2.2.1, h.running hp.2.2.1 hp.2.2.2⟩
  · exact ⟨hp.1, hp.2.1, h.deinit hp.2.2.1, h.running hp.2.2.1 hp.2.2.2⟩
  · exact hp

/-- A task goes on that neither stops nor begins to read. -/
theorem Sound.become {c : Tasks} (h : Sound c) {t : Nat} {task : Task} (hread : task.canRead = (c.task t).canRead)
    (hcreated : c.task t ≠ .none) (hwait : task.isWaiting → c.sl_wfx_event_group.awaited = false) :
    Sound { c with task := Function.update c.task t task } ∧
      Goes c { c with task := Function.update c.task t task } := by
  have hreads : ∀ u, (Function.update c.task t task u).canRead = (c.task u).canRead := by
    intro u
    by_cases hu : u = t
    · subst hu
      rw [Function.update_self, hread]
    · rw [Function.update_of_ne hu]
  refine ⟨⟨fun u hu => ?_, fun u hu => ⟨?_, (h.fresh u hu).2⟩, fun u v hu hv => ?_, h.late, fun u hu hr => ?_⟩,
    ⟨rfl, rfl, rfl, fun hd => hd, fun u hu => ?_, fun _ u hu => ?_⟩⟩
  · by_cases hut : u = t
    · subst hut
      simp only [Function.update_self] at hu
      exact hwait hu
    · simp only [Function.update_of_ne hut] at hu
      exact h.awaited u hu
  · by_cases hut : u = t
    · subst hut
      exact absurd (h.fresh u hu).1 hcreated
    · simp only [Function.update_of_ne hut]
      exact (h.fresh u hu).1
  · simp only [hreads] at hu hv
    exact h.one_reader u v hu hv
  · simp only [hreads] at hr
    exact h.stopped u hu hr
  · simp only [hreads] at hu
    exact hu
  · simp only [hreads]
    exact hu

/-- A task that can read takes the bits, and with them what it has been told. -/
theorem Sound.take {c : Tasks} (h : Sound c) {t : Nat} (vars : Vars) (hread : (c.task t).canRead) :
    Sound (c.take t vars) ∧ Goes c (c.take t vars) := by
  have hself : ((c.take t vars).task t).canRead = !c.sl_wfx_event_group.SL_WFX_DEINITIALIZED := by
    simp [Tasks.take, Task.canRead]
  have hother : ∀ u ≠ t, (c.take t vars).task u = c.task u := fun u hu => Function.update_of_ne hu ..
  have hreads : ∀ u, ((c.take t vars).task u).canRead → (c.task u).canRead := by
    intro u hu
    by_cases hut : u = t
    · rw [hut]
      exact hread
    · rwa [hother u hut] at hu
  refine ⟨⟨fun u hu => rfl, fun u hu => ?_, fun u v hu hv => h.one_reader u v (hreads u hu) (hreads v hv),
    fun u => ?_, fun u hu hr => ?_⟩, ⟨rfl, rfl, rfl, (by intro hd; cases hd), hreads, fun hdeinit u hu => ?_⟩⟩
  · obtain ⟨hnone, hstopped⟩ := h.fresh u hu
    refine ⟨?_, hstopped⟩
    rw [hother u, hnone]
    rintro rfl
    rw [hnone] at hread
    cases hread
  · by_cases hut : u = t
    · subst hut
      simp only [Tasks.take, Function.update_self, h.late u, Bool.false_or]
      cases hs : c.stopped u with
      | false => rfl
      | true => rw [h.stopped u hs hread]; rfl
    · simp only [Tasks.take, Function.update_of_ne hut]
      exact h.late u
  · -- the only task that could read has just been told to delete itself
    obtain rfl := h.one_reader u t (hreads u hr) hread
    rw [hself, h.stopped u hu hread] at hr
    cases hr
  · by_cases hut : u = t
    · rw [hut, hself, hdeinit]
      rfl
    · rwa [hother u hut]

theorem wake_canRead {bits : Bits} (hdeinit : bits.SL_WFX_DEINITIALIZED = false) (task : Task) :
    (task.wake bits).canRead = task.canRead := by
  cases task with
  | waiting vars => simp [Task.wake, Task.canRead, hdeinit]
  | _ => rfl

theorem wake_reads {bits : Bits} {task : Task} (h : (task.wake bits).canRead) : task.canRead := by
  cases task with
  | waiting vars => rfl
  | _ => exact h

theorem wake_isWaiting (bits : Bits) (task : Task) : (task.wake bits).isWaiting = false := by
  cases task <;> rfl

theorem wake_none {bits : Bits} {task : Task} (h : task = .none) : task.wake bits = .none := by
  rw [h]
  rfl

theorem Sound.interrupt {c : Tasks} (h : Sound c) :
    Sound (xEventGroupSetBits c { Bits.none with SL_WFX_INTERRUPT := true }) ∧
      Goes c (xEventGroupSetBits c { Bits.none with SL_WFX_INTERRUPT := true }) := by
  rw [xEventGroupSetBits]
  split
  · rename_i hwakes
    obtain ⟨-, t, -, ht⟩ := hwakes
    have hawaited := h.awaited t ht
    rw [Bits.awaited, Bool.or_eq_false_iff] at hawaited
    have hdeinit : (c.sl_wfx_event_group.union { Bits.none with SL_WFX_INTERRUPT := true }).SL_WFX_DEINITIALIZED = false := by
      rw [Bits.union, hawaited.2]
      rfl
    refine ⟨⟨fun u _ => rfl, fun u hu => ⟨wake_none (h.fresh u hu).1, (h.fresh u hu).2⟩, fun u v hu hv => ?_,
      fun u => ?_, fun u hu hr => ?_⟩, ⟨rfl, rfl, ?_, ?_, fun u hu => ?_, fun _ u hu => ?_⟩⟩
    · simp only [wake_canRead hdeinit] at hu hv
      exact h.one_reader u v hu hv
    · dsimp only
      cases hs : c.stopped u with
      | false => simp [h.late u]
      | true => simp [h.late u, h.not_waiting hs]
    · simp only [wake_canRead hdeinit] at hr
      have hd := h.stopped u hu hr
      rw [hawaited.2] at hd
      cases hd
    · simp [Bits.taken, Bits.union, Bits.none]
    · intro hd
      cases hd
    · simpa only [wake_canRead hdeinit] using hu
    · simpa only [wake_canRead hdeinit] using hu
  · rename_i hnone
    have hwaits : ∀ t, (c.task t).isWaiting = false := by
      intro t
      by_cases ht : t < c.created
      · cases hw : (c.task t).isWaiting with
        | false => rfl
        | true => exact absurd ⟨by simp [Bits.union, Bits.awaited], t, ht, hw⟩ hnone
      · rw [(h.fresh t (Nat.le_of_not_lt ht)).1]
        rfl
    refine ⟨⟨fun u hu => ?_, h.fresh, h.one_reader, h.late, fun u hu hr => ?_⟩,
      ⟨rfl, rfl, ?_, fun hd => ?_, fun _ hu => hu, fun _ _ hu => hu⟩⟩
    · rw [hwaits u] at hu
      cases hu
    · simp [Bits.union, h.stopped u hu hr]
    · simp [Bits.union, Bits.none]
    · simpa [Bits.union, Bits.none] using hd

/-- The bits are cleared while nobody is yet to take a stop. -/
theorem Sound.clear {c : Tasks} (h : Sound c) (hdeinit : c.sl_wfx_event_group.SL_WFX_DEINITIALIZED = false) :
    Sound { c with sl_wfx_event_group := .none } := by
  refine ⟨fun _ _ => rfl, h.fresh, h.one_reader, h.late, fun t ht hr => ?_⟩
  have hd := h.stopped t ht hr
  rw [hdeinit] at hd
  cases hd

/-! ## Calls -/

variable [DecidableEq ι] {hif : Hif} {s s' : State ι}

theorem Sole.update {call : Caller ι → Option Call} {k : Option Call} (h : Sole call k) {w : Caller ι}
    {l : Option Call} (hold : ∀ m, call w = some m → m.critical = false) (hnew : ∀ m, l = some m → m.critical = false) :
    Sole (Function.update call w l) k := by
  cases k with
  | none =>
    intro v m hv
    by_cases hvw : v = w
    · subst hvw
      rw [Function.update_self] at hv
      exact hnew m hv
    · rw [Function.update_of_ne hvw] at hv
      exact h v m hv
  | some k =>
    obtain ⟨hk, u, hu, hothers⟩ := h
    have huw : u ≠ w := by
      rintro rfl
      rw [hold k hu] at hk
      cases hk
    refine ⟨hk, u, by rwa [Function.update_of_ne huw], fun v hv m hm => ?_⟩
    by_cases hvw : v = w
    · subst hvw
      rw [Function.update_self] at hm
      exact hnew m hm
    · rw [Function.update_of_ne hvw] at hm
      exact hothers v hv m hm

/-- The caller of a critical call goes on, and it remains the only one. -/
theorem Sole.goes_on {call : Caller ι → Option Call} {k : Option Call} (h : Sole call k) {w : Caller ι} {m : Call}
    (hw : call w = some m) (hm : m.critical) (l : Call) :
    k = some m ∧ Sole (Function.update call w (some l)) (if l.critical then some l else none) := by
  cases k with
  | none =>
    rw [h w m hw] at hm
    cases hm
  | some k =>
    obtain ⟨-, u, hu, hothers⟩ := h
    obtain rfl : w = u := by
      by_contra hwu
      rw [hothers w hwu m hw] at hm
      cases hm
    rw [hw] at hu
    refine ⟨hu.symm, ?_⟩
    split
    · rename_i hl
      refine ⟨hl, w, Function.update_self .., fun v hv n hn => ?_⟩
      rw [Function.update_of_ne hv] at hn
      exact hothers v hv n hn
    · rename_i hl
      intro v n hn
      by_cases hv : v = w
      · subst hv
        rw [Function.update_self] at hn
        obtain rfl := Option.some.inj hn
        simpa using hl
      · rw [Function.update_of_ne hv] at hn
        exact hothers v hv n hn

/-- A critical call begins while there is none. -/
theorem Sole.begins {call : Caller ι → Option Call} (h : Sole call none) (w : Caller ι) {l : Call} (hl : l.critical) :
    Sole (Function.update call w (some l)) (some l) := by
  refine ⟨hl, w, Function.update_self .., fun v hv n hn => ?_⟩
  rw [Function.update_of_ne hv] at hn
  exact h v n hn

theorem Calls.update (h : Calls s) {w : Caller ι} {m : Call} {tasks : Tasks} {initialized : Bool} {l : Option Call}
    (hw : s.call w = some m) (htasks : ∀ t, (tasks.task t).calling = false → (s.tasks.task t).calling = false) :
    Calls { s with tasks, initialized, call := Function.update s.call w l } := by
  refine ⟨fun i hi => ?_, fun t ht => ?_⟩
  · have hnone := h.app i hi
    rw [← hnone]
    apply Function.update_of_ne
    rintro rfl
    rw [hw] at hnone
    cases hnone
  · have hnone := h.task t (htasks t ht)
    rw [← hnone]
    apply Function.update_of_ne
    rintro rfl
    rw [hw] at hnone
    cases hnone

omit [DecidableEq ι] in
theorem Calls.become (h : Calls s) {t : Nat} (task : Task)
    (ht : task.calling = false → s.call (.receive_task t) = none) : Calls (s.become t task) := by
  refine ⟨h.app, fun u hu => ?_⟩
  by_cases hut : u = t
  · subst hut
    simp only [State.become, Function.update_self] at hu
    exact ht hu
  · simp only [State.become, Function.update_of_ne hut] at hu
    exact h.task u hu

omit [DecidableEq ι] in
/-- A receive task goes on outside of `sl_wfx_host_reset`. -/
theorem Inv.become (h : Inv s) {t : Nat} {task : Task} (hread : task.canRead = (s.tasks.task t).canRead)
    (hcreated : s.tasks.task t ≠ .none) (hcalling : (s.tasks.task t).calling = false)
    (hwait : task.isWaiting → s.tasks.sl_wfx_event_group.awaited = false) : Inv (s.become t task) := by
  obtain ⟨hsound, hgoes⟩ := h.sound.become hread hcreated hwait
  obtain ⟨k, hsole, hphase⟩ := h.phase
  exact ⟨hsound, h.calls.become _ fun _ => h.calls.task t hcalling, k, hsole, hgoes.phase hphase⟩

omit [DecidableEq ι] in
theorem Inv.take (h : Inv s) {t : Nat} (vars : Vars) (hread : (s.tasks.task t).canRead)
    (hcalling : (s.tasks.task t).calling = false) : Inv { s with tasks := s.tasks.take t vars } := by
  obtain ⟨hsound, hgoes⟩ := h.sound.take vars hread
  obtain ⟨k, hsole, hphase⟩ := h.phase
  refine ⟨hsound, ⟨h.calls.app, fun u hu => ?_⟩, k, hsole, hgoes.phase hphase⟩
  by_cases hut : u = t
  · subst hut
    exact h.calls.task u hcalling
  · simp only [Tasks.take, Function.update_of_ne hut] at hu
    exact h.calls.task u hu

/-- A receive task that is in no call enters one. -/
theorem Inv.enters (h : Inv s) {t : Nat} {task : Task} (first : Call) (started : Bool)
    (hread : task.canRead = (s.tasks.task t).canRead) (hcreated : s.tasks.task t ≠ .none) (hwait : task.isWaiting = false)
    (hcalling : task.calling) (hnone : s.call (.receive_task t) = none) (hfirst : first.critical = false) :
    Inv { s.become t task with started, call := Function.update s.call (.receive_task t) (some first) } := by
  obtain ⟨hsound, hgoes⟩ := h.sound.become hread hcreated (by rw [hwait]; intro h; cases h)
  obtain ⟨k, hsole, hphase⟩ := h.phase
  refine ⟨hsound, ⟨fun i hi => ?_, fun u hu => ?_⟩, k, hsole.update ?_ ?_, hgoes.phase hphase⟩
  · rw [← h.calls.app i hi]
    dsimp only
    apply Function.update_of_ne
    intro heq
    cases heq
  · by_cases hut : u = t
    · subst hut
      simp only [State.become, Function.update_self] at hu
      rw [hcalling] at hu
      cases hu
    · simp only [State.become, Function.update_of_ne hut] at hu
      rw [← h.calls.task u hu]
      apply Function.update_of_ne
      intro heq
      exact hut (Caller.receive_task.inj heq)
  · rw [hnone]
    intro m hm
    cases hm
  · intro m hm
    obtain rfl := Option.some.inj hm
    exact hfirst

theorem Inv.reset_step (h : Inv s) {t : Nat} {vars : Vars} {within ok : Bool} {reset : Reset}
    (ht : s.tasks.task t = .resetting vars within reset) (hs : reset_step s t vars within ok reset = some s') : Inv s' := by
  have hread : (s.tasks.task t).canRead = true := by rw [ht]; rfl
  have hcreated : s.tasks.task t ≠ .none := by rw [ht]; intro h; cases h
  cases reset with
  | state =>
    obtain rfl := Option.some.inj hs
    exact h.enters _ _ hread.symm hcreated rfl rfl (h.calls.task t (by rw [ht]; rfl)) rfl
  | deinit_bus =>
    simp only [Wfx.reset_step] at hs
    split at hs
    · rename_i hnone
      obtain rfl := Option.some.inj hs
      exact h.enters _ s.started hread.symm hcreated rfl rfl (Option.isNone_iff_eq_none.1 hnone) rfl
    · cases hs
  | init =>
    simp only [Wfx.reset_step] at hs
    split at hs
    case isFalse => cases hs
    rename_i hnone
    have hnone := Option.isNone_iff_eq_none.1 hnone
    split at hs
    · obtain rfl := Option.some.inj hs
      have hdone : Task.canRead (if within then .receiving vars else .wait vars) = true ∧
          Task.isWaiting (if within then .receiving vars else .wait vars) = false := by
        cases within <;> exact ⟨rfl, rfl⟩
      obtain ⟨hsound, hgoes⟩ := h.sound.become (hdone.1.trans hread.symm) hcreated
        (by rw [hdone.2]; intro h; cases h)
      obtain ⟨k, hsole, hphase⟩ := h.phase
      have hcalls := h.calls.become (if within then .receiving vars else .wait vars) fun _ => hnone
      exact ⟨hsound, ⟨hcalls.app, hcalls.task⟩, k, hsole, hgoes.phase hphase⟩
    · obtain rfl := Option.some.inj hs
      have henter := h.enters .init_initialized s.started rfl hcreated
        (by rw [ht]; rfl) (by rw [ht]; rfl) hnone rfl
      rwa [State.become, Function.update_eq_self] at henter

theorem Inv.sl_wfx_host_receive_task (h : Inv s) {t : Nat} {ok : Bool}
    (hs : sl_wfx_host_receive_task s t ok = some s') : Inv s' := by
  simp only [Wfx.sl_wfx_host_receive_task] at hs
  split at hs <;> rename_i ht
  · split at hs
    · obtain rfl := Option.some.inj hs
      exact h.take _ (by rw [ht]; rfl) (by rw [ht]; rfl)
    · rename_i hawaited
      obtain rfl := Option.some.inj hs
      exact h.become (by rw [ht]; rfl) (by rw [ht]; intro h; cases h) (by rw [ht]; rfl)
        fun _ => by simpa using hawaited
  · obtain rfl := Option.some.inj hs
    exact h.take _ (by rw [ht]; rfl) (by rw [ht]; rfl)
  · -- it deletes itself when it has been told to
    have hwoken : ∀ task, task.canRead = (s.tasks.task t).canRead → task.isWaiting = false → Inv (s.become t task) := by
      intro task hread hwait
      exact h.become hread (by rw [ht]; intro h; cases h) (by rw [ht]; rfl) (by rw [hwait]; intro h; cases h)
    split at hs
    · rename_i hdeinit
      obtain rfl := Option.some.inj hs
      exact hwoken _ (by simp [ht, Task.canRead, hdeinit]) rfl
    · rename_i hdeinit
      rw [Bool.not_eq_true] at hdeinit
      split at hs
      · obtain rfl := Option.some.inj hs
        exact hwoken _ (by simp [ht, Task.canRead, hdeinit]) rfl
      · obtain rfl := Option.some.inj hs
        exact hwoken _ (by simp [ht, Task.canRead, hdeinit]) rfl
  · exact h.reset_step ht hs
  · cases hs
  · cases hs
  · cases hs
  · cases hs

omit [DecidableEq ι] in
theorem Inv.received_frames (h : Inv s) {t : Nat} {status : Status} (hs : received_frames s t status = some s') :
    Inv s' := by
  simp only [Wfx.received_frames] at hs
  split at hs
  · rename_i vars ht
    obtain rfl := Option.some.inj hs
    have hnext : (received vars status).canRead = true ∧ (received vars status).isWaiting = false := by
      cases status with
      | SL_STATUS_OK => exact ⟨rfl, rfl⟩
      | other => exact ⟨rfl, rfl⟩
      | SL_STATUS_WIFI_NO_PACKET_TO_RECEIVE | SL_STATUS_TIMEOUT =>
        simp only [received]
        split <;> exact ⟨rfl, rfl⟩
    exact h.become (by rw [ht]; exact hnext.1) (by rw [ht]; intro h; cases h) (by rw [ht]; rfl)
      (by rw [hnext.2]; intro h; cases h)
  · cases hs

omit [DecidableEq ι] in
theorem Inv.received_exception (h : Inv s) {t : Nat} (hs : received_exception s t = some s') : Inv s' := by
  simp only [Wfx.received_exception] at hs
  split at hs
  · rename_i ht
    obtain rfl := Option.some.inj hs
    exact h.become (by rw [ht]; rfl) (by rw [ht]; intro h; cases h) (by rw [ht]; rfl) (by intro h; cases h)
  · cases hs

omit [DecidableEq ι] in
theorem Inv.wait_timeout (h : Inv s) {t : Nat} (hs : wait_timeout s t = some s') : Inv s' := by
  simp only [Wfx.wait_timeout] at hs
  split at hs
  · rename_i ht
    split at hs
    · cases hs
    · obtain rfl := Option.some.inj hs
      exact h.become (by rw [ht]; rfl) (by rw [ht]; intro h; cases h) (by rw [ht]; rfl) (by intro h; cases h)
  · cases hs

theorem wake_calling (bits : Bits) (task : Task) : (task.wake bits).calling = task.calling := by
  cases task <;> rfl

theorem setBits_calling (c : Tasks) (set : Bits) (t : Nat) :
    ((xEventGroupSetBits c set).task t).calling = (c.task t).calling := by
  rw [xEventGroupSetBits]
  split
  · exact wake_calling ..
  · rfl

omit [DecidableEq ι] in
theorem Inv.timer_task (h : Inv s) (hs : timer_task s = some s') : Inv s' := by
  simp only [Wfx.timer_task] at hs
  split at hs
  · cases hs
  · obtain rfl := Option.some.inj hs
    obtain ⟨hsound, hgoes⟩ := h.sound.interrupt
    obtain ⟨k, hsole, hphase⟩ := h.phase
    refine ⟨hsound, ⟨h.calls.app, fun t ht => ?_⟩, k, hsole, hgoes.phase hphase⟩
    rw [setBits_calling] at ht
    exact h.calls.task t ht

/-! ## Application tasks -/

/-- An application task goes on, outside of calls or into one. -/
theorem Inv.goes (h : Inv s) {i : ι} (app : App) (l : Option Call) (started lock : Bool)
    (hnone : s.call (.app i) = none) (hl : ∀ m, l = some m → m.critical = false) (happ : app.calling = false → l = none) :
    Inv { s.goes i app with started, wifi_lock := lock, call := Function.update s.call (.app i) l } := by
  obtain ⟨k, hsole, hphase⟩ := h.phase
  refine ⟨h.sound, ⟨fun j hj => ?_, fun t ht => ?_⟩, k, hsole.update ?_ hl, hphase⟩
  · dsimp only
    by_cases hji : j = i
    · subst hji
      simp only [State.goes, Function.update_self] at hj
      rw [Function.update_self, happ hj]
    · simp only [State.goes, Function.update_of_ne hji] at hj
      rw [Function.update_of_ne (by simpa using hji)]
      exact h.calls.app j hj
  · rw [← h.calls.task t ht]
    dsimp only
    apply Function.update_of_ne
    intro heq
    cases heq
  · rw [hnone]
    intro m hm
    cases hm

/-- An application task goes on outside of calls. -/
theorem Inv.goes_on (h : Inv s) {i : ι} (app : App) (started lock : Bool) (hnone : s.call (.app i) = none) :
    Inv { s.goes i app with started, wifi_lock := lock } := by
  have hgoes := h.goes app none started lock hnone
    (by intro m hm; cases hm) fun _ => rfl
  rwa [← hnone, Function.update_eq_self] at hgoes

theorem Inv.app_step (h : Inv s) {i : ι} {ok : Bool} (horderly : Orderly s (.app i ok))
    (hs : app_step s i ok = some s') : Inv s' := by
  have hidle := h.calls.app i
  simp only [Wfx.app_step] at hs
  split at hs <;> rename_i happ <;> rw [happ] at hidle
  · cases hs
  · split at hs
    · cases hs
    · obtain rfl := Option.some.inj hs
      exact h.goes _ _ s.started _ (hidle rfl) (by rintro m ⟨⟩; rfl) (by intro h; cases h)
  · split at hs
    · rename_i hnone
      obtain rfl := Option.some.inj hs
      exact h.goes_on _ _ _ (Option.isNone_iff_eq_none.1 hnone)
    · cases hs
  · split at hs
    · cases hs
    · split at hs
      · obtain rfl := Option.some.inj hs
        exact h.goes_on _ s.started _ (hidle rfl)
      · obtain rfl := Option.some.inj hs
        exact h.goes_on _ s.started s.wifi_lock (hidle rfl)
  · split at hs
    · obtain rfl := Option.some.inj hs
      exact h.goes _ _ s.started s.wifi_lock (hidle rfl) (by rintro m ⟨⟩; rfl)
        (by intro h; cases h)
    · obtain rfl := Option.some.inj hs
      exact h.goes_on _ s.started s.wifi_lock (hidle rfl)
  · split at hs
    · rename_i hnone
      obtain rfl := Option.some.inj hs
      exact h.goes_on _ s.started s.wifi_lock (Option.isNone_iff_eq_none.1 hnone)
    · cases hs
  · obtain rfl := Option.some.inj hs
    exact h.goes_on _ _ s.wifi_lock (hidle rfl)
  · obtain rfl := Option.some.inj hs
    obtain ⟨hdeinit, hinit⟩ := horderly happ
    have hgoes : Goes s.tasks { s.tasks with sl_wfx_event_group := .none } :=
      ⟨rfl, rfl, hinit.symm, by simp [Bits.none], fun _ hu => hu, fun _ _ hu => hu⟩
    have hgoes_on := h.goes_on .idle s.started false (hidle rfl)
    obtain ⟨k, hsole, hphase⟩ := hgoes_on.phase
    exact ⟨h.sound.clear hdeinit, ⟨hgoes_on.calls.app, hgoes_on.calls.task⟩, k, hsole, hgoes.phase hphase⟩

/-! ## Starting and stopping -/

/-- Nobody can read where everybody has been stopped and no stop is to be taken. -/
theorem Sound.nobody {c : Tasks} (h : Sound c) (hending : Ending c)
    (hdeinit : c.sl_wfx_event_group.SL_WFX_DEINITIALIZED = false) (t : Nat) : (c.task t).canRead = false := by
  cases hr : (c.task t).canRead with
  | false => rfl
  | true =>
    have hd := h.stopped t (hending t hr) hr
    rw [hdeinit] at hd
    cases hd

theorem canRead_of_isWaiting {task : Task} (h : task.isWaiting) : task.canRead := by
  cases task with
  | waiting vars => rfl
  | _ => cases h

theorem Sound.start_set {c : Tasks} (h : Sound c) (hending : Ending c)
    (hdeinit : c.sl_wfx_event_group.SL_WFX_DEINITIALIZED = false) (hhandle : c.receive_task_handle = none) :
    Sound (xEventGroupSetBits c { Bits.none with SL_WFX_INITIALIZED := true }) ∧
      Phase (xEventGroupSetBits c { Bits.none with SL_WFX_INITIALIZED := true }) (some .start_create) := by
  have hnobody := h.nobody hending hdeinit
  have hwaits : ∀ t, (c.task t).isWaiting → False := by
    intro t ht
    have hread := canRead_of_isWaiting ht
    rw [hnobody t] at hread
    cases hread
  rw [xEventGroupSetBits, if_neg (by rintro ⟨-, t, -, ht⟩; exact hwaits t ht)]
  refine ⟨⟨fun t ht => (hwaits t ht).elim, h.fresh, h.one_reader, h.late, fun t _ hr => ?_⟩, hhandle, ?_, ?_, hending⟩
  · rw [hnobody t] at hr
    cases hr
  · simp [Bits.union]
  · simp [Bits.union, Bits.none, hdeinit]

theorem Sound.start_create {c : Tasks} (h : Sound c) (hnobody : ∀ t, (c.task t).canRead = false) :
    Sound { c with
      receive_task_handle := some c.created
      created := c.created + 1
      task := Function.update c.task c.created (.wait ⟨true, 0⟩) } := by
  have hreads : ∀ t, (Function.update c.task c.created (.wait ⟨true, 0⟩) t).canRead → t = c.created := by
    intro t ht
    by_contra hne
    rw [Function.update_of_ne hne, hnobody t] at ht
    cases ht
  refine ⟨fun t ht => ?_, fun t ht => ?_, fun t u ht hu => ?_, h.late, fun t hs hr => ?_⟩
  · obtain rfl := hreads t (canRead_of_isWaiting ht)
    simp only [Function.update_self] at ht
    cases ht
  · obtain ⟨hnone, hstopped⟩ := h.fresh t (Nat.le_of_succ_le ht)
    refine ⟨?_, hstopped⟩
    simp only [Function.update_of_ne (Nat.ne_of_gt ht)]
    exact hnone
  · rw [hreads t ht, hreads u hu]
  · obtain rfl := hreads t hr
    rw [(h.fresh c.created (Nat.le_refl _)).2] at hs
    cases hs

/-- The task that is stopped is the only one that can read. It is woken, or finds the bit when it waits. -/
theorem Sound.stop_set {c c' : Tasks} (h : Sound c) {t : Nat} (ht : c.Running t)
    (hc : c' = xEventGroupSetBits c { Bits.none with SL_WFX_DEINITIALIZED := true }) :
    Sound { c' with stopped := Function.update c'.stopped t true } ∧
      Ending { c' with stopped := Function.update c'.stopped t true } ∧
      c'.receive_task_handle = c.receive_task_handle ∧
      c'.sl_wfx_event_group.SL_WFX_INITIALIZED = c.sl_wfx_event_group.SL_WFX_INITIALIZED := by
  have honly : ∀ u, (c.task u).canRead → u = t := fun u hu => h.one_reader u t hu ht.1
  have hlt : t < c.created := by
    by_contra hge
    have hread := ht.1
    rw [(h.fresh t (Nat.le_of_not_lt hge)).1] at hread
    cases hread
  have hfresh : ∀ u, c.created ≤ u → Function.update c.stopped t true u = false := by
    intro u hu
    rw [Function.update_of_ne (by omega)]
    exact (h.fresh u hu).2
  rw [xEventGroupSetBits] at hc
  split at hc
  · -- it waits, and is woken with the bit
    rename_i hwakes
    obtain ⟨-, u, -, hu⟩ := hwakes
    obtain rfl := honly u (canRead_of_isWaiting hu)
    subst hc
    have hnobody : ∀ v, ((c.task v).wake
        (c.sl_wfx_event_group.union { Bits.none with SL_WFX_DEINITIALIZED := true })).canRead = false := by
      intro v
      rw [Bool.eq_false_iff]
      intro hread
      obtain rfl := honly v (wake_reads hread)
      cases hv : c.task v with
      | waiting vars =>
        rw [hv] at hread
        simp [Task.wake, Task.canRead, Bits.union] at hread
      | _ =>
        rw [hv] at hu
        cases hu
    refine ⟨⟨fun v hv => ?_, fun v hv => ⟨wake_none (h.fresh v hv).1, hfresh v hv⟩, fun v _ hv => ?_, fun v => ?_,
      fun v _ hv => ?_⟩, fun v hv => ?_, rfl, ?_⟩
    · rw [wake_isWaiting] at hv
      cases hv
    · rw [hnobody v] at hv
      cases hv
    · simp [h.late v, Bits.union]
    · rw [hnobody v] at hv
      cases hv
    · rw [hnobody v] at hv
      cases hv
    · simp [Bits.taken, Bits.union, Bits.none]
  · rename_i hnone
    subst hc
    have hwaits : ∀ u, (c.task u).isWaiting → False := by
      intro u hu
      have hut := honly u (canRead_of_isWaiting hu)
      exact hnone ⟨by simp [Bits.union, Bits.awaited], u, by rwa [hut], hu⟩
    refine ⟨⟨fun u hu => (hwaits u hu).elim, fun u hu => ⟨(h.fresh u hu).1, hfresh u hu⟩, h.one_reader, h.late,
      fun u _ _ => ?_⟩, fun u hu => ?_, rfl, ?_⟩
    · simp [Bits.union]
    · obtain rfl := honly u hu
      exact Function.update_self ..
    · simp [Bits.union, Bits.none]

omit [DecidableEq ι] in
/-- A task that has not been created is in no call. -/
theorem Inv.free (h : Inv s) (hfree : s.Free) (w : Caller ι) (m : Call) (hw : s.call w = some m) : m.critical = false := by
  cases w with
  | app i =>
    have hi := hfree.1 i
    rw [hw] at hi
    exact hi
  | receive_task t =>
    by_cases ht : t < s.tasks.created
    · have hi := hfree.2 t ht
      rw [hw] at hi
      exact hi
    · have hnone := h.calls.task t (by rw [(h.sound.fresh t (Nat.le_of_not_lt ht)).1]; rfl)
      rw [hw] at hnone
      cases hnone

theorem Inv.call_step (h : Inv s) {w : Caller ι} (horderly : Orderly s (.call w))
    (hs : s.call_step hif w = some s') : Inv s' := by
  obtain ⟨call, hw, rfl⟩ := Option.map_eq_some_iff.1 hs
  obtain ⟨k, hsole, hphase⟩ := h.phase
  have hsame : ∀ initialized l, call.critical = false → (∀ m, l = some m → m.critical = false) →
      Inv { s with initialized, call := Function.update s.call w l } := by
    intro initialized l hcall hl
    refine ⟨h.sound, h.calls.update hw fun _ ht => ht, k, hsole.update ?_ hl, hphase⟩
    intro m hm
    rw [hw] at hm
    obtain rfl := Option.some.inj hm
    exact hcall
  cases call with
  | init_initialized =>
    apply hsame _ _ rfl
    intro m hm
    simp only [Wfx.call_step] at hm
    split at hm
    · obtain rfl := Option.some.inj hm
      rfl
    · cases hm
  | init_done => exact hsame _ _ rfl (by intro m hm; cases hm)
  | deinit_done => exact hsame _ _ rfl (by intro m hm; cases hm)
  | start_handle =>
    cases hhandle : s.tasks.receive_task_handle with
    | none =>
      -- nobody is at work on the handle, and from here on this one is
      have hnobody := h.free (horderly.1 hw hhandle)
      obtain rfl : k = none := by
        cases k with
        | none => rfl
        | some k =>
          obtain ⟨hk, v, hv, -⟩ := hsole
          rw [hnobody v k hv] at hk
          cases hk
      simp only [Phase, hhandle] at hphase
      have hbegins := hsole.begins w (l := .start_clear) rfl
      refine ⟨h.sound, h.calls.update hw fun _ ht => ht, some .start_clear, ?_, ?_⟩
      · simpa [Wfx.call_step, hhandle] using hbegins
      · exact ⟨hhandle, hphase⟩
    | some t =>
      have hskip := hsame s.initialized (some .init_done) rfl (by rintro m ⟨⟩; rfl)
      simpa [Wfx.call_step, hhandle] using hskip
  | start_clear =>
    obtain ⟨rfl, hnext⟩ := hsole.goes_on hw rfl .start_set
    obtain ⟨hhandle, hinit, hending⟩ := hphase
    have hdeinit := horderly.2 hw
    exact ⟨h.sound.clear hdeinit, h.calls.update hw fun _ ht => ht, some .start_set, hnext, hhandle, rfl, rfl, hending⟩
  | start_set =>
    obtain ⟨rfl, hnext⟩ := hsole.goes_on hw rfl .start_create
    obtain ⟨hhandle, hinit, hdeinit, hending⟩ := hphase
    obtain ⟨hsound, hphase⟩ := h.sound.start_set hending hdeinit hhandle
    exact ⟨hsound, h.calls.update hw fun t ht => (setBits_calling s.tasks _ t).symm.trans ht, some .start_create,
      hnext, hphase⟩
  | start_create =>
    obtain ⟨rfl, hnext⟩ := hsole.goes_on hw rfl .init_done
    obtain ⟨hhandle, hinit, hdeinit, hending⟩ := hphase
    have hnobody := h.sound.nobody hending hdeinit
    obtain ⟨hnone, hstopped⟩ := h.sound.fresh s.tasks.created (Nat.le_refl _)
    refine ⟨h.sound.start_create hnobody, h.calls.update hw fun t ht => ?_, none, hnext, hinit, hdeinit, ?_, hstopped⟩
    · by_cases htc : t = s.tasks.created
      · rw [htc, hnone]
        rfl
      · simpa only [Wfx.call_step, Function.update_of_ne htc] using ht
    · simp [Wfx.call_step, Task.canRead]
  | stop_handle =>
    cases hhandle : s.tasks.receive_task_handle with
    | none =>
      have hskip := hsame s.initialized (some .deinit_done) rfl (by rintro m ⟨⟩; rfl)
      have htasks : { s.tasks with receive_task_handle := none } = s.tasks := by rw [← hhandle]
      simpa [Wfx.call_step, hhandle, htasks] using hskip
    | some t =>
      -- where there is a handle, nobody is at work on it
      obtain rfl : k = none := by
        cases k with
        | none => rfl
        | some k =>
          have hk := hsole.1
          cases k with
          | start_clear | start_set | start_create | stop_clear _ | stop_set _ =>
            have hnone := hphase.1
            rw [hhandle] at hnone
            cases hnone
          | _ => cases hk
      simp only [Phase, hhandle] at hphase
      have hbegins := hsole.begins w (l := .stop_clear t) rfl
      refine ⟨⟨h.sound.awaited, h.sound.fresh, h.sound.one_reader, h.sound.late, h.sound.stopped⟩,
        h.calls.update hw fun _ ht => ht, some (.stop_clear t), ?_, rfl, hphase⟩
      simpa [Wfx.call_step, hhandle] using hbegins
  | stop_clear t =>
    obtain ⟨rfl, hnext⟩ := hsole.goes_on hw rfl (.stop_set t)
    obtain ⟨hhandle, hinit, hdeinit, hrunning⟩ := hphase
    exact ⟨⟨h.sound.awaited, h.sound.fresh, h.sound.one_reader, h.sound.late, h.sound.stopped⟩,
      h.calls.update hw fun _ ht => ht, some (.stop_set t), hnext, hhandle, rfl, hdeinit, hrunning⟩
  | stop_set t =>
    obtain ⟨rfl, hnext⟩ := hsole.goes_on hw rfl .deinit_done
    obtain ⟨hhandle, hinit, hdeinit, hrunning⟩ := hphase
    obtain ⟨hsound, hending, hhandle', hinit'⟩ := h.sound.stop_set hrunning rfl
    refine ⟨hsound, h.calls.update hw fun t ht => (setBits_calling s.tasks _ t).symm.trans ht, none, hnext, ?_⟩
    have hnone : (xEventGroupSetBits s.tasks { Bits.none with SL_WFX_DEINITIALIZED := true }).receive_task_handle = none :=
      hhandle'.trans hhandle
    simp only [Wfx.call_step, Phase, hnone]
    exact ⟨hinit'.trans hinit, hending⟩

theorem Inv.goes_idle (h : Inv s) {i : ι} {app : App} (hcalling : (s.app i).calling = false) : Inv (s.goes i app) :=
  h.goes_on _ s.started s.wifi_lock (h.calls.app i hcalling)

theorem inv_step {a : Action ι} (h : Inv s) (horderly : Orderly s a) (hs : (machine hif).step s a = some s') :
    Inv s' := by
  cases a with
  | on i =>
    simp only [machine, step, app_on] at hs
    split at hs
    · rename_i hidle
      obtain rfl := Option.some.inj hs
      exact h.goes_idle (by rw [hidle.1]; rfl)
    · cases hs
  | off i =>
    simp only [machine, step, app_off] at hs
    split at hs
    · rename_i hidle
      obtain rfl := Option.some.inj hs
      exact h.goes_idle (by rw [hidle]; rfl)
    · cases hs
  | lock_timeout i =>
    simp only [machine, step, lock_timeout] at hs
    split at hs
    · rename_i hlock
      obtain rfl := Option.some.inj hs
      rcases hlock with hlock | hlock
      · exact h.goes_idle (by rw [hlock]; rfl)
      · exact h.goes_idle (by rw [hlock]; rfl)
    · cases hs
  | app i ok => exact h.app_step horderly hs
  | call w => exact h.call_step horderly hs
  | create_fails w => exact horderly.elim
  | task t ok => exact h.sl_wfx_host_receive_task hs
  | frames t status => exact h.received_frames hs
  | exception t => exact h.received_exception hs
  | wait_timeout t => exact h.wait_timeout hs
  | isr =>
    obtain rfl := Option.some.inj hs
    rw [sl_wfx_host_task_rx_notify]
    split
    · exact ⟨h.sound, ⟨h.calls.app, h.calls.task⟩, h.phase⟩
    · exact h
  | timer => exact h.timer_task hs

omit [DecidableEq ι] in
theorem inv_init : Inv (State.init : State ι) := by
  refine ⟨⟨?_, fun _ _ => ⟨rfl, rfl⟩, ?_, fun _ => rfl, ?_⟩, ⟨fun _ _ => rfl, fun _ _ => rfl⟩, none, ?_, rfl, ?_⟩
  · intro t ht
    cases ht
  · intro t u ht
    cases ht
  · intro t ht
    cases ht
  · intro w m hw
    cases hw
  · intro t ht
    cases ht

theorem Call.critical_of_midway {call : Call} (h : call.midway) : call.critical := by
  cases call with
  | start_create | stop_clear _ => rfl
  | _ => cases h

omit [DecidableEq ι] in
theorem Sole.midway_iff {call : Caller ι → Option Call} {k : Option Call} (h : Sole call k) :
    (∃ w m, call w = some m ∧ m.midway) ↔ ∃ m, k = some m ∧ m.midway := by
  constructor
  · rintro ⟨w, m, hw, hm⟩
    have hcritical := Call.critical_of_midway hm
    cases k with
    | none =>
      rw [h w m hw] at hcritical
      cases hcritical
    | some k =>
      obtain ⟨-, u, hu, hothers⟩ := h
      obtain rfl : w = u := by
        by_contra hwu
        rw [hothers w hwu m hw] at hcritical
        cases hcritical
      exact ⟨m, hu.symm.trans hw, hm⟩
  · rintro ⟨m, rfl, hm⟩
    obtain ⟨-, w, hw, -⟩ := h
    exact ⟨w, m, hw, hm⟩

omit [DecidableEq ι] in
theorem Inv.lifecycle (h : Inv s) : Lifecycle s := by
  refine ⟨h.sound.one_reader, fun t ht => ⟨h.sound.late t, h.sound.not_waiting ht, h.sound.stopped t ht⟩, ?_⟩
  obtain ⟨k, hsole, hphase⟩ := h.phase
  rw [hsole.midway_iff]
  cases k with
  | none =>
    cases hhandle : s.tasks.receive_task_handle with
    | none =>
      simp only [Phase, hhandle] at hphase
      simp [hphase.1]
    | some t =>
      simp only [Phase, hhandle] at hphase
      simp [hphase.1, hphase.2.2]
  | some m =>
    cases m with
    | start_clear | start_set | stop_set _ =>
      obtain ⟨hhandle, hinit, -⟩ := hphase
      simp [hhandle, hinit, Call.midway]
    | start_create | stop_clear _ =>
      obtain ⟨hhandle, hinit, -⟩ := hphase
      simp [hhandle, hinit, Call.midway]
    | _ => exact hphase.elim

/-- In every run in which no stop is cleared before it is taken and starts have the event
group for themselves, at most one receive task can read frames, a stopped one handles
no further interrupt, and `SL_WFX_INITIALIZED` says whether the handle is a running task's. -/
theorem tasks_kept (h : (machine hif).Reachable Orderly s) : Lifecycle s := by
  have hinv : Inv s := by
    refine h.inv (fun s hs => ?_) fun s a s' hinv horderly hs => inv_step hinv horderly hs
    rw [hs]
    exact inv_init
  exact hinv.lifecycle

/-! ## A restart and a reset -/

def ready : Hif := ⟨true, true, true, true⟩

/-- `WIFI_On`, with the calls of a bus that is not initialised. -/
def turning_on : List (Action Unit) :=
  [Action.on (), Action.app () true] ++ List.replicate 6 (Action.call (.app ())) ++ [Action.app () true]

/-- `WIFI_Off`, with the calls of a bus that is. -/
def turning_off : List (Action Unit) :=
  [Action.off (), Action.app () true, Action.app () true] ++ List.replicate 4 (Action.call (.app ())) ++
    List.replicate 3 (Action.app () true)

/-- The first task waits when it is stopped, and deletes itself after the second one has been started. -/
theorem tasks_kept_restart : ∃ s : State Unit, (machine ready).Reachable Orderly s ∧ s.tasks.created = 2 ∧
    s.tasks.receive_task_handle = some 1 ∧ Lifecycle s := by
  have hrun : ((machine ready).exec Orderly State.init
      (List.flatten [turning_on, [.task 0 true], turning_off, turning_on, [.task 0 true, .task 1 true]])).any
      (fun s => s.tasks.created = 2 ∧ s.tasks.receive_task_handle = some 1) = true := by decide +kernel
  obtain ⟨s, hexec, hs⟩ := (Option.any_eq_true _ _).1 hrun
  have h := Machine.exec_reachable rfl hexec
  exact ⟨s, h, (of_decide_eq_true hs).1, (of_decide_eq_true hs).2, tasks_kept h⟩

/-- The receive task resets the module after an error: the bit that should stop it is cleared by the
start of the next task, and the next interrupt makes both of them receive frames. -/
theorem both_tasks_receive : ∃ s : State Unit, (machine ready).Reachable Machine.Free s ∧
    (∃ vars, s.tasks.task 0 = .receiving vars) ∧ (∃ vars, s.tasks.task 1 = .receiving vars) ∧
    s.tasks.stopped 0 = true ∧ s.tasks.late 0 = true ∧ ¬ Lifecycle s := by
  have hrun : ((machine ready).exec Machine.Free State.init
      (List.flatten [
        turning_on, [.task 0 true, .isr, .timer, .task 0 true, .frames 0 .other, .task 0 true],
        List.replicate 4 (.call (.receive_task 0)), [.task 0 true], List.replicate 6 (.call (.receive_task 0)),
        [.task 0 true, .task 0 true, .task 1 true, .isr, .timer, .task 0 true, .task 1 true]])).any
      (fun s => (s.tasks.task 0).isReceiving = true ∧ (s.tasks.task 1).isReceiving = true ∧
        s.tasks.stopped 0 = true ∧ s.tasks.late 0 = true) = true := by decide +kernel
  obtain ⟨s, hexec, hs⟩ := (Option.any_eq_true _ _).1 hrun
  obtain ⟨h0, h1, hstopped, hlate⟩ := of_decide_eq_true hs
  refine ⟨s, Machine.exec_reachable rfl hexec, Task.receiving_of h0, Task.receiving_of h1, hstopped, hlate, fun h => ?_⟩
  rw [(h.stopped 0 hstopped).1] at hlate
  cases hlate

end Wfx
