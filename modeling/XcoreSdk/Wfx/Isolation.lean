import XcoreSdk.Wfx.Scanning
import Mathlib.Data.List.Basic
import Mathlib.Logic.Function.Basic
/-!
# Scans that leave each other alone

A call that returns success holds the first results of its own scan, and the callback
writes only where the current call wants it to, as long as no indication of a scan comes
after the call that started it has given it up (`Prompt`).
-/

namespace Wfx
namespace Scanning

/-! ## What is promised -/

def Handled.scan : Handled → Nat
  | .result scan _ | .complete scan => scan

/-- The results of a scan, as they came. -/
def results (scan : Nat) (handled : List Handled) : List Body :=
  handled.filterMap fun
    | .result n body => if n = scan then some body else none
    | .complete _ => none

/-- What the buffer holds: the results that there is room for, and zeros behind them. -/
def element (bodies : List Body) (i : Nat) : WIFIScanResult_t :=
  match bodies[i]? with
  | some body => WIFIScanResult_t.zero.take body
  | none => .zero

structure Isolated (s : State) : Prop where
  completed : ∀ r ∈ s.returned, .complete r.scan ∈ s.handled.take r.handled
  contents : ∀ r ∈ s.returned,
    r.contents = (List.range r.ucNumNetworks.toNat).map (element (results r.scan (s.handled.take r.handled)))
  writes : ∀ w ∈ s.writes, ∃ call, w.call = some call ∧ call.pxBuffer ≤ w.address ∧
    w.address < call.pxBuffer + call.ucNumNetworks.toNat

/-- The scan whose indications the call is there for. -/
def Pos.listens : Pos → Option Nat
  | .sent scan | .wait scan _ => some scan
  | _ => none

def State.listens (s : State) : Option Nat := s.call.bind fun call => call.pos.listens

/-- The next step gives the scan up. -/
def Pos.returns (ok : Bool) : Pos → Bool
  | .sent _ => !ok
  | .wait _ (.woken _) => true
  | _ => false

/-- A result that there is room for comes while the call that started its scan is there, and is
handled before that call returns; a call that listens hears of the end of no other scan, and
the bit is clear when a command is sent. -/
def Prompt (s : State) : Action → Prop
  | .result scan _ => s.scan_count < s.scan_result_max_count.toNat → s.listens = some scan
  | .complete scan => ∀ current ∈ s.listens, scan = current
  | .call ok => ∀ call ∈ s.call, (call.pos = .send → s.complete = false) ∧
      (call.pos.returns ok → s.receive = .idle)
  | _ => True

section Results
variable {scan n : Nat} {body : Body} {handled more : List Handled} {bodies : List Body} {i : Nat}

theorem results_result :
    results scan (handled ++ [Handled.result n body]) = results scan handled ++ if n = scan then [body] else [] := by
  unfold results
  rw [List.filterMap_append]
  by_cases h : n = scan <;> simp [h]

theorem results_complete : results scan (handled ++ [Handled.complete n]) = results scan handled := by
  simp [results]

theorem results_fresh (h : ∀ e ∈ handled, e.scan < scan) : results scan handled = [] := by
  unfold results
  rw [List.filterMap_eq_nil_iff]
  intro e he
  have hlt := h e he
  cases e with
  | complete n => rfl
  | result n body => exact if_neg (Nat.ne_of_lt hlt)

theorem element_old (h : i < bodies.length) : element (bodies ++ [body]) i = element bodies i := by
  unfold element
  rw [List.getElem?_append_left h]

theorem element_new : element (bodies ++ [body]) bodies.length = WIFIScanResult_t.zero.take body := by
  unfold element
  rw [List.getElem?_concat_length]

theorem element_none (h : bodies.length ≤ i) : element bodies i = .zero := by
  unfold element
  rw [List.getElem?_eq_none h]

end Results

/-! ## The invariant -/

/-- How far the buffer is filled. -/
def Filling (s : State) (call : Call) (scan : Nat) : Prop :=
  match s.receive with
  | .idle => s.scan_count = min (results scan s.handled).length call.ucNumNetworks.toNat ∧
      ∀ i < call.ucNumNetworks.toNat, s.memory (call.pxBuffer + i) = element (results scan s.handled) i
  | .write n _ => n = scan ∧ s.scan_count = (results scan s.handled).length ∧
      s.scan_count < call.ucNumNetworks.toNat ∧
      ∀ i < call.ucNumNetworks.toNat, s.memory (call.pxBuffer + i) = element (results scan s.handled) i
  | .count n body => n = scan ∧ s.scan_count = (results scan s.handled).length ∧
      s.scan_count < call.ucNumNetworks.toNat ∧
      ∀ i < call.ucNumNetworks.toNat, s.memory (call.pxBuffer + i) = element (results scan s.handled ++ [body]) i

/-- What a call that has sent its command may rely on. -/
structure Listening (s : State) (call : Call) (scan : Nat) : Prop where
  sent : scan < s.sent
  scan_results : s.scan_results = call.pxBuffer
  scan_result_max_count : s.scan_result_max_count = call.ucNumNetworks
  complete : s.complete = true → .complete scan ∈ s.handled
  filling : Filling s call scan

/-- What the steps of a call before its command have done. -/
structure Prepared (s : State) (call : Call) : Prop where
  idle : s.receive = .idle
  scan_results : call.pos ≠ .set_results → s.scan_results = call.pxBuffer
  scan_result_max_count : call.pos ≠ .set_results → call.pos ≠ .set_max_count →
    s.scan_result_max_count = call.ucNumNetworks
  scan_count : call.pos = .clear ∨ call.pos = .send → s.scan_count = 0
  memory : call.pos = .send → ∀ i < call.ucNumNetworks.toNat, s.memory (call.pxBuffer + i) = .zero

def Progress (s : State) : Prop :=
  match s.call with
  | none => s.receive = .idle
  | some call =>
    match call.pos.listens with
    | none => Prepared s call
    | some scan => Listening s call scan ∧ (call.pos = .wait scan (.woken true) → .complete scan ∈ s.handled)

structure Inv (s : State) : Prop where
  fresh : ∀ e ∈ s.handled, e.scan < s.sent
  since : ∀ r ∈ s.returned, r.handled ≤ s.handled.length
  isolated : Isolated s
  progress : Progress s

variable {s s' : State} {call : Call} {scan : Nat}

theorem Isolated.mono (h : Isolated s) {more : List Handled} (hsince : ∀ r ∈ s.returned, r.handled ≤ s.handled.length)
    (hhandled : s'.handled = s.handled ++ more) (hreturned : s'.returned = s.returned)
    (hwrites : s'.writes = s.writes) : Isolated s' := by
  have htake : ∀ r ∈ s.returned, s'.handled.take r.handled = s.handled.take r.handled := by
    intro r hr
    rw [hhandled, List.take_append_of_le_length (hsince r hr)]
  refine ⟨fun r hr => ?_, fun r hr => ?_, ?_⟩
  · rw [hreturned] at hr
    rw [htake r hr]
    exact h.completed r hr
  · rw [hreturned] at hr
    rw [htake r hr]
    exact h.contents r hr
  · rw [hwrites]
    exact h.writes

/-- A step that neither writes nor returns success. -/
theorem Inv.moves (h : Inv s) (more : List Handled) (hhandled : s'.handled = s.handled ++ more)
    (hsent : s.sent ≤ s'.sent) (hmore : ∀ e ∈ more, e.scan < s'.sent) (hreturned : s'.returned = s.returned)
    (hwrites : s'.writes = s.writes) (hprogress : Progress s') : Inv s' := by
  refine ⟨fun e he => ?_, fun r hr => ?_, h.isolated.mono h.since hhandled hreturned hwrites, hprogress⟩
  · rw [hhandled] at he
    rcases List.mem_append.1 he with he | he
    · exact Nat.lt_of_lt_of_le (h.fresh e he) hsent
    · exact hmore e he
  · rw [hreturned] at hr
    rw [hhandled, List.length_append]
    exact Nat.le_add_right_of_le (h.since r hr)

/-- A step of the call: nothing is handled. -/
theorem Inv.steps (h : Inv s) (hhandled : s'.handled = s.handled) (hsent : s.sent ≤ s'.sent)
    (hreturned : s'.returned = s.returned) (hwrites : s'.writes = s.writes) (hprogress : Progress s') : Inv s' :=
  h.moves [] (by rw [hhandled, List.append_nil]) hsent (by intro _ h; cases h) hreturned hwrites hprogress

variable (scan) in
/-- The call listens. -/
theorem Inv.listening (h : Inv s) (hcall : s.call = some call) (hlistens : call.pos.listens = some scan) :
    Listening s call scan ∧ (call.pos = .wait scan (.woken true) → .complete scan ∈ s.handled) := by
  have hprogress := h.progress
  unfold Progress at hprogress
  rw [hcall] at hprogress
  dsimp only at hprogress
  rw [hlistens] at hprogress
  exact hprogress

theorem Inv.prepared (h : Inv s) (hcall : s.call = some call) (hlistens : call.pos.listens = none) :
    Prepared s call := by
  have hprogress := h.progress
  unfold Progress at hprogress
  rw [hcall] at hprogress
  dsimp only at hprogress
  rw [hlistens] at hprogress
  exact hprogress

theorem progress_listening (hcall : s.call = some call) (hlistens : call.pos.listens = some scan)
    (hlistening : Listening s call scan)
    (hwoken : call.pos = .wait scan (.woken true) → .complete scan ∈ s.handled) : Progress s := by
  unfold Progress
  rw [hcall]
  dsimp only
  rw [hlistens]
  exact ⟨hlistening, hwoken⟩

theorem progress_prepared (hcall : s.call = some call) (hlistens : call.pos.listens = none)
    (hprepared : Prepared s call) : Progress s := by
  unfold Progress
  rw [hcall]
  dsimp only
  rw [hlistens]
  exact hprepared

/-- Only a call that listens has a result half handled. -/
theorem Inv.busy (h : Inv s) (hbusy : s.receive ≠ .idle) :
    ∃ call scan, s.call = some call ∧ call.pos.listens = some scan ∧ Listening s call scan ∧
      (call.pos = .wait scan (.woken true) → .complete scan ∈ s.handled) := by
  have hprogress := h.progress
  unfold Progress at hprogress
  split at hprogress
  · exact (hbusy hprogress).elim
  · rename_i call hcall
    split at hprogress
    · exact (hbusy hprogress.idle).elim
    · rename_i scan hlistens
      exact ⟨call, scan, hcall, hlistens, hprogress⟩

/-! ## The receive task -/

theorem Filling.idle (hidle : s.receive = .idle) (h : Filling s call scan) :
    s.scan_count = min (results scan s.handled).length call.ucNumNetworks.toNat ∧
      ∀ i < call.ucNumNetworks.toNat, s.memory (call.pxBuffer + i) = element (results scan s.handled) i := by
  unfold Filling at h
  rw [hidle] at h
  exact h

/-- There is no room for the result. -/
theorem Filling.full {n : Nat} {body : Body} (hidle : s.receive = .idle) (h : Filling s call scan)
    (hfull : call.ucNumNetworks.toNat ≤ s.scan_count) :
    Filling { s with handled := s.handled ++ [Handled.result n body] } call scan := by
  obtain ⟨hcount, hmemory⟩ := h.idle hidle
  unfold Filling
  dsimp only
  rw [hidle, results_result]
  dsimp only
  split
  · have hlength : call.ucNumNetworks.toNat ≤ (results scan s.handled).length := by omega
    refine ⟨by simp only [List.length_append, List.length_singleton]; omega, fun i hi => ?_⟩
    rw [element_old (Nat.lt_of_lt_of_le hi hlength)]
    exact hmemory i hi
  · rw [List.append_nil]
    exact ⟨hcount, hmemory⟩

/-- An indication that nothing but a call that listens cares about. -/
theorem Inv.hears (h : Inv s) {e : Handled} {complete : Bool} (hidle : s.receive = .idle) (he : e.scan < s.sent)
    (hlistens : ∀ call scan, s.call = some call → call.pos.listens = some scan → Listening s call scan →
      Listening { s with handled := s.handled ++ [e], complete } call scan) :
    Inv { s with handled := s.handled ++ [e], complete } := by
  refine h.moves _ rfl (Nat.le_refl _) (by simpa using he) rfl rfl ?_
  have hprogress := h.progress
  unfold Progress at hprogress ⊢
  dsimp only
  split at hprogress
  · exact hprogress
  · rename_i call hcall
    split at hprogress
    · exact ⟨hidle, hprogress.scan_results, hprogress.scan_result_max_count, hprogress.scan_count, hprogress.memory⟩
    · rename_i scan hscan
      exact ⟨hlistens call scan hcall hscan hprogress.1, fun hpos => List.mem_append_left _ (hprogress.2 hpos)⟩

theorem Inv.result (h : Inv s) {n : Nat} {body : Body} (hidle : s.receive = .idle) (hn : n < s.sent)
    (hprompt : s.scan_count < s.scan_result_max_count.toNat → s.listens = some n) :
    Inv (sl_wfx_scan_result_callback s n body) := by
  unfold sl_wfx_scan_result_callback
  split
  · rename_i hroom
    obtain ⟨call, hcall, hlistens⟩ := Option.bind_eq_some_iff.1 (hprompt hroom)
    obtain ⟨hlistening, hwoken⟩ := h.listening _ hcall hlistens
    refine h.steps rfl (Nat.le_refl _) rfl rfl (progress_listening hcall hlistens ?_ hwoken)
    refine ⟨hlistening.sent, hlistening.scan_results, hlistening.scan_result_max_count, hlistening.complete, ?_⟩
    obtain ⟨hcount, hmemory⟩ := hlistening.filling.idle hidle
    rw [hlistening.scan_result_max_count] at hroom
    exact ⟨rfl, by dsimp only; omega, hroom, hmemory⟩
  · rename_i hfull
    refine h.hears hidle hn fun call scan _ _ hlistening => ?_
    rw [hlistening.scan_result_max_count] at hfull
    exact ⟨hlistening.sent, hlistening.scan_results, hlistening.scan_result_max_count,
      fun hcomplete => List.mem_append_left _ (hlistening.complete hcomplete),
      hlistening.filling.full hidle (Nat.le_of_not_lt hfull)⟩

theorem Filling.complete {n : Nat} {complete : Bool} {current : Option Call} {call' : Call}
    (hidle : s.receive = .idle) (h : Filling s call scan) (hbuffer : call'.pxBuffer = call.pxBuffer)
    (hsize : call'.ucNumNetworks = call.ucNumNetworks) :
    Filling { s with handled := s.handled ++ [Handled.complete n], complete := complete, call := current } call' scan := by
  obtain ⟨hcount, hmemory⟩ := h.idle hidle
  unfold Filling
  dsimp only
  rw [hidle, results_complete, hbuffer, hsize]
  exact ⟨hcount, hmemory⟩

theorem Inv.complete (h : Inv s) {n : Nat} (hidle : s.receive = .idle) (hn : n < s.sent)
    (hprompt : ∀ current ∈ s.listens, n = current) : Inv (sl_wfx_scan_complete_callback s n) := by
  unfold sl_wfx_scan_complete_callback
  dsimp only
  split
  · rename_i pxBuffer ucNumNetworks scan hcall
    obtain ⟨hlistening, -⟩ := h.listening _ hcall rfl
    have hscan : n = scan := hprompt scan (by rw [State.listens, hcall]; rfl)
    subst hscan
    refine h.moves _ rfl (Nat.le_refl _) (by simpa [Handled.scan] using hn) rfl rfl
      (progress_listening rfl rfl ?_ fun _ => by simp)
    exact ⟨hlistening.sent, hlistening.scan_results, hlistening.scan_result_max_count, (by intro h; cases h),
      hlistening.filling.complete hidle rfl rfl⟩
  · refine h.hears hidle hn fun call scan hcall hlistens hlistening => ?_
    have hscan : n = scan := hprompt scan (by rw [State.listens, hcall]; exact hlistens)
    subst hscan
    exact ⟨hlistening.sent, hlistening.scan_results, hlistening.scan_result_max_count, fun _ => by simp,
      hlistening.filling.complete hidle rfl rfl⟩

theorem Inv.scan_result_step (h : Inv s) (hs : scan_result_step s = some s') : Inv s' := by
  unfold Scanning.scan_result_step at hs
  split at hs <;> rename_i hreceive
  · cases hs
  · rename_i n body
    obtain rfl := Option.some.inj hs
    obtain ⟨call, scan, hcall, hlistens, hlistening, hwoken⟩ := h.busy (by rw [hreceive]; intro h; cases h)
    have hfilling := hlistening.filling
    unfold Filling at hfilling
    rw [hreceive] at hfilling
    obtain ⟨rfl, hcount, hroom, hmemory⟩ := hfilling
    have haddress : s.scan_results + s.scan_count = call.pxBuffer + (results n s.handled).length := by
      rw [hlistening.scan_results, hcount]
    refine ⟨h.fresh, h.since, ⟨h.isolated.completed, h.isolated.contents, fun w hw => ?_⟩,
      progress_listening hcall hlistens ⟨hlistening.sent, hlistening.scan_results, hlistening.scan_result_max_count,
        hlistening.complete, rfl, hcount, hroom, fun i hi => ?_⟩ hwoken⟩
    · rcases List.mem_append.1 hw with hw | hw
      · exact h.isolated.writes w hw
      · obtain rfl := List.mem_singleton.1 hw
        refine ⟨call, hcall, ?_⟩
        dsimp only
        rw [hlistening.scan_results]
        exact ⟨Nat.le_add_right .., Nat.add_lt_add_left hroom _⟩
    · -- the element that is written to is the first one without a result
      dsimp only
      rw [haddress]
      rcases Nat.lt_trichotomy i (results n s.handled).length with hlt | rfl | hlt
      · rw [Function.update_of_ne (by omega), element_old hlt]
        exact hmemory i hi
      · rw [Function.update_self, element_new, hmemory _ hi, element_none (Nat.le_refl _)]
      · rw [Function.update_of_ne (by omega), hmemory i hi, element_none (Nat.le_of_lt hlt), element_none]
        rw [List.length_append, List.length_singleton]
        exact hlt
  · rename_i n body
    obtain rfl := Option.some.inj hs
    obtain ⟨call, scan, hcall, hlistens, hlistening, hwoken⟩ := h.busy (by rw [hreceive]; intro h; cases h)
    have hfilling := hlistening.filling
    unfold Filling at hfilling
    rw [hreceive] at hfilling
    obtain ⟨rfl, hcount, hroom, hmemory⟩ := hfilling
    refine h.moves _ rfl (Nat.le_refl _) (by simpa [Handled.scan] using hlistening.sent) rfl rfl
      (progress_listening hcall hlistens ⟨hlistening.sent, hlistening.scan_results, hlistening.scan_result_max_count,
        fun hcomplete => List.mem_append_left _ (hlistening.complete hcomplete), ?_⟩
        fun hpos => List.mem_append_left _ (hwoken hpos))
    unfold Filling
    dsimp only
    rw [results_result, if_pos rfl, List.length_append, List.length_singleton, ← hcount]
    exact ⟨(Nat.min_eq_left hroom).symm, hmemory⟩

/-! ## The call -/

/-- A step of a call that listens and goes on listening. -/
theorem Inv.waits (h : Inv s) (scan : Nat) (hcall : s.call = some call) (hlistens : call.pos.listens = some scan) {pos : Pos}
    {complete : Bool} (hpos : pos.listens = some scan) (hcomplete : complete = true → s.complete = true)
    (hwoken : pos = .wait scan (.woken true) → .complete scan ∈ s.handled) :
    Inv { s with complete, call := some { call with pos } } := by
  obtain ⟨hlistening, -⟩ := h.listening _ hcall hlistens
  exact h.steps rfl (Nat.le_refl _) rfl rfl (progress_listening rfl hpos
    ⟨hlistening.sent, hlistening.scan_results, hlistening.scan_result_max_count,
      fun hc => hlistening.complete (hcomplete hc), hlistening.filling⟩ hwoken)

/-- The call takes the bit, or finds that it is not set. -/
theorem Inv.take_complete (h : Inv s) (hcall : s.call = some call) (hlistens : call.pos.listens = some scan) :
    Inv (s.take_complete call scan) := by
  refine h.waits scan hcall hlistens rfl (by intro h; cases h) fun hpos => ?_
  obtain ⟨hlistening, -⟩ := h.listening _ hcall hlistens
  simp only [Pos.wait.injEq, Wait.woken.injEq, true_and] at hpos
  exact hlistening.complete hpos

/-- The call gives up. -/
theorem Inv.gives_up (h : Inv s) (hidle : s.receive = .idle) : Inv { s with call := none } :=
  h.steps rfl (Nat.le_refl _) rfl rfl hidle

theorem Inv.returns (h : Inv s) (hcall : s.call = some call) (hpos : call.pos = .wait scan (.woken true))
    (hidle : s.receive = .idle) : Inv { s with
      returned := s.returned ++ [⟨scan, call.ucNumNetworks, s.contents call, s.handled.length⟩]
      call := none } := by
  obtain ⟨hlistening, hwoken⟩ := h.listening scan hcall (by rw [hpos]; rfl)
  obtain ⟨-, hmemory⟩ := hlistening.filling.idle hidle
  refine ⟨h.fresh, fun r hr => ?_, ⟨fun r hr => ?_, fun r hr => ?_, h.isolated.writes⟩, hidle⟩
  all_goals
    rcases List.mem_append.1 hr with hr | hr
  · exact h.since r hr
  · obtain rfl := List.mem_singleton.1 hr
    exact Nat.le_refl _
  · exact h.isolated.completed r hr
  · obtain rfl := List.mem_singleton.1 hr
    dsimp only
    rw [List.take_length]
    exact hwoken hpos
  · exact h.isolated.contents r hr
  · obtain rfl := List.mem_singleton.1 hr
    dsimp only [State.contents]
    rw [List.take_length]
    apply List.map_congr_left
    intro i hi
    exact hmemory i (List.mem_range.1 hi)

theorem Inv.scan_step (h : Inv s) {ok : Bool} (hcall : s.call = some call)
    (hsend : call.pos = .send → s.complete = false) (hreturns : call.pos.returns ok → s.receive = .idle)
    (hs : scan_step s call ok = some s') : Inv s' := by
  unfold Scanning.scan_step at hs
  split at hs <;> rename_i hpos
  · obtain rfl := Option.some.inj hs
    have hprepared := h.prepared hcall (by rw [hpos]; rfl)
    refine h.steps rfl (Nat.le_refl _) rfl rfl (progress_prepared rfl rfl ⟨hprepared.idle, fun _ => rfl, ?_, ?_, ?_⟩)
    all_goals simp
  · obtain rfl := Option.some.inj hs
    have hprepared := h.prepared hcall (by rw [hpos]; rfl)
    refine h.steps rfl (Nat.le_refl _) rfl rfl (progress_prepared rfl rfl ⟨hprepared.idle,
      fun _ => hprepared.scan_results (by simp [hpos]), fun _ _ => rfl, ?_, ?_⟩)
    all_goals simp
  · obtain rfl := Option.some.inj hs
    have hprepared := h.prepared hcall (by rw [hpos]; rfl)
    refine h.steps rfl (Nat.le_refl _) rfl rfl (progress_prepared rfl rfl ⟨hprepared.idle,
      fun _ => hprepared.scan_results (by simp [hpos]),
      fun _ _ => hprepared.scan_result_max_count (by simp [hpos]) (by simp [hpos]), fun _ => rfl, ?_⟩)
    simp
  · obtain rfl := Option.some.inj hs
    have hprepared := h.prepared hcall (by rw [hpos]; rfl)
    refine h.steps rfl (Nat.le_refl _) rfl rfl (progress_prepared rfl rfl ⟨hprepared.idle,
      fun _ => hprepared.scan_results (by simp [hpos]),
      fun _ _ => hprepared.scan_result_max_count (by simp [hpos]) (by simp [hpos]),
      fun _ => hprepared.scan_count (.inl hpos), fun _ i hi => ?_⟩)
    exact if_pos ⟨Nat.le_add_right .., Nat.add_lt_add_left hi _⟩
  · -- no result of the scan that begins has been handled
    obtain rfl := Option.some.inj hs
    have hprepared := h.prepared hcall (by rw [hpos]; rfl)
    refine h.steps rfl (Nat.le_succ _) rfl rfl (progress_listening rfl rfl ⟨Nat.lt_succ_self _,
      hprepared.scan_results (by simp [hpos]), hprepared.scan_result_max_count (by simp [hpos]) (by simp [hpos]),
      fun hcomplete => ?_, ?_⟩ (by intro h; cases h))
    · rw [hsend hpos] at hcomplete
      cases hcomplete
    · unfold Filling
      dsimp only
      rw [hprepared.idle, results_fresh h.fresh, hprepared.scan_count (.inr hpos)]
      exact ⟨(Nat.zero_min _).symm, hprepared.memory hpos⟩
  · rename_i scan
    split at hs <;> obtain rfl := Option.some.inj hs
    · exact h.waits scan hcall (by rw [hpos]; rfl) rfl (fun hc => hc) (by intro h; cases h)
    · rename_i hok
      exact h.gives_up (hreturns (by simpa [hpos, Pos.returns] using hok))
  · rename_i scan
    split at hs <;> obtain rfl := Option.some.inj hs
    · exact h.take_complete hcall (by rw [hpos]; rfl)
    · exact h.waits scan hcall (by rw [hpos]; rfl) rfl (fun hc => hc) (by intro h; cases h)
  · cases hs
  · obtain rfl := Option.some.inj hs
    exact h.take_complete hcall (by rw [hpos]; rfl)
  · have hidle := hreturns (by rw [hpos]; rfl)
    split at hs <;> obtain rfl := Option.some.inj hs
    · rename_i hcomplete
      rw [hcomplete] at hpos
      exact h.returns hcall hpos hidle
    · exact h.gives_up hidle

theorem Inv.wait_timeout (h : Inv s) (hcall : s.call = some call) (hs : wait_timeout s call = some s') : Inv s' := by
  unfold Scanning.wait_timeout at hs
  split at hs
  · rename_i scan hpos
    obtain rfl := Option.some.inj hs
    exact h.waits scan hcall (by rw [hpos]; rfl) rfl (fun hc => hc) (by intro h; cases h)
  · cases hs

theorem Inv.WIFI_Scan (h : Inv s) {pxBuffer : Nat} {ucNumNetworks : UInt8}
    (hs : WIFI_Scan s pxBuffer ucNumNetworks = some s') : Inv s' := by
  unfold Scanning.WIFI_Scan at hs
  split at hs
  · rename_i hcall
    obtain rfl := Option.some.inj hs
    have hidle := h.progress
    unfold Progress at hidle
    rw [hcall] at hidle
    refine h.steps rfl (Nat.le_refl _) rfl rfl (progress_prepared rfl rfl ⟨hidle, ?_, ?_, ?_, ?_⟩)
    all_goals simp
  · cases hs

theorem Inv.reset (h : Inv s) : Inv { s with complete := false } := by
  refine h.steps rfl (Nat.le_refl _) rfl rfl ?_
  have hprogress := h.progress
  unfold Progress at hprogress ⊢
  dsimp only
  split at hprogress
  · exact hprogress
  · split at hprogress
    · exact ⟨hprogress.idle, hprogress.scan_results, hprogress.scan_result_max_count, hprogress.scan_count,
        hprogress.memory⟩
    · obtain ⟨hlistening, hwoken⟩ := hprogress
      exact ⟨⟨hlistening.sent, hlistening.scan_results, hlistening.scan_result_max_count, (by intro h; cases h),
        hlistening.filling⟩, hwoken⟩

theorem inv_init (memory : Nat → WIFIScanResult_t) : Inv (.init memory) := by
  refine ⟨?_, ?_, ⟨?_, ?_, ?_⟩, rfl⟩ <;> simp [State.init]

theorem inv_step {action : Action} (h : Inv s) (hprompt : Prompt s action) (hs : step s action = some s') : Inv s' := by
  cases action with
  | WIFI_Scan pxBuffer ucNumNetworks => exact h.WIFI_Scan hs
  | call ok =>
    obtain ⟨call, hcall, hstep⟩ := Option.bind_eq_some_iff.1 hs
    obtain ⟨hsend, hreturns⟩ := hprompt call hcall
    exact h.scan_step hcall hsend hreturns hstep
  | timeout =>
    obtain ⟨call, hcall, hstep⟩ := Option.bind_eq_some_iff.1 hs
    exact h.wait_timeout hcall hstep
  | result scan body =>
    unfold step at hs
    dsimp only at hs
    split at hs
    · rename_i hready
      obtain rfl := Option.some.inj hs
      exact h.result hready.1 hready.2 hprompt
    · cases hs
  | complete scan =>
    unfold step at hs
    dsimp only at hs
    split at hs
    · rename_i hready
      obtain rfl := Option.some.inj hs
      exact h.complete hready.1 hready.2 hprompt
    · cases hs
  | receive => exact h.scan_result_step hs
  | reset =>
    obtain rfl := Option.some.inj hs
    exact h.reset

/-- In every run in which the indications of a scan come while the call that started it is there,
and are handled before it returns, a call that returns success has had the end of its
own scan and holds that scan's first results, and every write of the callback is within the
buffer of the current call. -/
theorem scans_isolated (h : machine.Reachable Prompt s) : Isolated s := by
  have hinv : Inv s := by
    refine h.inv (fun s hs => ?_) fun s a s' hinv hprompt hs => inv_step hinv hprompt hs
    obtain ⟨memory, rfl⟩ := hs
    exact inv_init memory
  exact hinv.isolated

/-! ## A scan after another -/

instance (s : State) (action : Action) : Decidable (Prompt s action) :=
  match action with
  | .result _ _ => inferInstanceAs (Decidable (_ < _ → _ = _))
  | .complete _ => inferInstanceAs (Decidable (∀ current ∈ s.listens, _ = current))
  | .call ok => inferInstanceAs (Decidable (∀ call ∈ s.call, (call.pos = .send → s.complete = false) ∧
      (call.pos.returns ok → s.receive = .idle)))
  | .WIFI_Scan _ _ | .timeout | .receive | .reset => inferInstanceAs (Decidable True)

def body : Body := ⟨[104, 111, 109, 101], 4, [1, 2, 3, 4, 5, 6], 11, 100, ⟨false, false, true, true, false, false⟩⟩

def hidden : Body := ⟨[], 0, [6, 5, 4, 3, 2, 1], 1, 80, ⟨false, false, false, false, false, false⟩⟩

/-- `WIFI_Scan`, up to where it waits. -/
def scanning (pxBuffer : Nat) (ucNumNetworks : UInt8) : List Action :=
  .WIFI_Scan pxBuffer ucNumNetworks :: List.replicate 7 (.call true)

/-- A scan with a result more than there is room for, and one with a result less. -/
theorem scans_isolated_two : ∃ s, machine.Reachable Prompt s ∧
    s.returned = [⟨0, 1, [WIFIScanResult_t.zero.take body], 3⟩,
      ⟨1, 2, [WIFIScanResult_t.zero.take hidden, .zero], 5⟩] ∧ Isolated s := by
  have hrun : (machine.exec Prompt (.init fun _ => .zero)
      (List.flatten [
        scanning 0 1, [.result 0 body, .receive, .receive, .result 0 hidden, .complete 0, .call true], scanning 0 2,
        [.result 1 hidden, .receive, .receive, .complete 1, .call true]])).any
      (fun s => s.returned = [⟨0, 1, [WIFIScanResult_t.zero.take body], 3⟩,
        ⟨1, 2, [WIFIScanResult_t.zero.take hidden, .zero], 5⟩]) = true := by decide +kernel
  obtain ⟨s, hexec, hs⟩ := (Option.any_eq_true _ _).1 hrun
  have h : machine.Reachable Prompt s := Machine.exec_reachable ⟨_, rfl⟩ hexec
  exact ⟨s, h, of_decide_eq_true hs, scans_isolated h⟩

/-- A scan times out. Its result is written to the buffer of the call that has returned, and its end
leaves the bit set, so the next scan is over as soon as it has begun. -/
theorem late_result_written : ∃ s, machine.Reachable Machine.Free s ∧ s.writes = [⟨0, none⟩] ∧
    s.returned = [⟨1, 1, [.zero], 2⟩] ∧ s.handled = [.result 0 body, .complete 0] ∧ ¬ Isolated s := by
  have hrun : (machine.exec Machine.Free (.init fun _ => .zero)
      (List.flatten [
        scanning 0 1, [.timeout, .call true, .call true, .result 0 body, .receive, .receive, .complete 0],
        scanning 1 1, [.call true]])).any
      (fun s => s.writes = [⟨0, none⟩] ∧ s.returned = [⟨1, 1, [.zero], 2⟩] ∧
        s.handled = [.result 0 body, .complete 0]) = true := by decide +kernel
  obtain ⟨s, hexec, hs⟩ := (Option.any_eq_true _ _).1 hrun
  obtain ⟨hwrites, hreturned, hhandled⟩ := of_decide_eq_true hs
  refine ⟨s, Machine.exec_reachable ⟨_, rfl⟩ hexec, hwrites, hreturned, hhandled, fun h => ?_⟩
  obtain ⟨call, hcall, -⟩ := h.writes ⟨0, none⟩ (by rw [hwrites]; simp)
  cases hcall

end Scanning
end Wfx
