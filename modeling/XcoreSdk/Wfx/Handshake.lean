import XcoreSdk.Wfx.Interfaces
import Mathlib.Data.List.Basic
/-!
# What a successful call says

A bit that says that an interface is up follows the module's events. A call that returns
success has seen an event that came after its command, as long as no success of the
module comes between the look at that bit and the command, and no command to bring an
interface down is sent while a success is half handled and the down bit is still set (`Calm`).
-/

namespace Wfx
namespace Interfaces

/-! ## What has happened -/

def upAfter (i : Interface) (up : Bool) : Handled → Bool
  | .event j event => if j = i then event = .success else up
  | .reset => false

/-- The interface's last event since the last reset was a success. -/
def lastUp (i : Interface) (handled : List Handled) : Bool := handled.foldl (upAfter i) false

/-- A success of the interface was handled after the first `since` things that happened. -/
def Brought (handled : List Handled) (i : Interface) (since : Nat) : Prop :=
  ∃ k, since ≤ k ∧ handled[k]? = some (.event i .success)

/-- The interface was down after the first `since` things that happened, or went down after them. -/
def WentDown (handled : List Handled) (i : Interface) (since : Nat) : Prop :=
  lastUp i (handled.take since) = false ∨ ∃ k, since ≤ k ∧ handled[k]? = some (.event i .down)

structure Kept (s : State) : Prop where
  bit : ∀ i, (s.bits i).up = lastUp i s.handled
  brought_up : ∀ r ∈ s.returned, r.connect = true → Brought s.handled r.interface r.since
  brought_down : ∀ r ∈ s.returned, r.connect = false → WentDown s.handled r.interface r.since
  asserts : s.assert_failed = false

/-- The call has found the interface down, or has seen it go down, and has not sent its command. -/
def Call.committed (i : Interface) : Call → Bool
  | .connect j .clear | .connect j .send => j = i
  | .disconnect j .connect (.wait _ (.woken bits)) => j = i && bits.down
  | _ => false

/-- The call brings an interface down, and sends its command or looks at the down bit for a call that
is to bring it up again. -/
def Call.looks (i : Interface) : Call → Bool
  | .disconnect j _ .send => j = i
  | .disconnect j .connect (.wait _ .call) | .disconnect j .connect (.wait _ .timed_out) => j = i
  | _ => false

/-- No success is handled between a call's look at the interface and its command, and a success that
is half handled has no down bit to clear when a call looks at it. -/
def Calm (s : State) : Action → Prop
  | .connect_event true => s.call.committed .station = false
  | .start_ap_event true => s.call.committed .ap = false
  | .call _ => ∀ i ∈ [Interface.station, Interface.ap], s.call.looks i → s.receive = .clear_down i →
      (s.bits i).down = false
  | _ => True

section History
variable {handled more : List Handled} {i j : Interface} {since : Nat}

theorem lastUp_event (event : Event) :
    lastUp i (handled ++ [Handled.event j event]) = if j = i then decide (event = .success) else lastUp i handled := by
  simp [lastUp, upAfter]

theorem lastUp_reset : lastUp i (handled ++ [Handled.reset]) = false := by
  simp [lastUp, upAfter]

theorem Brought.mono (h : Brought handled i since) : Brought (handled ++ more) i since := by
  obtain ⟨k, hk, hget⟩ := h
  refine ⟨k, hk, ?_⟩
  rw [List.getElem?_append_left (List.getElem?_eq_some_iff.1 hget).1]
  exact hget

theorem WentDown.mono (h : WentDown handled i since) (hsince : since ≤ handled.length) :
    WentDown (handled ++ more) i since := by
  rcases h with h | ⟨k, hk, hget⟩
  · left
    rwa [List.take_append_of_le_length hsince]
  · right
    refine ⟨k, hk, ?_⟩
    rw [List.getElem?_append_left (List.getElem?_eq_some_iff.1 hget).1]
    exact hget

theorem Brought.last (hsince : since ≤ handled.length) : Brought (handled ++ [Handled.event i .success]) i since :=
  ⟨handled.length, hsince, List.getElem?_concat_length⟩

theorem WentDown.last (hsince : since ≤ handled.length) : WentDown (handled ++ [Handled.event i .down]) i since :=
  .inr ⟨handled.length, hsince, List.getElem?_concat_length⟩

end History

/-! ## The invariant -/

/-- What the call that holds the lock may rely on. -/
def Phase (s : State) : Prop :=
  match s.call with
  | .connect i .clear | .connect i .send => (s.bits i).up = false
  | .connect i (.wait since wait) => since ≤ s.handled.length ∧
      ((s.bits i).up → Brought s.handled i since) ∧
      ∀ bits, wait = .woken bits → bits.up → Brought s.handled i since
  | .disconnect i within (.wait since wait) => since ≤ s.handled.length ∧
      ((s.bits i).down ∨ s.receive = .set_down i → WentDown s.handled i since) ∧
      ∀ bits, wait = .woken bits → bits.down →
        WentDown s.handled i since ∧ (within = .connect → (s.bits i).up = false)
  | _ => True

structure Core (s : State) : Prop where
  bit : ∀ i, (s.bits i).up = lastUp i s.handled
  /-- Up and down are both set only while a success is half handled. -/
  both : ∀ i, (s.bits i).up → (s.bits i).down → s.receive = .clear_down i
  set_down : ∀ i, s.receive = .set_down i → (s.bits i).up = false
  phase : Phase s
  since : ∀ r ∈ s.returned, r.since ≤ s.handled.length
  brought_up : ∀ r ∈ s.returned, r.connect = true → Brought s.handled r.interface r.since
  brought_down : ∀ r ∈ s.returned, r.connect = false → WentDown s.handled r.interface r.since
  asserts : s.assert_failed = false

structure Inv (s : State) : Prop where
  core : Core s
  /-- Whoever waits for an interface to go down has not been told so. -/
  quiet : ∀ i within since, s.call = .disconnect i within (.wait since .waiting) → (s.bits i).down = false

variable {s s' : State}

theorem wake_cases (s : State) : s.wake = s ∧
      (∀ i within since, s.call = .disconnect i within (.wait since .waiting) → (s.bits i).down = false) ∨
    (∃ i since, s.call = .connect i (.wait since .waiting) ∧
      s.wake = { s with call := .connect i (.wait since (.woken (s.bits i))) }) ∨
    ∃ i within since, s.call = .disconnect i within (.wait since .waiting) ∧ (s.bits i).down ∧
      s.wake = s.take_down i within since := by
  unfold State.wake
  split
  · rename_i i since hcall
    split
    · exact .inr (.inl ⟨i, since, hcall, rfl⟩)
    · refine .inl ⟨rfl, fun j within since' h => ?_⟩
      rw [hcall] at h
      cases h
  · rename_i i within since hcall
    split
    · rename_i hdown
      exact .inr (.inr ⟨i, within, since, hcall, hdown, rfl⟩)
    · rename_i hdown
      refine .inl ⟨rfl, fun j within' since' h => ?_⟩
      rw [hcall] at h
      cases h
      simpa using hdown
  · rename_i hnone
    exact .inl ⟨rfl, fun i within since h => (hnone i within since h).elim⟩

theorem down_cleared (bits : Interface → Bits) (i j : Interface) {b : Bits} (hb : b = { bits i with down := false }) :
    (Function.update bits i b j).up = (bits j).up ∧ ((Function.update bits i b j).down → (bits j).down) ∧
      (j = i → (Function.update bits i b j).down = false) := by
  by_cases hji : j = i
  · subst hji
    subst hb
    simp
  · simp [hji]

/-- A call that waits for the interface to go down, or whose time is over, takes the down bit. -/
theorem Core.take_down (h : Core s) {i : Interface} {within : Within} {since : Nat} {wait : Wait}
    (hcall : s.call = .disconnect i within (.wait since wait))
    (hup : within = .connect → (s.bits i).down → (s.bits i).up = false) : Inv (s.take_down i within since) := by
  have hphase := h.phase
  simp only [Phase, hcall] at hphase
  obtain ⟨hsince, hdown, -⟩ := hphase
  have hbits := fun j => down_cleared s.bits i j rfl
  refine ⟨⟨fun j => (hbits j).1.trans (h.bit j), fun j hu hd => h.both j ((hbits j).1 ▸ hu) ((hbits j).2.1 hd),
    fun j hj => (hbits j).1.trans (h.set_down j hj), ⟨hsince, fun hd => ?_, fun bits hw hd => ?_⟩, h.since,
    h.brought_up, h.brought_down, h.asserts⟩, by intro _ _ _ h; cases h⟩
  · rcases hd with hd | hd
    · exact hdown (.inl ((hbits i).2.1 hd))
    · exact hdown (.inr hd)
  · obtain rfl := Wait.woken.inj hw
    refine ⟨hdown (.inl hd), fun hwithin => ?_⟩
    exact (hbits i).1.trans (hup hwithin hd)

/-- What is set wakes the call that waits for it. -/
theorem Core.wake (h : Core s) (hup : ∀ i within since, s.call = .disconnect i within (.wait since .waiting) →
    (s.bits i).down → (s.bits i).up = false) : Inv s.wake := by
  rcases wake_cases s with ⟨hwake, hquiet⟩ | ⟨i, since, hcall, hwake⟩ | ⟨i, within, since, hcall, hdown, hwake⟩
  · rw [hwake]
    exact ⟨h, hquiet⟩
  · have hphase := h.phase
    simp only [Phase, hcall] at hphase
    rw [hwake]
    refine ⟨⟨h.bit, h.both, h.set_down, ⟨hphase.1, hphase.2.1, fun bits hw hu => ?_⟩, h.since, h.brought_up,
      h.brought_down, h.asserts⟩, by intro _ _ _ h; cases h⟩
    obtain rfl := Wait.woken.inj hw
    exact hphase.2.1 hu
  · rw [hwake]
    exact h.take_down hcall fun _ => hup i within since hcall

/-! ## The receive task -/

/-- What a step of the receive task may do to what the call relies on. -/
theorem Phase.receive {more : List Handled} (hp : Phase s) (hcall : s'.call = s.call)
    (hmore : s'.handled = s.handled ++ more)
    (hup : ∀ i, (s'.bits i).up → (s.bits i).up ∨
      s.call.committed i = false ∧ ∀ since ≤ s.handled.length, Brought s'.handled i since)
    (hdown : ∀ i, (s'.bits i).down ∨ s'.receive = .set_down i → ((s.bits i).down ∨ s.receive = .set_down i) ∨
      ∀ since ≤ s.handled.length, WentDown s'.handled i since) : Phase s' := by
  have hlen : s.handled.length ≤ s'.handled.length := by
    rw [hmore, List.length_append]
    exact Nat.le_add_right ..
  -- an interface that the call counts on being down stays so
  have hstays : ∀ i, (s.bits i).up = false → s.call.committed i = true → (s'.bits i).up = false := by
    intro i hi hcommitted
    cases hu : (s'.bits i).up with
    | false => rfl
    | true =>
      rcases hup i hu with hold | ⟨hfree, -⟩
      · rw [hi] at hold
        cases hold
      · rw [hcommitted] at hfree
        cases hfree
  unfold Phase at hp ⊢
  rw [hcall]
  split at hp <;> rename_i heq
  · exact hstays _ hp (by rw [heq]; simp [Call.committed])
  · exact hstays _ hp (by rw [heq]; simp [Call.committed])
  · obtain ⟨hsince, hbrought, hwoken⟩ := hp
    refine ⟨Nat.le_trans hsince hlen, fun hu => ?_, fun bits hw hu => ?_⟩
    · rcases hup _ hu with hold | ⟨-, hnew⟩
      · rw [hmore]
        exact (hbrought hold).mono
      · exact hnew _ hsince
    · rw [hmore]
      exact (hwoken bits hw hu).mono
  · obtain ⟨hsince, hwent, hwoken⟩ := hp
    refine ⟨Nat.le_trans hsince hlen, fun hd => ?_, fun bits hw hd => ?_⟩
    · rcases hdown _ hd with hold | hnew
      · rw [hmore]
        exact (hwent hold).mono hsince
      · exact hnew _ hsince
    · obtain ⟨hwent', hconnect⟩ := hwoken bits hw hd
      refine ⟨by rw [hmore]; exact hwent'.mono hsince, fun hwithin => ?_⟩
      subst hwithin hw
      exact hstays _ (hconnect rfl) (by rw [heq]; simp [Call.committed, hd])
  · trivial

/-- The receive task is in no callback, or about to call the disconnect callback. -/
def Receive.free : Receive → Bool
  | .idle | .disconnect_callback => true
  | _ => false

theorem Core.free (h : Core s) (hfree : s.receive.free) (i : Interface) (hup : (s.bits i).up) :
    (s.bits i).down = false := by
  cases hd : (s.bits i).down with
  | false => rfl
  | true =>
    rw [h.both i hup hd] at hfree
    cases hfree

/-- A step of the receive task, but for the call that it may wake. -/
theorem Core.receive (h : Core s) (more : List Handled) (hcall : s'.call = s.call)
    (hmore : s'.handled = s.handled ++ more) (hreturned : s'.returned = s.returned)
    (hasserts : s'.assert_failed = s.assert_failed) (hbit : ∀ i, (s'.bits i).up = lastUp i s'.handled)
    (hboth : ∀ i, (s'.bits i).up → (s'.bits i).down → s'.receive = .clear_down i)
    (hset_down : ∀ i, s'.receive = .set_down i → (s'.bits i).up = false)
    (hup : ∀ i, (s'.bits i).up → (s.bits i).up ∨
      s.call.committed i = false ∧ ∀ since ≤ s.handled.length, Brought s'.handled i since)
    (hdown : ∀ i, (s'.bits i).down ∨ s'.receive = .set_down i → ((s.bits i).down ∨ s.receive = .set_down i) ∨
      ∀ since ≤ s.handled.length, WentDown s'.handled i since) : Core s' := by
  refine ⟨hbit, hboth, hset_down, h.phase.receive hcall hmore hup hdown, ?_, ?_, ?_, hasserts.trans h.asserts⟩
  · rw [hreturned, hmore]
    intro r hr
    rw [List.length_append]
    exact Nat.le_add_right_of_le (h.since r hr)
  · rw [hreturned, hmore]
    exact fun r hr hc => (h.brought_up r hr hc).mono
  · rw [hreturned, hmore]
    exact fun r hr hc => (h.brought_down r hr hc).mono (h.since r hr)

theorem bits_update (bits : Interface → Bits) (i : Interface) (b : Bits) (j : Interface) :
    j = i ∧ Function.update bits i b j = b ∨ j ≠ i ∧ Function.update bits i b j = bits j := by
  by_cases hji : j = i
  · subst hji
    exact .inl ⟨rfl, Function.update_self ..⟩
  · exact .inr ⟨hji, Function.update_of_ne hji ..⟩

theorem Inv.success (h : Inv s) {i : Interface} (hfree : s.receive.free) (hcommitted : s.call.committed i = false) :
    Inv (callback s i .success) := by
  have hbits := bits_update s.bits i { s.bits i with up := true }
  have hcore : Core { s with
      bits := Function.update s.bits i { s.bits i with up := true }
      handled := s.handled ++ [Handled.event i .success]
      receive := .clear_down i } := by
    refine h.core.receive _ rfl rfl rfl rfl (fun j => ?_) (fun j hu hd => ?_) (by intro _ h; cases h) (fun j hu => ?_)
      fun j hd => ?_
    · dsimp only
      rw [lastUp_event]
      rcases hbits j with ⟨rfl, hj⟩ | ⟨hji, hj⟩
      · rw [hj, if_pos rfl]
        rfl
      · rw [hj, if_neg (Ne.symm hji)]
        exact h.core.bit j
    · dsimp only at hu hd ⊢
      rcases hbits j with ⟨rfl, hj⟩ | ⟨-, hj⟩
      · rfl
      · rw [hj] at hu hd
        rw [h.core.free hfree j hu] at hd
        cases hd
    · dsimp only at hu
      rcases hbits j with ⟨rfl, hj⟩ | ⟨-, hj⟩
      · exact .inr ⟨hcommitted, fun since hsince => .last hsince⟩
      · rw [hj] at hu
        exact .inl hu
    · rcases hd with hd | hd
      · dsimp only at hd
        rcases hbits j with ⟨rfl, hj⟩ | ⟨-, hj⟩ <;> rw [hj] at hd <;> exact .inl (.inl hd)
      · cases hd
  refine hcore.wake fun j within since hcall hd => ?_
  have hquiet := h.quiet j within since hcall
  dsimp only at hd
  rcases hbits j with ⟨rfl, hj⟩ | ⟨-, hj⟩ <;> rw [hj, hquiet] at hd <;> cases hd

/-- The interface is not up: a failure, or the first half of going down. -/
theorem Inv.lost (h : Inv s) {i : Interface} {event : Event} {r : Receive} (hfree : s.receive.free)
    (hevent : event ≠ .success) (hr : ∀ j, r = .set_down j → j = i ∧ event = .down) :
    Inv { s.setBits i { s.bits i with up := false } with
      handled := s.handled ++ [Handled.event i event]
      receive := r } := by
  have hbits := bits_update s.bits i { s.bits i with up := false }
  refine ⟨h.core.receive _ rfl rfl rfl rfl (fun j => ?_) (fun j hu hd => ?_) (fun j hj => ?_) (fun j hu => ?_)
    fun j hd => ?_, fun j within since hcall => ?_⟩
  · dsimp only [State.setBits]
    rw [lastUp_event, decide_eq_false hevent]
    rcases hbits j with ⟨rfl, hj⟩ | ⟨hji, hj⟩
    · rw [hj, if_pos rfl]
    · rw [hj, if_neg (Ne.symm hji)]
      exact h.core.bit j
  · dsimp only [State.setBits] at hu hd
    rcases hbits j with ⟨rfl, hj⟩ | ⟨-, hj⟩ <;> rw [hj] at hu hd
    · cases hu
    · rw [h.core.free hfree j hu] at hd
      cases hd
  · obtain ⟨rfl, -⟩ := hr j hj
    dsimp only [State.setBits]
    rw [Function.update_self]
  · dsimp only [State.setBits] at hu
    rcases hbits j with ⟨rfl, hj⟩ | ⟨-, hj⟩ <;> rw [hj] at hu
    · cases hu
    · exact .inl hu
  · rcases hd with hd | hd
    · dsimp only [State.setBits] at hd
      rcases hbits j with ⟨rfl, hj⟩ | ⟨-, hj⟩ <;> rw [hj] at hd <;> exact .inl (.inl hd)
    · obtain ⟨rfl, rfl⟩ := hr j hd
      exact .inr fun since hsince => .last hsince
  · have hquiet := h.quiet j within since hcall
    dsimp only [State.setBits]
    rcases hbits j with ⟨rfl, hj⟩ | ⟨-, hj⟩ <;> rw [hj, hquiet]

theorem Inv.callback (h : Inv s) {i : Interface} {event : Event} (hfree : s.receive.free)
    (hcommitted : event = .success → s.call.committed i = false) : Inv (callback s i event) := by
  cases event with
  | success => exact h.success hfree (hcommitted rfl)
  | failure => exact h.lost hfree (by simp) (by intro _ h; cases h)
  | down => exact h.lost hfree (by simp) fun j hj => ⟨(Receive.set_down.inj hj).symm, rfl⟩

theorem Inv.callback_ends (h : Inv s) (hs : callback_ends s = some s') : Inv s' := by
  unfold Interfaces.callback_ends at hs
  split at hs <;> rename_i hreceive
  · cases hs
  · rename_i i
    obtain rfl := Option.some.inj hs
    have hbits := fun j => down_cleared s.bits i j rfl
    refine ⟨h.core.receive [] rfl (List.append_nil _).symm rfl rfl
      (fun j => (hbits j).1.trans (h.core.bit j)) (fun j hu hd => ?_) (by intro _ h; cases h)
      (fun j hu => .inl ((hbits j).1 ▸ hu)) fun j hd => ?_, fun j within since hcall => ?_⟩
    · -- a success that was half handled no longer is, and its down bit is cleared
      have hj := h.core.both j ((hbits j).1 ▸ hu) ((hbits j).2.1 hd)
      rw [hreceive] at hj
      have hcleared := (hbits j).2.2 (Receive.clear_down.inj hj).symm
      dsimp only [State.setBits] at hd
      rw [hcleared] at hd
      cases hd
    · rcases hd with hd | hd
      · exact .inl (.inl ((hbits j).2.1 hd))
      · cases hd
    · exact Bool.eq_false_iff.2 fun hd => Bool.eq_false_iff.1 (h.quiet j within since hcall) ((hbits j).2.1 hd)
  · rename_i i
    obtain rfl := Option.some.inj hs
    have hbits := bits_update s.bits i { s.bits i with fail := true }
    have hsame : ∀ j, (Function.update s.bits i { s.bits i with fail := true } j).up = (s.bits j).up ∧
        (Function.update s.bits i { s.bits i with fail := true } j).down = (s.bits j).down := by
      intro j
      rcases hbits j with ⟨rfl, hj⟩ | ⟨-, hj⟩ <;> rw [hj] <;> exact ⟨rfl, rfl⟩
    refine Core.wake (h.core.receive [] rfl (List.append_nil _).symm rfl rfl
      (fun j => (hsame j).1.trans (h.core.bit j)) (fun j hu hd => ?_) (by intro _ h; cases h)
      (fun j hu => .inl ((hsame j).1 ▸ hu)) fun j hd => ?_) fun j within since hcall hd => ?_
    · have hj := h.core.both j ((hsame j).1 ▸ hu) ((hsame j).2 ▸ hd)
      rw [hreceive] at hj
      cases hj
    · rcases hd with hd | hd
      · exact .inl (.inl ((hsame j).2 ▸ hd))
      · cases hd
    · have hquiet := h.quiet j within since hcall
      rw [← (hsame j).2] at hquiet
      exact (Bool.eq_false_iff.1 hquiet hd).elim
  · rename_i i
    obtain rfl := Option.some.inj hs
    have hbits := bits_update s.bits i { s.bits i with down := true }
    have hup : ∀ j, (Function.update s.bits i { s.bits i with down := true } j).up = (s.bits j).up := by
      intro j
      rcases hbits j with ⟨rfl, hj⟩ | ⟨-, hj⟩ <;> rw [hj]
    have hlost := h.core.set_down i hreceive
    refine Core.wake (h.core.receive [] rfl (List.append_nil _).symm rfl rfl
      (fun j => (hup j).trans (h.core.bit j)) (fun j hu hd => ?_) (by intro _ h; cases h)
      (fun j hu => .inl (hup j ▸ hu)) fun j hd => ?_) fun j within since hcall hd => ?_
    · dsimp only [State.setBits] at hu hd
      rcases hbits j with ⟨rfl, hj⟩ | ⟨-, hj⟩ <;> rw [hj] at hu hd
      · rw [hlost] at hu
        cases hu
      · have hj := h.core.both j hu hd
        rw [hreceive] at hj
        cases hj
    · rcases hd with hd | hd
      · dsimp only [State.setBits] at hd
        rcases hbits j with ⟨rfl, hj⟩ | ⟨-, hj⟩ <;> rw [hj] at hd
        · exact .inl (.inr hreceive)
        · exact .inl (.inl hd)
      · cases hd
    · dsimp only [State.setBits] at hd ⊢
      rcases hbits j with ⟨rfl, hj⟩ | ⟨-, hj⟩ <;> rw [hj] at hd ⊢
      · exact hlost
      · exact (Bool.eq_false_iff.1 (h.quiet j within since hcall) hd).elim
  · obtain rfl := Option.some.inj hs
    exact h.callback (by rw [hreceive]; rfl) (by intro h; cases h)

theorem Inv.clear (h : Inv s) {r : Receive} (hr : ∀ i, r = .set_down i → s.receive = .set_down i) :
    Inv { s.clear with receive := r } := by
  refine ⟨h.core.receive _ rfl rfl rfl rfl (fun i => lastUp_reset.symm) (by intro _ h; cases h) (fun _ _ => rfl)
    (by intro _ h; cases h) fun i hi => ?_, fun _ _ _ _ => rfl⟩
  rcases hi with hi | hi
  · cases hi
  · exact .inl (.inr (hr i hi))

/-! ## The calls -/

/-- A step of the call that holds the lock: it sets no bit that says up or down. -/
theorem Inv.call (h : Inv s) (hhandled : s'.handled = s.handled) (hreceive : s'.receive = s.receive)
    (hbits : ∀ i, (s'.bits i).up = (s.bits i).up ∧ (s'.bits i).down = (s.bits i).down)
    (hreturned : s'.returned = s.returned) (hasserts : s'.assert_failed = false) (hphase : Phase s')
    (hquiet : ∀ i within since, s'.call = .disconnect i within (.wait since .waiting) → (s'.bits i).down = false) :
    Inv s' := by
  refine ⟨⟨fun i => ?_, fun i hu hd => ?_, fun i hi => ?_, hphase, ?_, ?_, ?_, hasserts⟩, hquiet⟩
  · rw [(hbits i).1, hhandled]
    exact h.core.bit i
  · rw [(hbits i).1] at hu
    rw [(hbits i).2] at hd
    exact hreceive.trans (h.core.both i hu hd)
  · exact (hbits i).1.trans (h.core.set_down i (hreceive ▸ hi))
  · rw [hreturned, hhandled]
    exact h.core.since
  · rw [hreturned, hhandled]
    exact h.core.brought_up
  · rw [hreturned, hhandled]
    exact h.core.brought_down

/-- The call moves on. -/
theorem Inv.moves (h : Inv s) {call : Call} (hphase : Phase { s with call })
    (hquiet : ∀ i within since, call ≠ .disconnect i within (.wait since .waiting)) : Inv { s with call } :=
  h.call rfl rfl (fun _ => ⟨rfl, rfl⟩) rfl h.core.asserts hphase fun i within since hcall =>
    (hquiet i within since hcall).elim

theorem Inv.ret (h : Inv s) {i : Interface} (connect : Bool) {since : Nat} (hsince : since ≤ s.handled.length)
    (hup : connect = true → Brought s.handled i since) (hdown : connect = false → WentDown s.handled i since) :
    Inv (s.ret i connect since) := by
  refine ⟨⟨h.core.bit, h.core.both, h.core.set_down, h.core.phase, fun r hr => ?_, fun r hr => ?_, fun r hr => ?_,
    h.core.asserts⟩, h.quiet⟩
  all_goals
    rcases List.mem_append.1 hr with hr | hr
  · exact h.core.since r hr
  · obtain rfl := List.mem_singleton.1 hr
    exact hsince
  · exact h.core.brought_up r hr
  · obtain rfl := List.mem_singleton.1 hr
    exact hup
  · exact h.core.brought_down r hr
  · obtain rfl := List.mem_singleton.1 hr
    exact hdown

/-- A call that brings an interface down returns. -/
theorem Inv.down (h : Inv s) {i : Interface} {within : Within} {since : Nat} (hsince : since ≤ s.handled.length)
    (hdown : WentDown s.handled i since) (hup : within = .connect → (s.bits i).up = false) :
    Inv (s.down i within since) := by
  have hret := h.ret false hsince (by intro h; cases h) fun _ => hdown
  cases within with
  | application => exact hret.moves trivial (by intro _ _ _ h; cases h)
  | set_mode =>
    exact hret.call rfl rfl (fun _ => ⟨rfl, rfl⟩) rfl hret.core.asserts trivial (by intro _ _ _ h; cases h)
  | connect => exact hret.moves (hup rfl) (by intro _ _ _ h; cases h)

/-- The interface is down for a call that finds its down bit set. -/
theorem Inv.looks (h : Inv s) {i : Interface} (hlooks : s.call.looks i)
    (hcalm : s.call.looks i → s.receive = .clear_down i → (s.bits i).down = false) (hdown : (s.bits i).down) :
    (s.bits i).up = false := by
  cases hu : (s.bits i).up with
  | false => rfl
  | true =>
    rw [hcalm hlooks (h.core.both i hu hdown)] at hdown
    cases hdown

theorem WentDown.lost (h : Inv s) {i : Interface} (hup : (s.bits i).up = false) :
    WentDown s.handled i s.handled.length := by
  left
  rw [List.take_length, ← h.core.bit i]
  exact hup

theorem Inv.disconnect_step (h : Inv s) {i : Interface} {within : Within} {pos : Disconnect} {status : Status}
    (hcall : s.call = .disconnect i within pos)
    (hcalm : s.call.looks i → s.receive = .clear_down i → (s.bits i).down = false)
    (hs : disconnect_step s i within status pos = some s') : Inv s' := by
  have hphase := h.core.phase
  unfold Phase at hphase
  rw [hcall] at hphase hcalm
  have hlooks : (Call.disconnect i within pos).looks i → (s.bits i).down → (s.bits i).up = false := by
    intro hlooks
    rw [← hcall] at hlooks hcalm
    exact h.looks hlooks hcalm
  unfold Interfaces.disconnect_step at hs
  split at hs
  · split at hs
    · split at hs <;> obtain rfl := Option.some.inj hs
      · exact h.moves trivial (by intro _ _ _ h; cases h)
      · rename_i hup
        have hup := Bool.eq_false_iff.2 hup
        exact h.down (Nat.le_refl _) (.lost h hup) fun _ => hup
    · obtain rfl := Option.some.inj hs
      exact h.moves trivial (by intro _ _ _ h; cases h)
  · split at hs <;> obtain rfl := Option.some.inj hs
    · refine h.moves ⟨Nat.le_refl _, fun hd => ?_, by intro _ h; cases h⟩ (by intro _ _ _ h; cases h)
      rcases hd with hd | hd
      · exact .lost h (hlooks (by simp [Call.looks]) hd)
      · exact .lost h (h.core.set_down i hd)
    · exact h.moves trivial (by intro _ _ _ h; cases h)
    · exact h.moves trivial (by intro _ _ _ h; cases h)
  · split at hs <;> obtain rfl := Option.some.inj hs
    · refine h.core.take_down hcall fun hwithin => ?_
      subst hwithin
      exact hlooks (by simp [Call.looks])
    · rename_i hdown
      refine h.call rfl rfl (fun _ => ⟨rfl, rfl⟩) rfl h.core.asserts ⟨hphase.1, hphase.2.1, by intro _ h; cases h⟩
        fun j within' since' hj => ?_
      cases hj
      exact Bool.eq_false_iff.2 hdown
  · cases hs
  · obtain rfl := Option.some.inj hs
    refine h.core.take_down hcall fun hwithin => ?_
    subst hwithin
    exact hlooks (by simp [Call.looks])
  · split at hs <;> obtain rfl := Option.some.inj hs
    · rename_i bits hdown
      obtain ⟨hwent, hup⟩ := hphase.2.2 bits rfl hdown
      exact h.down hphase.1 hwent hup
    · exact h.moves trivial (by intro _ _ _ h; cases h)

theorem Inv.connect_step (h : Inv s) {i : Interface} {pos : Connect} {status : Status}
    (hcall : s.call = .connect i pos) (hs : connect_step s i status pos = some s') : Inv s' := by
  have hphase := h.core.phase
  unfold Phase at hphase
  rw [hcall] at hphase
  unfold Interfaces.connect_step at hs
  split at hs
  · split at hs
    · split at hs <;> obtain rfl := Option.some.inj hs <;> exact h.moves trivial (by intro _ _ _ h; cases h)
    · obtain rfl := Option.some.inj hs
      exact h.moves trivial (by intro _ _ _ h; cases h)
  · split at hs <;> obtain rfl := Option.some.inj hs
    · exact h.moves trivial (by intro _ _ _ h; cases h)
    · rename_i hup
      exact h.moves (Bool.eq_false_iff.2 hup) (by intro _ _ _ h; cases h)
  · obtain rfl := Option.some.inj hs
    have hsame : ∀ j, (Function.update s.bits i { s.bits i with fail := false } j).up = (s.bits j).up ∧
        (Function.update s.bits i { s.bits i with fail := false } j).down = (s.bits j).down := by
      intro j
      rcases bits_update s.bits i { s.bits i with fail := false } j with ⟨rfl, hj⟩ | ⟨-, hj⟩ <;> rw [hj] <;>
        exact ⟨rfl, rfl⟩
    refine h.call rfl rfl hsame rfl ?_ ((hsame i).1.trans hphase) (by intro _ _ _ h; cases h)
    dsimp only
    rw [h.core.asserts, hphase]
    rfl
  · split at hs <;> obtain rfl := Option.some.inj hs
    · refine h.moves ⟨Nat.le_refl _, fun hu => ?_, by intro _ h; cases h⟩ (by intro _ _ _ h; cases h)
      exact (Bool.eq_false_iff.1 hphase hu).elim
    · exact h.moves trivial (by intro _ _ _ h; cases h)
    · exact h.moves trivial (by intro _ _ _ h; cases h)
  · split at hs <;> obtain rfl := Option.some.inj hs
    · refine h.moves ⟨hphase.1, hphase.2.1, fun bits hw hu => ?_⟩ (by intro _ _ _ h; cases h)
      obtain rfl := Wait.woken.inj hw
      exact hphase.2.1 hu
    · exact h.moves ⟨hphase.1, hphase.2.1, by intro _ h; cases h⟩ (by intro _ _ _ h; cases h)
  · cases hs
  · obtain rfl := Option.some.inj hs
    refine h.moves ⟨hphase.1, hphase.2.1, fun bits hw hu => ?_⟩ (by intro _ _ _ h; cases h)
    obtain rfl := Wait.woken.inj hw
    exact hphase.2.1 hu
  · split at hs
    · rename_i bits hup
      obtain rfl := Option.some.inj hs
      have hret := h.ret true hphase.1 (fun _ => hphase.2.2 bits rfl hup) (by intro h; cases h)
      exact hret.moves trivial (by intro _ _ _ h; cases h)
    · split at hs <;> obtain rfl := Option.some.inj hs <;> exact h.moves trivial (by intro _ _ _ h; cases h)

theorem Inv.call_step (h : Inv s) {status : Status} (hcalm : Calm s (.call status))
    (hs : call_step s status = some s') : Inv s' := by
  unfold Interfaces.call_step at hs
  split at hs <;> rename_i hcall
  · cases hs
  · exact h.connect_step hcall hs
  · rename_i i within pos
    exact h.disconnect_step hcall (hcalm i (by cases i <;> simp)) hs
  · obtain rfl := Option.some.inj hs
    split
    · exact (h.clear (r := s.receive) fun _ hr => hr).moves trivial (by intro _ _ _ h; cases h)
    · exact h.moves trivial (by intro _ _ _ h; cases h)
  · split at hs <;> obtain rfl := Option.some.inj hs
    · have hclear := h.clear (r := s.receive) fun _ hr => hr
      exact hclear.call rfl rfl (fun _ => ⟨rfl, rfl⟩) rfl hclear.core.asserts trivial (by intro _ _ _ h; cases h)
    · exact h.moves trivial (by intro _ _ _ h; cases h)

theorem Inv.wait_timeout (h : Inv s) (hs : wait_timeout s = some s') : Inv s' := by
  have hphase := h.core.phase
  unfold Phase at hphase
  unfold Interfaces.wait_timeout at hs
  split at hs
  · rename_i hcall
    obtain rfl := Option.some.inj hs
    rw [hcall] at hphase
    exact h.moves ⟨hphase.1, hphase.2.1, by intro _ h; cases h⟩ (by intro _ _ _ h; cases h)
  · rename_i hcall
    obtain rfl := Option.some.inj hs
    rw [hcall] at hphase
    exact h.moves ⟨hphase.1, hphase.2.1, by intro _ h; cases h⟩ (by intro _ _ _ h; cases h)
  · cases hs

theorem Inv.begins (h : Inv s) {call : Call} (hs : begins s call = some s') (hphase : Phase { s with call })
    (hquiet : ∀ i within since, call ≠ .disconnect i within (.wait since .waiting)) : Inv s' := by
  unfold Interfaces.begins at hs
  split at hs
  · obtain rfl := Option.some.inj hs
    exact h.moves hphase hquiet
  · cases hs

theorem receives_eq {s s' t : State} (hs : s.receives t = some s') : s.receive = .idle ∧ s' = t := by
  unfold State.receives at hs
  split at hs
  · exact ⟨‹_›, (Option.some.inj hs).symm⟩
  · cases hs

/-- The module's event reaches its callback. -/
theorem Inv.event (h : Inv s) {i : Interface} {event : Event}
    (hcommitted : event = .success → s.call.committed i = false)
    (hs : s.receives (Interfaces.callback s i event) = some s') : Inv s' := by
  obtain ⟨hidle, rfl⟩ := receives_eq hs
  exact h.callback (by rw [hidle]; rfl) hcommitted

theorem inv_init : Inv State.init := by
  refine ⟨⟨fun i => rfl, ?_, ?_, trivial, ?_, ?_, ?_, rfl⟩, ?_⟩ <;> simp [State.init]

theorem inv_step {action : Action} (h : Inv s) (hcalm : Calm s action) (hs : step s action = some s') : Inv s' := by
  cases action with
  | WIFI_ConnectAP => exact h.begins hs trivial (by intro _ _ _ h; cases h)
  | WIFI_StartAP => exact h.begins hs trivial (by intro _ _ _ h; cases h)
  | WIFI_Disconnect => exact h.begins hs trivial (by intro _ _ _ h; cases h)
  | WIFI_StopAP => exact h.begins hs trivial (by intro _ _ _ h; cases h)
  | WIFI_Reset => exact h.begins hs trivial (by intro _ _ _ h; cases h)
  | call status => exact h.call_step hcalm hs
  | timeout => exact h.wait_timeout hs
  | connect_event connected =>
    refine h.event (fun hsuccess => ?_) hs
    cases connected with
    | true => exact hcalm
    | false => cases hsuccess
  | start_ap_event started =>
    refine h.event (fun hsuccess => ?_) hs
    cases started with
    | true => exact hcalm
    | false => cases hsuccess
  | disconnect_event => exact h.event (by intro h; cases h) hs
  | stop_ap_event => exact h.event (by intro h; cases h) hs
  | reset =>
    obtain ⟨-, rfl⟩ := receives_eq hs
    exact h.clear (by intro _ h; cases h)
  | receive => exact h.callback_ends hs

theorem Inv.kept (h : Inv s) : Kept s := ⟨h.core.bit, h.core.brought_up, h.core.brought_down, h.core.asserts⟩

/-- In every run in which no success comes between a call's look at an interface and its command,
and no call looks at a down bit that a half handled success is about to clear, the bits
say what the last events were, calls that return success have seen the event that they
waited for, and the assertions hold. -/
theorem handshake_kept (h : machine.Reachable Calm s) : Kept s := by
  have hinv : Inv s := by
    refine h.inv (fun s hs => ?_) fun s a s' hinv hcalm hs => inv_step hinv hcalm hs
    rw [hs]
    exact inv_init
  exact hinv.kept

/-! ## A connection that is brought up and down again -/

instance (s : State) (action : Action) : Decidable (Calm s action) :=
  match action with
  | .connect_event true => inferInstanceAs (Decidable (_ = false))
  | .start_ap_event true => inferInstanceAs (Decidable (_ = false))
  | .call _ => inferInstanceAs (Decidable (∀ i ∈ [Interface.station, Interface.ap], _ → _ → _))
  | .connect_event false | .start_ap_event false | .WIFI_ConnectAP | .WIFI_StartAP | .WIFI_Disconnect | .WIFI_StopAP
  | .WIFI_Reset | .timeout | .disconnect_event | .stop_ap_event | .reset | .receive => inferInstanceAs (Decidable True)

/-- `WIFI_ConnectAP`, up to where it waits. -/
def connecting : List Action := .WIFI_ConnectAP :: List.replicate 5 (.call .SL_STATUS_OK)

/-- `WIFI_Disconnect`, up to where it looks at the down bit. -/
def disconnecting : List Action := .WIFI_Disconnect :: List.replicate 3 (.call .SL_STATUS_OK)

theorem handshake_kept_disconnect : ∃ s, machine.Reachable Calm s ∧
    s.returned = [⟨.station, true, 1⟩, ⟨.station, false, 2⟩] ∧ Kept s := by
  have hrun : (machine.exec Calm State.init
      (List.flatten [
        [.disconnect_event, .receive], connecting, [.connect_event true, .receive, .call .SL_STATUS_OK],
        disconnecting, [.disconnect_event, .receive, .call .SL_STATUS_OK]])).any
      (fun s => s.returned = [⟨.station, true, 1⟩, ⟨.station, false, 2⟩]) = true := by decide +kernel
  obtain ⟨s, hexec, hs⟩ := (Option.any_eq_true _ _).1 hrun
  have h := Machine.exec_reachable rfl hexec
  exact ⟨s, h, of_decide_eq_true hs, handshake_kept h⟩

/-- A disconnection leaves the down bit set. The next connection succeeds, and `WIFI_Disconnect` is
called before the receive task clears the bit: it returns success while the station is
connected. A success that comes after `WIFI_ConnectAP` has looked fails its assertion. -/
theorem stale_down_bit_returns :
    (∃ s, machine.Reachable Machine.Free s ∧ (s.bits .station).up = true ∧
      s.returned = [⟨.station, true, 1⟩, ⟨.station, false, 2⟩] ∧
      s.handled = [.event .station .down, .event .station .success] ∧ ¬ Kept s) ∧
    ∃ s, machine.Reachable Machine.Free s ∧ s.assert_failed = true := by
  constructor
  · have hrun : (machine.exec Machine.Free State.init
        (List.flatten [
          [.disconnect_event, .receive], connecting, [.connect_event true, .call .SL_STATUS_OK], disconnecting,
          [.call .SL_STATUS_OK]])).any
        (fun s => (s.bits .station).up = true ∧ s.returned = [⟨.station, true, 1⟩, ⟨.station, false, 2⟩] ∧
          s.handled = [.event .station .down, .event .station .success]) = true := by decide +kernel
    obtain ⟨s, hexec, hs⟩ := (Option.any_eq_true _ _).1 hrun
    obtain ⟨hup, hreturned, hhandled⟩ := of_decide_eq_true hs
    refine ⟨s, Machine.exec_reachable rfl hexec, hup, hreturned, hhandled, fun h => ?_⟩
    have hdown := h.brought_down ⟨.station, false, 2⟩ (by rw [hreturned]; simp) rfl
    rw [hhandled] at hdown
    rcases hdown with hdown | ⟨k, hk, hget⟩
    · revert hdown
      decide
    · have hlt := (List.getElem?_eq_some_iff.1 hget).1
      simp only [List.length_cons, List.length_nil] at hlt
      exact absurd hlt (Nat.not_lt.2 hk)
  · have hrun : (machine.exec Machine.Free State.init
        [.WIFI_ConnectAP, .call .SL_STATUS_OK, .call .SL_STATUS_OK, .connect_event true, .call .SL_STATUS_OK]).any
        (fun s => s.assert_failed = true) = true := by decide +kernel
    obtain ⟨s, hexec, hs⟩ := (Option.any_eq_true _ _).1 hrun
    exact ⟨s, Machine.exec_reachable rfl hexec, of_decide_eq_true hs⟩

end Interfaces
end Wfx
