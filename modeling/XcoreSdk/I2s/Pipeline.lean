import XcoreSdk.I2s.Hil
import Mathlib.Algebra.Order.Ring.Nat
/-!
# The frames on the wire

The outputs are a frame ahead of the inputs, and a restart lets them end together. In terms of
the clock: after the loop has been gone through `n` times, the words of `n + 1` frames have been
put into the output ports, `n` frames have been taken from the input ports, and no more
time has passed than frame `n` needs to begin.
-/

namespace I2s
namespace Hil
open Port

/-! ## What is promised -/

variable {lines : Lines} {σ : Type*}

/-- The `k`th frame is on the wire from `start + 64 * k` on, left words first, and most significant bits
first. -/
structure Pipelined (mode : i2s_mode_t) (start : Nat) (din : Fin lines.num_in → Nat → Bool)
    (lrclk : Nat → Option Bool) (s : Frames lines σ) : Prop where
  sent : ∀ (k : Nat) (frame : Samples), s.sent[k]? = some frame → ∀ i (chan : Fin I2S_CHANS_PER_FRAME), ∀ j < 32,
    (s.p_dout i).wire (start + 64 * k + 32 * chan + j) = some ((frame (idx lines.num_out_le i chan)).getMsbD j)
  received : ∀ (k : Nat) (frame : Samples), s.received[k]? = some frame → ∀ i (chan : Fin I2S_CHANS_PER_FRAME), ∀ j < 32,
    (frame (idx lines.num_in_le i chan)).getMsbD j = din i (start + 64 * k + 32 * chan + j)
  lrclk : ∀ k < s.handled, ∀ chan : Fin I2S_CHANS_PER_FRAME, ∀ j < 32,
    lrclk (start + 64 * k + 32 * chan + j) = some (level mode chan j)
  /-- While the loop is gone through, one frame sent is yet to be received, and none when it ends. -/
  sent_length : 0 < lines.num_out →
    s.sent.length = if s.restart = .I2S_NO_RESTART then s.handled + 1 else s.handled
  received_length : 0 < lines.num_in → s.received.length = s.handled
  /-- It does not end before the last bit is out. -/
  ended : s.restart ≠ .I2S_NO_RESTART → start + 64 * s.handled ≤ s.now + 1

/-! ## The words of a line -/

section Words
variable {n : Nat} {hn : n ≤ I2S_MAX_DATALINES} {i : Fin n} {sent : List Samples} {frame : Samples}

theorem words_length : (words hn i sent).length = 2 * sent.length := by
  unfold words
  induction sent with
  | nil => rfl
  | cons frame sent ih =>
    rw [List.flatMap_cons, List.length_append, ih, List.length_cons, List.length_cons, List.length_cons, List.length_nil]
    omega

theorem words_append : words hn i (sent ++ [frame]) =
    words hn i sent ++ [bitrev (frame (idx hn i 0))] ++ [bitrev (frame (idx hn i 1))] := by
  simp [words]

theorem words_get {k : Nat} (hframe : sent[k]? = some frame) (chan : Fin I2S_CHANS_PER_FRAME) :
    (words hn i sent)[2 * k + chan]? = some (bitrev (frame (idx hn i chan))) := by
  induction sent generalizing k with
  | nil => cases hframe
  | cons first sent ih =>
    unfold words at ih ⊢
    rw [List.flatMap_cons]
    cases k with
    | zero =>
      obtain rfl := Option.some.inj hframe
      rcases chan with ⟨_ | _ | c, hc⟩
      · rfl
      · rfl
      · exact absurd hc (Nat.not_lt.2 (Nat.le_add_left 2 c))
    | succ k =>
      rw [List.getElem?_append_right (by simp; omega)]
      have hindex : 2 * (k + 1) + (chan : Nat) - 2 = 2 * k + chan := by omega
      exact (congrArg _ hindex).trans (ih hframe)

theorem bitrev_getLsbD {word : Word} {j : Nat} : (bitrev word).getLsbD j = word.getMsbD j := by
  unfold bitrev
  rw [BitVec.getLsbD_reverse]

theorem bitrev_getMsbD {bit : Nat → Bool} {j : Nat} (hj : j < 32) :
    (bitrev (sampled bit)).getMsbD j = bit j := by
  unfold bitrev
  rw [BitVec.getMsbD_reverse, sampled_getLsbD hj]

end Words

theorem idx_div {n : Nat} (hn : n ≤ I2S_MAX_DATALINES) (i : Fin n) (chan : Fin I2S_CHANS_PER_FRAME) :
    (idx hn i chan : Nat) / I2S_CHANS_PER_FRAME = i ∧ (idx hn i chan : Nat) % I2S_CHANS_PER_FRAME = chan := by
  have hchan := chan.isLt
  unfold idx
  unfold I2S_CHANS_PER_FRAME at *
  dsimp only
  omega

/-! ## One operation on all lines -/

/-- The output ports hold `ws`, and each input port has given `taken` words, at `bound` at the latest. -/
structure Aligned (start : Nat) (ws : Fin lines.num_out → List Word) (taken bound : Nat) (s : Frames lines σ) :
    Prop where
  now : s.now ≤ bound
  out : ∀ i, Steady (s.p_dout i) start (ws i)
  taken : ∀ i, s.p_din i = ⟨start + 31, taken⟩

variable {s : Frames lines σ} {start taken bound bound' : Nat} {ws : Fin lines.num_out → List Word}
  {din : Fin lines.num_in → Nat → Bool}

theorem Aligned.outputs (h : Aligned start ws taken bound s) {m : Nat} (hlength : ∀ i, (ws i).length = m + 1)
    (hle : bound ≤ bound') (hfree : start + 32 * m ≤ bound') (htime : bound' ≤ start + 32 * (m + 1))
    (chan : Fin I2S_CHANS_PER_FRAME) :
    Aligned start (fun i => ws i ++ [bitrev (s.out_samps (idx lines.num_out_le i chan))]) taken bound'
      (s.outputs chan) := by
  have hop := each_spec (fun i now p => p.out now (bitrev (s.out_samps (idx lines.num_out_le i chan))))
    s.p_dout (fun now => now ≤ bound') (fun i p => Steady p start (ws i))
    (fun i p => Steady p start (ws i ++ [bitrev (s.out_samps (idx lines.num_out_le i chan))]))
    (fun i now p hnow hp => by
      have hne : ws i ≠ [] := List.ne_nil_of_length_eq_add_one (hlength i)
      have hin : now ≤ start + 32 * (ws i).length := by
        rw [hlength i]
        exact Nat.le_trans hnow htime
      obtain ⟨hdone, hsteady⟩ := hp.out (bitrev (s.out_samps (idx lines.num_out_le i chan))) hne hin
      refine ⟨?_, hsteady⟩
      rw [hdone, hlength i]
      exact Nat.max_le.2 ⟨hnow, hfree⟩) (Nat.le_trans h.now hle) h.out
  exact ⟨hop.1, hop.2, h.taken⟩

variable (din) in
theorem Aligned.inputs (h : Aligned start ws taken bound s) (hle : bound ≤ bound')
    (hfree : start + 31 + 32 * taken ≤ bound') (htime : bound' < start + 31 + 32 * (taken + 1))
    (chan : Fin I2S_CHANS_PER_FRAME) :
    Aligned start ws (taken + 1) bound' (s.inputs din chan) ∧
      (∀ i, ∀ j < 32, ((s.inputs din chan).in_samps (idx lines.num_in_le i chan)).getMsbD j =
        din i (start + 32 * taken + j)) ∧
      ∀ i other, other ≠ chan → (s.inputs din chan).in_samps (idx lines.num_in_le i other) =
        s.in_samps (idx lines.num_in_le i other) := by
  have hop := each_spec (fun i now (p : InPort × Word) => p.1.take (din i) now)
    (fun i => (s.p_din i, 0)) (fun now => now ≤ bound') (fun _ p => p.1 = ⟨start + 31, taken⟩)
    (fun i p => p.1 = ⟨start + 31, taken + 1⟩ ∧ p.2 = sampled fun j => din i (start + 31 + 32 * taken + j - 31))
    (fun i now p hnow hp => by
      rw [hp, InPort.take_eq (Nat.lt_of_le_of_lt hnow htime)]
      exact ⟨Nat.max_le.2 ⟨hnow, hfree⟩, rfl, rfl⟩) (Nat.le_trans h.now hle) h.taken
  refine ⟨⟨hop.1, h.out, fun i => (hop.2 i).1⟩, fun i j hj => ?_, fun i other hother => ?_⟩
  · obtain ⟨hdiv, hmod⟩ := idx_div lines.num_in_le i chan
    dsimp only [Frames.inputs]
    rw [dif_pos ⟨by rw [hdiv]; exact i.isLt, hmod⟩]
    have hi : (⟨(idx lines.num_in_le i chan : Nat) / I2S_CHANS_PER_FRAME, by rw [hdiv]; exact i.isLt⟩ :
        Fin lines.num_in) = i := Fin.ext hdiv
    rw [hi, (hop.2 i).2, bitrev_getMsbD hj]
    congr 1
    omega
  · obtain ⟨-, hmod⟩ := idx_div lines.num_in_le i other
    dsimp only [Frames.inputs]
    rw [dif_neg]
    rintro ⟨-, hchan⟩
    exact hother (Fin.ext (hmod.symm.trans hchan))

theorem Aligned.mono (h : Aligned start ws taken bound s) (hle : bound ≤ bound') : Aligned start ws taken bound' s :=
  ⟨Nat.le_trans h.now hle, h.out, h.taken⟩

/-- Something else takes until `now`. -/
theorem Aligned.wait (h : Aligned start ws taken bound s) {now : Nat} (hnow : now ≤ bound') :
    Aligned start ws taken bound' { s with now } := ⟨hnow, h.out, h.taken⟩

theorem timed_outputs_spec (hempty : ∀ i, (s.p_dout i).words = []) {time : Nat} (hnow : s.now ≤ start)
    (hsoon : start < s.now + 65536) (htime : time % 65536 = start % 65536) :
    (s.timed_outputs time).now = s.now ∧ ∀ i, Steady ((s.timed_outputs time).p_dout i) start
      [bitrev (s.out_samps (idx lines.num_out_le i 0))] := by
  refine each_spec (fun i now p => (p.set_trigger_time now time).out now
    (bitrev (s.out_samps (idx lines.num_out_le i 0)))) s.p_dout (fun now => now = s.now) (fun _ p => p.words = [])
    (fun i p => Steady p start [bitrev (s.out_samps (idx lines.num_out_le i 0))]) (fun i now p hn hp => ?_) rfl hempty
  subst hn
  have hfirst := steady_first (p.set_trigger_time s.now time) s.now (bitrev (s.out_samps (idx lines.num_out_le i 0))) hp
  rw [show (p.set_trigger_time s.now time).trigger = start from fires_eq hnow hsoon htime] at hfirst
  exact hfirst

variable (din) in
theorem le_inputs (chan : Fin I2S_CHANS_PER_FRAME) : s.now ≤ (s.inputs din chan).now :=
  le_each _ fun _ _ _ => (InPort.le_take ..).1

variable (din) in
/-- With an input line, the inputs take until the word is there. -/
theorem inputs_reaches (htaken : ∀ i, s.p_din i = ⟨start + 31, taken⟩) (hin : 0 < lines.num_in)
    (chan : Fin I2S_CHANS_PER_FRAME) : start + 31 + 32 * taken ≤ (s.inputs din chan).now := by
  refine each_reaches _ (fun _ _ _ => (InPort.le_take ..).1) ⟨0, hin⟩ fun now => ?_
  have hreach := (InPort.le_take (s.p_din ⟨0, hin⟩) (din ⟨0, hin⟩) now).2
  rw [htaken] at hreach ⊢
  exact hreach

/-! ## The loop -/

/-- What holds whenever the loop is gone through again or has ended. -/
structure Inv (start : Nat) (din : Fin lines.num_in → Nat → Bool) (s : Frames lines σ) : Prop where
  sent_length : 0 < lines.num_out →
    s.sent.length = if s.restart = .I2S_NO_RESTART then s.handled + 1 else s.handled
  received_length : 0 < lines.num_in → s.received.length = s.handled
  received : ∀ (k : Nat) (frame : Samples), s.received[k]? = some frame → ∀ i (chan : Fin I2S_CHANS_PER_FRAME), ∀ j < 32,
    (frame (idx lines.num_in_le i chan)).getMsbD j = din i (start + 64 * k + 32 * chan + j)
  out : ∀ i, Steady (s.p_dout i) start (words lines.num_out_le i s.sent)
  aligned : s.restart = .I2S_NO_RESTART →
    Aligned start (fun i => words lines.num_out_le i s.sent) (2 * s.handled) (start + 64 * s.handled) s

/-- The right words are input last, and the frame is complete. -/
theorem inv_receive (cbg : i2s_callback_group_t σ)
    (haligned : Aligned start (fun i => words lines.num_out_le i s.sent) (2 * s.handled + 1)
      (start + 64 * s.handled + 64) s)
    (hlefts : ∀ i, ∀ j < 32, (s.in_samps (idx lines.num_in_le i 0)).getMsbD j = din i (start + 64 * s.handled + j))
    (hsent : 0 < lines.num_out →
      s.sent.length = if s.restart = .I2S_NO_RESTART then s.handled + 2 else s.handled + 1)
    (hlength : 0 < lines.num_in → s.received.length = s.handled)
    (hreceived : ∀ (k : Nat) (frame : Samples), s.received[k]? = some frame → ∀ i (chan : Fin I2S_CHANS_PER_FRAME),
      ∀ j < 32, (frame (idx lines.num_in_le i chan)).getMsbD j = din i (start + 64 * k + 32 * chan + j)) :
    Inv start din ((s.inputs din 1).receive cbg) := by
  obtain ⟨haligned, hrights, hothers⟩ := haligned.inputs din (Nat.le_refl _) (by omega) (by omega) 1
  refine ⟨hsent, fun hin => ?_, fun k frame hframe i chan j hj => ?_, haligned.out, fun _ => ⟨haligned.now, haligned.out,
    haligned.taken⟩⟩
  · dsimp only [Frames.receive, Frames.inputs]
    rw [if_pos hin, List.length_append, hlength hin, List.length_singleton]
  · have hin : 0 < lines.num_in := Nat.zero_lt_of_lt i.isLt
    have hreceive : ((s.inputs din 1).receive cbg).received = s.received ++ [(s.inputs din 1).in_samps] := if_pos hin
    rw [hreceive] at hframe
    rcases Nat.lt_or_ge k s.received.length with hk | hk
    · rw [List.getElem?_append_left hk] at hframe
      exact hreceived k frame hframe i chan j hj
    · rw [List.getElem?_append_right hk] at hframe
      have hlast := (List.getElem?_eq_some_iff.1 hframe).1
      rw [List.length_singleton] at hlast
      rw [show k - s.received.length = 0 by omega] at hframe
      obtain rfl := Option.some.inj hframe
      have hk : k = s.handled := by
        have hhandled := hlength hin
        omega
      subst hk
      match chan with
      | 0 =>
        rw [hothers i 0 (by simp), hlefts i j hj]
        rfl
      | 1 =>
        rw [hrights i j hj]
        congr 1
        simp only [Fin.val_one]
        omega

theorem send_spec (cbg : i2s_callback_group_t σ) (s : Frames lines σ) :
    (s.send cbg).now = s.now ∧ (s.send cbg).p_dout = s.p_dout ∧ (s.send cbg).p_din = s.p_din ∧
      (s.send cbg).received = s.received ∧ (s.send cbg).handled = s.handled ∧ (s.send cbg).restart = s.restart ∧
      (0 < lines.num_out → (s.send cbg).sent = s.sent ++ [(s.send cbg).out_samps]) := by
  unfold Frames.send
  split
  · exact ⟨rfl, rfl, rfl, rfl, rfl, rfl, fun _ => rfl⟩
  · rename_i hno
    exact ⟨rfl, rfl, rfl, rfl, rfl, rfl, fun hout => (hno hout).elim⟩

/-- The left words of the next frame are loaded, unless the loop is to end. -/
structure Loaded (start : Nat) (din : Fin lines.num_in → Nat → Bool) (taken bound : Nat) (s : Frames lines σ) :
    Prop where
  turning : s.restart = .I2S_NO_RESTART → ∃ ws, Aligned start ws taken bound s ∧
    ∀ i, words lines.num_out_le i s.sent = ws i ++ [bitrev (s.out_samps (idx lines.num_out_le i 1))]
  ending : s.restart ≠ .I2S_NO_RESTART →
    Aligned start (fun i => words lines.num_out_le i s.sent) taken bound s
  sent_length : 0 < lines.num_out →
    s.sent.length = if s.restart = .I2S_NO_RESTART then s.handled + 2 else s.handled + 1
  received_length : 0 < lines.num_in → s.received.length = s.handled
  received : ∀ (k : Nat) (frame : Samples), s.received[k]? = some frame → ∀ i (chan : Fin I2S_CHANS_PER_FRAME), ∀ j < 32,
    (frame (idx lines.num_in_le i chan)).getMsbD j = din i (start + 64 * k + 32 * chan + j)

theorem Inv.evens (cbg : i2s_callback_group_t σ) (h : Inv start din s) (hgo : s.restart = .I2S_NO_RESTART) :
    Loaded start din (2 * s.handled) (start + 64 * s.handled + 32) (s.evens cbg) ∧
      (s.evens cbg).handled = s.handled := by
  have haligned := h.aligned hgo
  have hsent : 0 < lines.num_out → s.sent.length = s.handled + 1 := by
    intro hout
    rw [h.sent_length hout, if_pos hgo]
  unfold Frames.evens
  dsimp only
  split
  · rename_i hrestart
    obtain ⟨hnow, hdout, hdin, hreceived, hhandled, hsame, hframe⟩ := send_spec cbg (s.restart_check cbg)
    generalize (s.restart_check cbg).send cbg = t at *
    rw [hrestart] at hsame
    have hlength : ∀ i : Fin lines.num_out, (words lines.num_out_le i s.sent).length = 2 * s.handled + 1 + 1 := by
      intro i
      rw [words_length, hsent (Nat.zero_lt_of_lt i.isLt)]
      omega
    have hstart : Aligned start (fun i => words lines.num_out_le i s.sent) (2 * s.handled) (start + 64 * s.handled) t :=
      ⟨hnow ▸ haligned.now, hdout ▸ haligned.out, hdin ▸ haligned.taken⟩
    have hevens := hstart.outputs hlength (Nat.le_add_right _ 32) (by omega) (by omega) 0
    refine ⟨⟨fun _ => ⟨_, hevens, fun i => ?_⟩, fun hno => (hno hsame).elim, fun hout => ?_, fun hin => ?_, ?_⟩, hhandled⟩
    · dsimp only [Frames.outputs]
      rw [hframe (Nat.zero_lt_of_lt i.isLt)]
      exact words_append
    · have hlast : t.sent.length = t.handled + 2 := by
        rw [hframe hout, hhandled, List.length_append, List.length_singleton]
        exact congrArg (· + 1) (hsent hout)
      exact hlast.trans (if_pos hsame).symm
    · dsimp only [Frames.outputs]
      rw [hreceived, hhandled]
      exact h.received_length hin
    · dsimp only [Frames.outputs]
      rw [hreceived]
      exact h.received
  · rename_i hrestart
    refine ⟨⟨fun hno => (hrestart hno).elim, fun _ => ?_, fun hout => ?_, h.received_length, h.received⟩, rfl⟩
    · exact ⟨Nat.le_add_right_of_le haligned.now, haligned.out, haligned.taken⟩
    · rw [if_neg hrestart]
      exact hsent hout

theorem Loaded.wait (h : Loaded start din taken bound s) {now : Nat} (hnow : now ≤ bound') :
    Loaded start din taken bound' { s with now } := by
  refine ⟨fun hrestart => ?_, fun hrestart => (h.ending hrestart).wait hnow, h.sent_length, h.received_length,
    h.received⟩
  obtain ⟨ws, haligned, hwords⟩ := h.turning hrestart
  exact ⟨ws, haligned.wait hnow, hwords⟩

theorem Loaded.now (h : Loaded start din taken bound s) : s.now ≤ bound := by
  by_cases hrestart : s.restart = .I2S_NO_RESTART
  · obtain ⟨ws, haligned, -⟩ := h.turning hrestart
    exact haligned.now
  · exact (h.ending hrestart).now

theorem Loaded.p_din (h : Loaded start din taken bound s) (i : Fin lines.num_in) : s.p_din i = ⟨start + 31, taken⟩ := by
  by_cases hrestart : s.restart = .I2S_NO_RESTART
  · obtain ⟨ws, haligned, -⟩ := h.turning hrestart
    exact haligned.taken i
  · exact (h.ending hrestart).taken i

theorem Loaded.inputs (h : Loaded start din taken bound s) (hfree : start + 31 + 32 * taken ≤ bound)
    (htime : bound < start + 31 + 32 * (taken + 1)) :
    Loaded start din (taken + 1) bound (s.inputs din 0) ∧ ∀ i, ∀ j < 32,
      ((s.inputs din 0).in_samps (idx lines.num_in_le i 0)).getMsbD j = din i (start + 32 * taken + j) := by
  by_cases hrestart : s.restart = .I2S_NO_RESTART
  · obtain ⟨ws, haligned, hwords⟩ := h.turning hrestart
    obtain ⟨haligned, hlefts, -⟩ := haligned.inputs din (Nat.le_refl _) hfree htime 0
    exact ⟨⟨fun _ => ⟨ws, haligned, hwords⟩, fun hno => (hno hrestart).elim, h.sent_length, h.received_length,
      h.received⟩, hlefts⟩
  · obtain ⟨haligned, hlefts, -⟩ := (h.ending hrestart).inputs din (Nat.le_refl _) hfree htime 0
    exact ⟨⟨fun hgo => (hrestart hgo).elim, fun _ => haligned, h.sent_length, h.received_length, h.received⟩, hlefts⟩

/-- The right words follow the left ones. -/
theorem Loaded.outputs (h : Loaded start din taken bound s) (hrestart : s.restart = .I2S_NO_RESTART)
    (hbound : bound ≤ start + 64 * s.handled + 64) :
    Aligned start (fun i => words lines.num_out_le i s.sent) taken (start + 64 * s.handled + 64) (s.outputs 1) := by
  obtain ⟨ws, haligned, hwords⟩ := h.turning hrestart
  have hlength : ∀ i, (ws i).length = 2 * s.handled + 2 + 1 := by
    intro i
    have hall := congrArg List.length (hwords i)
    rw [words_length, h.sent_length (Nat.zero_lt_of_lt i.isLt), if_pos hrestart, List.length_append,
      List.length_singleton] at hall
    omega
  have hodds := haligned.outputs hlength hbound (by omega) (by omega) 1
  rw [show (fun i => words lines.num_out_le i s.sent) = _ from funext hwords]
  exact hodds

/-- The loop has ended; time may go on. -/
theorem Inv.stop (h : Inv start din s) (hrestart : s.restart ≠ .I2S_NO_RESTART) (now : Nat) :
    Inv start din { s with now } :=
  ⟨h.sent_length, h.received_length, h.received, h.out, fun hgo => (hrestart hgo).elim⟩

/-- What a whole frame keeps of the two halves. -/
theorem Inv.pipelined (h : Inv start din s) {mode : i2s_mode_t} {lrclk : Nat → Option Bool}
    (hlrclk : ∀ k < s.handled, ∀ chan : Fin I2S_CHANS_PER_FRAME, ∀ j < 32,
      lrclk (start + 64 * k + 32 * chan + j) = some (level mode chan j))
    (hended : s.restart ≠ .I2S_NO_RESTART → start + 64 * s.handled ≤ s.now + 1) :
    Pipelined mode start din lrclk s := by
  refine ⟨fun k frame hframe i chan j hj => ?_, h.received, hlrclk, h.sent_length, h.received_length, hended⟩
  have hwire := (h.out i).wire (words_get hframe chan) hj
  rw [bitrev_getLsbD] at hwire
  rw [← hwire]
  congr 1
  omega

variable (din) in
/-- The left words of the first frame are out, and the right ones follow. -/
theorem inv_start (hrestart : s.restart = .I2S_NO_RESTART) (hhandled : s.handled = 0) (hreceived : s.received = [])
    (hsent : 0 < lines.num_out → s.sent = [s.out_samps]) (hnow : s.now ≤ start)
    (hout : ∀ i, Steady (s.p_dout i) start [bitrev (s.out_samps (idx lines.num_out_le i 0))]) :
    (s.outputs 1).now ≤ start ∧ ∀ now p_din, now ≤ start → (∀ i, p_din i = ⟨start + 31, 0⟩) →
      Inv start din { s.outputs 1 with now, p_din } := by
  have haligned : Aligned start (fun i => [bitrev (s.out_samps (idx lines.num_out_le i 0))]) 0 start
      { s with p_din := fun _ => ⟨start + 31, 0⟩ } := ⟨hnow, hout, fun _ => rfl⟩
  have hodds := haligned.outputs (m := 0) (fun _ => rfl) (Nat.le_refl _) (Nat.le_refl _) (Nat.le_add_right ..) 1
  have hwords : ∀ i, words lines.num_out_le i s.sent = [bitrev (s.out_samps (idx lines.num_out_le i 0))] ++
      [bitrev (s.out_samps (idx lines.num_out_le i 1))] := by
    intro i
    rw [hsent (Nat.zero_lt_of_lt i.isLt)]
    rfl
  refine ⟨hodds.now, fun now p_din hn hp => ⟨fun h => ?_, fun _ => ?_, fun k frame hframe => ?_, fun i => ?_, fun _ =>
    ⟨?_, fun i => ?_, fun i => ?_⟩⟩⟩
  · have hlast : s.sent.length = s.handled + 1 := by
      rw [hsent h, hhandled]
      rfl
    exact hlast.trans (if_pos hrestart).symm
  · dsimp only [Frames.outputs]
    rw [hreceived, hhandled]
    rfl
  · dsimp only [Frames.outputs] at hframe
    rw [hreceived] at hframe
    cases hframe
  · dsimp only [Frames.outputs] at hodds ⊢
    rw [hwords i]
    exact hodds.out i
  · exact Nat.le_add_right_of_le hn
  · dsimp only [Frames.outputs] at hodds ⊢
    rw [hwords i]
    exact hodds.out i
  · dsimp only [Frames.outputs]
    rw [hp i, hhandled]

/-! ## The master -/

/-- The words that LRCLK is made of. -/
def clock (n : Nat) : List Word := (List.range n).map fun k => if k % 2 = 0 then 0 else ~~~0

theorem clock_succ (n : Nat) : clock (n + 1) = clock n ++ [if n % 2 = 0 then 0 else ~~~0] := by
  unfold clock
  rw [List.range_succ, List.map_append]
  rfl

theorem clock_length (n : Nat) : (clock n).length = n := by
  unfold clock
  rw [List.length_map, List.length_range]

theorem clock_bit {m r : Nat} (hr : r < 32) :
    (if m % 2 = 0 then 0 else ~~~0 : Word).getLsbD r = decide (m % 2 = 1) := by
  rcases Nat.mod_two_eq_zero_or_one m with hm | hm
  · rw [hm, if_pos rfl]
    exact BitVec.getLsbD_zero
  · rw [hm, if_neg (by decide), BitVec.getLsbD_not, decide_eq_true hr]
    exact congrArg not BitVec.getLsbD_zero

theorem clock_level {p : OutPort} {n m : Nat} (h : Steady p 1 (clock m)) (hm : 2 * n + 1 ≤ m) (mode : i2s_mode_t) {k : Nat}
    (hk : k < n) (chan : Fin I2S_CHANS_PER_FRAME) {j : Nat} (hj : j < 32) :
    p.wire (1 + mode.offset + 64 * k + 32 * chan + j) = some (level mode chan j) := by
  have hoffset : mode.offset ≤ 1 := by cases mode <;> decide
  have hchan : (chan : Nat) < 2 := chan.isLt
  -- the word of LRCLK that is out then, and its bit
  obtain ⟨q, r, hr, hqr⟩ : ∃ q r, r < 32 ∧ j + mode.offset = 32 * q + r :=
    ⟨(j + mode.offset) / 32, (j + mode.offset) % 32, Nat.mod_lt _ (by decide), (Nat.div_add_mod ..).symm⟩
  have hget : (clock m)[2 * k + chan + q]? =
      some (if (2 * k + (chan : Nat) + q) % 2 = 0 then 0 else ~~~0) := by
    unfold clock
    rw [List.getElem?_map, List.getElem?_range (by omega)]
    rfl
  have hwire := h.wire hget hr
  rw [show 1 + mode.offset + 64 * k + 32 * (chan : Nat) + j = 1 + 32 * (2 * k + chan + q) + r by omega, hwire,
    clock_bit hr]
  have hq : q = 0 ∧ ¬ 32 ≤ j + mode.offset ∨ q = 1 ∧ 32 ≤ j + mode.offset := by omega
  have hparity : (2 * k + (chan : Nat) + q) % 2 = (chan + q) % 2 := by omega
  unfold level
  rw [hparity]
  rcases hq with ⟨rfl, hlt⟩ | ⟨rfl, hle⟩
  · rw [decide_eq_false hlt]
    match chan with
    | 0 => rfl
    | 1 => rfl
  · rw [decide_eq_true hle]
    match chan with
    | 0 => rfl
    | 1 => rfl

structure MasterInv (offset : Nat) (din : Fin lines.num_in → Nat → Bool) (s : Master lines σ) : Prop where
  frames : Inv (1 + offset) din s.frames
  lrclk : Steady s.p_lrclk 1
    (clock (if s.frames.restart = .I2S_NO_RESTART then 2 * s.frames.handled + 2 else 2 * s.frames.handled + 1))
  lr_mask : s.frames.restart = .I2S_NO_RESTART → s.lr_mask = ~~~0
  ended : s.frames.restart ≠ .I2S_NO_RESTART → 1 + offset + 64 * s.frames.handled ≤ s.frames.now + 1

theorem toggle_spec {s : Master lines σ} {n bound : Nat} (hlrclk : Steady s.p_lrclk 1 (clock (n + 1)))
    (hmask : ~~~s.lr_mask = if (n + 1) % 2 = 0 then 0 else ~~~0) (hnow : s.frames.now ≤ bound) (hfree : 1 + 32 * n ≤ bound)
    (htime : bound ≤ 1 + 32 * (n + 1)) :
    s.toggle.frames.now ≤ bound ∧ Steady s.toggle.p_lrclk 1 (clock (n + 2)) := by
  have hne : clock (n + 1) ≠ [] := List.ne_nil_of_length_eq_add_one (clock_length _)
  have hin : s.frames.now ≤ 1 + 32 * (clock (n + 1)).length := by
    rw [clock_length]
    exact Nat.le_trans hnow htime
  obtain ⟨hdone, hsteady⟩ := hlrclk.out (~~~s.lr_mask) hne hin
  rw [clock_length] at hdone
  constructor
  · exact Nat.le_trans (Nat.le_of_eq hdone) (Nat.max_le.2 ⟨hnow, hfree⟩)
  · rw [clock_succ, ← hmask]
    exact hsteady


/-- Between the halves of the loop. -/
structure MasterHalf (offset : Nat) (din : Fin lines.num_in → Nat → Bool) (s : Master lines σ) : Prop where
  loaded : Loaded (1 + offset) din (2 * s.frames.handled + 1) (1 + offset + 64 * s.frames.handled + 32) s.frames
  lefts : ∀ i, ∀ j < 32, (s.frames.in_samps (idx lines.num_in_le i 0)).getMsbD j =
    din i (1 + offset + 64 * s.frames.handled + j)
  lrclk : Steady s.p_lrclk 1 (clock (2 * s.frames.handled + 3))
  lr_mask : s.lr_mask = 0

theorem MasterInv.evens (cbg : i2s_callback_group_t σ) {offset : Nat} (hoffset : offset ≤ 1) {s : Master lines σ}
    (h : MasterInv offset din s) (hgo : s.frames.restart = .I2S_NO_RESTART) :
    MasterHalf offset din (i2s_ratio_n_evens cbg din s) := by
  obtain ⟨hloaded, hhandled⟩ := h.frames.evens cbg hgo
  obtain ⟨hloaded, hlefts⟩ := hloaded.inputs (by omega) (by omega)
  have hlrclk := h.lrclk
  have hmask := h.lr_mask hgo
  rw [if_pos hgo] at hlrclk
  unfold i2s_ratio_n_evens
  dsimp only
  generalize hframes : (s.frames.evens cbg).inputs din 0 = frames at hloaded hlefts ⊢
  have hsame : frames.handled = s.frames.handled := by
    rw [← hframes]
    exact hhandled
  rw [← hsame] at hloaded hlefts hlrclk
  have htoggle := toggle_spec (s := { s with frames }) hlrclk (by rw [hmask, if_pos (by omega)]; rfl) hloaded.now (by omega)
    (by omega)
  refine ⟨hloaded.wait htoggle.1, fun i j hj => ?_, htoggle.2, by rw [Master.toggle, hmask]; rfl⟩
  exact (hlefts i j hj).trans (congrArg (din i) (by dsimp only [Master.toggle]; omega))

theorem MasterHalf.odds (cbg : i2s_callback_group_t σ) {offset : Nat} (hoffset : offset ≤ 1) {s : Master lines σ}
    (h : MasterHalf offset din s) : MasterInv offset din (i2s_ratio_n_odds cbg din s) := by
  have hloaded := h.loaded
  unfold i2s_ratio_n_odds
  dsimp only
  split
  · rename_i hgo
    have houtputs := hloaded.outputs hgo (by omega)
    have htoggle := toggle_spec (s := { s with frames := s.frames.outputs 1 }) h.lrclk
      (by rw [h.lr_mask, if_neg (by omega)]) houtputs.now (by omega) (by omega)
    generalize htoggled : ({ s with frames := s.frames.outputs 1 } : Master lines σ).toggle = t at htoggle ⊢
    have hframes : t.frames = { s.frames.outputs 1 with now := t.frames.now } := by
      rw [← htoggled]
      rfl
    have hinv : Inv (1 + offset) din ((t.frames.inputs din 1).receive cbg) := by
      rw [hframes]
      exact inv_receive cbg (houtputs.wait htoggle.1) h.lefts hloaded.sent_length hloaded.received_length
        hloaded.received
    have hrestart : ((t.frames.inputs din 1).receive cbg).restart = .I2S_NO_RESTART := by
      rw [hframes]
      exact hgo
    rw [if_pos hrestart]
    refine ⟨hinv, ?_, fun _ => ?_, fun hno => (hno hrestart).elim⟩
    · dsimp only
      rw [if_pos hrestart, hframes]
      exact htoggle.2
    · rw [← htoggled]
      dsimp only [Master.toggle]
      rw [h.lr_mask]
  · rename_i hno
    have hinv := inv_receive cbg ((hloaded.ending hno).mono (Nat.add_le_add_left (by decide) _)) h.lefts
      hloaded.sent_length hloaded.received_length hloaded.received
    have hrestart : ((s.frames.inputs din 1).receive cbg).restart ≠ .I2S_NO_RESTART := hno
    rw [if_neg hrestart]
    unfold Master.syncr
    split
    · rename_i hin
      refine ⟨hinv.stop hrestart _, ?_, fun hgo => (hrestart hgo).elim, fun _ => ?_⟩
      · dsimp only
        rw [if_neg hrestart]
        exact h.lrclk
      · -- without input lines the last output tells when to stop
        have hout : 0 < lines.num_out := by
          have hline := lines.some_line
          omega
        have hlength := hinv.sent_length hout
        rw [if_neg hrestart] at hlength
        have hsync := (hinv.out ⟨0, hout⟩).sync ((s.frames.inputs din 1).receive cbg).now <| by
          apply List.ne_nil_of_length_pos
          rw [words_length, hlength]
          exact Nat.succ_pos _
        rw [words_length, hlength] at hsync
        dsimp only [Frames.receive, Frames.inputs] at hsync ⊢
        omega
    · rename_i hin
      refine ⟨hinv, ?_, fun hgo => (hrestart hgo).elim, fun _ => ?_⟩
      · dsimp only
        rw [if_neg hrestart]
        exact h.lrclk
      · have hreaches := inputs_reaches din hloaded.p_din (Nat.pos_of_ne_zero hin) 1
        dsimp only [Frames.receive, Frames.inputs] at hreaches ⊢
        omega

theorem master_init (cbg : i2s_callback_group_t σ) (mode : i2s_mode_t) (din : Fin lines.num_in → Nat → Bool) (app : σ)
    (out_samps in_samps : Samples) :
    MasterInv mode.offset din (i2s_ratio_n_start cbg mode app out_samps in_samps : Master lines σ) := by
  have hoffset : mode.offset ≤ 1 := by cases mode <;> decide
  obtain ⟨hnow, hdout, hdin, hreceived, hhandled, hrestart, hsent⟩ :=
    send_spec cbg (Frames.init app out_samps in_samps 0 : Frames lines σ)
  unfold i2s_ratio_n_start
  dsimp only
  generalize (Frames.init app out_samps in_samps 0 : Frames lines σ).send cbg = f at *
  replace hnow : f.now = 0 := hnow
  have hempty : ∀ i, (f.p_dout i).words = [] := by
    intro i
    rw [hdout]
    rfl
  obtain ⟨htimed, hout⟩ := timed_outputs_spec hempty (by omega : f.now ≤ 1 + mode.offset) (by omega) rfl
  rw [hnow] at htimed
  have hclock : Steady (((OutPort.mk 0 []).set_trigger_time (f.timed_outputs (1 + mode.offset)).now 1).out
      (f.timed_outputs (1 + mode.offset)).now 0).2 1 (clock 1) := by
    rw [htimed]
    exact (steady_first ((OutPort.mk 0 []).set_trigger_time 0 1) 0 0 rfl).2
  have hstart := inv_start din (s := f.timed_outputs (1 + mode.offset)) hrestart hhandled hreceived hsent
    (Nat.le_trans (Nat.le_of_eq htimed) (Nat.zero_le _)) hout
  obtain ⟨hnow', hsteady⟩ := toggle_spec (s := ⟨(f.timed_outputs (1 + mode.offset)).outputs 1, _, 0⟩) hclock rfl hstart.1
    (Nat.le_add_right ..) (by omega)
  refine ⟨hstart.2 _ _ hnow' fun i => ?_, ?_, fun _ => rfl, fun hno => (hno hrestart).elim⟩
  · have hp : f.p_din i = ⟨0, 0⟩ := congrFun hdin i
    have htrigger : ∀ now ≤ 1 + mode.offset, (f.p_din i).set_trigger_time now (32 + mode.offset) =
        ⟨1 + mode.offset + 31, 0⟩ := by
      intro now hn
      rw [hp, InPort.set_trigger_time, fires_eq (t := 1 + mode.offset + 31) (by omega) (by omega) (by omega)]
    exact htrigger _ hnow'
  · have hlast : clock (if f.restart = .I2S_NO_RESTART then 2 * f.handled + 2 else 2 * f.handled + 1) = clock 2 := by
      rw [if_pos (show f.restart = .I2S_NO_RESTART from hrestart), hhandled]
      rfl
    exact Eq.mpr (congrArg (Steady _ 1) hlast) hsteady

/-! ## The slave -/

theorem expected_low_level (mode : i2s_mode_t) : ∀ j < 32, (expected_low mode).getLsbD j = level mode 0 j := by
  cases mode <;> decide

theorem expected_high_level (mode : i2s_mode_t) : ∀ j < 32, (expected_high mode).getLsbD j = level mode 1 j := by
  cases mode <;> decide

structure SlaveInv (start : Nat) (din : Fin lines.num_in → Nat → Bool) (lrclk : Nat → Bool) (s : Slave lines σ) : Prop where
  frames : Inv start din s.frames
  p_lrclk : s.p_lrclk = ⟨start + 31, 2 * s.frames.handled⟩
  lrclk : s.syncerror = 0 → ∀ k < s.frames.handled, ∀ chan : Fin I2S_CHANS_PER_FRAME, ∀ j < 32,
    lrclk (start + 64 * k + 32 * chan + j) = level s.mode chan j
  ended : s.frames.restart ≠ .I2S_NO_RESTART → start + 64 * s.frames.handled ≤ s.frames.now + 1

/-- What is read from LRCLK is what was on it, and is compared. -/
theorem read_lrclk_spec (lrclk : Nat → Bool) (expected : Word) {s : Slave lines σ} {n : Nat} (hp : s.p_lrclk = ⟨start + 31, n⟩)
    (hnow : s.frames.now < start + 31 + 32 * (n + 1)) :
    (s.read_lrclk lrclk expected).frames = { s.frames with now := max s.frames.now (start + 31 + 32 * n) } ∧
      (s.read_lrclk lrclk expected).p_lrclk = ⟨start + 31, n + 1⟩ ∧
      ((s.read_lrclk lrclk expected).syncerror = 0 → s.syncerror = 0 ∧
        ∀ j < 32, lrclk (start + 32 * n + j) = expected.getLsbD j) := by
  have htake : (⟨start + 31, n⟩ : InPort).take lrclk s.frames.now = (max s.frames.now (start + 31 + 32 * n),
      ⟨start + 31, n + 1⟩, sampled fun j => lrclk (start + 31 + 32 * n + j - 31)) := InPort.take_eq hnow
  unfold Slave.read_lrclk
  rw [hp, htake]
  refine ⟨rfl, rfl, fun hsync => ?_⟩
  dsimp only at hsync
  obtain ⟨hbefore, hcompared⟩ := Nat.add_eq_zero_iff.1 hsync
  refine ⟨hbefore, fun j hj => ?_⟩
  split at hcompared
  · rename_i hsame
    rw [← hsame, sampled_getLsbD hj]
    congr 1
    omega
  · cases hcompared

theorem slave_init (cbg : i2s_callback_group_t σ) (din : Fin lines.num_in → Nat → Bool) (lrclk : Nat → Bool) (app : σ)
    (out_samps in_samps : Samples) (port_time : Nat) : SlaveInv (port_time + (cbg.init app).1.offset + 64) din lrclk
      (i2s_slave_start cbg app out_samps in_samps port_time : Slave lines σ) := by
  have hoffset : (cbg.init app).1.offset ≤ 1 := by cases (cbg.init app).1 <;> decide
  obtain ⟨hnow, hdout, hdin, hreceived, hhandled, hrestart, hsent⟩ :=
    send_spec cbg (Frames.init (cbg.init app).2 out_samps in_samps port_time : Frames lines σ)
  unfold i2s_slave_start
  dsimp only
  generalize (Frames.init (cbg.init app).2 out_samps in_samps port_time : Frames lines σ).send cbg = f at *
  generalize (cbg.init app).1.offset = offset at *
  replace hnow : f.now = port_time := hnow
  have hempty : ∀ i, (f.p_dout i).words = [] := by
    intro i
    rw [hdout]
    rfl
  have htime : (port_time % 65536 + offset + I2S_CHANS_PER_FRAME * 32) % 65536 = (port_time + offset + 64) % 65536 := by
    unfold I2S_CHANS_PER_FRAME
    omega
  have htrigger : fires port_time (port_time % 65536 + offset + (I2S_CHANS_PER_FRAME * 32 + 32) - 1) =
      port_time + offset + 64 + 31 := by
    unfold I2S_CHANS_PER_FRAME
    exact fires_eq (by omega) (by omega) (by omega)
  obtain ⟨htimed, hout⟩ := timed_outputs_spec hempty (by omega) (by omega) htime
  rw [hnow] at htimed
  have hstart := inv_start din
    (s := f.timed_outputs (port_time % 65536 + offset + I2S_CHANS_PER_FRAME * 32)) hrestart hhandled hreceived hsent
    (Nat.le_trans (Nat.le_of_eq htimed) (by omega)) hout
  refine ⟨hstart.2 _ _ hstart.1 fun i => ?_, ?_, fun _ k hk => ?_, fun hno => (hno hrestart).elim⟩
  · have hp : f.p_din i = ⟨0, 0⟩ := congrFun hdin i
    have hset : (f.p_din i).set_trigger_time
        (f.timed_outputs (port_time % 65536 + offset + I2S_CHANS_PER_FRAME * 32)).now
        (port_time % 65536 + offset + (I2S_CHANS_PER_FRAME * 32 + 32) - 1) = ⟨port_time + offset + 64 + 31, 0⟩ := by
      rw [hp, InPort.set_trigger_time, htimed, htrigger]
    exact hset
  · have hlast : f.handled = 0 := hhandled
    dsimp only [InPort.set_trigger_time, Frames.outputs, Frames.timed_outputs] at htimed ⊢
    rw [htimed, htrigger, hlast]
  · have hlast : f.handled = 0 := hhandled
    dsimp only [Frames.outputs, Frames.timed_outputs] at hk
    rw [hlast] at hk
    cases hk

/-- Between the halves of the loop. -/
structure SlaveHalf (start : Nat) (din : Fin lines.num_in → Nat → Bool) (lrclk : Nat → Bool) (s : Slave lines σ) :
    Prop where
  loaded : Loaded start din (2 * s.frames.handled + 1) (start + 64 * s.frames.handled + 32) s.frames
  lefts : ∀ i, ∀ j < 32, (s.frames.in_samps (idx lines.num_in_le i 0)).getMsbD j =
    din i (start + 64 * s.frames.handled + j)
  p_lrclk : s.p_lrclk = ⟨start + 31, 2 * s.frames.handled + 1⟩
  lrclk : s.syncerror = 0 → (∀ k < s.frames.handled, ∀ chan : Fin I2S_CHANS_PER_FRAME, ∀ j < 32,
    lrclk (start + 64 * k + 32 * chan + j) = level s.mode chan j) ∧
      ∀ j < 32, lrclk (start + 64 * s.frames.handled + j) = level s.mode 0 j

theorem SlaveInv.evens (cbg : i2s_callback_group_t σ) {lrclk : Nat → Bool} {s : Slave lines σ}
    (h : SlaveInv start din lrclk s) (hgo : s.frames.restart = .I2S_NO_RESTART) :
    SlaveHalf start din lrclk (i2s_slave_evens cbg din lrclk s) := by
  obtain ⟨hloaded, hhandled⟩ := h.frames.evens cbg hgo
  obtain ⟨hframes, hp, hsync⟩ := read_lrclk_spec lrclk (expected_low s.mode) (s := { s with frames := s.frames.evens cbg })
    h.p_lrclk (Nat.lt_of_le_of_lt hloaded.now (by omega))
  have hlrclk := h.lrclk
  rw [← hhandled] at hloaded hframes hp hsync hlrclk
  unfold i2s_slave_evens
  dsimp only
  generalize hread : ({ s with frames := s.frames.evens cbg } : Slave lines σ).read_lrclk lrclk (expected_low s.mode) = t
    at hframes hp hsync ⊢
  have hmode : t.mode = s.mode := by
    rw [← hread]
    rfl
  have hnow : max (s.frames.evens cbg).now (start + 31 + 32 * (2 * (s.frames.evens cbg).handled)) ≤
      start + 64 * (s.frames.evens cbg).handled + 32 := Nat.max_le.2 ⟨hloaded.now, by omega⟩
  obtain ⟨hinputs, hlefts⟩ := (hloaded.wait hnow).inputs (by omega) (by omega)
  refine ⟨?_, fun i j hj => ?_, ?_, fun hzero => ⟨?_, fun j hj => ?_⟩⟩
  all_goals dsimp only
  · rw [hframes]
    exact hinputs
  · rw [hframes]
    refine (hlefts i j hj).trans ?_
    dsimp only [Frames.inputs]
    congr 1
    omega
  · rw [hp, hframes]
    rfl
  · rw [hframes, hmode]
    exact hlrclk (hsync hzero).1
  · rw [hframes, hmode, ← expected_low_level s.mode j hj, ← (hsync hzero).2 j hj]
    congr 1
    dsimp only [Frames.inputs]
    omega

theorem SlaveHalf.odds (cbg : i2s_callback_group_t σ) {lrclk : Nat → Bool} {s : Slave lines σ}
    (h : SlaveHalf start din lrclk s) : SlaveInv start din lrclk (i2s_slave_odds cbg din lrclk s) := by
  obtain ⟨hframes, hp, hsync⟩ := read_lrclk_spec lrclk (expected_high s.mode) h.p_lrclk
    (Nat.lt_of_le_of_lt h.loaded.now (by omega))
  unfold i2s_slave_odds
  dsimp only
  generalize hread : s.read_lrclk lrclk (expected_high s.mode) = t at hframes hp hsync ⊢
  have hmode : t.mode = s.mode := by
    rw [← hread]
    rfl
  have hnow : max s.frames.now (start + 31 + 32 * (2 * s.frames.handled + 1)) ≤ start + 64 * s.frames.handled + 64 :=
    Nat.max_le.2 ⟨Nat.le_trans h.loaded.now (by omega), by omega⟩
  have hloaded := h.loaded.wait hnow
  rw [← hframes] at hloaded
  have hlefts := h.lefts
  have hlate : start + 31 + 32 * (2 * s.frames.handled + 1) ≤ t.frames.now := by
    rw [hframes]
    exact Nat.le_max_right ..
  have hhandled : s.frames.handled = t.frames.handled := by rw [hframes]
  have hin_samps : s.frames.in_samps = t.frames.in_samps := by rw [hframes]
  have hlrclk := h.lrclk
  rw [hhandled] at hloaded hlefts hp hsync hlate hlrclk
  rw [hin_samps] at hlefts
  -- LRCLK has been as expected throughout the frame
  have hlevel : t.syncerror = 0 → ∀ k < t.frames.handled + 1, ∀ chan : Fin I2S_CHANS_PER_FRAME, ∀ j < 32,
      lrclk (start + 64 * k + 32 * chan + j) = level t.mode chan j := by
    intro hzero k hk chan j hj
    obtain ⟨hbefore, hhigh⟩ := hsync hzero
    obtain ⟨hframes, hlow⟩ := hlrclk hbefore
    rw [hmode]
    rcases Nat.lt_succ_iff_lt_or_eq.1 hk with hk | rfl
    · exact hframes k hk chan j hj
    · match chan with
      | 0 => exact hlow j hj
      | 1 =>
        rw [← expected_high_level s.mode j hj, ← hhigh j hj]
        congr 1
        simp only [Fin.val_one]
        omega
  split
  · rename_i hgo
    have houtputs := hloaded.outputs hgo (Nat.le_refl _)
    exact ⟨inv_receive cbg houtputs hlefts hloaded.sent_length hloaded.received_length hloaded.received, by
      rw [hp]; rfl, hlevel, fun hno => (hno hgo).elim⟩
  · rename_i hno
    refine ⟨inv_receive cbg (hloaded.ending hno) hlefts hloaded.sent_length hloaded.received_length hloaded.received, by
      rw [hp]; rfl, hlevel, fun _ => ?_⟩
    have hle := le_inputs din 1 (s := t.frames)
    dsimp only [Frames.receive, Frames.inputs] at hle ⊢
    omega

/-! ## The main result -/

/-- In every pass of the master, and of the slave while LRCLK is as expected, with any lines, callbacks
and words on the wire, the frames sent are on the output lines in their order while the
frames received are taken from the input lines, each with its LRCLK, and a restart leaves no frame
sent without one received. -/
theorem frames_pipelined (cbg : i2s_callback_group_t σ) (din : Fin lines.num_in → Nat → Bool) :
    (∀ mode s, (i2s_ratio_n cbg mode din).Reachable Machine.Free s →
      Pipelined mode (1 + mode.offset) din s.p_lrclk.wire s.frames) ∧
    ∀ lrclk s, (i2s_slave cbg din lrclk).Reachable Machine.Free s → s.syncerror = 0 →
      ∃ port_time, Falls lrclk port_time ∧
        Pipelined s.mode (port_time + s.mode.offset + 64) din (fun t => some (lrclk t)) s.frames := by
  constructor
  · intro mode s h
    have hoffset : mode.offset ≤ 1 := by cases mode <;> decide
    have hinv : MasterInv mode.offset din s := by
      refine h.inv (fun s hs => ?_) fun s a s' hinv _ hs => ?_
      · obtain ⟨app, out_samps, in_samps, rfl⟩ := hs
        exact master_init cbg mode din app out_samps in_samps
      · dsimp only [i2s_ratio_n] at hs
        split at hs
        · rename_i hgo
          obtain rfl := Option.some.inj hs
          exact (hinv.evens cbg hoffset hgo).odds cbg hoffset
        · cases hs
    refine hinv.frames.pipelined (fun k hk chan j hj => ?_) hinv.ended
    exact clock_level hinv.lrclk (by split <;> omega) mode hk chan hj
  · intro lrclk s h hsync
    have hinv : ∃ port_time, Falls lrclk port_time ∧ SlaveInv (port_time + s.mode.offset + 64) din lrclk s := by
      refine h.inv (I := fun s => ∃ port_time, Falls lrclk port_time ∧
        SlaveInv (port_time + s.mode.offset + 64) din lrclk s) (fun s hs => ?_) fun s a s' hinv _ hs => ?_
      · obtain ⟨app, out_samps, in_samps, port_time, hfalls, rfl⟩ := hs
        exact ⟨port_time, hfalls, slave_init cbg din lrclk app out_samps in_samps port_time⟩
      · obtain ⟨port_time, hfalls, hinv⟩ := hinv
        dsimp only [i2s_slave] at hs
        split at hs
        · rename_i hgo
          obtain rfl := Option.some.inj hs
          refine ⟨port_time, hfalls, ?_⟩
          have hmode : (i2s_slave_odds cbg din lrclk (i2s_slave_evens cbg din lrclk s)).mode = s.mode := by
            unfold i2s_slave_odds
            dsimp only
            split <;> rfl
          rw [hmode]
          exact (hinv.evens cbg hgo.2).odds cbg
        · cases hs
    obtain ⟨port_time, hfalls, hinv⟩ := hinv
    refine ⟨port_time, hfalls, hinv.frames.pipelined (fun k hk chan j hj => ?_) hinv.ended⟩
    exact congrArg some (hinv.lrclk hsync k hk chan j hj)

/-! ## Three frames and a restart -/

def counting : i2s_callback_group_t Nat where
  init app := (.I2S_MODE_I2S, app)
  restart_check app := (if app < 2 then .I2S_NO_RESTART else .I2S_RESTART, app + 1)
  receive app _ _ := app
  send app _ _ := (fun k => BitVec.ofNat 32 (16 * app + k), app)

/-- One line each way. -/
def duplex : Lines := ⟨1, 1, by decide, by decide, by decide⟩

def halves (time : Nat) : Bool := time = 0 || (time - 1) / 32 % 2 = 1

def master_three : Machine (Master duplex Nat) Unit := i2s_ratio_n counting .I2S_MODE_I2S fun _ => halves

def slave_three : Machine (Slave duplex Nat) Unit := i2s_slave counting (fun _ => halves) halves

theorem frames_pipelined_three :
    (∃ s, master_three.Reachable Machine.Free s ∧ s.frames.restart = .I2S_RESTART ∧ s.frames.handled = 3 ∧
      Pipelined .I2S_MODE_I2S 2 (fun _ => halves) s.p_lrclk.wire s.frames) ∧
    ∃ s, slave_three.Reachable Machine.Free s ∧ s.frames.restart = .I2S_RESTART ∧ s.frames.handled = 3 ∧
      ∃ start, Pipelined s.mode start (fun _ => halves) (fun t => some (halves t)) s.frames := by
  have hpipelined := frames_pipelined counting fun _ : Fin duplex.num_in => halves
  constructor
  · have hrun : (master_three.exec Machine.Free
        (i2s_ratio_n_start counting .I2S_MODE_I2S 0 (fun _ => 0) fun _ => 0) [(), (), ()]).any
        (fun s => s.frames.restart = .I2S_RESTART ∧ s.frames.handled = 3) = true := by decide +kernel
    obtain ⟨s, hexec, hs⟩ := (Option.any_eq_true _ _).1 hrun
    have h : master_three.Reachable Machine.Free s := Machine.exec_reachable ⟨0, _, _, rfl⟩ hexec
    exact ⟨s, h, (of_decide_eq_true hs).1, (of_decide_eq_true hs).2, hpipelined.1 .I2S_MODE_I2S s h⟩
  · have hfalls : Falls halves 1 := by
      refine ⟨0, by decide, fun t _ ht => ?_, by decide⟩
      obtain rfl : t = 0 := by omega
      rfl
    have hrun : (slave_three.exec Machine.Free
        (i2s_slave_start counting 0 (fun _ => 0) (fun _ => 0) 1) [(), (), ()]).any
        (fun s => s.syncerror = 0 ∧ s.frames.restart = .I2S_RESTART ∧ s.frames.handled = 3) = true := by
      decide +kernel
    obtain ⟨s, hexec, hs⟩ := (Option.any_eq_true _ _).1 hrun
    obtain ⟨hsync, hrestart, hhandled⟩ := of_decide_eq_true hs
    have h : slave_three.Reachable Machine.Free s := Machine.exec_reachable ⟨0, _, _, 1, hfalls, rfl⟩ hexec
    obtain ⟨port_time, -, hkept⟩ := hpipelined.2 halves s h hsync
    exact ⟨s, h, hrestart, hhandled, _, hkept⟩

end Hil
end I2s
