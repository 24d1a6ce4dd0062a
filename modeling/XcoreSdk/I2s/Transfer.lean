import XcoreSdk.I2s.Send
/-!
# No underflow, no overflow

The semaphore that a call waits for stands for the words that the call which
set the required count asked for. A call that finds `recv_blocked` or
`send_blocked` still set, because an earlier one timed out, does not ask again,
so it must not want more than that (`Fits`).
-/

namespace I2s
open FreeRtos
variable {w : Type*} {cfg : Config} {s s' : Driver w}

/-- What holds of a sample buffer at every step. -/
structure Sound (b : Side w) : Prop where
  total_written : b.total_written = BitVec.ofNat 32 b.written.length
  total_read : b.total_read = BitVec.ofNat 32 b.read.length
  /-- No underflow -/
  underflow : b.read.length ≤ b.written.length
  /-- and no overflow of the true counts. -/
  overflow : b.written.length - b.read.length ≤ b.buf_size
  /-- The words read are those written, in order, -/
  read : b.read <+: b.written
  /-- and the others are still there. -/
  kept : Ring.Holds b.buf b.buf_size b.read.length (b.written.drop b.read.length)

/-- A call that finds an earlier request open asks for no more words than that
request, or than it can have at once. -/
def Fits (cfg : Config) (s : Driver w) : Act w → Prop
  | .rx frame_count => s.recv.blocked = true → frame_words cfg.num_in frame_count ≤ s.recv.buf_size →
      frame_words cfg.num_in frame_count ≤ max s.recv.required s.recv.words_available
  | .tx _ sample_buf => s.send.blocked = true → sample_buf.length ≤ s.send.buf_size →
      sample_buf.length ≤ max s.send.required s.send.words_free
  | _ => True

theorem Contents.sound {b : Side w} {pushed popped : List w} (h : Contents b pushed popped) : Sound b where
  total_written := h.total_written
  total_read := h.total_read
  underflow := h.read_le
  overflow := by
    have := h.stored_le
    simp only [Side.stored] at this
    omega
  read := h.read
  kept := h.holds.append_left

/-- The interrupt handler turns a wake-up into a token of the semaphore. -/
theorem isr_tokens (sem n : Nat) (flag : Bool) (h : sem + (n + flag.toNat) ≤ 1) :
    (if flag then rtos_osal_semaphore_put 1 sem else sem) + n = sem + (n + flag.toNat) := by
  cases flag with
  | false => rfl
  | true =>
    rw [Bool.toNat_true] at h ⊢
    obtain ⟨rfl, rfl⟩ : sem = 0 ∧ n = 0 := by omega
    rfl

theorem countP_isr (isr_action : IsrCmd) (c_i2s_isr : List IsrCmd) (p : IsrCmd → Bool) :
    (isr_action :: c_i2s_isr).countP p = c_i2s_isr.countP p + (p isr_action).toNat := by
  rw [List.countP_cons]
  cases p isr_action <;> rfl

/-! ## The receive buffer -/

theorem RecvInv.isr (h : RecvInv cfg s) (hs : rtos_i2s_isr s = some s') : RecvInv cfg s' := by
  unfold rtos_i2s_isr at hs
  cases hc : s.c_i2s_isr with
  | nil => rw [hc] at hs; cases hs
  | cons isr_action c_i2s_isr =>
    rw [hc] at hs
    cases hs
    have hrx := h.rx
    have htokens := hrx.handshake.tokens_le
    simp only [Driver.recv_tokens, hc, countP_isr] at hrx htokens
    refine ⟨h.size, ⟨{ hrx.contents with }, ?_, hrx.read_index, hrx.rx_loop⟩, h.aligned, h.write_index, h.io⟩
    have heq := isr_tokens s.recv.sem (s.isr_cmd.recv.toNat + c_i2s_isr.countP IsrCmd.recv) isr_action.recv (by omega)
    simp only [Driver.recv_tokens, Nat.add_assoc] at heq ⊢
    rw [heq]
    simp only [Nat.add_assoc] at hrx
    exact { hrx.handshake with }

theorem RecvInv.flush (h : RecvInv cfg s) : RecvInv cfg (flush s) := by
  obtain ⟨h1, -, h3⟩ := flush_frame (s := s)
  exact h.frame h1 recv_tokens_flush (by rw [h3]) (fun _ _ hio => by rwa [h3] at hio)

/-- The end of a callback. -/
theorem RecvInv.idle (h : RecvInv cfg s) (hpushed : s.io.pushed = []) : RecvInv cfg { s with io := .idle } :=
  h.frame rfl rfl hpushed.symm nofun

theorem RecvInv.send_wake (h : RecvInv cfg s) : RecvInv cfg (send_wake s) := by
  unfold I2s.send_wake
  split
  · exact h.frame rfl rfl rfl fun _ _ h => h
  · exact h

theorem recv_wake_io : (recv_wake s).io = s.io := by
  unfold recv_wake
  split <;> rfl

theorem send_wake_io : (send_wake s).io = s.io := by
  unfold send_wake
  split <;> rfl

theorem flush_io : (flush s).io = s.io := flush_frame.2.2

theorem RecvInv.io_step (h : RecvInv cfg s) (hs : io_step cfg s = some s') : RecvInv cfg s' := by
  cases hio : s.io with
  | idle => simp [I2s.io_step, hio] at hs
  | receive i2s_sample_buf k => exact h.receive_step hio hs
  | received =>
    simp only [I2s.io_step, hio] at hs
    cases hs
    split
    · exact h.wake.flush.idle (by rw [flush_io, recv_wake_io, hio]; rfl)
    · exact h.wake.idle (by rw [recv_wake_io, hio]; rfl)
  | send i2s_sample_buf =>
    simp only [I2s.io_step, hio] at hs
    split at hs <;> cases hs
    · exact h.frame rfl rfl (by rw [hio]; rfl) (by rintro _ _ ⟨⟩)
    · exact h.frame rfl rfl (by rw [hio]; rfl) (by rintro _ _ ⟨⟩)
  | sent =>
    simp only [I2s.io_step, hio] at hs
    cases hs
    exact h.send_wake.flush.idle (by rw [flush_io, send_wake_io, hio]; rfl)

/-- Only the calls of `rtos_i2s_rx` need to fit. -/
theorem RecvInv.step {a : Act w} (h : RecvInv cfg s) (hc : ∀ frame_count, a = .rx frame_count → Fits cfg s a)
    (hs : (driver cfg).step s a = some s') : RecvInv cfg s' := by
  cases a with
  | receive i2s_sample_buf => exact h.receive hs
  | send =>
    simp only [driver, i2s_send] at hs
    split at hs
    · rename_i hio
      split at hs <;> cases hs
      refine h.frame rfl rfl ?_ ?_
      · rw [hio]; dsimp only; split <;> rfl
      · intro _ _ h; dsimp only at h; split at h <;> cases h
    · cases hs
  | io => exact h.io_step hs
  | isr => exact h.isr hs
  | rx frame_count =>
    obtain ⟨recv, hrx, rfl⟩ := Option.map_eq_some_iff.1 hs
    obtain ⟨h1, h2, h3, h4, h5⟩ := RxInv.call_frame hrx
    refine h.task ?_ h1 h2 h3 (by rw [h4])
    have htokens : ({ s with recv } : Driver w).recv_tokens = s.recv_tokens := by simp only [Driver.recv_tokens, h5]
    rw [htokens]
    exact h.rx.call (hc frame_count rfl) hrx
  | rx_step =>
    obtain ⟨recv, hrx, rfl⟩ := Option.map_eq_some_iff.1 hs
    obtain ⟨h1, h2, h3, h4⟩ := RxInv.step_frame hrx
    refine h.task ?_ h1 h2 h3 h4
    have hinv := h.rx
    simp only [Driver.recv_tokens, Nat.add_assoc] at hinv ⊢
    exact hinv.step hrx
  | rx_timeout =>
    obtain ⟨recv, hrx, rfl⟩ := Option.map_eq_some_iff.1 hs
    obtain ⟨h1, h2, h3, h4, h5, -⟩ := timeout_frame hrx
    refine h.task ?_ h1 h2 h3 (by rw [h4])
    have htokens : ({ s with recv } : Driver w).recv_tokens = s.recv_tokens := by simp only [Driver.recv_tokens, h5]
    rw [htokens]
    exact h.rx.timeout hrx
  | tx frame_count sample_buf =>
    simp only [driver] at hs
    split at hs
    case isFalse => cases hs
    obtain ⟨send, -, rfl⟩ := Option.map_eq_some_iff.1 hs
    exact h.frame rfl rfl rfl fun _ _ h => h
  | tx_step | tx_timeout =>
    obtain ⟨send, -, rfl⟩ := Option.map_eq_some_iff.1 hs
    exact h.frame rfl rfl rfl fun _ _ h => h

/-! ## The send buffer -/

theorem SendInv.isr (h : SendInv cfg s) (hs : rtos_i2s_isr s = some s') : SendInv cfg s' := by
  unfold rtos_i2s_isr at hs
  cases hc : s.c_i2s_isr with
  | nil => rw [hc] at hs; cases hs
  | cons isr_action c_i2s_isr =>
    rw [hc] at hs
    cases hs
    have htx := h.tx
    have htokens := htx.handshake.tokens_le
    simp only [Driver.send_tokens, hc, countP_isr] at htx htokens
    refine ⟨h.size, ⟨{ htx.contents with }, ?_, htx.write_index, htx.tx_loop⟩, h.aligned, h.read_index, h.io⟩
    have heq := isr_tokens s.send.sem (s.isr_cmd.send.toNat + c_i2s_isr.countP IsrCmd.send) isr_action.send (by omega)
    simp only [Driver.send_tokens, Nat.add_assoc] at heq ⊢
    rw [heq]
    simp only [Nat.add_assoc] at htx
    exact { htx.handshake with }

theorem SendInv.flush (h : SendInv cfg s) : SendInv cfg (flush s) := by
  obtain ⟨-, h2, h3⟩ := flush_frame (s := s)
  exact h.frame h2 send_tokens_flush (by rw [h3]) (fun _ hio => by rwa [h3] at hio)

theorem SendInv.idle (h : SendInv cfg s) (hpopped : s.io.popped = []) : SendInv cfg { s with io := .idle } :=
  h.frame rfl rfl hpopped.symm nofun

theorem SendInv.recv_wake (h : SendInv cfg s) : SendInv cfg (recv_wake s) := by
  unfold I2s.recv_wake
  split
  · exact h.frame rfl rfl rfl fun _ h => h
  · exact h

theorem SendInv.io_step (h : SendInv cfg s) (hs : io_step cfg s = some s') : SendInv cfg s' := by
  cases hio : s.io with
  | idle => simp [I2s.io_step, hio] at hs
  | receive i2s_sample_buf k =>
    simp only [I2s.io_step, hio] at hs
    split at hs <;> cases hs
    · exact h.frame rfl rfl (by rw [hio]; rfl) (by rintro _ ⟨⟩)
    · exact h.frame rfl rfl (by rw [hio]; rfl) (by rintro _ ⟨⟩)
  | received =>
    simp only [I2s.io_step, hio] at hs
    cases hs
    split
    · exact h.recv_wake.flush.idle (by rw [flush_io, recv_wake_io, hio]; rfl)
    · exact h.recv_wake.idle (by rw [recv_wake_io, hio]; rfl)
  | send i2s_sample_buf => exact h.send_step hio hs
  | sent =>
    simp only [I2s.io_step, hio] at hs
    cases hs
    exact h.wake.flush.idle (by rw [flush_io, send_wake_io, hio]; rfl)

/-- Only the calls of `rtos_i2s_tx` need to fit. -/
theorem SendInv.step {a : Act w} (h : SendInv cfg s)
    (hc : ∀ frame_count sample_buf, a = .tx frame_count sample_buf → Fits cfg s a)
    (hs : (driver cfg).step s a = some s') : SendInv cfg s' := by
  cases a with
  | receive i2s_sample_buf =>
    simp only [driver, i2s_receive] at hs
    split at hs
    · rename_i hio
      split at hs <;> cases hs
      refine h.frame rfl rfl ?_ ?_
      · rw [hio]; dsimp only; split <;> rfl
      · intro _ h; dsimp only at h; split at h <;> cases h
    · cases hs
  | send => exact h.send hs
  | io => exact h.io_step hs
  | isr => exact h.isr hs
  | rx frame_count | rx_step | rx_timeout =>
    obtain ⟨recv, -, rfl⟩ := Option.map_eq_some_iff.1 hs
    exact h.frame rfl rfl rfl fun _ h => h
  | tx frame_count sample_buf =>
    simp only [driver] at hs
    split at hs
    case isFalse => cases hs
    obtain ⟨send, htx, rfl⟩ := Option.map_eq_some_iff.1 hs
    obtain ⟨h1, h2, h3, h4, h5⟩ := TxInv.call_frame htx
    refine h.task ?_ h1 h2 h3 (by rw [h4])
    have htokens : ({ s with send } : Driver w).send_tokens = s.send_tokens := by simp only [Driver.send_tokens, h5]
    rw [htokens]
    exact h.tx.call (hc frame_count sample_buf rfl) htx
  | tx_step =>
    obtain ⟨send, htx, rfl⟩ := Option.map_eq_some_iff.1 hs
    obtain ⟨h1, h2, h3, h4⟩ := TxInv.step_frame htx
    refine h.task ?_ h1 h2 h3 h4
    have hinv := h.tx
    simp only [Driver.send_tokens, Nat.add_assoc] at hinv ⊢
    exact hinv.step htx
  | tx_timeout =>
    obtain ⟨send, htx, rfl⟩ := Option.map_eq_some_iff.1 hs
    obtain ⟨h1, h2, h3, h4, h5, h6⟩ := timeout_frame htx
    refine h.task ?_ h4 h6 h3 (by rw [h1])
    have htokens : ({ s with send } : Driver w).send_tokens = s.send_tokens := by simp only [Driver.send_tokens, h5]
    rw [htokens]
    exact h.tx.timeout htx

/-! ## Runs -/

/-- A buffer after `rtos_i2s_start`. -/
theorem start_contents {mem : Nat → w} {buf_size : Nat} (h : buf_size < 2 ^ 32) : Contents (Side.start mem buf_size) [] [] :=
  ⟨h, rfl, rfl, List.nil_prefix, Nat.zero_le _, Ring.holds_nil, List.nil_prefix⟩

theorem start_handshake {mem : Nat → w} {buf_size credit : Nat} : Handshake (Side.start mem buf_size) credit 0 :=
  ⟨fun _ => ⟨rfl, rfl⟩, nofun, nofun, nofun, nofun⟩

theorem inv_init (h : (driver cfg).init s) : RecvInv cfg s ∧ SendInv cfg s := by
  obtain ⟨recv_mem, send_mem, rfl⟩ := h
  refine ⟨⟨rfl, ⟨start_contents cfg.recv_fits, start_handshake, ?_, trivial⟩, Nat.dvd_zero _, ?_, nofun⟩,
    ⟨rfl, ⟨start_contents cfg.send_fits, start_handshake, ?_, trivial⟩, Nat.dvd_zero _, ?_, nofun⟩⟩ <;>
    exact (Nat.zero_mod _).symm

/-- In every run whose calls fit, the counts of both buffers stay within bounds
and the words go through in order. -/
theorem buffers_sound (h : (driver cfg).Reachable (Fits cfg) s) : Sound s.recv ∧ Sound s.send := by
  have hinv : RecvInv cfg s ∧ SendInv cfg s :=
    h.inv (I := fun t => RecvInv cfg t ∧ SendInv cfg t) (fun _ => inv_init)
      fun _ _ _ hinv hc hs => ⟨hinv.1.step (fun _ _ => hc) hs, hinv.2.step (fun _ _ _ => hc) hs⟩
  exact ⟨hinv.1.rx.contents.sound, hinv.2.tx.contents.sound⟩

instance (cfg : Config) (s : Driver w) : ∀ a, Decidable (Fits cfg s a)
  | .rx frame_count => inferInstanceAs (Decidable (s.recv.blocked = true → frame_words cfg.num_in frame_count ≤
      s.recv.buf_size → frame_words cfg.num_in frame_count ≤ max s.recv.required s.recv.words_available))
  | .tx _ sample_buf => inferInstanceAs (Decidable (s.send.blocked = true → sample_buf.length ≤ s.send.buf_size →
      sample_buf.length ≤ max s.send.required s.send.words_free))
  | .receive _ | .send | .io | .isr | .rx_step | .rx_timeout | .tx_step | .tx_timeout => isTrue trivial

/-- One line in, one line out, and two frames of space each way. -/
def stereo : Config := ⟨1, 1, 2, 2, by decide, by decide⟩

/-- The driver as `rtos_i2s_start` leaves it. -/
def started : Driver Nat := ⟨.start (fun _ => 0) 4, .start (fun _ => 0) 4, ⟨false, false⟩, [], .idle⟩

theorem started_init : (driver stereo).init started := ⟨fun _ => 0, fun _ => 0, rfl⟩

/-- A frame comes in, and with the next callback the wake-up goes out. -/
def frameIn (x y : Nat) : List (Act Nat) :=
  Act.receive [x, y] :: List.replicate 4 Act.io ++ [Act.send, Act.io]

/-- A call of `rtos_i2s_rx` that asks for a frame and times out. -/
def rxTimeout : List (Act Nat) := [.rx 1, .rx_step, .rx_timeout]

/-- The same for `rtos_i2s_tx`. -/
def txTimeout : List (Act Nat) := [.tx 1 [5, 6], .tx_step, .tx_timeout]

/-- The first call times out, and a second one for as much gets the frame. -/
theorem buffers_sound_retry : ∃ s, (driver stereo).Reachable (Fits stereo) s ∧ s.recv.read = [10, 11] ∧
    Sound s.recv ∧ Sound s.send := by
  have hrun : ((driver stereo).exec (Fits stereo) started
      (List.flatten [rxTimeout, frameIn 10 11, [.isr, .rx 1], List.replicate 6 .rx_step])).map
          (fun s => s.recv.read) =
        some [10, 11] := by decide +kernel
  obtain ⟨s, hs, hobs⟩ := Option.map_eq_some_iff.1 hrun
  have hreach := Machine.exec_reachable started_init hs
  exact ⟨s, hreach, hobs, buffers_sound hreach⟩

/-- After a timed-out call for one frame, a call for two takes the wake-up for
the one: `rtos_i2s_rx` returns a frame that never came in, and `rtos_i2s_tx`
writes over a frame that has not gone out. -/
theorem buffers_sound_larger :
    (∃ s, (driver stereo).Reachable Machine.Free s ∧ s.recv.written = [10, 11] ∧ s.recv.read = [10, 11, 0, 0] ∧
      ¬ Sound s.recv) ∧
    ∃ s, (driver stereo).Reachable Machine.Free s ∧ s.send.written = [1, 2, 3, 4, 5, 6, 7, 8] ∧ s.send.read = [1, 2] ∧
      ¬ Sound s.send := by
  have hrx : ((driver stereo).exec Machine.Free started
      (List.flatten [rxTimeout, frameIn 10 11, [.isr, .rx 2], List.replicate 8 .rx_step])).map
        (fun s => (s.recv.written, s.recv.read)) = some ([10, 11], [10, 11, 0, 0]) := by decide +kernel
  have htx : ((driver stereo).exec Machine.Free started
      (List.flatten [
        [.tx 2 [1, 2, 3, 4]], List.replicate 7 .tx_step, txTimeout, [.send], List.replicate 4 .io,
        [.isr, .tx 2 [5, 6, 7, 8]], List.replicate 8 .tx_step])).map
        (fun s => (s.send.written, s.send.read, s.send.buf_size)) = some ([1, 2, 3, 4, 5, 6, 7, 8], [1, 2], 4) := by decide +kernel
  obtain ⟨s, hs, hobs⟩ := Option.map_eq_some_iff.1 hrx
  obtain ⟨t, ht, hobt⟩ := Option.map_eq_some_iff.1 htx
  obtain ⟨hw, hr⟩ := Prod.mk.inj hobs
  obtain ⟨hw', hobt⟩ := Prod.mk.inj hobt
  obtain ⟨hr', hsize⟩ := Prod.mk.inj hobt
  refine ⟨⟨s, Machine.exec_reachable started_init hs, hw, hr, fun h => ?_⟩,
    t, Machine.exec_reachable started_init ht, hw', hr', fun h => ?_⟩
  · have hle := h.underflow
    rw [hw, hr] at hle
    exact absurd hle (by decide)
  · have hle := h.overflow
    rw [hw', hr', hsize] at hle
    exact absurd hle (by decide)

end I2s
