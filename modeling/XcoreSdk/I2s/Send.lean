import XcoreSdk.I2s.Receive
/-!
# The send buffer
-/

namespace I2s
open FreeRtos
variable {w : Type*} {cfg : Config} {s s' : Driver w} {b b' : Side w}

/-- The words that `i2s_local_tx` has stored and not yet counted. -/
def Call.placed : Call w → List w
  | .copy words sample_buf words_remaining => sample_buf.take (words - words_remaining)
  | .memcpy words sample_buf words_remaining _ k => sample_buf.take (words - words_remaining + k)
  | _ => []

/-- The words that `i2s_send` has taken and not yet counted. -/
def Io.popped : Io w → List w
  | .send i2s_sample_buf => i2s_sample_buf
  | _ => []

/-- What `i2s_local_tx` knows while it copies. -/
def Call.TxLoop (index size : Nat) : Call w → Prop
  | .idle => True
  | .request words sample_buf | .wait words sample_buf => sample_buf.length = words
  | .copy words sample_buf words_remaining => sample_buf.length = words ∧ words_remaining ≤ words
  | .memcpy words sample_buf words_remaining words_to_copy k => sample_buf.length = words ∧ k ≤ words_to_copy ∧
      words_to_copy ≤ words_remaining ∧ words_remaining ≤ words ∧ index + words_to_copy ≤ size

/-- The wake-ups of the transmitting task that are under way. -/
def Driver.send_tokens (s : Driver w) : Nat := s.send.sem + s.isr_cmd.send.toNat + s.c_i2s_isr.countP IsrCmd.send

/-- The transmitting task's side, while the I2S thread has taken `popped`. -/
structure TxInv (b : Side w) (popped : List w) (tokens : Nat) : Prop where
  contents : Contents b b.call.placed popped
  handshake : Handshake b (b.buf_size - b.stored) tokens
  write_index : b.write_index = (b.written.length + b.call.moved) % b.buf_size
  tx_loop : b.call.TxLoop b.write_index b.buf_size

namespace TxInv
variable {popped : List w} {tokens : Nat} {sample_buf : List w}

/-- A call is made: it waits, asks or copies. -/
theorem call (h : TxInv b popped tokens) (hfits : b.blocked = true → sample_buf.length ≤ b.buf_size →
    sample_buf.length ≤ max b.required b.words_free) (hs : i2s_local_tx b sample_buf = some b') :
    TxInv b' popped tokens := by
  rw [h.contents.words_free] at hfits
  unfold i2s_local_tx at hs
  split at hs
  case h_2 => cases hs
  rename_i hidle
  have hcontents := h.contents
  have hindex := h.write_index
  rw [hidle] at hcontents hindex
  split at hs
  · cases hs; exact h
  · rename_i hsize
    split at hs
    · rename_i hb
      cases hs
      have hhandshake := h.handshake.waiting sample_buf hb (hfits hb (by omega))
      exact ⟨{ hcontents with }, { hhandshake with }, hindex, rfl⟩
    · rename_i hb
      have hb : b.blocked = false := by simpa using hb
      rw [h.contents.words_free] at hs
      split at hs
      · rename_i hlt
        cases hs
        have hhandshake := h.handshake.lacking sample_buf.length sample_buf hb (by omega)
        exact ⟨{ hcontents with }, { hhandshake with }, hindex, rfl⟩
      · rename_i hle
        cases hs
        have hplaced : (Call.copy sample_buf.length sample_buf sample_buf.length).placed = [] := by simp [Call.placed]
        have hhandshake := h.handshake.copying (.copy sample_buf.length sample_buf sample_buf.length) rfl hb
          (by simpa [Side.stored] using hle)
        refine ⟨?_, { hhandshake with }, ?_, rfl, Nat.le_refl _⟩
        · dsimp only
          rw [hplaced]
          exact { hcontents with }
        · simpa [Call.moved] using hindex

theorem step (h : TxInv b popped (b.sem + tokens)) (hs : tx_step b = some b') : TxInv b' popped (b'.sem + tokens) := by
  have hcontents := h.contents
  have hindex := h.write_index
  have hloop := h.tx_loop
  have hread := hcontents.read_le
  have hstored := hcontents.stored_le
  unfold tx_step at hs
  cases hc : b.call with
  | idle => simp [hc, block_step] at hs
  | request words sample_buf =>
    simp only [hc, block_step] at hs
    cases hs
    rw [hc] at hcontents hindex hloop
    exact ⟨{ hcontents with }, h.handshake.block hc, hindex, hloop⟩
  | wait words sample_buf =>
    simp only [hc, block_step] at hs
    obtain ⟨sem, hsem, rfl⟩ := Option.map_eq_some_iff.1 hs
    have hsem := semaphore_get_eq_some.1 hsem
    have htok := h.handshake.tokens_le
    obtain ⟨rfl, rfl⟩ : sem = 0 ∧ tokens = 0 := by omega
    have hget := h.handshake
    rw [hsem] at hget
    rw [hc] at hcontents hindex hloop
    refine ⟨?_, hget.get hc, ?_, hloop, Nat.le_refl _⟩
    · simp only [Call.placed, Nat.sub_self, List.take_zero]
      exact { hcontents with }
    · simpa [Call.moved] using hindex
  | copy words sample_buf words_remaining =>
    rw [hc] at hcontents hindex hloop
    obtain ⟨hb, hle⟩ := h.handshake.copy words (by rw [hc]; rfl)
    obtain ⟨hlen, hrem⟩ := hloop
    simp only [hc] at hs
    split at hs
    · rename_i hpos
      cases hs
      refine ⟨{ hcontents with }, { h.handshake.copying (.memcpy words sample_buf words_remaining _ 0) rfl hb hle with },
        hindex, hlen, ?_⟩
      · have hlt : b.write_index < b.buf_size := by
          rw [hindex]
          exact Nat.mod_lt _ (by omega)
        refine ⟨Nat.zero_le _, Nat.min_le_left _ _, hrem, ?_⟩
        have := Nat.min_le_right words_remaining (b.buf_size - b.write_index)
        dsimp only
        omega
    · rename_i hpos
      cases hs
      obtain rfl : words_remaining = 0 := by omega
      have hcommit := hcontents.commit_write
      have hplaced : (Call.copy words sample_buf 0).placed = sample_buf := List.take_of_length_le (by omega)
      rw [hplaced, hlen] at hcommit
      refine ⟨{ hcommit with }, { h.handshake.ended _ with }, ?_, trivial⟩
      · dsimp only [Call.moved] at hindex ⊢
        rw [hindex, List.length_append, hlen]
        simp
  | memcpy words sample_buf words_remaining words_to_copy k =>
    rw [hc] at hcontents hindex hloop
    obtain ⟨hb, hle⟩ := h.handshake.copy words (by rw [hc]; rfl)
    obtain ⟨hlen, hk, hcopy, hrem, hroom⟩ := hloop
    simp only [hc] at hs
    split at hs
    · rename_i hlt
      split at hs
      case h_2 => cases hs
      rename_i x hx
      cases hs
      obtain ⟨hxlt, rfl⟩ := List.getElem?_eq_some_iff.1 hx
      have hplaced : (Call.memcpy words sample_buf words_remaining words_to_copy k).placed.length =
          words - words_remaining + k := by
        simp only [Call.placed, List.length_take]
        omega
      have hpush := hcontents.push (x := sample_buf[words - words_remaining + k]) (by
        rw [hplaced]
        simp only [Side.stored] at hle
        omega)
      have hcell : b.write_index + k = (b.written.length + (words - words_remaining + k)) % b.buf_size :=
        Ring.index_add hindex (by omega)
      have htake : (Call.memcpy words sample_buf words_remaining words_to_copy k).placed ++
          [sample_buf[words - words_remaining + k]] =
          (Call.memcpy words sample_buf words_remaining words_to_copy (k + 1)).placed := by
        simp only [Call.placed, ← Nat.add_assoc, List.take_add_one, List.getElem?_eq_getElem hxlt, Option.toList_some]
      rw [hplaced, ← hcell, htake] at hpush
      refine ⟨{ hpush with }, ?_, hindex, hlen, by omega, hcopy, hrem, hroom⟩
      exact { h.handshake.copying (.memcpy words sample_buf words_remaining words_to_copy (k + 1)) rfl hb hle with }
    · rename_i hge
      cases hs
      obtain rfl : k = words_to_copy := by omega
      have hsub : words - (words_remaining - k) = words - words_remaining + k := by omega
      refine ⟨?_, ?_, ?_, hlen, by omega⟩
      · simp only [Call.placed, hsub]
        exact { hcontents with }
      · exact { h.handshake.copying (.copy words sample_buf (words_remaining - k)) rfl hb hle with }
      · dsimp only [Call.moved] at hindex ⊢
        rw [Ring.index_wrap hindex hroom, hsub]

/-- A call does not touch what `i2s_send` maintains. -/
theorem call_frame (hs : i2s_local_tx b sample_buf = some b') : b'.read = b.read ∧ b'.read_index = b.read_index ∧
    b'.buf_size = b.buf_size ∧ b'.written = b.written ∧ b'.sem = b.sem := by
  unfold i2s_local_tx at hs
  split at hs
  · repeat' split at hs
    all_goals cases hs; exact ⟨rfl, rfl, rfl, rfl, rfl⟩
  · cases hs

theorem step_frame (hs : tx_step b = some b') : b'.read = b.read ∧ b'.read_index = b.read_index ∧
    b'.buf_size = b.buf_size ∧ b.written.length ≤ b'.written.length := by
  unfold tx_step block_step at hs
  split at hs
  · split at hs <;> cases hs
    · exact ⟨rfl, rfl, rfl, Nat.le_refl _⟩
    · exact ⟨rfl, rfl, rfl, by simp⟩
  · split at hs
    · split at hs <;> cases hs
      exact ⟨rfl, rfl, rfl, Nat.le_refl _⟩
    · cases hs; exact ⟨rfl, rfl, rfl, Nat.le_refl _⟩
  · split at hs
    · cases hs; exact ⟨rfl, rfl, rfl, Nat.le_refl _⟩
    · obtain ⟨sem, -, rfl⟩ := Option.map_eq_some_iff.1 hs
      exact ⟨rfl, rfl, rfl, Nat.le_refl _⟩
    · cases hs

theorem timeout (h : TxInv b popped tokens) (hs : I2s.timeout b = some b') : TxInv b' popped tokens := by
  unfold I2s.timeout at hs
  split at hs
  · rename_i hc
    cases hs
    have hcontents := h.contents
    have hindex := h.write_index
    rw [hc] at hcontents hindex
    exact ⟨{ hcontents with }, h.handshake.ended _, hindex, trivial⟩
  · cases hs

end TxInv

/-- The send buffer between the transmitting task and the I2S thread. -/
structure SendInv (cfg : Config) (s : Driver w) : Prop where
  size : s.send.buf_size = cfg.send_buffer_size * (2 * cfg.num_out)
  tx : TxInv s.send s.io.popped s.send_tokens
  aligned : 2 * cfg.num_out ∣ s.send.read.length
  read_index : s.send.read_index = s.send.read.length % s.send.buf_size
  io : ∀ i2s_sample_buf, s.io = .send i2s_sample_buf → 0 < cfg.num_out ∧ i2s_sample_buf.length ≤ 2 * cfg.num_out ∧
    2 * cfg.num_out ≤ s.send.stored

theorem send_tokens_flush : (flush s).send_tokens = s.send_tokens := by
  unfold flush
  split
  · rfl
  · simp only [Driver.send_tokens, List.countP_append, List.countP_singleton, Bool.toNat_false]
    cases s.isr_cmd.send with
    | false => simp
    | true =>
      simp only [Bool.toNat_true, if_true]
      omega

namespace SendInv

/-- A step that does not concern the send buffer. -/
theorem frame (h : SendInv cfg s) (hsend : s'.send = s.send) (htokens : s'.send_tokens = s.send_tokens)
    (hio : s'.io.popped = s.io.popped) (hio' : ∀ i2s_sample_buf, s'.io = .send i2s_sample_buf →
      s.io = .send i2s_sample_buf) : SendInv cfg s' := by
  refine ⟨?_, ?_, ?_, ?_, ?_⟩
  · rw [hsend]; exact h.size
  · rw [hsend, hio, htokens]; exact h.tx
  · rw [hsend]; exact h.aligned
  · rw [hsend]; exact h.read_index
  · rw [hsend]; exact fun i2s_sample_buf hk => h.io i2s_sample_buf (hio' i2s_sample_buf hk)

/-- A step of the transmitting task. -/
theorem task (h : SendInv cfg s) (htx : TxInv b' s.io.popped ({ s with send := b' } : Driver w).send_tokens)
    (hread : b'.read = s.send.read) (hindex : b'.read_index = s.send.read_index)
    (hsize : b'.buf_size = s.send.buf_size) (hwritten : s.send.written.length ≤ b'.written.length) :
    SendInv cfg { s with send := b' } := by
  refine ⟨by dsimp only; rw [hsize]; exact h.size, htx, by dsimp only; rw [hread]; exact h.aligned, ?_, ?_⟩
  · dsimp only
    rw [hindex, hread, hsize]
    exact h.read_index
  · intro i2s_sample_buf hk
    obtain ⟨h1, h2, h3⟩ := h.io i2s_sample_buf hk
    refine ⟨h1, h2, ?_⟩
    simp only [Side.stored, hread] at h3 ⊢
    omega

theorem send (h : SendInv cfg s) (hs : i2s_send cfg s = some s') : SendInv cfg s' := by
  unfold i2s_send at hs
  cases hio : s.io with
  | idle =>
    rw [hio] at hs
    have htx := h.tx
    rw [hio] at htx
    simp only at hs
    split at hs
    case isFalse => cases hs
    rename_i hpos
    rw [h.tx.contents.words_available] at hs
    cases hs
    split
    · rename_i havailable
      refine ⟨h.size, htx, h.aligned, h.read_index, ?_⟩
      rintro _ ⟨⟩
      exact ⟨hpos, Nat.zero_le _, havailable⟩
    · exact ⟨h.size, htx, h.aligned, h.read_index, by rintro _ ⟨⟩⟩
  | receive | received | send | sent => rw [hio] at hs; cases hs

/-- `i2s_send` takes the next word of a frame, or counts the frame. -/
theorem send_step {i2s_sample_buf : List w} (h : SendInv cfg s) (hio : s.io = .send i2s_sample_buf)
    (hs : io_step cfg s = some s') : SendInv cfg s' := by
  obtain ⟨hpos, hlen, hstored⟩ := h.io i2s_sample_buf hio
  have htx := h.tx
  rw [hio] at htx
  have hcontents := htx.contents
  have hindex : s.send.read_index + 2 * cfg.num_out ≤ s.send.buf_size := by
    have hle := hcontents.stored_le
    rw [h.read_index]
    exact aligned_room h.aligned (h.size ▸ Nat.dvd_mul_left _ _) (by omega)
  simp only [io_step, hio] at hs
  split at hs
  · rename_i hlt
    cases hs
    have hpop := hcontents.pop (by dsimp only [Io.popped]; omega)
    have hri : s.send.read_index = (s.send.read.length + 0) % s.send.buf_size := h.read_index
    have hcell := Ring.index_add (k := i2s_sample_buf.length) hri (by omega)
    dsimp only [Io.popped] at hpop
    rw [Nat.zero_add] at hcell
    rw [← hcell] at hpop
    refine ⟨h.size, ⟨hpop, { htx.handshake with }, htx.write_index, htx.tx_loop⟩, h.aligned, h.read_index, ?_⟩
    rintro _ ⟨⟩
    refine ⟨hpos, ?_, hstored⟩
    rw [List.length_append, List.length_singleton]
    omega
  · rename_i hge
    cases hs
    have hframe : i2s_sample_buf.length = 2 * cfg.num_out := by omega
    have hcommit := hcontents.commit_read
    rw [show (Io.send i2s_sample_buf).popped = i2s_sample_buf from rfl] at hcommit
    refine ⟨h.size, ⟨{ hcommit with }, ?_, htx.write_index, htx.tx_loop⟩, ?_, ?_, by rintro _ ⟨⟩⟩
    · have hmono : s.send.buf_size - s.send.stored ≤
          s.send.buf_size - (s.send.written.length - (s.send.read ++ i2s_sample_buf).length) := by
        simp only [Side.stored, List.length_append]
        omega
      exact { htx.handshake.mono hmono with }
    · simp only [List.length_append, hframe]
      exact Nat.dvd_add h.aligned (Nat.dvd_refl _)
    · dsimp only
      rw [List.length_append]
      exact Ring.index_wrap (n := 0) h.read_index (by omega) |>.trans (by rw [Nat.zero_add])

theorem wake (h : SendInv cfg s) : SendInv cfg (send_wake s) := by
  unfold send_wake
  split
  case isFalse => exact h
  rename_i hcond
  obtain ⟨hpos, hle⟩ := hcond
  rw [h.tx.contents.words_free] at hle
  obtain ⟨htok, hwake⟩ := h.tx.handshake.wake hpos hle
  refine ⟨h.size, ⟨{ h.tx.contents with }, ?_, h.tx.write_index, h.tx.tx_loop⟩, h.aligned, h.read_index, h.io⟩
  have htokens : ({ s with send := { s.send with required := 0 }, isr_cmd := { s.isr_cmd with send := true } } :
      Driver w).send_tokens = 1 := by
    simp only [Driver.send_tokens, Bool.toNat_true] at htok ⊢
    omega
  rw [htokens]
  exact { hwake with }

end SendInv

end I2s
