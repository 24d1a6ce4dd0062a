import XcoreSdk.I2s.Buffer
/-!
# The receive buffer
-/

namespace I2s
open FreeRtos
variable {w : Type*} {cfg : Config} {s s' : Driver w} {b b' : Side w}

theorem aligned_room {a size frame : Nat} (ha : frame ∣ a) (hsize : frame ∣ size) (hpos : 0 < size) :
    a % size + frame ≤ size := by
  obtain ⟨q, hq⟩ := (Nat.dvd_mod_iff hsize).2 ha
  obtain ⟨p, rfl⟩ := hsize
  have hlt := Nat.mod_lt a hpos
  rw [hq] at hlt ⊢
  have hqp : q < p := Nat.lt_of_mul_lt_mul_left hlt
  exact Nat.mul_le_mul_left frame hqp

/-- The words that `i2s_receive` has stored and not yet counted. -/
def Io.pushed : Io w → List w
  | .receive i2s_sample_buf k => i2s_sample_buf.take k
  | _ => []

/-- The words that `i2s_local_rx` has copied and not yet counted. -/
def Call.copied : Call w → List w
  | .copy _ sample_buf _ | .memcpy _ sample_buf _ _ _ => sample_buf
  | _ => []

/-- How far a call has moved its index. -/
def Call.moved : Call w → Nat
  | .copy words _ words_remaining | .memcpy words _ words_remaining _ _ => words - words_remaining
  | _ => 0

/-- What `i2s_local_rx` knows while it copies. -/
def Call.RxLoop (index size : Nat) : Call w → Prop
  | .idle => True
  | .request _ sample_buf | .wait _ sample_buf => sample_buf = []
  | .copy words sample_buf words_remaining => sample_buf.length + words_remaining = words
  | .memcpy words sample_buf words_remaining words_to_copy k => sample_buf.length + words_remaining = words + k ∧
      k ≤ words_to_copy ∧ words_to_copy ≤ words_remaining ∧ words_remaining ≤ words ∧ index + words_to_copy ≤ size

/-- The wake-ups of the receiving task that are under way. -/
def Driver.recv_tokens (s : Driver w) : Nat := s.recv.sem + s.isr_cmd.recv.toNat + s.c_i2s_isr.countP IsrCmd.recv

/-- The receiving task's side, while the I2S thread has stored `pushed`. -/
structure RxInv (b : Side w) (pushed : List w) (tokens : Nat) : Prop where
  contents : Contents b pushed b.call.copied
  handshake : Handshake b b.stored tokens
  read_index : b.read_index = (b.read.length + b.call.moved) % b.buf_size
  rx_loop : b.call.RxLoop b.read_index b.buf_size

theorem timeout_frame (hs : I2s.timeout b = some b') : b'.written = b.written ∧ b'.write_index = b.write_index ∧
    b'.buf_size = b.buf_size ∧ b'.read = b.read ∧ b'.sem = b.sem ∧ b'.read_index = b.read_index := by
  unfold I2s.timeout at hs
  split at hs
  · cases hs; exact ⟨rfl, rfl, rfl, rfl, rfl, rfl⟩
  · cases hs

namespace RxInv
variable {pushed : List w} {tokens words : Nat}

/-- A call is made: it waits, asks or copies. -/
theorem call (h : RxInv b pushed tokens) (hfits : b.blocked = true → words ≤ b.buf_size →
    words ≤ max b.required b.words_available) (hs : i2s_local_rx b words = some b') : RxInv b' pushed tokens := by
  rw [h.contents.words_available] at hfits
  unfold i2s_local_rx at hs
  split at hs
  case h_2 => cases hs
  rename_i hidle
  have hcontents := h.contents
  have hindex := h.read_index
  rw [hidle] at hcontents hindex
  split at hs
  · cases hs; exact h
  · rename_i hsize
    split at hs
    · rename_i hb
      cases hs
      have hhandshake := h.handshake.waiting [] hb (hfits hb (by omega))
      exact ⟨{ hcontents with }, { hhandshake with }, hindex, rfl⟩
    · rename_i hb
      have hb : b.blocked = false := by simpa using hb
      rw [h.contents.words_available] at hs
      split at hs
      · rename_i hlt
        cases hs
        have hhandshake := h.handshake.lacking words [] hb (by omega)
        exact ⟨{ hcontents with }, { hhandshake with }, hindex, rfl⟩
      · rename_i hle
        cases hs
        have hhandshake := h.handshake.copying (.copy words [] words) rfl hb (by simpa [Side.stored] using hle)
        refine ⟨{ hcontents with }, { hhandshake with }, ?_, Nat.zero_add _⟩
        simpa [Call.moved] using hindex

theorem step (h : RxInv b pushed (b.sem + tokens)) (hs : rx_step b = some b') : RxInv b' pushed (b'.sem + tokens) := by
  have hcontents := h.contents
  have hindex := h.read_index
  have hloop := h.rx_loop
  have hstored := hcontents.stored_le
  unfold rx_step at hs
  cases hc : b.call with
  | idle => simp [hc, block_step] at hs
  | request words sample_buf =>
    simp only [hc, block_step] at hs
    cases hs
    rw [hc] at hcontents hindex hloop
    exact ⟨{ hcontents with }, h.handshake.block hc, hindex, hloop⟩
  | wait words sample_buf =>
    simp only [hc, block_step] at hs
    obtain ⟨sem, hsem, rfl⟩ := Option.map_eq_some_iff.1 hs
    have hsem := semaphore_get_eq_some.1 hsem
    have htok := h.handshake.tokens_le
    obtain ⟨rfl, rfl⟩ : sem = 0 ∧ tokens = 0 := by omega
    have hget := h.handshake
    rw [hsem] at hget
    rw [hc] at hcontents hindex hloop
    obtain rfl : sample_buf = [] := hloop
    refine ⟨{ hcontents with }, hget.get hc, ?_, Nat.zero_add _⟩
    simpa [Call.moved] using hindex
  | copy words sample_buf words_remaining =>
    rw [hc] at hcontents hindex hloop
    obtain ⟨hb, hle⟩ := h.handshake.copy words (by rw [hc]; rfl)
    have hrem : sample_buf.length + words_remaining = words := hloop
    simp only [hc] at hs
    split at hs
    · rename_i hpos
      cases hs
      refine ⟨{ hcontents with }, { h.handshake.copying (.memcpy words sample_buf words_remaining _ 0) rfl hb hle with },
        hindex, ?_⟩
      · have hlt : b.read_index < b.buf_size := by
          rw [hindex]
          exact Nat.mod_lt _ (by omega)
        refine ⟨by omega, Nat.zero_le _, Nat.min_le_left _ _, by omega, ?_⟩
        have := Nat.min_le_right words_remaining (b.buf_size - b.read_index)
        dsimp only
        omega
    · rename_i hpos
      cases hs
      obtain rfl : words_remaining = 0 := by omega
      rw [Nat.add_zero] at hrem
      have hcommit := hcontents.commit_read
      rw [show (Call.copy words sample_buf 0).copied = sample_buf from rfl, hrem] at hcommit
      refine ⟨{ hcommit with }, { h.handshake.ended _ with }, ?_, trivial⟩
      · dsimp only [Call.moved] at hindex ⊢
        rw [hindex, List.length_append, hrem]
        simp
  | memcpy words sample_buf words_remaining words_to_copy k =>
    rw [hc] at hcontents hindex hloop
    obtain ⟨hb, hle⟩ := h.handshake.copy words (by rw [hc]; rfl)
    obtain ⟨hlen, hk, hcopy, hrem, hroom⟩ := hloop
    simp only [hc] at hs
    split at hs
    · rename_i hlt
      cases hs
      have hpop := hcontents.pop (by dsimp only [Call.copied]; omega)
      have hnext : b.read_index + k = (b.read.length + sample_buf.length) % b.buf_size := by
        rw [Ring.index_add hindex (by omega)]
        congr 2
        dsimp only [Call.moved]
        omega
      dsimp only [Call.copied] at hpop
      rw [← hnext] at hpop
      refine ⟨{ hpop with }, h.handshake.copying _ rfl hb hle, hindex, ?_, by omega, hcopy, hrem, hroom⟩
      simp only [List.length_append, List.length_singleton]
      omega
    · rename_i hge
      cases hs
      obtain rfl : k = words_to_copy := by omega
      refine ⟨{ hcontents with }, ?_, ?_, ?_⟩
      · exact { h.handshake.copying (.copy words sample_buf (words_remaining - k)) rfl hb hle with }
      · dsimp only [Call.moved] at hindex ⊢
        rw [Ring.index_wrap hindex hroom]
        congr 2
        omega
      · dsimp only [Call.RxLoop]
        omega

/-- A call does not touch what `i2s_receive` maintains. -/
theorem call_frame (hs : i2s_local_rx b words = some b') : b'.written = b.written ∧ b'.write_index = b.write_index ∧
    b'.buf_size = b.buf_size ∧ b'.read = b.read ∧ b'.sem = b.sem := by
  unfold i2s_local_rx at hs
  split at hs
  · repeat' split at hs
    all_goals cases hs; exact ⟨rfl, rfl, rfl, rfl, rfl⟩
  · cases hs

theorem step_frame (hs : rx_step b = some b') : b'.written = b.written ∧ b'.write_index = b.write_index ∧
    b'.buf_size = b.buf_size ∧ b.read.length ≤ b'.read.length := by
  unfold rx_step block_step at hs
  split at hs
  · split at hs <;> cases hs
    · exact ⟨rfl, rfl, rfl, Nat.le_refl _⟩
    · exact ⟨rfl, rfl, rfl, by simp⟩
  · split at hs <;> cases hs <;> exact ⟨rfl, rfl, rfl, Nat.le_refl _⟩
  · split at hs
    · cases hs; exact ⟨rfl, rfl, rfl, Nat.le_refl _⟩
    · obtain ⟨sem, -, rfl⟩ := Option.map_eq_some_iff.1 hs
      exact ⟨rfl, rfl, rfl, Nat.le_refl _⟩
    · cases hs

theorem timeout (h : RxInv b pushed tokens) (hs : I2s.timeout b = some b') : RxInv b' pushed tokens := by
  unfold I2s.timeout at hs
  split at hs
  · rename_i hc
    cases hs
    have hcontents := h.contents
    have hindex := h.read_index
    rw [hc] at hcontents hindex
    exact ⟨{ hcontents with }, h.handshake.ended _, hindex, trivial⟩
  · cases hs

end RxInv

/-- The receive buffer between the I2S thread and the receiving task. -/
structure RecvInv (cfg : Config) (s : Driver w) : Prop where
  size : s.recv.buf_size = cfg.recv_buffer_size * (2 * cfg.num_in)
  rx : RxInv s.recv s.io.pushed s.recv_tokens
  aligned : 2 * cfg.num_in ∣ s.recv.written.length
  write_index : s.recv.write_index = s.recv.written.length % s.recv.buf_size
  io : ∀ i2s_sample_buf k, s.io = .receive i2s_sample_buf k → 0 < cfg.num_in ∧ i2s_sample_buf.length = 2 * cfg.num_in ∧
    k ≤ i2s_sample_buf.length ∧ s.recv.written.length + i2s_sample_buf.length ≤ s.recv.read.length + s.recv.buf_size

theorem recv_tokens_flush : (flush s).recv_tokens = s.recv_tokens := by
  unfold flush
  split
  · rfl
  · simp only [Driver.recv_tokens, List.countP_append, List.countP_singleton, Bool.toNat_false]
    cases s.isr_cmd.recv with
    | false => simp
    | true =>
      simp only [Bool.toNat_true, if_true]
      omega

theorem flush_frame : (flush s).recv = s.recv ∧ (flush s).send = s.send ∧ (flush s).io = s.io := by
  unfold flush
  split <;> exact ⟨rfl, rfl, rfl⟩

namespace RecvInv

/-- A step that does not concern the receive buffer. -/
theorem frame (h : RecvInv cfg s) (hrecv : s'.recv = s.recv) (htokens : s'.recv_tokens = s.recv_tokens)
    (hio : s'.io.pushed = s.io.pushed) (hreceive : ∀ i2s_sample_buf k, s'.io = .receive i2s_sample_buf k →
      s.io = .receive i2s_sample_buf k) : RecvInv cfg s' := by
  refine ⟨?_, ?_, ?_, ?_, ?_⟩
  · rw [hrecv]; exact h.size
  · rw [hrecv, hio, htokens]; exact h.rx
  · rw [hrecv]; exact h.aligned
  · rw [hrecv]; exact h.write_index
  · rw [hrecv]; exact fun i2s_sample_buf k hk => h.io i2s_sample_buf k (hreceive i2s_sample_buf k hk)

/-- A step of the receiving task. -/
theorem task (h : RecvInv cfg s) (hrx : RxInv b' s.io.pushed ({ s with recv := b' } : Driver w).recv_tokens)
    (hwritten : b'.written = s.recv.written) (hindex : b'.write_index = s.recv.write_index)
    (hsize : b'.buf_size = s.recv.buf_size) (hread : s.recv.read.length ≤ b'.read.length) :
    RecvInv cfg { s with recv := b' } := by
  refine ⟨by dsimp only; rw [hsize]; exact h.size, hrx, by dsimp only; rw [hwritten]; exact h.aligned, ?_, ?_⟩
  · dsimp only
    rw [hindex, hwritten, hsize]
    exact h.write_index
  · intro i2s_sample_buf k hk
    obtain ⟨h1, h2, h3, h4⟩ := h.io i2s_sample_buf k hk
    dsimp only
    rw [hwritten, hsize]
    exact ⟨h1, h2, h3, by omega⟩

theorem receive {i2s_sample_buf : List w} (h : RecvInv cfg s) (hs : i2s_receive cfg s i2s_sample_buf = some s') :
    RecvInv cfg s' := by
  unfold i2s_receive at hs
  cases hio : s.io with
  | idle =>
    rw [hio] at hs
    have hrx := h.rx
    rw [hio] at hrx
    simp only at hs
    split at hs
    case isFalse => cases hs
    rename_i hcond
    rw [h.rx.contents.words_free] at hs
    cases hs
    split
    · rename_i hfree
      refine ⟨h.size, hrx, h.aligned, h.write_index, ?_⟩
      rintro _ _ ⟨⟩
      have hread := h.rx.contents.read_le
      have hstored := h.rx.contents.stored_le
      refine ⟨hcond.1, hcond.2, Nat.zero_le _, ?_⟩
      simp only [Side.stored] at hfree hstored ⊢
      omega
    · exact ⟨h.size, hrx, h.aligned, h.write_index, by rintro _ _ ⟨⟩⟩
  | receive | received | send | sent => rw [hio] at hs; cases hs

/-- `i2s_receive` stores the next word of a frame, or counts the frame. -/
theorem receive_step {i2s_sample_buf : List w} {k : Nat} (h : RecvInv cfg s) (hio : s.io = .receive i2s_sample_buf k)
    (hs : io_step cfg s = some s') : RecvInv cfg s' := by
  obtain ⟨hpos, hlen, hk, hroom⟩ := h.io i2s_sample_buf k hio
  have hrx := h.rx
  rw [hio] at hrx
  have hcontents := hrx.contents
  have hindex : s.recv.write_index + i2s_sample_buf.length ≤ s.recv.buf_size := by
    have hread := hcontents.read_le
    rw [h.write_index, hlen]
    exact aligned_room h.aligned (h.size ▸ Nat.dvd_mul_left _ _) (by omega)
  simp only [io_step, hio] at hs
  split at hs
  · rename_i x hx
    cases hs
    obtain ⟨hlt, rfl⟩ := List.getElem?_eq_some_iff.1 hx
    have hpush := hcontents.push (x := i2s_sample_buf[k]) (by simp only [Io.pushed, List.length_take]; omega)
    have hcell : s.recv.write_index + k = (s.recv.written.length + (Io.receive i2s_sample_buf k).pushed.length) %
        s.recv.buf_size := by
      have hwi : s.recv.write_index = (s.recv.written.length + 0) % s.recv.buf_size := h.write_index
      rw [Ring.index_add hwi (by omega)]
      simp [Io.pushed, Nat.min_eq_left hk]
    have htake : (Io.receive i2s_sample_buf k).pushed ++ [i2s_sample_buf[k]] =
        (Io.receive i2s_sample_buf (k + 1)).pushed := by
      simp only [Io.pushed, List.take_add_one, List.getElem?_eq_getElem hlt, Option.toList_some]
    rw [← hcell, htake] at hpush
    refine ⟨h.size, ⟨hpush, { hrx.handshake with }, hrx.read_index, hrx.rx_loop⟩, h.aligned, h.write_index, ?_⟩
    rintro _ _ ⟨⟩
    exact ⟨hpos, hlen, hlt, hroom⟩
  · rename_i hx
    cases hs
    obtain rfl : k = i2s_sample_buf.length := by
      have := List.getElem?_eq_none_iff.1 hx
      omega
    have hcommit := hcontents.commit_write
    rw [show (Io.receive i2s_sample_buf i2s_sample_buf.length).pushed = i2s_sample_buf from List.take_length] at hcommit
    refine ⟨h.size, ⟨{ hcommit with }, ?_, hrx.read_index, hrx.rx_loop⟩, ?_, ?_, by rintro _ _ ⟨⟩⟩
    · have hmono : s.recv.stored ≤ (s.recv.written ++ i2s_sample_buf).length - s.recv.read.length := by
        simp only [Side.stored, List.length_append]
        omega
      exact { hrx.handshake.mono hmono with }
    · simp only [List.length_append, hlen]
      exact Nat.dvd_add h.aligned (Nat.dvd_refl _)
    · dsimp only
      rw [List.length_append]
      exact Ring.index_wrap (n := 0) h.write_index hindex |>.trans (by rw [Nat.zero_add])

theorem wake (h : RecvInv cfg s) : RecvInv cfg (recv_wake s) := by
  unfold recv_wake
  split
  case isFalse => exact h
  rename_i hcond
  obtain ⟨hpos, hle⟩ := hcond
  rw [h.rx.contents.words_available] at hle
  obtain ⟨htok, hwake⟩ := h.rx.handshake.wake hpos hle
  refine ⟨h.size, ⟨{ h.rx.contents with }, ?_, h.rx.read_index, h.rx.rx_loop⟩, h.aligned, h.write_index, h.io⟩
  have htokens : ({ s with recv := { s.recv with required := 0 }, isr_cmd := { s.isr_cmd with recv := true } } :
      Driver w).recv_tokens = 1 := by
    simp only [Driver.recv_tokens, Bool.toNat_true] at htok ⊢
    omega
  rw [htokens]
  exact { hwake with }

end RecvInv

end I2s
