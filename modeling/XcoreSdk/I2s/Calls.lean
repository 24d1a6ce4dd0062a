import XcoreSdk.I2s.Driver
import Mathlib.Logic.Relation
/-!
# Calls from start to end

`i2s_local_rx` and `i2s_local_tx` as functions of the buffer they find, for
callers that look at what they return only. Meanwhile no other call is made, and
what the other threads do to the buffer they do while the call waits. The steps
of the driver's model do what these functions do.
-/

namespace I2s.Calls
variable {w : Type*}

/-- A wait for the semaphore: whether it succeeds, and what the others have made of the buffer by its end. They leave
the buffer's size and the task's own index alone. -/
structure Wait (index : Side w → Nat) where
  success : Bool
  after : Side w → Side w
  buf_size : ∀ b, (after b).buf_size = b.buf_size
  index : ∀ b, index (after b) = index b

/-- The call's way up to its copying: whether it gets there, and the buffer then. `there` are the words that it needs
not wait for. -/
def acquire {index : Side w → Nat} (wait : Wait index) (there : Side w → Nat) (words : Nat) (b : Side w) : Bool × Side w :=
  let b := if b.blocked = false ∧ there b < words then { b with required := words, blocked := true } else b
  if b.blocked then
    if wait.success then (true, { wait.after b with blocked := false }) else (false, wait.after b)
  else (true, b)

/-- The loop of `i2s_local_rx`: what it copies, and `read_index` then. -/
def rx_loop (buf : Nat → w) (buf_size : Nat) : Nat → Nat → Nat → List w × Nat
  | 0, read_index, _ => ([], read_index)
  | rounds + 1, read_index, words_remaining =>
    if 0 < words_remaining then
      let words_to_copy := min words_remaining (buf_size - read_index)
      let (rest, last) := rx_loop buf buf_size rounds
        (if buf_size ≤ read_index + words_to_copy then 0 else read_index + words_to_copy) (words_remaining - words_to_copy)
      ((List.range words_to_copy).map (fun k => buf (read_index + k)) ++ rest, last)
    else ([], read_index)

/-- What is returned, the samples, and the buffer. -/
def i2s_local_rx (wait : Nat → Wait (Side.read_index (w := w))) (num_in : Nat) (b : Side w) (frame_count timeout : Nat) :
    Nat × List w × Side w :=
  let words := frame_words num_in frame_count
  if b.buf_size < words then (0, [], b)
  else
    match acquire (wait timeout) Side.words_available words b with
    | (true, b) =>
      let (sample_buf, read_index) := rx_loop b.buf b.buf_size words b.read_index words
      (frame_count, sample_buf,
        { b with read_index, total_read := b.total_read + BitVec.ofNat 32 words, read := b.read ++ sample_buf })
    | (false, b) => (0, [], b)

/-- The loop of `i2s_local_tx`: the buffer, `write_index` and how many samples were read. -/
def tx_loop (buf_size : Nat) (i2s_sample_buf : Nat → w) : Nat → (Nat → w) → Nat → Nat → Nat → (Nat → w) × Nat × Nat
  | 0, buf, write_index, copied, _ => (buf, write_index, copied)
  | rounds + 1, buf, write_index, copied, words_remaining =>
    if 0 < words_remaining then
      let words_to_copy := min words_remaining (buf_size - write_index)
      tx_loop buf_size i2s_sample_buf rounds
        (fun i => if write_index ≤ i ∧ i < write_index + words_to_copy then i2s_sample_buf (copied + (i - write_index)) else buf i)
        (if buf_size ≤ write_index + words_to_copy then 0 else write_index + words_to_copy)
        (copied + words_to_copy) (words_remaining - words_to_copy)
    else (buf, write_index, copied)

/-- What is returned, how many samples were read, and the buffer. -/
def i2s_local_tx (wait : Nat → Wait (Side.write_index (w := w))) (num_out : Nat) (b : Side w) (i2s_sample_buf : Nat → w)
    (frame_count timeout : Nat) : Nat × Nat × Side w :=
  let words := frame_words num_out frame_count
  if b.buf_size < words then (0, 0, b)
  else
    match acquire (wait timeout) Side.words_free words b with
    | (true, b) =>
      let (buf, write_index, copied) := tx_loop b.buf_size i2s_sample_buf words b.buf b.write_index 0 words
      (frame_count, copied,
        { b with buf, write_index, total_written := b.total_written + BitVec.ofNat 32 words,
                 written := b.written ++ (List.range words).map i2s_sample_buf })
    | (false, b) => (0, 0, b)

/-! ## How much they copy -/

/-- An index into the buffer. -/
def Within (buf_size index : Nat) : Prop := buf_size = 0 ∨ index < buf_size

/-- The call comes to its copying. -/
def Served {index : Side w → Nat} (wait : Wait index) (there : Side w → Nat) (words : Nat) (b : Side w) : Prop :=
  words ≤ b.buf_size ∧ (b.blocked = false ∧ words ≤ there b ∨ wait.success = true)

instance {index : Side w → Nat} (wait : Wait index) (there : Side w → Nat) (words : Nat) (b : Side w) :
    Decidable (Served wait there words b) := inferInstanceAs (Decidable (_ ∧ _))

section Acquire
variable {index : Side w → Nat} {wait : Wait index} {there : Side w → Nat} {words : Nat} {b : Side w}

theorem acquire_iff (h : words ≤ b.buf_size) : (acquire wait there words b).1 = true ↔ Served wait there words b := by
  unfold acquire Served
  rcases hsuccess : wait.success with _ | _
  · rcases hblocked : b.blocked with _ | _
    · by_cases hlt : there b < words
      · simp [hlt]
      · simp [hlt, hblocked, h, Nat.le_of_not_lt hlt]
    · simp [hblocked]
  · rcases hblocked : b.blocked with _ | _
    · by_cases hlt : there b < words
      · simp [hlt, h]
      · simp [hlt, hblocked, h]
    · simp [hblocked, h]

variable (wait there words b) in
/-- A wait leaves the buffer's size and the index as they are. -/
theorem acquire_kept (hindex : ∀ (b : Side w) required blocked, index { b with required, blocked } = index b) :
    (acquire wait there words b).2.buf_size = b.buf_size ∧ index (acquire wait there words b).2 = index b := by
  unfold acquire
  dsimp only
  obtain ⟨b', hb'⟩ : ∃ b', b' = if b.blocked = false ∧ there b < words then { b with required := words, blocked := true } else b :=
    ⟨_, rfl⟩
  have hkept : b'.buf_size = b.buf_size ∧ index b' = index b := by
    rw [hb']
    split
    · exact ⟨rfl, hindex ..⟩
    · exact ⟨rfl, rfl⟩
  rw [← hb']
  split
  · split
    · exact ⟨(wait.buf_size b').trans hkept.1, (hindex ..).trans ((wait.index b').trans hkept.2)⟩
    · exact ⟨(wait.buf_size b').trans hkept.1, (wait.index b').trans hkept.2⟩
  · exact hkept

end Acquire

/-- Round the end of the buffer an index stays within it. -/
theorem wrap_lt {buf_size index n : Nat} (h : index < buf_size) :
    (if buf_size ≤ index + n then 0 else index + n) < buf_size := by
  split
  · omega
  · omega

theorem rx_loop_length (buf : Nat → w) (buf_size : Nat) {rounds read_index words_remaining : Nat}
    (hrounds : words_remaining ≤ rounds) (hindex : words_remaining = 0 ∨ read_index < buf_size) :
    (rx_loop buf buf_size rounds read_index words_remaining).1.length = words_remaining := by
  induction rounds generalizing read_index words_remaining with
  | zero =>
    obtain rfl := Nat.le_zero.1 hrounds
    rfl
  | succ rounds ih =>
    rw [rx_loop]
    split
    · rename_i hpos
      have hlt := hindex.resolve_left (by omega)
      have hcopy : 0 < min words_remaining (buf_size - read_index) := Nat.lt_min.2 ⟨hpos, by omega⟩
      have hle := Nat.min_le_left words_remaining (buf_size - read_index)
      have hrest := ih (show words_remaining - min words_remaining (buf_size - read_index) ≤ rounds by omega)
        (.inr (wrap_lt (n := min words_remaining (buf_size - read_index)) hlt))
      simp only [List.length_append, List.length_map, List.length_range, hrest]
      omega
    · simp only [List.length_nil]
      omega

/-- It reads as many samples as there are to copy. -/
theorem tx_loop_copied (buf_size : Nat) (i2s_sample_buf buf : Nat → w) (copied : Nat) {rounds write_index words_remaining : Nat}
    (hrounds : words_remaining ≤ rounds) (hindex : words_remaining = 0 ∨ write_index < buf_size) :
    (tx_loop buf_size i2s_sample_buf rounds buf write_index copied words_remaining).2.2 = copied + words_remaining := by
  induction rounds generalizing buf write_index copied words_remaining with
  | zero =>
    obtain rfl := Nat.le_zero.1 hrounds
    rfl
  | succ rounds ih =>
    rw [tx_loop]
    split
    · rename_i hpos
      have hlt := hindex.resolve_left (by omega)
      have hcopy : 0 < min words_remaining (buf_size - write_index) := Nat.lt_min.2 ⟨hpos, by omega⟩
      have hle := Nat.min_le_left words_remaining (buf_size - write_index)
      generalize min words_remaining (buf_size - write_index) = words_to_copy at hcopy hle ⊢
      dsimp only
      rw [ih _ _ (by omega) (.inr (wrap_lt hlt))]
      omega
    · dsimp only
      omega

/-- No other sample matters. -/
theorem tx_loop_congr {buf_size : Nat} {i2s_sample_buf i2s_sample_buf' : Nat → w} {rounds write_index copied words_remaining : Nat}
    (buf : Nat → w) (h : ∀ k < copied + words_remaining, i2s_sample_buf k = i2s_sample_buf' k) :
    tx_loop buf_size i2s_sample_buf rounds buf write_index copied words_remaining =
      tx_loop buf_size i2s_sample_buf' rounds buf write_index copied words_remaining := by
  induction rounds generalizing buf write_index copied words_remaining with
  | zero => rfl
  | succ rounds ih =>
    have hle := Nat.min_le_left words_remaining (buf_size - write_index)
    rw [tx_loop, tx_loop]
    generalize min words_remaining (buf_size - write_index) = words_to_copy at hle ⊢
    have hbuf : (fun i => if write_index ≤ i ∧ i < write_index + words_to_copy
          then i2s_sample_buf (copied + (i - write_index)) else buf i) =
        fun i => if write_index ≤ i ∧ i < write_index + words_to_copy
          then i2s_sample_buf' (copied + (i - write_index)) else buf i := by
      funext i
      split
      · exact h _ (by omega)
      · rfl
    split
    · dsimp only
      rw [hbuf]
      exact ih _ fun k hk => h k (by omega)
    · rfl

section Rx
variable {wait : Nat → Wait (Side.read_index (w := w))} {num_in frame_count timeout : Nat} {b : Side w}

variable (num_in) in
theorem rx_served (hwithin : Within b.buf_size b.read_index)
    (h : Served (wait timeout) Side.words_available (frame_words num_in frame_count) b) : ∃ sample_buf b',
      i2s_local_rx wait num_in b frame_count timeout = (frame_count, sample_buf, b') ∧
        sample_buf.length = frame_words num_in frame_count := by
  have hacquire := (acquire_iff h.1).2 h
  obtain ⟨hsize, hindex⟩ := acquire_kept (wait timeout) Side.words_available (frame_words num_in frame_count) b fun _ _ _ => rfl
  rw [i2s_local_rx, if_neg (Nat.not_lt.2 h.1)]
  rcases hres : acquire (wait timeout) Side.words_available (frame_words num_in frame_count) b with ⟨ok, b'⟩
  rw [hres] at hacquire hsize hindex
  obtain rfl : ok = true := hacquire
  refine ⟨_, _, rfl, rx_loop_length _ _ (Nat.le_refl _) ?_⟩
  dsimp only at hsize hindex
  rw [hsize, hindex]
  rcases hwithin with hzero | hlt
  · exact .inl (Nat.le_zero.1 (hzero ▸ h.1))
  · exact .inr hlt

theorem rx_refused (h : ¬ Served (wait timeout) Side.words_available (frame_words num_in frame_count) b) : ∃ b',
    i2s_local_rx wait num_in b frame_count timeout = (0, [], b') := by
  rw [i2s_local_rx]
  by_cases hsize : b.buf_size < frame_words num_in frame_count
  · exact ⟨b, if_pos hsize⟩
  · rw [if_neg hsize]
    rcases hres : acquire (wait timeout) Side.words_available (frame_words num_in frame_count) b with ⟨ok, b'⟩
    cases ok with
    | true =>
      exact absurd ((acquire_iff (Nat.le_of_not_lt hsize)).1 (by rw [hres])) h
    | false => exact ⟨b', rfl⟩

end Rx

section Tx
variable {wait : Nat → Wait (Side.write_index (w := w))} {num_out frame_count timeout : Nat} {b : Side w}
  {i2s_sample_buf i2s_sample_buf' : Nat → w}

variable (i2s_sample_buf i2s_sample_buf') in
theorem tx_served (hwithin : Within b.buf_size b.write_index)
    (h : Served (wait timeout) Side.words_free (frame_words num_out frame_count) b) : ∃ b',
      i2s_local_tx wait num_out b i2s_sample_buf frame_count timeout = (frame_count, frame_words num_out frame_count, b') ∧
        ((∀ k < frame_words num_out frame_count, i2s_sample_buf k = i2s_sample_buf' k) →
          i2s_local_tx wait num_out b i2s_sample_buf' frame_count timeout =
            (frame_count, frame_words num_out frame_count, b')) := by
  have hacquire := (acquire_iff h.1).2 h
  obtain ⟨hsize, hindex⟩ := acquire_kept (wait timeout) Side.words_free (frame_words num_out frame_count) b fun _ _ _ => rfl
  rw [i2s_local_tx, i2s_local_tx, if_neg (Nat.not_lt.2 h.1), if_neg (Nat.not_lt.2 h.1)]
  rcases hres : acquire (wait timeout) Side.words_free (frame_words num_out frame_count) b with ⟨ok, b'⟩
  rw [hres] at hacquire hsize hindex
  obtain rfl : ok = true := hacquire
  dsimp only at hsize hindex
  have hnext : frame_words num_out frame_count = 0 ∨ b'.write_index < b'.buf_size := by
    rw [hsize, hindex]
    rcases hwithin with hzero | hlt
    · exact .inl (Nat.le_zero.1 (hzero ▸ h.1))
    · exact .inr hlt
  have hcopied := tx_loop_copied b'.buf_size i2s_sample_buf b'.buf 0 (Nat.le_refl (frame_words num_out frame_count)) hnext
  rw [Nat.zero_add] at hcopied
  dsimp only
  refine ⟨_, by rw [hcopied], fun heq => ?_⟩
  rw [← tx_loop_congr b'.buf fun k hk => heq k (by omega), hcopied]
  have hmap : (List.range (frame_words num_out frame_count)).map i2s_sample_buf' =
      (List.range (frame_words num_out frame_count)).map i2s_sample_buf :=
    List.map_congr_left fun k hk => (heq k (List.mem_range.1 hk)).symm
  rw [hmap]

theorem tx_refused (h : ¬ Served (wait timeout) Side.words_free (frame_words num_out frame_count) b) : ∃ b',
    ∀ i2s_sample_buf, i2s_local_tx wait num_out b i2s_sample_buf frame_count timeout = (0, 0, b') := by
  by_cases hsize : b.buf_size < frame_words num_out frame_count
  · exact ⟨b, fun _ => if_pos hsize⟩
  · rcases hres : acquire (wait timeout) Side.words_free (frame_words num_out frame_count) b with ⟨ok, b'⟩
    cases ok with
    | true => exact absurd ((acquire_iff (Nat.le_of_not_lt hsize)).1 (by rw [hres])) h
    | false =>
      refine ⟨b', fun _ => ?_⟩
      rw [i2s_local_tx, if_neg hsize, hres]

end Tx

/-! ## The driver's steps -/

section Steps
open Relation
variable {b : Side w} {words words_remaining k n rounds : Nat} {sample_buf : List w}

/-- The steps of a call with no other step between them. -/
def Steps (step : Side w → Option (Side w)) : Side w → Side w → Prop := ReflTransGen fun b b' => step b = some b'

/-- The buffer with its task at this point of a call. -/
def calling (b : Side w) (call : Call w) : Side w := { b with call }

variable (b words words_remaining sample_buf) in
theorem rx_memcpy_steps (n : Nat) : Steps rx_step
    (calling b (.memcpy words sample_buf words_remaining (k + n) k))
    (calling b (.memcpy words (sample_buf ++ (List.range n).map fun j => b.buf (b.read_index + (k + j))) words_remaining
      (k + n) (k + n))) := by
  induction n generalizing k sample_buf with
  | zero =>
    rw [List.range_zero, List.map_nil, List.append_nil]
    exact .refl
  | succ n ih =>
    have hlist : sample_buf ++ (List.range (n + 1)).map (fun j => b.buf (b.read_index + (k + j))) =
        sample_buf ++ [b.buf (b.read_index + k)] ++ (List.range n).map (fun j => b.buf (b.read_index + (k + 1 + j))) := by
      rw [List.range_succ_eq_map, List.map_cons, List.map_map, List.append_assoc, List.singleton_append]
      congr 3
      funext j
      simp only [Function.comp_apply]
      congr 1
      omega
    have hadd : k + (n + 1) = k + 1 + n := by omega
    rw [hlist, hadd]
    exact .head (if_pos (by omega)) (ih (sample_buf ++ [b.buf (b.read_index + k)]))

/-- The loop of `i2s_local_rx` is the steps that the driver's model makes in it. -/
theorem rx_loop_steps (b : Side w) (sample_buf : List w) (hrounds : words_remaining ≤ rounds)
    (hindex : words_remaining = 0 ∨ b.read_index < b.buf_size) :
    Steps rx_step (calling b (.copy words sample_buf words_remaining))
      (calling { b with read_index := (rx_loop b.buf b.buf_size rounds b.read_index words_remaining).2 }
        (.copy words (sample_buf ++ (rx_loop b.buf b.buf_size rounds b.read_index words_remaining).1) 0)) := by
  induction rounds generalizing b words_remaining sample_buf with
  | zero =>
    obtain rfl := Nat.le_zero.1 hrounds
    rw [rx_loop, List.append_nil]
    exact .refl
  | succ rounds ih =>
    rw [rx_loop]
    split
    · rename_i hpos
      have hlt := hindex.resolve_left (by omega)
      have hcopy : 0 < min words_remaining (b.buf_size - b.read_index) := Nat.lt_min.2 ⟨hpos, by omega⟩
      have hstart : rx_step (calling b (.copy words sample_buf words_remaining)) =
          some (calling b (.memcpy words sample_buf words_remaining (min words_remaining (b.buf_size - b.read_index)) 0)) :=
        if_pos hpos
      generalize min words_remaining (b.buf_size - b.read_index) = n at hcopy hstart ⊢
      have hmemcpy := rx_memcpy_steps b words words_remaining sample_buf (k := 0) n
      simp only [Nat.zero_add] at hmemcpy
      have hrest := ih { b with read_index := if b.buf_size ≤ b.read_index + n then 0 else b.read_index + n }
        (sample_buf ++ (List.range n).map fun j => b.buf (b.read_index + j)) (show words_remaining - n ≤ rounds by omega) (.inr (wrap_lt hlt))
      rw [List.append_assoc] at hrest
      exact .head hstart (hmemcpy.trans (.head (if_neg (Nat.lt_irrefl n)) hrest))
    · obtain rfl : words_remaining = 0 := by omega
      rw [List.append_nil]
      exact .refl

variable {i2s_sample_buf : Nat → w}

theorem tx_memcpy_steps (b : Side w) (hbuf : ∀ k < words, sample_buf[k]? = some (i2s_sample_buf k))
    (hn : words - words_remaining + (k + n) ≤ words) : Steps tx_step
    (calling b (.memcpy words sample_buf words_remaining (k + n) k))
    (calling { b with buf := fun i => if b.write_index + k ≤ i ∧ i < b.write_index + (k + n)
        then i2s_sample_buf (words - words_remaining + (i - b.write_index)) else b.buf i }
      (.memcpy words sample_buf words_remaining (k + n) (k + n))) := by
  induction n generalizing b k with
  | zero =>
    have hnone : (fun i => if b.write_index + k ≤ i ∧ i < b.write_index + (k + 0)
        then i2s_sample_buf (words - words_remaining + (i - b.write_index)) else b.buf i) = b.buf :=
      funext fun i => if_neg (by omega)
    rw [hnone]
    exact .refl
  | succ n ih =>
    have hstep : tx_step (calling b (.memcpy words sample_buf words_remaining (k + (n + 1)) k)) =
        some (calling { b with buf := Function.update b.buf (b.write_index + k) (i2s_sample_buf (words - words_remaining + k)) }
          (.memcpy words sample_buf words_remaining (k + (n + 1)) (k + 1))) := by
      unfold calling tx_step
      dsimp only
      rw [if_pos (by omega), hbuf _ (by omega)]
    refine .head hstep ?_
    have hrest := ih { b with
      buf := Function.update b.buf (b.write_index + k) (i2s_sample_buf (words - words_remaining + k)) } (k := k + 1) (by omega)
    have hsame : (fun i => if b.write_index + (k + 1) ≤ i ∧ i < b.write_index + (k + 1 + n)
          then i2s_sample_buf (words - words_remaining + (i - b.write_index))
          else Function.update b.buf (b.write_index + k) (i2s_sample_buf (words - words_remaining + k)) i) =
        fun i => if b.write_index + k ≤ i ∧ i < b.write_index + (k + (n + 1))
          then i2s_sample_buf (words - words_remaining + (i - b.write_index)) else b.buf i := by
      funext i
      by_cases hi : i = b.write_index + k
      · subst hi
        rw [if_neg (by omega), if_pos (by omega), Function.update_self, Nat.add_sub_cancel_left]
      · rw [Function.update_of_ne hi]
        by_cases hin : b.write_index + k ≤ i ∧ i < b.write_index + (k + (n + 1))
        · rw [if_pos (by omega), if_pos hin]
        · rw [if_neg (by omega), if_neg hin]
    have hadd : k + (n + 1) = k + 1 + n := by omega
    rw [← hsame, hadd]
    exact hrest

/-- The loop of `i2s_local_tx`, likewise. -/
theorem tx_loop_steps (b : Side w) (hbuf : ∀ k < words, sample_buf[k]? = some (i2s_sample_buf k)) (hrounds : words_remaining ≤ rounds)
    (hwords : words_remaining ≤ words) (hindex : words_remaining = 0 ∨ b.write_index < b.buf_size) : ∃ buf write_index copied,
    tx_loop b.buf_size i2s_sample_buf rounds b.buf b.write_index (words - words_remaining) words_remaining =
      (buf, write_index, copied) ∧
    Steps tx_step (calling b (.copy words sample_buf words_remaining))
      (calling { b with buf, write_index } (.copy words sample_buf 0)) := by
  induction rounds generalizing b words_remaining with
  | zero =>
    obtain rfl := Nat.le_zero.1 hrounds
    exact ⟨_, _, _, rfl, .refl⟩
  | succ rounds ih =>
    rw [tx_loop]
    split
    · rename_i hpos
      have hlt := hindex.resolve_left (by omega)
      have hcopy : 0 < min words_remaining (b.buf_size - b.write_index) := Nat.lt_min.2 ⟨hpos, by omega⟩
      have hle := Nat.min_le_left words_remaining (b.buf_size - b.write_index)
      have hstart : tx_step (calling b (.copy words sample_buf words_remaining)) =
          some (calling b (.memcpy words sample_buf words_remaining (min words_remaining (b.buf_size - b.write_index)) 0)) :=
        if_pos hpos
      generalize min words_remaining (b.buf_size - b.write_index) = n at hcopy hle hstart ⊢
      have hmemcpy := tx_memcpy_steps b (k := 0) (n := n) hbuf (show words - words_remaining + (0 + n) ≤ words by omega)
      simp only [Nat.zero_add, Nat.add_zero] at hmemcpy
      obtain ⟨buf, write_index, copied, hloop, hrest⟩ := ih { b with
        buf := fun i => if b.write_index ≤ i ∧ i < b.write_index + n
          then i2s_sample_buf (words - words_remaining + (i - b.write_index)) else b.buf i
        write_index := if b.buf_size ≤ b.write_index + n then 0 else b.write_index + n }
        (show words_remaining - n ≤ rounds by omega) (by omega) (.inr (wrap_lt hlt))
      have hnext : words - (words_remaining - n) = words - words_remaining + n := by omega
      rw [hnext] at hloop
      exact ⟨buf, write_index, copied, hloop, .head hstart (hmemcpy.trans (.head (if_neg (Nat.lt_irrefl n)) hrest))⟩
    · obtain rfl : words_remaining = 0 := by omega
      exact ⟨_, _, _, rfl, .refl⟩

end Steps

end I2s.Calls
