import XcoreSdk.MicArray.Driver
import XcoreSdk.I2s.Transfer
/-!
# Whole blocks in, whole frames out

The buffer holds the words of the accepted blocks that have not been received
yet, and the wake-up of a waiting task stands for the words it asked for, as in
the I2S driver. The rest is about the interrupt handler, whose copying may
wrap within a block.
-/

namespace MicArray
open FreeRtos I2s
variable {w : Type*} {cfg : Config} {s s' : Driver w} {b b' : Side w}

/-- The words that the handler has stored and not yet counted. -/
def Isr.pushed : Isr w → List w
  | .copy mic_sample_block words_remaining => mic_sample_block.take (mic_sample_block.length - words_remaining)
  | .memcpy mic_sample_block words_remaining _ k =>
    mic_sample_block.take (mic_sample_block.length - words_remaining + k)
  | _ => []

/-- How far the handler has moved its index. -/
def Isr.moved : Isr w → Nat
  | .copy mic_sample_block words_remaining | .memcpy mic_sample_block words_remaining _ _ =>
    mic_sample_block.length - words_remaining
  | _ => 0

/-- The block that is being copied. -/
def Isr.blocks : Isr w → List (List w)
  | .copy mic_sample_block _ | .memcpy mic_sample_block _ _ _ => [mic_sample_block]
  | _ => []

/-- A block for which there is room. -/
def Room (cfg : Config) (b : Side w) (mic_sample_block : List w) : Prop :=
  mic_sample_block.length = cfg.block_words ∧ b.written.length + mic_sample_block.length ≤ b.read.length + b.buf_size

/-- What the handler knows while it copies and wakes. -/
def Isr.Loop (cfg : Config) (b : Side w) : Isr w → Prop
  | .idle | .wake => True
  | .copy mic_sample_block words_remaining =>
    Room cfg b mic_sample_block ∧ words_remaining ≤ mic_sample_block.length
  | .memcpy mic_sample_block words_remaining words_to_copy k => Room cfg b mic_sample_block ∧ k ≤ words_to_copy ∧
      words_to_copy ≤ words_remaining ∧ words_remaining ≤ mic_sample_block.length ∧
      b.write_index + words_to_copy ≤ b.buf_size
  | .compare words_available => 0 < b.required ∧ words_available ≤ b.stored

/-- The buffer between the handler and the receiving task. -/
structure Inv (cfg : Config) (s : Driver w) : Prop where
  size : s.recv.buf_size = cfg.buffer_size * cfg.channels
  rx : RxInv s.recv s.isr.pushed s.recv.sem
  write_index : s.recv.write_index = (s.recv.written.length + s.isr.moved) % s.recv.buf_size
  loop : s.isr.Loop cfg s.recv
  written : s.recv.written = s.accepted.flatten
  whole : ∀ mic_sample_block ∈ s.accepted, mic_sample_block.length = cfg.block_words
  order : List.Sublist (s.accepted ++ s.isr.blocks) s.received

/-! ## The receiving task -/

theorem Room.mono {mic_sample_block : List w} (h : Room cfg b mic_sample_block) (hwritten : b'.written = b.written)
    (hsize : b'.buf_size = b.buf_size) (hread : b.read.length ≤ b'.read.length) : Room cfg b' mic_sample_block := by
  obtain ⟨hlen, hroom⟩ := h
  refine ⟨hlen, ?_⟩
  rw [hwritten, hsize]
  omega

/-- A step of the receiving task. -/
theorem Inv.task (h : Inv cfg s) (hrx : RxInv b' s.isr.pushed b'.sem) (hwritten : b'.written = s.recv.written)
    (hindex : b'.write_index = s.recv.write_index) (hsize : b'.buf_size = s.recv.buf_size)
    (hread : s.recv.read.length ≤ b'.read.length)
    (hwake : 0 < s.recv.required → b'.required = s.recv.required ∧ b'.read = s.recv.read) :
    Inv cfg { s with recv := b' } := by
  refine ⟨by dsimp only; rw [hsize]; exact h.size, hrx, ?_, ?_, by dsimp only; rw [hwritten]; exact h.written,
    h.whole, h.order⟩
  · dsimp only
    rw [hindex, hwritten, hsize]
    exact h.write_index
  · have hloop := h.loop
    dsimp only
    cases hisr : s.isr with
    | idle | wake => trivial
    | copy mic_sample_block words_remaining =>
      rw [hisr] at hloop
      exact ⟨hloop.1.mono hwritten hsize hread, hloop.2⟩
    | memcpy mic_sample_block words_remaining words_to_copy k =>
      rw [hisr] at hloop
      obtain ⟨hroom, hk, hcopy, hrem, hend⟩ := hloop
      refine ⟨hroom.mono hwritten hsize hread, hk, hcopy, hrem, ?_⟩
      rw [hindex, hsize]
      exact hend
    | compare words_available =>
      rw [hisr] at hloop
      obtain ⟨hpos, hle⟩ := hloop
      obtain ⟨hreq, hsame⟩ := hwake hpos
      refine ⟨by rw [hreq]; exact hpos, ?_⟩
      simp only [Side.stored, hwritten, hsame]
      exact hle

/-- While its request is open the task only waits. -/
theorem rx_step_waits {pushed : List w} (h : RxInv b pushed b.sem) (hpos : 0 < b.required) : rx_step b = none := by
  have hb : b.blocked = true := by
    by_contra hne
    have := (h.handshake.unblocked (by simpa using hne)).1
    omega
  have hcopy : b.call.words = none := by
    cases hw : b.call.words with
    | none => rfl
    | some words =>
      have := (h.handshake.copy words hw).1
      rw [hb] at this
      cases this
  cases hc : b.call with
  | idle => simp [rx_step, block_step, hc]
  | request words sample_buf =>
    have := (h.handshake.request words sample_buf hc).1
    rw [hb] at this
    cases this
  | wait words sample_buf =>
    have hsem : b.sem = 0 := by
      rcases h.handshake.blocked hb with ⟨-, h0⟩ | ⟨h0, -⟩
      · exact h0
      · omega
    simp [rx_step, block_step, hc, hsem, rtos_osal_semaphore_get]
  | copy words sample_buf words_remaining => rw [hc] at hcopy; cases hcopy
  | memcpy words sample_buf words_remaining words_to_copy k => rw [hc] at hcopy; cases hcopy

theorem Inv.rx_step (h : Inv cfg s) (hs : I2s.rx_step s.recv = some b') : Inv cfg { s with recv := b' } := by
  obtain ⟨h1, h2, h3, h4⟩ := RxInv.step_frame hs
  apply h.task _ h1 h2 h3 h4
  · intro hpos
    rw [rx_step_waits h.rx hpos] at hs
    cases hs
  · have hrx : RxInv s.recv _ (s.recv.sem + 0) := h.rx
    exact hrx.step hs

theorem local_rx_required {words : Nat} (hs : i2s_local_rx b words = some b') : b'.required = b.required := by
  unfold i2s_local_rx at hs
  split at hs
  · repeat' split at hs
    all_goals cases hs; rfl
  · cases hs

theorem timeout_required (hs : I2s.timeout b = some b') : b'.required = b.required := by
  unfold I2s.timeout at hs
  split at hs
  · cases hs; rfl
  · cases hs

/-! ## The interrupt handler -/

theorem Inv.block {mic_sample_block : List w} (h : Inv cfg s)
    (hs : rtos_mic_array_isr cfg s mic_sample_block = some s') : Inv cfg s' := by
  unfold rtos_mic_array_isr at hs
  split at hs
  case h_2 => cases hs
  rename_i hidle
  split at hs
  case isFalse => cases hs
  rename_i hlen
  have hrx := h.rx
  have hindex := h.write_index
  have horder := h.order
  have hread := hrx.contents.read_le
  rw [hidle] at hrx hindex horder
  rw [h.rx.contents.words_free] at hs
  cases hs
  split
  · rename_i hfree
    have hpushed : (Isr.copy mic_sample_block cfg.block_words).pushed = [] := by simp [Isr.pushed, hlen]
    refine ⟨h.size, ?_, ?_, ⟨⟨hlen, ?_⟩, hlen.ge⟩, h.written, h.whole, ?_⟩
    · dsimp only
      rw [hpushed]
      exact hrx
    · simpa [Isr.moved, hlen] using hindex
    · have hstored := h.rx.contents.stored_le
      simp only [Side.stored] at hfree hstored
      dsimp only
      omega
    · dsimp only [Isr.blocks] at horder ⊢
      rw [List.append_nil] at horder
      exact horder.append (.refl _)
  · refine ⟨h.size, hrx, hindex, trivial, h.written, h.whole, ?_⟩
    exact horder.trans (List.sublist_append_left _ _)

theorem Inv.isr_step (h : Inv cfg s) (hs : isr_step s = some s') : Inv cfg s' := by
  have hrx := h.rx
  have hindex := h.write_index
  have hloop := h.loop
  have horder := h.order
  unfold MicArray.isr_step at hs
  cases hisr : s.isr with
  | idle => simp [hisr] at hs
  | copy mic_sample_block words_remaining =>
    rw [hisr] at hrx hindex hloop horder
    obtain ⟨hroom, hrem⟩ := hloop
    simp only [hisr] at hs
    split at hs
    · rename_i hpos
      cases hs
      refine ⟨h.size, hrx, hindex, ⟨hroom, Nat.zero_le _, Nat.min_le_left _ _, hrem, ?_⟩, h.written, h.whole, horder⟩
      have hlt : s.recv.write_index < s.recv.buf_size := by
        rw [hindex]
        have hread := h.rx.contents.read_le
        exact Nat.mod_lt _ (by have := hroom.2; omega)
      have := Nat.min_le_right words_remaining (s.recv.buf_size - s.recv.write_index)
      dsimp only
      omega
    · rename_i hpos
      cases hs
      obtain rfl : words_remaining = 0 := by omega
      have hpushed : (Isr.copy mic_sample_block 0).pushed = mic_sample_block := by simp [Isr.pushed]
      rw [hpushed] at hrx
      have hcommit := hrx.contents.commit_write
      refine ⟨h.size, ⟨{ hcommit with }, ?_, hrx.read_index, hrx.rx_loop⟩, ?_, trivial, ?_, ?_, ?_⟩
      · have hmono : s.recv.stored ≤ (s.recv.written ++ mic_sample_block).length - s.recv.read.length := by
          simp only [Side.stored, List.length_append]
          omega
        exact { hrx.handshake.mono hmono with }
      · simpa [Isr.moved, List.length_append] using hindex
      · dsimp only
        rw [h.written, List.flatten_append, List.flatten_singleton]
      · intro block hblock
        rcases List.mem_append.1 hblock with hold | hnew
        · exact h.whole block hold
        · rw [List.mem_singleton.1 hnew]
          exact hroom.1
      · dsimp only [Isr.blocks] at horder ⊢
        rwa [List.append_nil]
  | memcpy mic_sample_block words_remaining words_to_copy k =>
    rw [hisr] at hrx hindex hloop horder
    obtain ⟨hroom, hk, hcopy, hrem, hend⟩ := hloop
    simp only [hisr] at hs
    split at hs
    · rename_i hlt
      split at hs
      case h_2 => cases hs
      rename_i x hx
      cases hs
      obtain ⟨hxlt, rfl⟩ := List.getElem?_eq_some_iff.1 hx
      have hlen : (Isr.memcpy mic_sample_block words_remaining words_to_copy k).pushed.length =
          mic_sample_block.length - words_remaining + k := by
        simp only [Isr.pushed, List.length_take]
        omega
      have hpush := hrx.contents.push (x := mic_sample_block[mic_sample_block.length - words_remaining + k]) (by
        rw [hlen]
        have := hroom.2
        omega)
      have hcell : s.recv.write_index + k =
          (s.recv.written.length + (mic_sample_block.length - words_remaining + k)) % s.recv.buf_size :=
        Ring.index_add hindex (by omega)
      have htake : (Isr.memcpy mic_sample_block words_remaining words_to_copy k).pushed ++
          [mic_sample_block[mic_sample_block.length - words_remaining + k]] =
          (Isr.memcpy mic_sample_block words_remaining words_to_copy (k + 1)).pushed := by
        simp only [Isr.pushed, ← Nat.add_assoc, List.take_add_one, List.getElem?_eq_getElem hxlt, Option.toList_some]
      rw [hlen, ← hcell, htake] at hpush
      exact ⟨h.size, ⟨hpush, { hrx.handshake with }, hrx.read_index, hrx.rx_loop⟩, hindex,
        ⟨hroom, hlt, hcopy, hrem, hend⟩, h.written, h.whole, horder⟩
    · rename_i hge
      cases hs
      obtain rfl : k = words_to_copy := by omega
      have hsub : mic_sample_block.length - (words_remaining - k) = mic_sample_block.length - words_remaining + k := by
        omega
      refine ⟨h.size, ⟨?_, { hrx.handshake with }, hrx.read_index, hrx.rx_loop⟩, ?_, ⟨hroom, by omega⟩, h.written,
        h.whole, horder⟩
      · simp only [Isr.pushed, hsub]
        exact { hrx.contents with }
      · dsimp only [Isr.moved] at hindex ⊢
        rw [Ring.index_wrap hindex hend, hsub]
  | wake =>
    rw [hisr] at hrx hindex horder
    simp only [hisr] at hs
    cases hs
    split
    · rename_i hpos
      refine ⟨h.size, hrx, hindex, ⟨hpos, ?_⟩, h.written, h.whole, horder⟩
      rw [hrx.contents.words_available]
    · exact ⟨h.size, hrx, hindex, trivial, h.written, h.whole, horder⟩
  | compare words_available =>
    rw [hisr] at hrx hindex hloop horder
    obtain ⟨hpos, hle⟩ := hloop
    simp only [hisr] at hs
    split at hs
    · rename_i hreq
      cases hs
      obtain ⟨htok, hwake⟩ := hrx.handshake.wake hpos (hreq.trans hle)
      refine ⟨h.size, ⟨{ hrx.contents with }, ?_, hrx.read_index, hrx.rx_loop⟩, hindex, trivial, h.written, h.whole,
        horder⟩
      dsimp only
      rw [htok]
      exact { hwake with }
    · cases hs
      exact ⟨h.size, hrx, hindex, trivial, h.written, h.whole, horder⟩

/-! ## All runs -/

/-- A call that finds an earlier request open asks for no more words than that
request, or than it can have at once. -/
def Fits (cfg : Config) (s : Driver w) : Act w → Prop
  | .rx frame_count => s.recv.blocked = true → frame_words cfg frame_count ≤ s.recv.buf_size →
      frame_words cfg frame_count ≤ max s.recv.required s.recv.words_available
  | _ => True

instance (cfg : Config) (s : Driver w) : ∀ a, Decidable (Fits cfg s a)
  | .rx frame_count => inferInstanceAs (Decidable (s.recv.blocked = true → frame_words cfg frame_count ≤
      s.recv.buf_size → frame_words cfg frame_count ≤ max s.recv.required s.recv.words_available))
  | .block _ | .isr | .rx_step | .rx_timeout => isTrue trivial

/-- The buffer is a queue of whole blocks: what is in it and has been received
are the words of the accepted blocks, which are among those handed over. -/
structure Fifo (cfg : Config) (s : Driver w) : Prop where
  sound : Sound s.recv
  written : s.recv.written = s.accepted.flatten
  whole : ∀ mic_sample_block ∈ s.accepted, mic_sample_block.length = cfg.block_words
  order : List.Sublist s.accepted s.received

theorem inv_init (h : (driver cfg).init s) : Inv cfg s := by
  obtain ⟨mem, rfl⟩ := h
  refine ⟨rfl, ⟨start_contents cfg.fits, start_handshake, ?_, trivial⟩, ?_, trivial, rfl, by simp, .slnil⟩ <;>
    exact (Nat.zero_mod _).symm

theorem inv_step {a : Act w} (h : Inv cfg s) (hc : Fits cfg s a) (hs : (driver cfg).step s a = some s') : Inv cfg s' := by
  cases a with
  | block mic_sample_block => exact h.block hs
  | isr => exact h.isr_step hs
  | rx frame_count =>
    obtain ⟨recv, hrx, rfl⟩ := Option.map_eq_some_iff.1 hs
    obtain ⟨h1, h2, h3, h4, h5⟩ := RxInv.call_frame hrx
    apply h.task _ h1 h2 h3 (by rw [h4]) fun _ => ⟨local_rx_required hrx, h4⟩
    rw [h5]
    exact h.rx.call hc hrx
  | rx_step =>
    obtain ⟨recv, hrx, rfl⟩ := Option.map_eq_some_iff.1 hs
    exact h.rx_step hrx
  | rx_timeout =>
    obtain ⟨recv, hrx, rfl⟩ := Option.map_eq_some_iff.1 hs
    obtain ⟨h1, h2, h3, h4, h5, -⟩ := timeout_frame hrx
    apply h.task _ h1 h2 h3 (by rw [h4]) fun _ => ⟨timeout_required hrx, h4⟩
    rw [h5]
    exact h.rx.timeout hrx

/-- In every run whose calls fit, frames come out as they went in, and blocks
that did not go in left no trace. -/
theorem blocks_received (h : (driver cfg).Reachable (Fits cfg) s) : Fifo cfg s := by
  have hinv : Inv cfg s := h.inv (fun _ => inv_init) fun _ _ _ hi hc hs => inv_step hi hc hs
  exact ⟨hinv.rx.contents.sound, hinv.written, hinv.whole, (List.sublist_append_left _ _).trans hinv.order⟩

/-- Blocks of two frames and a buffer of three. -/
def small : Config := ⟨2, 0, 3, Nat.two_pos, by decide, by decide⟩

/-- The driver as `rtos_mic_array_start` leaves it. -/
def started : Driver Nat := ⟨.start (fun _ => 0) 6, .idle, [], []⟩

theorem started_init : (driver small).init started := ⟨fun _ => 0, rfl⟩

/-- A block comes in, and the handler takes `n` steps. -/
def blockIn (mic_sample_block : List Nat) (n : Nat) : List (Act Nat) := .block mic_sample_block :: List.replicate n .isr

/-- A call of `rtos_mic_array_rx` that asks for a frame and times out. -/
def rxTimeout : List (Act Nat) := [.rx 1, .rx_step, .rx_timeout]

/-- After a call that timed out a block comes in, and the next is dropped. The
call for the whole block gets it, and the third block wraps. -/
theorem blocks_received_wrapped : ∃ s, (driver small).Reachable (Fits small) s ∧
    s.accepted = [[10, 11, 12, 13], [30, 31, 32, 33]] ∧ s.recv.read = [10, 11, 12, 13, 30, 31, 32, 33] ∧ Fifo small s := by
  have hrun : ((driver small).exec (Fits small) started
      (List.flatten [
        rxTimeout, blockIn [10, 11, 12, 13] 9, blockIn [20, 21, 22, 23] 1, [.rx 2], List.replicate 8 .rx_step,
        blockIn [30, 31, 32, 33] 10, [.rx 2], List.replicate 9 .rx_step])).map (fun s => (s.accepted, s.recv.read)) =
        some ([[10, 11, 12, 13], [30, 31, 32, 33]], [10, 11, 12, 13, 30, 31, 32, 33]) := by decide +kernel
  obtain ⟨s, hs, hobs⟩ := Option.map_eq_some_iff.1 hrun
  obtain ⟨haccepted, hread⟩ := Prod.mk.inj hobs
  have hreach := Machine.exec_reachable started_init hs
  exact ⟨s, hreach, haccepted, hread, blocks_received hreach⟩

/-- After a timed-out call for one frame, a call for three takes the wake-up for
the one and hands out a frame that never came in. -/
theorem blocks_received_larger : ∃ s, (driver small).Reachable Machine.Free s ∧ s.accepted = [[10, 11, 12, 13]] ∧
    s.recv.read = [10, 11, 12, 13, 0, 0] ∧ s.recv.total_written = 4 ∧ s.recv.total_read = 6 ∧ ¬ Fifo small s := by
  have hrun : ((driver small).exec Machine.Free started
      (List.flatten [rxTimeout, blockIn [10, 11, 12, 13] 9, [.rx 3], List.replicate 10 .rx_step])).map
        (fun s => (s.accepted, s.recv.read, s.recv.total_written, s.recv.total_read)) =
        some ([[10, 11, 12, 13]], [10, 11, 12, 13, 0, 0], 4, 6) := by decide +kernel
  obtain ⟨s, hs, hobs⟩ := Option.map_eq_some_iff.1 hrun
  simp only [Prod.mk.injEq] at hobs
  obtain ⟨haccepted, hread, hwritten, htotal⟩ := hobs
  refine ⟨s, Machine.exec_reachable started_init hs, haccepted, hread, hwritten, htotal, fun h => ?_⟩
  have hle := h.sound.underflow
  rw [h.written, haccepted, hread] at hle
  exact absurd hle (by decide)

end MicArray
