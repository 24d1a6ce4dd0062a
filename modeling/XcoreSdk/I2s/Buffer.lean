import XcoreSdk.I2s.Driver
import XcoreSdk.Lib.Ring
/-!
# The sample buffers and the handing over

A buffer holds the words that have been written to it and not yet read, in
order. Its wrapping counters give the true counts because these never differ by
more than its size.
-/

namespace I2s
open FreeRtos
variable {w : Type*} {b : Side w} {pushed popped : List w}

/-- The words written and not yet read. -/
def Side.stored (b : Side w) : Nat := b.written.length - b.read.length

/-- The contents of a buffer. A `memcpy` under way has stored `pushed` behind
them, or taken `popped` from their front, and not yet counted it. -/
structure Contents (b : Side w) (pushed popped : List w) : Prop where
  size : b.buf_size < 2 ^ 32
  total_written : b.total_written = BitVec.ofNat 32 b.written.length
  total_read : b.total_read = BitVec.ofNat 32 b.read.length
  read : b.read <+: b.written
  room : b.written.length + pushed.length ≤ b.read.length + b.buf_size
  holds : Ring.Holds b.buf b.buf_size b.read.length (b.written.drop b.read.length ++ pushed)
  popped : popped <+: b.written.drop b.read.length

namespace Contents

theorem read_le (h : Contents b pushed popped) : b.read.length ≤ b.written.length := h.read.length_le

theorem stored_le (h : Contents b pushed popped) : b.stored + pushed.length ≤ b.buf_size := by
  have := h.room
  have := h.read_le
  simp only [Side.stored]
  omega

theorem words_available (h : Contents b pushed popped) : b.words_available = b.stored := by
  have hle := h.stored_le
  have hsize := h.size
  have hread := h.read_le
  simp only [Side.words_available, Side.stored, h.total_written, h.total_read, BitVec.toNat_sub,
    BitVec.toNat_ofNat] at hle ⊢
  omega

theorem words_free (h : Contents b pushed popped) : b.words_free = b.buf_size - b.stored := by
  have hle := h.stored_le
  have hsize := h.size
  have hav := h.words_available
  simp only [Side.words_available] at hav
  simp only [Side.words_free]
  rw [BitVec.toNat_sub, hav, BitVec.toNat_ofNat]
  omega

theorem push {x : w} (h : Contents b pushed popped) (hroom : b.written.length + pushed.length < b.read.length + b.buf_size) :
    Contents { b with buf := Function.update b.buf ((b.written.length + pushed.length) % b.buf_size) x }
      (pushed ++ [x]) popped := by
  have hle := h.read_le
  refine { h with room := by simp only [List.length_append, List.length_singleton]; omega, holds := ?_ }
  have hlen : (b.written.drop b.read.length ++ pushed).length < b.buf_size := by
    simp only [List.length_append, List.length_drop]
    omega
  have hpush := h.holds.push (x := x) hlen
  have hindex : b.read.length + (b.written.drop b.read.length ++ pushed).length = b.written.length + pushed.length := by
    simp only [List.length_append, List.length_drop]
    omega
  rw [hindex, List.append_assoc] at hpush
  exact hpush

/-- The stored words are counted. -/
theorem commit_write (h : Contents b pushed popped) :
    Contents { b with
      total_written := b.total_written + BitVec.ofNat 32 pushed.length
      written := b.written ++ pushed } [] popped := by
  have hle := h.read_le
  have hdrop : (b.written ++ pushed).drop b.read.length = b.written.drop b.read.length ++ pushed :=
    List.drop_append_of_le_length hle
  refine ⟨h.size, ?_, h.total_read, h.read.trans (List.prefix_append _ _), ?_, ?_, ?_⟩
  · dsimp only
    rw [h.total_written, List.length_append, BitVec.ofNat_add]
  · simpa only [List.length_append, List.length_nil, Nat.add_zero] using h.room
  · dsimp only
    rw [hdrop, List.append_nil]
    exact h.holds
  · dsimp only
    rw [hdrop]
    exact h.popped.trans (List.prefix_append _ _)

theorem pop (h : Contents b pushed popped) (hlt : popped.length < b.stored) :
    Contents b pushed (popped ++ [b.buf ((b.read.length + popped.length) % b.buf_size)]) := by
  refine { h with popped := ?_ }
  have hlt' : popped.length < (b.written.drop b.read.length).length := by rwa [List.length_drop]
  rw [h.holds.append_left popped.length hlt']
  have htake := List.prefix_iff_eq_take.1 h.popped
  have hnext : popped ++ [(b.written.drop b.read.length)[popped.length]] =
      (b.written.drop b.read.length).take (popped.length + 1) := by
    rw [List.take_add_one, ← htake, List.getElem?_eq_getElem hlt']
    rfl
  rw [hnext]
  exact List.take_prefix _ _

/-- The words taken are counted. -/
theorem commit_read (h : Contents b pushed popped) :
    Contents { b with
      total_read := b.total_read + BitVec.ofNat 32 popped.length
      read := b.read ++ popped } pushed [] := by
  have hle := h.read_le
  obtain ⟨rest, hrest⟩ := h.read
  have hdrop : b.written.drop b.read.length = rest := by rw [← hrest, List.drop_left]
  have hpop := h.popped
  have hholds := h.holds
  rw [hdrop] at hpop hholds
  obtain ⟨rest', rfl⟩ := hpop
  have hdrop' : b.written.drop (b.read ++ popped).length = rest' := by
    rw [← hrest, List.length_append, ← List.drop_drop, List.drop_left, List.drop_left]
  refine ⟨h.size, h.total_written, ?_, ⟨rest', by rw [← hrest, List.append_assoc]⟩, ?_, ?_, List.nil_prefix⟩
  · dsimp only
    rw [h.total_read, List.length_append, BitVec.ofNat_add]
  · have := h.room
    simp only [List.length_append]
    omega
  · dsimp only
    rw [hdrop', List.length_append]
    have hd := hholds.drop popped.length
    rwa [List.append_assoc, List.drop_left] at hd

end Contents

/-! ## Handing over -/

/-- The words of the call that is copying. -/
def Call.words : Call w → Option Nat
  | .copy words _ _ | .memcpy words _ _ _ _ => some words
  | _ => none

/-- `credit` words may be moved by the task at once; `tokens` wake-ups of it are
under way. -/
structure Handshake (b : Side w) (credit tokens : Nat) : Prop where
  unblocked : b.blocked = false → b.required = 0 ∧ tokens = 0
  blocked : b.blocked = true → 0 < b.required ∧ tokens = 0 ∨ b.required = 0 ∧ tokens = 1
  request : ∀ words sample_buf, b.call = .request words sample_buf → b.blocked = false ∧ 0 < words
  wait : ∀ words sample_buf, b.call = .wait words sample_buf → b.blocked = true ∧ words ≤ max b.required credit
  copy : ∀ words, b.call.words = some words → b.blocked = false ∧ words ≤ credit

namespace Handshake
variable {credit tokens : Nat}

theorem mono {credit' : Nat} (h : Handshake b credit tokens) (hle : credit ≤ credit') : Handshake b credit' tokens :=
  { h with
    wait := fun words sample_buf hc => by
      obtain ⟨hb, hw⟩ := h.wait words sample_buf hc
      exact ⟨hb, by omega⟩
    copy := fun words hc => (h.copy words hc).imp_right (·.trans hle) }

/-- The callback finds that there is as much as required. -/
theorem wake (h : Handshake b credit tokens) (hpos : 0 < b.required) (hle : b.required ≤ credit) :
    tokens = 0 ∧ Handshake { b with required := 0 } credit 1 := by
  have hb : b.blocked = true := by
    by_contra hne
    have := (h.unblocked (by simpa using hne)).1
    omega
  have ht : tokens = 0 := by
    rcases h.blocked hb with ⟨-, ht⟩ | ⟨h0, -⟩
    · exact ht
    · omega
  refine ⟨ht, fun hne => ?_, fun _ => .inr ⟨rfl, rfl⟩, h.request, fun words sample_buf hc => ?_, h.copy⟩
  · rw [hb] at hne; cases hne
  · obtain ⟨-, hw⟩ := h.wait words sample_buf hc
    exact ⟨hb, by dsimp only; omega⟩

theorem tokens_le (h : Handshake b credit tokens) : tokens ≤ 1 := by
  rcases Bool.eq_false_or_eq_true b.blocked with hb | hb
  · rcases h.blocked hb with ⟨-, ht⟩ | ⟨-, ht⟩ <;> omega
  · have := (h.unblocked hb).2
    omega

/-- A call that times out, or has moved its words and so changed the credit. -/
theorem ended (h : Handshake b credit tokens) (credit' : Nat) :
    Handshake { b with call := .idle } credit' tokens := by
  refine ⟨h.unblocked, h.blocked, ?_, ?_, ?_⟩
  · rintro _ _ ⟨⟩
  · rintro _ _ ⟨⟩
  · rintro _ ⟨⟩

/-- A call that finds too few words. -/
theorem lacking (h : Handshake b credit tokens) (words : Nat) (sample_buf : List w) (hb : b.blocked = false)
    (hpos : 0 < words) : Handshake { b with call := .request words sample_buf } credit tokens := by
  refine ⟨h.unblocked, h.blocked, ?_, ?_, ?_⟩
  · rintro _ _ ⟨⟩; exact ⟨hb, hpos⟩
  · rintro _ _ ⟨⟩
  · rintro _ ⟨⟩

/-- A call that finds an earlier request open. -/
theorem waiting {words : Nat} (h : Handshake b credit tokens) (sample_buf : List w) (hb : b.blocked = true)
    (hle : words ≤ max b.required credit) : Handshake { b with call := .wait words sample_buf } credit tokens := by
  refine ⟨h.unblocked, h.blocked, ?_, ?_, ?_⟩
  · rintro _ _ ⟨⟩
  · rintro _ _ ⟨⟩; exact ⟨hb, hle⟩
  · rintro _ ⟨⟩

/-- A call that has its words, at any point of its loop. -/
theorem copying {words : Nat} (h : Handshake b credit tokens) (call : Call w) (hcall : call.words = some words)
    (hb : b.blocked = false) (hle : words ≤ credit) : Handshake { b with call } credit tokens := by
  refine ⟨h.unblocked, h.blocked, ?_, ?_, ?_⟩
  · rintro _ _ rfl; cases hcall
  · rintro _ _ rfl; cases hcall
  · intro _ heq
    cases hcall.symm.trans heq
    exact ⟨hb, hle⟩

/-- The task says how many words it requires. -/
theorem block {words : Nat} {sample_buf : List w} (h : Handshake b credit tokens) (hc : b.call = .request words sample_buf) :
    Handshake { b with required := words, blocked := true, call := .wait words sample_buf } credit tokens := by
  obtain ⟨hb, hpos⟩ := h.request words sample_buf hc
  refine ⟨nofun, fun _ => .inl ⟨hpos, (h.unblocked hb).2⟩, nofun, ?_, nofun⟩
  rintro _ _ ⟨⟩
  exact ⟨rfl, Nat.le_max_left _ _⟩

/-- The task gets the semaphore. -/
theorem get {words sem : Nat} {sample_buf : List w} (h : Handshake b credit 1) (hc : b.call = .wait words sample_buf) :
    Handshake { b with sem, blocked := false, call := .copy words sample_buf words } credit 0 := by
  obtain ⟨hb, hw⟩ := h.wait words sample_buf hc
  have hreq : b.required = 0 := by
    rcases h.blocked hb with ⟨-, ht⟩ | ⟨h0, -⟩
    · cases ht
    · exact h0
  refine ⟨fun _ => ⟨hreq, rfl⟩, nofun, nofun, nofun, ?_⟩
  rintro _ ⟨⟩
  exact ⟨rfl, by omega⟩

end Handshake

end I2s
