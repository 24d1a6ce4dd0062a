import Mathlib.Logic.Function.Basic
import Mathlib.Data.List.FinRange
import Mathlib.Data.List.Induction
/-!
# Buffered ports

A buffered port shifts words of 32 bits out of its pin or into it, least significant bit first, one
bit each clock. One further word waits in a second register: the next output waits until
that register is free, and an input that comes too late finds a later word there. A trigger
time says when the first bit is to be output, or when the last bit of the first word
is to be input; it is compared with a counter of 16 bits.

Times count clocks. What happens between two operations takes no time.
-/

namespace Port

abbrev Word := BitVec 32

/-- The next time from `now` at which the counter is at `time`. -/
def fires (now time : Nat) : Nat := now + (time % 65536 + 65536 - now % 65536) % 65536

theorem fires_eq {now time t : Nat} (hnow : now ≤ t) (ht : t < now + 65536) (htime : time % 65536 = t % 65536) :
    fires now time = t := by
  unfold fires
  omega

/-! ## Outputs -/

/-- An output port: each word with the time of its first bit. -/
structure OutPort where
  trigger : Nat
  words : List (Nat × Word)

def OutPort.set_trigger_time (p : OutPort) (now time : Nat) : OutPort := { p with trigger := fires now time }

/-- An output, and the time at which it is done: when the word before it has begun. -/
def OutPort.out (p : OutPort) (now : Nat) (word : Word) : Nat × OutPort :=
  match p.words.getLast? with
  | none => (now, { p with words := [(p.trigger, word)] })
  | some (begun, _) => (max now begun, { p with words := p.words ++ [(max now (begun + 32), word)] })

/-- The time at which the last word is out. -/
def OutPort.sync (p : OutPort) (now : Nat) : Nat :=
  match p.words.getLast? with
  | none => now
  | some (begun, _) => max now (begun + 32)

/-- The value of the pin, from the first word on. After a word the pin keeps its last bit. -/
def OutPort.wire (p : OutPort) (time : Nat) : Option Bool :=
  (p.words.reverse.find? fun word => word.1 ≤ time).map fun word => word.2.getLsbD (min (time - word.1) 31)

/-- The words follow each other without a gap. -/
def Steady (p : OutPort) (start : Nat) (words : List Word) : Prop :=
  p.words = words.zipIdx.map fun word => (start + 32 * word.2, word.1)

section Steady
variable {p : OutPort} {start now : Nat} {words : List Word} {word : Word}

variable (p now word) in
theorem steady_first (hp : p.words = []) : (p.out now word).1 = now ∧ Steady (p.out now word).2 p.trigger [word] := by
  unfold OutPort.out Steady
  rw [hp]
  exact ⟨rfl, rfl⟩

theorem Steady.getLast? (h : Steady p start words) (hne : words ≠ []) :
    ∃ word, p.words.getLast? = some (start + 32 * (words.length - 1), word) := by
  obtain ⟨front, last, rfl⟩ := List.eq_nil_or_concat words |>.resolve_left hne
  refine ⟨last, ?_⟩
  rw [h, List.concat_eq_append, List.zipIdx_append, List.map_append]
  simp

variable (word) in
/-- An output in time goes on without a gap. -/
theorem Steady.out (h : Steady p start words) (hne : words ≠ []) (hnow : now ≤ start + 32 * words.length) :
    (p.out now word).1 = max now (start + 32 * (words.length - 1)) ∧ Steady (p.out now word).2 start (words ++ [word]) := by
  obtain ⟨last, hlast⟩ := h.getLast? hne
  have hlength := List.length_pos_iff.2 hne
  unfold OutPort.out
  rw [hlast]
  refine ⟨rfl, ?_⟩
  have htime : max now (start + 32 * (words.length - 1) + 32) = start + 32 * words.length := by omega
  unfold Steady at h ⊢
  dsimp only
  rw [htime, h, List.zipIdx_append, List.map_append]
  simp

variable (now) in
theorem Steady.sync (h : Steady p start words) (hne : words ≠ []) : start + 32 * words.length ≤ p.sync now := by
  obtain ⟨last, hlast⟩ := h.getLast? hne
  have hlength := List.length_pos_iff.2 hne
  unfold OutPort.sync
  rw [hlast]
  dsimp only
  omega

/-- Each word's bits are on the pin in their turn. -/
theorem Steady.wire (h : Steady p start words) {n j : Nat} (hword : words[n]? = some word) (hj : j < 32) :
    p.wire (start + 32 * n + j) = some (word.getLsbD j) := by
  unfold OutPort.wire
  rw [h]
  clear h
  induction words using List.reverseRecOn with
  | nil => cases hword
  | append_singleton words last ih =>
    rw [List.zipIdx_append, List.map_append, List.reverse_append]
    simp only [List.zipIdx_cons, List.zipIdx_nil, List.map_cons, List.map_nil, List.reverse_singleton,
      List.singleton_append, List.find?_cons, Nat.zero_add]
    rcases Nat.lt_or_ge n words.length with hn | hn
    · rw [List.getElem?_append_left hn] at hword
      rw [decide_eq_false (by omega)]
      exact ih hword
    · have hlast := (List.getElem?_eq_some_iff.1 hword).1
      rw [List.length_append, List.length_singleton] at hlast
      obtain rfl : n = words.length := by omega
      rw [List.getElem?_concat_length] at hword
      obtain rfl := Option.some.inj hword
      rw [decide_eq_true (by omega)]
      dsimp only [Option.map_some]
      congr 2
      omega

end Steady

/-! ## Inputs -/

/-- An input port: the time of the first word's last bit, and how many words have been input or have
been lost. -/
structure InPort where
  trigger : Nat
  taken : Nat

def InPort.set_trigger_time (p : InPort) (now time : Nat) : InPort := { p with trigger := fires now time }

/-- The word of 32 bits, the first one least significant. -/
def sampled (bit : Nat → Bool) : Word :=
  (BitVec.ofBoolListLE ((List.range 32).map bit)).cast (by rw [List.length_map, List.length_range])

theorem sampled_getLsbD {bit : Nat → Bool} {j : Nat} (hj : j < 32) : (sampled bit).getLsbD j = bit j := by
  unfold sampled
  rw [BitVec.getLsbD_cast, BitVec.getLsbD_ofBoolListLE, List.getD_eq_getElem?_getD, List.getElem?_map,
    List.getElem?_range hj]
  rfl

/-- The word that an input at `now` gets. -/
def InPort.index (p : InPort) (now : Nat) : Nat := max p.taken ((now - p.trigger) / 32)

/-- An input, the time at which it is done, and the word. -/
def InPort.take (p : InPort) (wire : Nat → Bool) (now : Nat) : Nat × InPort × Word :=
  (max now (p.trigger + 32 * p.index now), { p with taken := p.index now + 1 },
    sampled fun j => wire (p.trigger + 32 * p.index now + j - 31))

theorem InPort.le_take (p : InPort) (wire : Nat → Bool) (now : Nat) :
    now ≤ (p.take wire now).1 ∧ p.trigger + 32 * p.taken ≤ (p.take wire now).1 := by
  unfold InPort.take InPort.index
  dsimp only
  omega

/-- An input in time gets the next word. -/
theorem InPort.take_eq {p : InPort} {wire : Nat → Bool} {now : Nat} (hnow : now < p.trigger + 32 * (p.taken + 1)) :
    p.take wire now = (max now (p.trigger + 32 * p.taken), { p with taken := p.taken + 1 },
      sampled fun j => wire (p.trigger + 32 * p.taken + j - 31)) := by
  have hindex : p.index now = p.taken := by
    unfold InPort.index
    omega
  unfold InPort.take
  rw [hindex]

/-! ## The same operation on several ports -/

/-- An operation on each port in turn. -/
def each {π : Type*} {n : Nat} (op : Fin n → Nat → π → Nat × π) (now : Nat) (ports : Fin n → π) : Nat × (Fin n → π) :=
  (List.finRange n).foldl (fun s i =>
    let done := op i s.1 (s.2 i)
    (done.1, Function.update s.2 i done.2)) (now, ports)

section Each
variable {π : Type*} {n : Nat} (op : Fin n → Nat → π → Nat × π) {now : Nat} {ports : Fin n → π}

theorem each_list {time : Nat → Prop} {pre post : Fin n → π → Prop}
    (hop : ∀ i now p, time now → pre i p → time (op i now p).1 ∧ post i (op i now p).2) (l : List (Fin n))
    (hl : l.Nodup) (s : Nat × (Fin n → π)) (hs : time s.1) (hpre : ∀ i ∈ l, pre i (s.2 i)) :
    let s' := l.foldl (fun (s : Nat × (Fin n → π)) i =>
      ((op i s.1 (s.2 i)).1, Function.update s.2 i (op i s.1 (s.2 i)).2)) s
    time s'.1 ∧ (∀ i ∈ l, post i (s'.2 i)) ∧ ∀ i ∉ l, s'.2 i = s.2 i := by
  induction l generalizing s with
  | nil => exact ⟨hs, by simp, fun _ _ => rfl⟩
  | cons a l ih =>
    obtain ⟨ha, hl⟩ := List.nodup_cons.1 hl
    obtain ⟨htime, hpost⟩ := hop a s.1 (s.2 a) hs (hpre a List.mem_cons_self)
    have hne : ∀ i ∈ l, i ≠ a := fun i hi hia => ha (hia ▸ hi)
    obtain ⟨hend, hdone, hother⟩ := ih hl (_, Function.update s.2 a (op a s.1 (s.2 a)).2) htime fun i hi => by
      dsimp only
      rw [Function.update_of_ne (hne i hi)]
      exact hpre i (List.mem_cons_of_mem _ hi)
    refine ⟨hend, fun i hi => ?_, fun i hi => ?_⟩
    · rcases List.mem_cons.1 hi with rfl | hi
      · dsimp only at hother ⊢
        rw [List.foldl_cons, hother i ha, Function.update_self]
        exact hpost
      · exact hdone i hi
    · obtain ⟨hia, hil⟩ := List.ne_and_not_mem_of_not_mem_cons hi
      dsimp only at hother ⊢
      rw [List.foldl_cons, hother i hil, Function.update_of_ne hia]

/-- What the operation does on one port, it does on all of them. -/
theorem each_spec (ports : Fin n → π) (time : Nat → Prop) (pre post : Fin n → π → Prop)
    (hop : ∀ i now p, time now → pre i p → time (op i now p).1 ∧ post i (op i now p).2) (hnow : time now)
    (hpre : ∀ i, pre i (ports i)) : time (each op now ports).1 ∧ ∀ i, post i ((each op now ports).2 i) := by
  obtain ⟨hend, hdone, -⟩ := each_list op hop (List.finRange n) (List.nodup_finRange n) (now, ports) hnow
    fun i _ => hpre i
  exact ⟨hend, fun i => hdone i (List.mem_finRange i)⟩

theorem le_each_list (hop : ∀ i now p, now ≤ (op i now p).1) (l : List (Fin n)) (s : Nat × (Fin n → π)) :
    s.1 ≤ (l.foldl (fun (s : Nat × (Fin n → π)) i =>
      ((op i s.1 (s.2 i)).1, Function.update s.2 i (op i s.1 (s.2 i)).2)) s).1 := by
  induction l generalizing s with
  | nil => exact Nat.le_refl _
  | cons a l ih => exact Nat.le_trans (hop a s.1 (s.2 a)) (ih (_, Function.update s.2 a (op a s.1 (s.2 a)).2))

/-- Time does not go back. -/
theorem le_each (hop : ∀ i now p, now ≤ (op i now p).1) : now ≤ (each op now ports).1 :=
  le_each_list op hop (List.finRange n) (now, ports)

/-- An operation on one of the ports takes until `t`, and so do all of them. -/
theorem each_reaches (hop : ∀ i now p, now ≤ (op i now p).1) (i : Fin n) {t : Nat}
    (ht : ∀ now, t ≤ (op i now (ports i)).1) : t ≤ (each op now ports).1 := by
  have hi := List.mem_finRange i
  unfold each
  generalize List.finRange n = l at hi
  induction l generalizing now ports with
  | nil => cases hi
  | cons a l ih =>
    have hrest := fun s => le_each_list op hop l s
    by_cases hia : i = a
    · subst hia
      exact Nat.le_trans (ht now) (hrest (_, Function.update ports i (op i now (ports i)).2))
    · refine ih (fun now => ?_) ((List.mem_cons.1 hi).resolve_left hia)
      dsimp only
      rw [Function.update_of_ne hia]
      exact ht now

end Each

end Port
