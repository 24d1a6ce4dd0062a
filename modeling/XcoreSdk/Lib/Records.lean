import Mathlib.Data.List.Basic
import Mathlib.Algebra.Order.Ring.Nat
/-!
# Records of one size, laid end to end

Where all records have the same length, the record with index `i` starts at `i`
times that length. Reading, replacing and cutting off at such places is reading,
replacing and cutting off records.
-/

namespace Records

variable {α : Type*} {n i : Nat} {l : List (List α)} {r : List α}

/-- Every record has `n` elements. -/
def Sized (n : Nat) (l : List (List α)) : Prop := ∀ r ∈ l, r.length = n

theorem Sized.tail (h : Sized n (r :: l)) : Sized n l := fun _ hr => h _ (List.mem_cons_of_mem _ hr)

theorem Sized.set (h : Sized n l) (hr : r.length = n) : Sized n (l.set i r) := by
  intro q hq
  rcases List.mem_or_eq_of_mem_set hq with hq | rfl
  · exact h q hq
  · exact hr

theorem Sized.length_flatten (h : Sized n l) : l.flatten.length = l.length * n := by
  induction l with
  | nil => simp
  | cons r l ih =>
    rw [List.flatten_cons, List.length_append, h r (List.mem_cons_self ..), ih h.tail, List.length_cons,
      Nat.succ_mul, Nat.add_comm]

theorem Sized.take_flatten (h : Sized n l) (i : Nat) : l.flatten.take (i * n) = (l.take i).flatten := by
  induction l generalizing i with
  | nil => simp
  | cons r l ih =>
    cases i with
    | zero => simp
    | succ i =>
      have hr : r.length = n := h r (List.mem_cons_self ..)
      have hi : (i + 1) * n = r.length + i * n := by rw [hr, Nat.succ_mul, Nat.add_comm]
      rw [List.flatten_cons, hi, List.take_length_add_append, ih h.tail, List.take_succ_cons, List.flatten_cons]

theorem Sized.drop_flatten (h : Sized n l) (i : Nat) : l.flatten.drop (i * n) = (l.drop i).flatten := by
  induction l generalizing i with
  | nil => simp
  | cons r l ih =>
    cases i with
    | zero => simp
    | succ i =>
      have hr : r.length = n := h r (List.mem_cons_self ..)
      have hi : (i + 1) * n = r.length + i * n := by rw [hr, Nat.succ_mul, Nat.add_comm]
      rw [List.flatten_cons, hi, List.drop_length_add_append, ih h.tail, List.drop_succ_cons]

theorem Sized.read (h : Sized n l) (hi : i < l.length) : (l.flatten.drop (i * n)).take n = l[i] := by
  rw [h.drop_flatten, List.drop_eq_getElem_cons hi, List.flatten_cons,
    List.take_left' (h _ (List.getElem_mem hi))]

theorem Sized.replace (h : Sized n l) (hi : i < l.length) :
    l.flatten.take (i * n) ++ r ++ l.flatten.drop (i * n + n) = (l.set i r).flatten := by
  have hnext : i * n + n = (i + 1) * n := (Nat.succ_mul i n).symm
  rw [hnext, h.take_flatten, h.drop_flatten, List.set_eq_take_append_cons_drop, if_pos hi]
  simp

variable {pre rest : List (List α)} {buf : List α} {k : Nat}

/-- The first elements of a record are overwritten. -/
theorem Sized.overwrite (h : Sized n (pre ++ r :: rest)) (hbuf : buf.length = n) (k : Nat) :
    Sized n (pre ++ (buf.take k ++ r.drop k) :: rest) := by
  have hr : r.length = n := h r (by simp)
  have hnew : (buf.take k ++ r.drop k).length = n := by
    rw [List.length_append, List.length_take, List.length_drop]
    omega
  have hset : pre ++ (buf.take k ++ r.drop k) :: rest = (pre ++ r :: rest).set pre.length (buf.take k ++ r.drop k) := by
    simp
  rw [hset]
  exact h.set hnew

theorem Sized.flatten_overwrite (h : Sized n (pre ++ r :: rest)) (hk : k ≤ n) :
    (pre ++ r :: rest).flatten.take (pre.length * n) ++ buf.take k ++
        (pre ++ r :: rest).flatten.drop (pre.length * n + k) =
      (pre ++ (buf.take k ++ r.drop k) :: rest).flatten := by
  have hr : k ≤ r.length := by rwa [h r (by simp)]
  rw [h.take_flatten, ← List.drop_drop, h.drop_flatten, List.take_left, List.drop_left, List.flatten_cons,
    List.drop_append_of_le_length hr]
  simp

theorem Sized.flatten_injective {l l' : List (List α)} (h : Sized n l) (h' : Sized n l') (hn : 0 < n)
    (heq : l.flatten = l'.flatten) : l = l' := by
  have hlen : l.length = l'.length := by
    have hsize := congrArg List.length heq
    rw [h.length_flatten, h'.length_flatten] at hsize
    exact Nat.eq_of_mul_eq_mul_right hn hsize
  refine List.ext_getElem hlen fun i hi hi' => ?_
  rw [← h.read hi, ← h'.read hi', heq]

/-- Anything as long as a number of records is that many records. -/
theorem exists_sized (n : Nat) (data : List α) (k : Nat) (h : data.length = k * n) :
    ∃ l, Sized n l ∧ l.length = k ∧ data = l.flatten := by
  induction k generalizing data with
  | zero => exact ⟨[], fun r hr => absurd hr List.not_mem_nil, rfl, by simpa using h⟩
  | succ k ih =>
    have hn : n ≤ data.length := by rw [h, Nat.succ_mul]; omega
    obtain ⟨l, hl, rfl, hdata⟩ := ih (data.drop n) (by rw [List.length_drop, h, Nat.succ_mul]; omega)
    refine ⟨data.take n :: l, ?_, rfl, ?_⟩
    · intro r hr
      rcases List.mem_cons.1 hr with rfl | hr
      · rw [List.length_take, Nat.min_eq_left hn]
      · exact hl r hr
    · rw [List.flatten_cons, ← hdata, List.take_append_drop]

end Records
