import Mathlib.Data.Nat.ModEq
import Mathlib.Logic.Function.Basic
/-!
# Ring buffers

A ring of `size` cells is a memory whose cells are used modulo `size`. The
positions of what is stored are true counts that never wrap.
-/

namespace Ring
variable {α : Type*} {buf : Nat → α} {size start : Nat} {data : List α}

/-- The cells from position `start` on hold `data`. -/
def Holds (buf : Nat → α) (size start : Nat) (data : List α) : Prop :=
  ∀ k (h : k < data.length), buf ((start + k) % size) = data[k]

theorem holds_nil : Holds buf size start [] := fun _ h => absurd h (Nat.not_lt_zero _)

/-- Different positions within one turn are different cells. -/
theorem index_ne {j k : Nat} (hj : j < size) (hk : k < size) (hne : j ≠ k) : (start + j) % size ≠ (start + k) % size := by
  intro h
  have hmod : j ≡ k [MOD size] := Nat.ModEq.add_left_cancel' start h
  rw [Nat.ModEq, Nat.mod_eq_of_lt hj, Nat.mod_eq_of_lt hk] at hmod
  exact hne hmod

/-- Storing behind the data does not disturb it while there is room. -/
theorem Holds.push {x : α} (h : Holds buf size start data) (hroom : data.length < size) :
    Holds (Function.update buf ((start + data.length) % size) x) size start (data ++ [x]) := by
  intro k hk
  rw [List.length_append, List.length_singleton] at hk
  rcases Nat.lt_or_ge k data.length with hlt | hge
  · rw [List.getElem_append_left hlt, Function.update_of_ne (index_ne (hlt.trans hroom) hroom hlt.ne), h k hlt]
  · obtain rfl : k = data.length := by omega
    simp

theorem Holds.drop (h : Holds buf size start data) (n : Nat) : Holds buf size (start + n) (data.drop n) := by
  intro k hk
  rw [List.length_drop] at hk
  rw [List.getElem_drop, ← h (n + k) (by omega), Nat.add_assoc]

theorem Holds.append_left {l : List α} (h : Holds buf size start (data ++ l)) : Holds buf size start data := by
  intro k hk
  rw [h k (by rw [List.length_append]; omega), List.getElem_append_left hk]

/-- Going on from an index within the ring. -/
theorem index_add {index n k : Nat} (hindex : index = (start + n) % size) (hk : index + k < size) :
    index + k = (start + (n + k)) % size := by
  rw [← Nat.add_assoc, Nat.add_mod, ← hindex]
  have hindex' : index % size = index := Nat.mod_eq_of_lt (by omega)
  have hk' : k % size = k := Nat.mod_eq_of_lt (by omega)
  rw [hk', Nat.mod_eq_of_lt hk]

/-- An index that is moved on, and back to the front at the end. -/
theorem index_wrap {index n k : Nat} (hindex : index = (start + n) % size) (hk : index + k ≤ size) :
    (if size ≤ index + k then 0 else index + k) = (start + (n + k)) % size := by
  split
  · have heq : index + k = size := by omega
    rw [← Nat.add_assoc, Nat.add_mod, ← hindex]
    by_cases hk0 : k < size
    · rw [Nat.mod_eq_of_lt hk0, heq, Nat.mod_self]
    · obtain rfl : k = size := by omega
      obtain rfl : index = 0 := by omega
      simp
  · exact index_add hindex (by omega)

end Ring
