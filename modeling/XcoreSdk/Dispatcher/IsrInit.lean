import Mathlib.Algebra.Order.Ring.Nat
import Mathlib.Data.Finset.Card
import Mathlib.Data.Finset.Range
import Mathlib.Data.List.Basic
/-!
# Groups, and the workers' cores

`dispatch_group_create` and `dispatch_group_job_add` make a group, and
`dispatcher_isr_init` sets up a worker on each core of the map.
-/

namespace Dispatcher

/-! ## Groups -/

/-- A group with room for `length` jobs. -/
structure Group (J : Type*) where
  length : Nat
  /-- The jobs up to `count`. -/
  jobs : List J
  length_pos : 0 < length
  count_le : jobs.length ≤ length

variable {J : Type*}

def Group.count (group : Group J) : Nat := group.jobs.length

def dispatch_group_create (length : Nat) : Option (Group J) :=
  if h : 0 < length then some ⟨length, [], h, Nat.zero_le _⟩ else none

def dispatch_group_job_add (group : Group J) (job : J) : Option (Group J) :=
  if h : group.count < group.length then
    some { group with jobs := group.jobs ++ [job], count_le := by rw [List.length_append]; exact h }
  else none

/-- Every such group is made by `dispatch_group_create` and `dispatch_group_job_add`. -/
theorem group_made (group : Group J) :
    (dispatch_group_create group.length).bind (fun new => group.jobs.foldlM dispatch_group_job_add new) = some group := by
  have hadd : ∀ (rest : List J) (made : Group J), made.jobs ++ rest = group.jobs → made.length = group.length →
      rest.foldlM dispatch_group_job_add made = some group := by
    intro rest
    induction rest with
    | nil =>
      intro made hjobs hlength
      obtain ⟨length, jobs, hpos, hle⟩ := made
      obtain ⟨length', jobs', hpos', hle'⟩ := group
      rw [List.append_nil] at hjobs
      subst hjobs hlength
      rfl
    | cons job rest ih =>
      intro made hjobs hlength
      have hroom : made.count < made.length := by
        have hle := group.count_le
        rw [← hjobs, ← hlength, List.length_append, List.length_cons] at hle
        unfold Group.count
        omega
      rw [List.foldlM_cons, dispatch_group_job_add, dif_pos hroom]
      exact ih _ (by rw [List.append_assoc]; exact hjobs) hlength
  rw [dispatch_group_create, dif_pos group.length_pos]
  exact hadd group.jobs _ rfl rfl

namespace Isr

/-! ## The cores -/

/-- `__builtin_clz`, of anything but 0. -/
def builtin_clz (x : BitVec 32) : Nat := 31 - x.toNat.log2

/-- The highest core of the map. -/
def core_id (pending : BitVec 32) : Nat := 31 - builtin_clz pending

def clear (pending : BitVec 32) (core : Nat) : BitVec 32 := pending &&& ~~~(1#32 <<< core)

end Isr
end Dispatcher
