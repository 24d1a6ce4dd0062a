import Mathlib.Algebra.Order.Ring.Nat
import Mathlib.Data.List.Sort
import Mathlib.Order.Basic
/-!
# FreeRTOS lists

A `List_t` is a circular doubly linked list with an end marker. Its items are
kept here as the Lean list of their handles, in the order a walk from the
head meets them; `value` is the item value each handle carries. A cursor is
an item or the end marker (`none`).

The primitives behave as the kernel documents them: `vListInsert` keeps the
list sorted by item value and puts the new item behind those of the same
value; the end marker holds the value `portMAX_DELAY` and has no owner.
-/

namespace FreeRtos

/-- The item value of a list's end marker, the largest `TickType_t`. -/
def portMAX_DELAY : Nat := 2 ^ 32 - 1

section Lists
variable {ι : Type*} [DecidableEq ι]

def vListInsert (value : ι → Nat) (item : ι) (list : List ι) : List ι :=
  list.orderedInsert (fun a b => value a < value b) item

def uxListRemove (item : ι) (list : List ι) : List ι := list.erase item

def listGET_HEAD_ENTRY (list : List ι) : Option ι := list.head?

/-- The item behind a cursor: behind the last item comes the end marker, and
behind the end marker the head. -/
def listGET_NEXT (list : List ι) : Option ι → Option ι
  | none => list.head?
  | some item => (list.dropWhile (· ≠ item)).tail.head?

def listGET_LIST_ITEM_VALUE (value : ι → Nat) : Option ι → Nat
  | none => portMAX_DELAY
  | some item => value item

/-- Items in non-decreasing order of item value. -/
def Sorted (value : ι → Nat) (list : List ι) : Prop := list.Pairwise (value · ≤ value ·)

instance (value : ι → Nat) (list : List ι) : Decidable (Sorted value list) := inferInstanceAs (Decidable (list.Pairwise _))

omit [DecidableEq ι] in
theorem vListInsert_perm (value : ι → Nat) (item : ι) (list : List ι) :
    (vListInsert value item list).Perm (item :: list) :=
  List.perm_orderedInsert _ _ _

omit [DecidableEq ι] in
theorem vListInsert_sorted (value : ι → Nat) (item : ι) (list : List ι) (h : Sorted value list) :
    Sorted value (vListInsert value item list) := by
  induction list with
  | nil => simp [Sorted, vListInsert]
  | cons b l ih =>
    obtain ⟨hb, hl⟩ := List.pairwise_cons.1 h
    unfold vListInsert
    rw [List.orderedInsert_cons]
    split
    · rename_i hlt
      refine List.pairwise_cons.2 ⟨fun c hc => ?_, h⟩
      rcases List.mem_cons.1 hc with rfl | hc
      · exact hlt.le
      · exact hlt.le.trans (hb c hc)
    · rename_i hnlt
      refine List.pairwise_cons.2 ⟨fun c hc => ?_, ih hl⟩
      rcases (List.mem_orderedInsert _).1 hc with rfl | hc
      · exact Nat.le_of_not_lt hnlt
      · exact hb c hc

/-- Moving an item to the place of its new value keeps the items. -/
theorem reinsert_perm (value : ι → Nat) (item : ι) (list : List ι) (h : item ∈ list) :
    (vListInsert value item (uxListRemove item list)).Perm list :=
  (vListInsert_perm _ _ _).trans (List.perm_cons_erase h).symm

/-- Moving an item to the place of its new value keeps the order, when only
that item's value changed. -/
theorem reinsert_sorted {value value' : ι → Nat} {item : ι} {list : List ι} (hn : list.Nodup)
    (hv : ∀ j, j ≠ item → value' j = value j) (h : Sorted value list) :
    Sorted value' (vListInsert value' item (uxListRemove item list)) := by
  refine vListInsert_sorted _ _ _ ?_
  have hs : Sorted value (uxListRemove item list) := h.sublist List.erase_sublist
  refine hs.imp_of_mem fun {a b} ha hb hab => ?_
  have hne : ∀ x ∈ uxListRemove item list, x ≠ item := fun x hx => (hn.mem_erase_iff.1 hx).1
  rw [hv a (hne a ha), hv b (hne b hb)]
  exact hab

omit [DecidableEq ι] in
/-- The items up to a value and those of greater ones. -/
theorem Sorted.split {value : ι → Nat} {list : List ι} (h : Sorted value list) (v : Nat) :
    ∃ low high, list = low ++ high ∧ (∀ a ∈ low, value a ≤ v) ∧ ∀ b ∈ high, v < value b := by
  induction list with
  | nil => exact ⟨[], [], rfl, nofun, nofun⟩
  | cons a list ih =>
    obtain ⟨ha, h⟩ := List.pairwise_cons.1 h
    rcases Nat.lt_or_ge v (value a) with hlt | hle
    · refine ⟨[], a :: list, rfl, nofun, List.forall_mem_cons.2 ⟨hlt, fun b hb => ?_⟩⟩
      exact Nat.lt_of_lt_of_le hlt (ha b hb)
    · obtain ⟨low, high, rfl, hlow, hhigh⟩ := ih h
      exact ⟨a :: low, high, rfl, List.forall_mem_cons.2 ⟨hle, hlow⟩, hhigh⟩

/-! ## Where an item stands -/

variable {value : ι → Nat} {item : ι} {before middle after : List ι}

theorem listGET_NEXT_append (hn : (before ++ item :: after).Nodup) :
    listGET_NEXT (before ++ item :: after) (some item) = after.head? := by
  induction before with
  | nil => simp [listGET_NEXT]
  | cons a before ih =>
    obtain ⟨ha, hn⟩ := List.nodup_cons.1 hn
    have hne : a ≠ item := fun heq => ha (heq ▸ List.mem_append_right _ List.mem_cons_self)
    rw [← ih hn, listGET_NEXT, listGET_NEXT, List.cons_append, List.dropWhile_cons_of_pos (by simpa using hne)]

omit [DecidableEq ι] in
theorem vListInsert_append (hbefore : ∀ a ∈ before, value a ≤ value item) (hafter : ∀ b ∈ after, value item < value b) :
    vListInsert value item (before ++ after) = before ++ item :: after := by
  unfold vListInsert
  induction before with
  | nil =>
    rcases after with _ | ⟨b, after⟩
    · rfl
    · exact List.orderedInsert_cons_of_le _ _ (hafter b List.mem_cons_self)
  | cons a before ih =>
    obtain ⟨ha, hbefore⟩ := List.forall_mem_cons.1 hbefore
    rw [List.cons_append, List.orderedInsert_cons, if_neg (Nat.not_lt_of_le ha), ih hbefore]
    rfl

/-- An item whose value has grown goes behind those that it is no longer less than. -/
theorem reinsert_eq (hn : (before ++ item :: (middle ++ after)).Nodup)
    (hbefore : ∀ a ∈ before ++ middle, value a ≤ value item) (hafter : ∀ b ∈ after, value item < value b) :
    vListInsert value item (uxListRemove item (before ++ item :: (middle ++ after))) =
      before ++ middle ++ item :: after := by
  have hnot : item ∉ before := fun h => (List.nodup_append.1 hn).2.2 _ h _ List.mem_cons_self rfl
  rw [uxListRemove, List.erase_append_right _ hnot, List.erase_cons_head, ← List.append_assoc]
  exact vListInsert_append hbefore hafter

end Lists

end FreeRtos
