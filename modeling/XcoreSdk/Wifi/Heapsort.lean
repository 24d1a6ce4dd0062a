import XcoreSdk.Lib.Heap
/-!
# Heapsort

The macros of `heapsort.h` sort whatever `compare` and `swap` work on, at the
indexes below a length. `compare` is negative exactly for a smaller key.
-/

namespace Wifi
variable {δ : Type*} (compare : δ → Nat → Nat → Int) (swap : δ → Nat → Nat → δ)

def left_child_index (root : Nat) : Nat := 2 * root + 1

def right_sibling_index (left : Nat) : Nat := left + 1

/-- The child that `sift_down` compares with. -/
def child_index (last : Nat) (data : δ) (left : Nat) : Nat :=
  if right_sibling_index left ≤ last ∧ compare data left (right_sibling_index left) < 0 then right_sibling_index left
  else left

/-- The loop of `sift_down`, which gets to a greater index each time. -/
def sift_loop (last : Nat) : Nat → δ → Nat → δ
  | 0, data, _ => data
  | fuel + 1, data, root =>
    if left_child_index root ≤ last then
      let child := child_index compare last data (left_child_index root)
      if compare data root child < 0 then sift_loop last fuel (swap data root child) child else data
    else data

def sift_down (data : δ) (first last : Nat) : δ := sift_loop compare swap last (last + 1) data first

/-- The loop of `heapify` from index `count - 1` down. -/
def heapify (last : Nat) : Nat → δ → δ
  | 0, data => data
  | i + 1, data => heapify last i (sift_down compare swap data i last)

/-- The loop of `heapsort`. -/
def extract : Nat → δ → δ
  | 0, data => data
  | last + 1, data => extract last (sift_down compare swap (swap data (last + 1) 0) 0 last)

def heapsort (data : δ) (length : Nat) : δ :=
  extract compare swap (length - 1) (heapify compare swap (length - 1) (length / 2) data)

/-! ## What it does -/

open BinaryHeap
variable {κ : Type*} [LinearOrder κ] (key : δ → Nat → κ)

structure Keyed : Prop where
  compare : ∀ data a b, compare data a b < 0 ↔ key data a < key data b
  swap : ∀ data a b, key (swap data a b) = key data ∘ Equiv.swap a b

/-- Swaps at indexes below `n`. -/
inductive Swaps (n : Nat) : δ → δ → Prop
  | refl (data : δ) : Swaps n data data
  | snoc {data data' : δ} (a b : Nat) : Swaps n data data' → a < n → b < n → Swaps n data (swap data' a b)

variable {compare swap key} {data data' data'' : δ} {n m first last : Nat}

theorem Swaps.trans (h : Swaps swap n data data') (h' : Swaps swap n data' data'') : Swaps swap n data data'' := by
  induction h' with
  | refl => exact h
  | snoc a b _ ha hb ih => exact .snoc a b ih ha hb

theorem Swaps.mono (h : Swaps swap n data data') (hnm : n ≤ m) : Swaps swap m data data' := by
  induction h with
  | refl => exact .refl _
  | snoc a b _ ha hb ih => exact .snoc a b ih (by omega) (by omega)

theorem Swaps.single (a b : Nat) (ha : a < n) (hb : b < n) : Swaps swap n data (swap data a b) :=
  .snoc a b (.refl data) ha hb

/-- A permutation of the indexes below `n`, of all that `swap` swaps. -/
theorem Swaps.perm {γ : Type*} {f : δ → Nat → γ} (hf : ∀ data a b, f (swap data a b) = f data ∘ Equiv.swap a b)
    (h : Swaps swap n data data') : ∃ σ : Equiv.Perm Nat, (∀ i, n ≤ i → σ i = i) ∧ f data' = f data ∘ σ := by
  induction h with
  | refl => exact ⟨.refl _, fun _ _ => rfl, rfl⟩
  | snoc a b _ ha hb ih =>
    obtain ⟨σ, hσ, heq⟩ := ih
    refine ⟨(Equiv.swap a b).trans σ, fun i hi => ?_, ?_⟩
    · rw [Equiv.trans_apply, Equiv.swap_apply_of_ne_of_ne (by omega) (by omega), hσ i hi]
    · rw [hf, heq]
      rfl

theorem perm_lt {σ : Equiv.Perm Nat} (hσ : ∀ i, n ≤ i → σ i = i) {i : Nat} (hi : i < n) : σ i < n := by
  by_contra hge
  have := σ.injective (hσ (σ i) (by omega))
  omega

/-- What holds of all elements below `n` holds of them after the swaps, and the others are as they were. -/
theorem Swaps.keys (hk : Keyed compare swap key) (h : Swaps swap n data data') :
    (∀ i, n ≤ i → key data' i = key data i) ∧ ∀ i, i < n → ∃ j, j < n ∧ key data' i = key data j := by
  obtain ⟨σ, hσ, heq⟩ := h.perm hk.swap
  refine ⟨fun i hi => ?_, fun i hi => ⟨σ i, perm_lt hσ hi, congrFun heq i⟩⟩
  rw [heq, Function.comp_apply, hσ i hi]

theorem child_spec (hk : Keyed compare swap key) (data : δ) (root : Nat) (hleft : left_child_index root ≤ last) :
    Child (child_index compare last data (left_child_index root)) root ∧
      child_index compare last data (left_child_index root) ≤ last ∧
      ∀ c, Child c root → c ≤ last → key data c ≤ key data (child_index compare last data (left_child_index root)) := by
  unfold child_index
  split
  · rename_i hright
    rw [hk.compare] at hright
    refine ⟨.inr rfl, hright.1, fun c hc _ => ?_⟩
    rcases hc with rfl | rfl
    · exact le_of_lt hright.2
    · exact le_refl _
  · rename_i hright
    rw [hk.compare] at hright
    refine ⟨.inl rfl, hleft, fun c hc hcl => ?_⟩
    rcases hc with rfl | rfl
    · exact le_refl _
    · exact not_lt.1 fun hlt => hright ⟨hcl, hlt⟩

theorem sift_loop_spec (hk : Keyed compare swap key) (fuel : Nat) (data : δ) (root : Nat) (hfuel : last < root + fuel)
    (h : Sifting (key data) first last root) :
    HeapFrom (key (sift_loop compare swap last fuel data root)) first last ∧
      Swaps swap (last + 1) data (sift_loop compare swap last fuel data root) := by
  induction fuel generalizing data root with
  | zero => exact ⟨h.heap fun c hc hcl => absurd hc.lt (by omega), .refl _⟩
  | succ fuel ih =>
    simp only [sift_loop]
    split
    · rename_i hleft
      obtain ⟨hc, hcl, hmax⟩ := child_spec hk data root hleft
      generalize child_index compare last data (left_child_index root) = child at hc hcl hmax ⊢
      have := hc.lt
      split
      · rename_i hlt
        rw [hk.compare] at hlt
        have hsift := h.swap hc hcl (le_of_lt hlt) hmax
        rw [← hk.swap] at hsift
        obtain ⟨hheap, hswaps⟩ := ih _ _ (by omega) hsift
        exact ⟨hheap, (Swaps.single root child (by omega) (by omega)).trans hswaps⟩
      · rename_i hge
        rw [hk.compare] at hge
        exact ⟨h.heap fun c hc hcl => le_trans (hmax c hc hcl) (not_lt.1 hge), .refl _⟩
    · rename_i hleft
      simp only [left_child_index] at hleft
      refine ⟨h.heap fun c hc hcl => ?_, .refl _⟩
      rcases hc with rfl | rfl <;> omega

theorem sift_down_spec (hk : Keyed compare swap key) (h : Sifting (key data) first last first) :
    HeapFrom (key (sift_down compare swap data first last)) first last ∧
      Swaps swap (last + 1) data (sift_down compare swap data first last) :=
  sift_loop_spec hk _ _ _ (by omega) h

theorem heapify_spec (hk : Keyed compare swap key) (count : Nat) (data : δ) (h : HeapFrom (key data) count last) :
    HeapFrom (key (heapify compare swap last count data)) 0 last ∧
      Swaps swap (last + 1) data (heapify compare swap last count data) := by
  induction count generalizing data with
  | zero => exact ⟨h, .refl _⟩
  | succ i ih =>
    obtain ⟨hheap, hswaps⟩ := sift_down_spec hk h.sifting
    obtain ⟨hheap', hswaps'⟩ := ih _ hheap
    exact ⟨hheap', hswaps.trans hswaps'⟩

/-- A heap, and behind it what has been extracted, the greatest last. -/
structure Extracted (key : δ → Nat → κ) (data : δ) (last length : Nat) : Prop where
  heap : HeapFrom (key data) 0 last
  sorted : ∀ i j, last < i → i ≤ j → j < length → key data i ≤ key data j
  below : ∀ i j, i ≤ last → last < j → j < length → key data i ≤ key data j

theorem Extracted.step (hk : Keyed compare swap key) (h : Extracted key data (last + 1) n) (hlast : last + 1 < n) :
    Extracted key (sift_down compare swap (swap data (last + 1) 0) 0 last) last n ∧
      Swaps swap n data (sift_down compare swap (swap data (last + 1) 0) 0 last) := by
  have hsift : Sifting (key (swap data (last + 1) 0)) 0 last 0 := by
    rw [hk.swap]
    exact h.heap.swap_root
  obtain ⟨hheap, hswaps⟩ := sift_down_spec hk hsift
  obtain ⟨hsame, hfrom⟩ := hswaps.keys hk
  have hroot : key (swap data (last + 1) 0) (last + 1) = key data 0 := by
    rw [hk.swap, Function.comp_apply, Equiv.swap_apply_left]
  have hbehind : ∀ j, last + 1 < j → key (swap data (last + 1) 0) j = key data j := fun j hj => by
    rw [hk.swap, Function.comp_apply, Equiv.swap_apply_of_ne_of_ne (by omega) (by omega)]
  -- The greatest element of the heap is now the first of what has been extracted.
  have hheap_le : ∀ i, i ≤ last → ∃ i', i' ≤ last + 1 ∧ key (swap data (last + 1) 0) i = key data i' := fun i hi => by
    rw [hk.swap, Function.comp_apply]
    by_cases hzero : i = 0
    · exact ⟨last + 1, Nat.le_refl _, by rw [hzero, Equiv.swap_apply_right]⟩
    · exact ⟨i, by omega, by rw [Equiv.swap_apply_of_ne_of_ne (by omega) hzero]⟩
  refine ⟨⟨hheap, fun i j hi hij hj => ?_, fun i j hi hj hjn => ?_⟩,
    (Swaps.single (last + 1) 0 hlast (by omega)).trans (hswaps.mono (by omega))⟩
  · rw [hsame i (by omega), hsame j (by omega)]
    by_cases hfirst : i = last + 1
    · subst hfirst
      rw [hroot]
      by_cases hij' : j = last + 1
      · rw [hij', hroot]
      · rw [hbehind j (by omega)]
        exact h.below 0 j (Nat.zero_le _) (by omega) hj
    · rw [hbehind i (by omega), hbehind j (by omega)]
      exact h.sorted i j (by omega) hij hj
  · obtain ⟨i₁, hi₁, heq₁⟩ := hfrom i (by omega)
    obtain ⟨i₂, hi₂, heq₂⟩ := hheap_le i₁ (by omega)
    rw [heq₁, heq₂, hsame j (by omega)]
    by_cases hfirst : j = last + 1
    · rw [hfirst, hroot]
      exact h.heap.le_root i₂ hi₂
    · rw [hbehind j (by omega)]
      exact h.below i₂ j hi₂ (by omega) hjn

theorem extract_spec (hk : Keyed compare swap key) (last : Nat) (data : δ) (h : Extracted key data last n)
    (hlast : last < n) : (∀ i j, i ≤ j → j < n → key (extract compare swap last data) i ≤ key (extract compare swap last data) j) ∧
      Swaps swap n data (extract compare swap last data) := by
  induction last generalizing data with
  | zero =>
    refine ⟨fun i j hij hj => ?_, .refl _⟩
    by_cases hi : i = 0
    · subst hi
      by_cases hj0 : j = 0
      · rw [hj0]
      · exact h.below 0 j (Nat.le_refl _) (by omega) hj
    · exact h.sorted i j (by omega) hij hj
  | succ last ih =>
    obtain ⟨hstep, hswaps⟩ := h.step hk hlast
    obtain ⟨hsorted, hswaps'⟩ := ih _ hstep (by omega)
    exact ⟨hsorted, hswaps.trans hswaps'⟩

/-- `heapsort` sorts by the keys, the smallest first. -/
theorem heapsort_spec (hk : Keyed compare swap key) (data : δ) (length : Nat) :
    (∀ i j, i ≤ j → j < length → key (heapsort compare swap data length) i ≤ key (heapsort compare swap data length) j) ∧
      Swaps swap length data (heapsort compare swap data length) := by
  by_cases hzero : length = 0
  · subst hzero
    exact ⟨fun i j _ hj => absurd hj (Nat.not_lt_zero j), .refl _⟩
  · have hleaves : HeapFrom (key data) (length / 2) (length - 1) := fun p c hp hc hcl => by
      rcases hc with rfl | rfl <;> omega
    obtain ⟨hheap, hswaps⟩ := heapify_spec hk (length / 2) data hleaves
    have hextracted : Extracted key (heapify compare swap (length - 1) (length / 2) data) (length - 1) length :=
      ⟨hheap, fun i j hi _ hj => by omega, fun i j _ hi hj => by omega⟩
    obtain ⟨hsorted, hswaps'⟩ := extract_spec hk (length - 1) _ hextracted (by omega)
    exact ⟨hsorted, (hswaps.mono (by omega)).trans hswaps'⟩

end Wifi
