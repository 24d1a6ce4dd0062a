import XcoreSdk.Wifi.ApCache
import Mathlib.Data.Set.Function
import Mathlib.Data.Int.Order.Basic
import Mathlib.Order.WithBot
import Mathlib.Order.Interval.Set.Defs
/-!
# What a scan does to the cache

During a scan the active entries stay the first ones, until some have become too
old. Then `heapsort`, for which an inactive entry comes after all others, makes
them the first ones again.
-/

namespace Wifi
variable {s s' : ScanList} {k : Nat}

/-! ## Pointers -/

/-- Every entry has one pointer to it. -/
def Pointers (s : ScanList) : Prop := Set.BijOn s.sorted_aps (Set.Iio CACHED_AP_COUNT) (Set.Iio CACHED_AP_COUNT)

theorem ap_set_ap (h : Pointers s) {i j : Nat} (hi : i < CACHED_AP_COUNT) (hj : j < CACHED_AP_COUNT) (ap : ApInfo) :
    (s.set_ap i ap).ap j = if j = i then ap else s.ap j := by
  unfold ScanList.ap ScanList.set_ap
  dsimp only
  split
  · rename_i heq
    rw [heq, Function.update_self]
  · rename_i hne
    exact Function.update_of_ne (fun heq => hne (h.injOn hj hi heq)) ..

@[simp]
theorem set_ap_self (s : ScanList) (i : Nat) (ap : ApInfo) : (s.set_ap i ap).ap i = ap := by
  simp [ScanList.ap, ScanList.set_ap]

theorem Pointers.set_ap (h : Pointers s) (i : Nat) (ap : ApInfo) : Pointers (s.set_ap i ap) := h

/-- The first `k` entries are active and the others are not. -/
structure Prefix (s : ScanList) (k : Nat) : Prop where
  pointers : Pointers s
  le : k ≤ CACHED_AP_COUNT
  active : ∀ i, i < k → 0 < (s.ap i).age
  inactive : ∀ i, k ≤ i → i < CACHED_AP_COUNT → (s.ap i).age = 0

/-- Writing an active entry that stays active. -/
theorem Prefix.set_ap (h : Prefix s k) {i : Nat} {ap : ApInfo} (hi : i < k) (hage : 0 < ap.age) :
    Prefix (s.set_ap i ap) k := by
  have hle := h.le
  refine ⟨h.pointers, h.le, fun j hj => ?_, fun j hj hjl => ?_⟩
  · rw [ap_set_ap h.pointers (by omega) (by omega)]
    split
    · exact hage
    · exact h.active j hj
  · rw [ap_set_ap h.pointers (by omega) hjl, if_neg (by omega)]
    exact h.inactive j hj hjl

/-! ## Growing older -/

theorem int_eq {x : Int} (h0 : 0 ≤ x) (h : x < 2 ^ 31) : int x = x := by
  unfold int
  exact Int.bmod_eq_of_le (by omega) (by omega)

/-- The assertion holds for every active entry. -/
theorem age_aps_spec (h : Prefix s k) (n : Nat) (hn : n ≤ k) : ∃ s', age_aps n s = some s' ∧ Pointers s' ∧
    s'.ap_cache_count = s.ap_cache_count ∧ ∀ i, i < CACHED_AP_COUNT →
      s'.ap i = if i < n then { s.ap i with age := int ((s.ap i).age + 1) } else s.ap i := by
  induction n with
  | zero => exact ⟨s, rfl, h.pointers, rfl, fun _ _ => rfl⟩
  | succ n ih =>
    obtain ⟨s', hs', hpointers, hcount, hap⟩ := ih (by omega)
    have hle := h.le
    have hn' : n < CACHED_AP_COUNT := by omega
    have hsame : s'.ap n = s.ap n := by rw [hap n hn', if_neg (Nat.lt_irrefl n)]
    refine ⟨s'.set_ap n { s'.ap n with age := int ((s'.ap n).age + 1) }, ?_, hpointers, hcount, fun i hi => ?_⟩
    · simp only [age_aps, hs', Option.bind_some, gt_iff_lt, hsame, h.active n (by omega), if_true]
    · rw [ap_set_ap hpointers hn' hi, hsame, hap i hi]
      by_cases heq : i = n
      · rw [if_pos heq, if_pos (by omega), heq]
      · by_cases hlt : i < n
        · rw [if_neg heq, if_pos hlt, if_pos (by omega)]
        · rw [if_neg heq, if_neg hlt, if_neg (by omega)]

/-- As long as no age overflows. -/
theorem Prefix.older (h : Prefix s k) (hyoung : ∀ i, i < k → (s.ap i).age < 2 ^ 31 - 1) (hpointers : Pointers s')
    (hap : ∀ i, i < CACHED_AP_COUNT →
      s'.ap i = if i < k then { s.ap i with age := int ((s.ap i).age + 1) } else s.ap i) : Prefix s' k := by
  have hle := h.le
  refine ⟨hpointers, h.le, fun i hi => ?_, fun i hi hil => ?_⟩
  · have hpos := h.active i hi
    have hlt := hyoung i hi
    rw [hap i (by omega), if_pos hi]
    dsimp only
    rw [int_eq (by omega) (by omega)]
    omega
  · rw [hap i hil, if_neg (by omega)]
    exact h.inactive i hi hil

/-! ## Taking the results -/

@[simp]
theorem update_ap_rssi_age (ap : ApInfo) (rssi : Int8) : (update_ap_rssi ap rssi).age = ap.age := rfl

@[simp]
theorem update_ap_rssi_bssid (ap : ApInfo) (rssi : Int8) : (update_ap_rssi ap rssi).bssid = ap.bssid := rfl

/-- Whether the cache knew an access point before the scan. -/
def known (s : ScanList) (bssid : Bssid) : Bool := (List.range s.ap_cache_count).any fun i => bssid = (s.ap i).bssid

/-- An entry of this scan. -/
def Held (s : ScanList) (k : Nat) (bssid : Bssid) : Prop := ∃ i, i < k ∧ (s.ap i).bssid = bssid ∧ (s.ap i).age = 1

/-- The cache in the course of a scan that began with `s`. -/
structure Scanning (s s' : ScanList) (k : Nat) : Prop where
  pref : Prefix s' k
  count : s'.ap_cache_count = s.ap_cache_count
  count_le : s.ap_cache_count ≤ k
  bssid : ∀ i, i < s.ap_cache_count → (s'.ap i).bssid = (s.ap i).bssid

theorem Scanning.find_none {r : ScanResult} (h : Scanning s s' k) (hnew : known s r.ucBSSID = false) :
    find_ap_in_cache s' r = none := by
  unfold find_ap_in_cache
  rw [List.find?_eq_none]
  intro i hi hfound
  rw [decide_eq_true_eq] at hfound
  rw [h.count] at hi
  rw [h.bssid i (List.mem_range.1 hi)] at hfound
  unfold known at hnew
  rw [List.any_eq_false] at hnew
  exact hnew i hi (by simpa using hfound.2)

theorem Scanning.find_some {r : ScanResult} (h : Scanning s s' k) (hknown : known s r.ucBSSID = true) :
    ∃ i, find_ap_in_cache s' r = some i ∧ i < s.ap_cache_count ∧ (s'.ap i).bssid = r.ucBSSID := by
  unfold known at hknown
  rw [List.any_eq_true] at hknown
  obtain ⟨i, hi, hbssid⟩ := hknown
  rw [decide_eq_true_eq] at hbssid
  have hi' := List.mem_range.1 hi
  cases hfind : find_ap_in_cache s' r with
  | none =>
    unfold find_ap_in_cache at hfind
    rw [List.find?_eq_none] at hfind
    have hle := h.count_le
    exact absurd (by simpa [h.bssid i hi'] using ⟨h.pref.active i (by omega), hbssid⟩)
      (hfind i (by rw [h.count]; exact hi))
  | some j =>
    unfold find_ap_in_cache at hfind
    have hprop := List.find?_some hfind
    have hmem := List.mem_of_find?_eq_some hfind
    rw [decide_eq_true_eq] at hprop
    rw [h.count] at hmem
    exact ⟨j, rfl, List.mem_range.1 hmem, hprop.2.symm⟩

theorem Scanning.update_at {i : Nat} (h : Scanning s s' k) (r : ScanResult) (hi : i < s.ap_cache_count) (j : Nat)
    (hj : j < CACHED_AP_COUNT) : (update_ap_in_cache s' r i).ap j =
      if j = i then update_ap_rssi { s'.ap i with age := 1, channel := r.cChannel } r.cRSSI else s'.ap j := by
  have hle := h.count_le
  have hlek := h.pref.le
  exact ap_set_ap h.pref.pointers (by omega) hj _

/-- An entry that was found again. -/
theorem Scanning.update {r : ScanResult} {i : Nat} (h : Scanning s s' k) (hi : i < s.ap_cache_count)
    (hbssid : (s'.ap i).bssid = r.ucBSSID) :
    Scanning s (update_ap_in_cache s' r i) k ∧ Held (update_ap_in_cache s' r i) k r.ucBSSID ∧
      ∀ b, Held s' k b → Held (update_ap_in_cache s' r i) k b := by
  have hle := h.count_le
  have hlek := h.pref.le
  have hap := h.update_at r hi
  have hkeep : ∀ j, j < CACHED_AP_COUNT → ((update_ap_in_cache s' r i).ap j).bssid = (s'.ap j).bssid := fun j hj => by
    rw [hap j hj]
    split
    · rename_i heq
      rw [heq]
      rfl
    · rfl
  refine ⟨⟨h.pref.set_ap (by omega) Int.one_pos, h.count, h.count_le, fun j hj => ?_⟩, ?_, ?_⟩
  · rw [hkeep j (by omega)]
    exact h.bssid j hj
  · refine ⟨i, by omega, (hkeep i (by omega)).trans hbssid, ?_⟩
    rw [hap i (by omega), if_pos rfl]
    rfl
  · rintro b ⟨j, hj, hb, hage⟩
    refine ⟨j, hj, (hkeep j (by omega)).trans hb, ?_⟩
    rw [hap j (by omega)]
    split
    · rfl
    · exact hage

theorem Scanning.add_at (h : Scanning s s' k) (r : ScanResult) (hroom : k < CACHED_AP_COUNT) :
    ∃ ap : ApInfo, add_ap_to_cache s' r = s'.set_ap k ap ∧ ap.age = 1 ∧ ap.bssid = r.ucBSSID ∧
      ∀ j, j < CACHED_AP_COUNT → (add_ap_to_cache s' r).ap j = if j = k then ap else s'.ap j := by
  have hfind : (List.range CACHED_AP_COUNT).find? (fun i => (s'.ap i).age = 0) = some k := by
    rw [List.find?_range_eq_some]
    refine ⟨by simpa using h.pref.inactive k (Nat.le_refl k) hroom, List.mem_range.2 hroom, fun j hj => ?_⟩
    have := h.pref.active j hj
    simp only [Bool.not_eq_true', decide_eq_false_iff_not]
    omega
  obtain ⟨ap, hap, hage, hbssid⟩ : ∃ ap : ApInfo, add_ap_to_cache s' r = s'.set_ap k ap ∧ ap.age = 1 ∧ ap.bssid = r.ucBSSID := by
    unfold add_ap_to_cache
    rw [hfind]
    exact ⟨_, rfl, rfl, rfl⟩
  refine ⟨ap, hap, hage, hbssid, fun j hj => ?_⟩
  rw [hap]
  exact ap_set_ap h.pref.pointers hroom hj _

/-- A new entry takes the first place that is free. -/
theorem Scanning.add {r : ScanResult} (h : Scanning s s' k) (hroom : k < CACHED_AP_COUNT) :
    Scanning s (add_ap_to_cache s' r) (k + 1) ∧ Held (add_ap_to_cache s' r) (k + 1) r.ucBSSID ∧
      ∀ b, Held s' k b → Held (add_ap_to_cache s' r) (k + 1) b := by
  obtain ⟨ap, hap, hage, hbssid, hat⟩ := h.add_at r hroom
  have hle := h.count_le
  refine ⟨⟨⟨by rw [hap]; exact h.pref.pointers, hroom, fun j hj => ?_, fun j hj hjl => ?_⟩, by rw [hap]; exact h.count,
    by omega, fun j hj => ?_⟩, ⟨k, Nat.lt_succ_self k, ?_, ?_⟩, ?_⟩
  · rw [hat j (by omega)]
    split
    · omega
    · exact h.pref.active j (by omega)
  · rw [hat j hjl, if_neg (by omega)]
    exact h.pref.inactive j (by omega) hjl
  · rw [hat j (by omega), if_neg (by omega)]
    exact h.bssid j hj
  · rw [hat k hroom, if_pos rfl, hbssid]
  · rw [hat k hroom, if_pos rfl, hage]
  · rintro b ⟨j, hj, hb, hage'⟩
    refine ⟨j, by omega, ?_, ?_⟩
    · rw [hat j (by omega), if_neg (by omega)]
      exact hb
    · rw [hat j (by omega), if_neg (by omega)]
      exact hage'

theorem Scanning.add_full {r : ScanResult} (h : Scanning s s' k) (hfull : ¬ k < CACHED_AP_COUNT) :
    add_ap_to_cache s' r = s' := by
  unfold add_ap_to_cache
  have hfind : (List.range CACHED_AP_COUNT).find? (fun i => (s'.ap i).age = 0) = none := by
    rw [List.find?_eq_none]
    intro i hi
    have := h.pref.active i (by have := List.mem_range.1 hi; omega)
    simp only [decide_eq_true_eq]
    omega
  rw [hfind]

/-- The number of results that the cache did not know. -/
def fresh (s : ScanList) (rs : List ScanResult) : Nat := rs.countP fun r => !known s r.ucBSSID

/-- Every result that was known, or that found room, has its entry. -/
theorem Scanning.take_results (rs : List ScanResult) (h : Scanning s s' k) :
    ∃ k', Scanning s (rs.foldl take_result s') k' ∧ (∀ b, Held s' k b → Held (rs.foldl take_result s') k' b) ∧
      ∀ j (hj : j < rs.length), known s rs[j].ucBSSID = true ∨ k + fresh s (rs.take j) < CACHED_AP_COUNT →
        Held (rs.foldl take_result s') k' rs[j].ucBSSID := by
  induction rs generalizing s' k with
  | nil => exact ⟨k, h, fun _ hb => hb, fun j hj => absurd hj (Nat.not_lt_zero j)⟩
  | cons r rs ih =>
    -- What one result does, with the number of places that it needs at most.
    have hstep : ∃ k', Scanning s (take_result s' r) k' ∧ k' ≤ k + fresh s [r] ∧
        (∀ b, Held s' k b → Held (take_result s' r) k' b) ∧
        (known s r.ucBSSID = true ∨ k < CACHED_AP_COUNT → Held (take_result s' r) k' r.ucBSSID) := by
      unfold take_result
      cases hknown : known s r.ucBSSID with
      | true =>
        obtain ⟨i, hfind, hi, hbssid⟩ := h.find_some hknown
        obtain ⟨hscanning, hheld, hkeep⟩ := h.update hi hbssid
        rw [hfind]
        exact ⟨k, hscanning, by omega, hkeep, fun _ => hheld⟩
      | false =>
        rw [h.find_none hknown]
        have hfresh : fresh s [r] = 1 := by simp [fresh, hknown]
        by_cases hroom : k < CACHED_AP_COUNT
        · obtain ⟨hscanning, hheld, hkeep⟩ := h.add (r := r) hroom
          exact ⟨k + 1, hscanning, by omega, hkeep, fun _ => hheld⟩
        · dsimp only
          rw [h.add_full hroom]
          refine ⟨k, h, by omega, fun _ hb => hb, fun hfits => ?_⟩
          rcases hfits with hfalse | hfits
          · cases hfalse
          · exact absurd hfits hroom
    obtain ⟨k₁, hscanning, hk₁, hkeep, hheld⟩ := hstep
    obtain ⟨k₂, hscanning₂, hkeep₂, hheld₂⟩ := ih hscanning
    rw [List.foldl_cons]
    refine ⟨k₂, hscanning₂, fun b hb => hkeep₂ b (hkeep b hb), fun j hj hfits => ?_⟩
    cases j with
    | zero => exact hkeep₂ _ (hheld (by simpa [fresh] using hfits))
    | succ j =>
      refine hheld₂ j (by simpa using hj) ?_
      rw [List.getElem_cons_succ] at hfits
      refine hfits.imp id fun hfits => ?_
      have hcons : fresh s ((r :: rs).take (j + 1)) = fresh s [r] + fresh s (rs.take j) := by
        simp only [fresh, List.take_succ_cons, List.countP_cons, List.countP_nil]
        omega
      omega

/-! ## Expiry -/

/-- Entries that were too old are inactive now. -/
def Expired (s s' : ScanList) (k : Nat) : Prop := ∀ i, i < CACHED_AP_COUNT →
  s'.ap i = s.ap i ∨ i < k ∧ AP_CACHE_ENTRY_MAX_AGE < (s.ap i).age ∧ s'.ap i = { s.ap i with age := 0 }

theorem expire_aps_spec (left i : Nat) (s : ScanList) (hpointers : Pointers s) (hsum : i + left = CACHED_AP_COUNT)
    (hi : i ≤ k) (hk : k ≤ CACHED_AP_COUNT) (hactive : ∀ j, i ≤ j → j < k → 0 < (s.ap j).age)
    (hinactive : ∀ j, k ≤ j → j < CACHED_AP_COUNT → (s.ap j).age = 0) :
    ∃ s', expire_aps left i s = (k, s') ∧ Pointers s' ∧ Expired s s' k := by
  induction left generalizing i s with
  | zero =>
    obtain rfl : i = k := by omega
    exact ⟨s, rfl, hpointers, fun j _ => .inl rfl⟩
  | succ left ih =>
    simp only [expire_aps]
    split
    · rename_i hold
      have hik : i < k := by
        by_contra hge
        have := hinactive i (by omega) (by omega)
        unfold AP_CACHE_ENTRY_MAX_AGE at hold
        omega
      have hat : ∀ j, j < CACHED_AP_COUNT → (s.set_ap i { s.ap i with age := 0 }).ap j =
          if j = i then { s.ap i with age := 0 } else s.ap j := fun j hj => ap_set_ap hpointers (by omega) hj _
      obtain ⟨s', hs', hpointers', hexpired⟩ := ih (i + 1) (s.set_ap i { s.ap i with age := 0 }) hpointers (by omega) hik
        (fun j hj hjk => by rw [hat j (by omega), if_neg (by omega)]; exact hactive j (by omega) hjk)
        (fun j hj hjl => by rw [hat j hjl, if_neg (by omega)]; exact hinactive j hj hjl)
      refine ⟨s', hs', hpointers', fun j hj => ?_⟩
      have hstep := hexpired j hj
      rw [hat j hj] at hstep
      split at hstep
      · rename_i heq
        subst heq
        refine .inr ⟨hik, hold, ?_⟩
        rcases hstep with heq | ⟨-, -, heq⟩
        · exact heq
        · exact heq
      · exact hstep
    · split
      · rename_i hzero
        have hik : i = k := by
          by_contra hne
          have := hactive i (Nat.le_refl i) (by omega)
          omega
        exact ⟨s, by rw [hik], hpointers, fun j _ => .inl rfl⟩
      · rename_i hne
        have hik : i < k := by
          by_contra hge
          exact hne (hinactive i (by omega) (by omega))
        exact ih (i + 1) s hpointers (by omega) hik (fun j hj => hactive j (by omega)) hinactive

/-! ## Sorting -/

/-- An inactive entry comes last, and of two active ones the weaker. -/
def ap_key (s : ScanList) (i : Nat) : WithTop Int := if (s.ap i).age = 0 then ⊤ else ((-(s.ap i).rssi : Int) : WithTop Int)

theorem ap_swap_pointers (s : ScanList) (a b : Nat) : (ap_swap s a b).sorted_aps = s.sorted_aps ∘ Equiv.swap a b := by
  funext i
  simp only [ap_swap, Function.comp_apply]
  by_cases hb : i = b
  · rw [hb, Function.update_self, Equiv.swap_apply_right]
  · rw [Function.update_of_ne hb]
    by_cases ha : i = a
    · rw [ha, Function.update_self, Equiv.swap_apply_left]
    · rw [Function.update_of_ne ha, Equiv.swap_apply_of_ne_of_ne ha hb]

theorem ap_swap_ap (s : ScanList) (a b : Nat) : (ap_swap s a b).ap = s.ap ∘ Equiv.swap a b := by
  funext i
  unfold ScanList.ap
  rw [ap_swap_pointers]
  rfl

theorem ap_keyed : Keyed ap_cmp ap_swap ap_key where
  compare s a b := by
    unfold ap_cmp ap_key
    by_cases ha : (s.ap a).age = 0
    · simp [ha]
    · by_cases hb : (s.ap b).age = 0
      · simp only [ha, hb, if_false, if_true]
        exact ⟨fun _ => WithTop.coe_lt_top _, fun _ => by decide⟩
      · simp only [ha, hb, if_false, WithTop.coe_lt_coe]
        split
        · omega
        · omega
  swap s a b := by
    funext i
    simp only [ap_key, Function.comp_apply, ap_swap_ap]

theorem takeWhile_range (p : Nat → Bool) (n : Nat) (h : ∀ i j, i ≤ j → j < n → p j = true → p i = true) :
    ((List.range n).takeWhile p).length ≤ n ∧ ∀ i, i < n → (p i = true ↔ i < ((List.range n).takeWhile p).length) := by
  induction n with
  | zero => simp
  | succ n ih =>
    obtain ⟨hle, hiff⟩ := ih fun i j hij hj => h i j hij (by omega)
    rw [List.range_succ, List.takeWhile_append, List.length_range]
    by_cases hall : ((List.range n).takeWhile p).length = n
    · rw [if_pos hall]
      have hbefore : ∀ i, i < n → p i = true := fun i hi => (hiff i hi).2 (by omega)
      cases hn : p n with
      | true =>
        simp only [List.takeWhile_cons, hn, if_true, List.takeWhile_nil, List.length_append, List.length_range,
          List.length_singleton, le_refl, true_and]
        intro i hi
        refine ⟨fun _ => hi, fun _ => ?_⟩
        by_cases hlast : i = n
        · rwa [hlast]
        · exact hbefore i (by omega)
      | false =>
        simp only [List.takeWhile_cons, hn, Bool.false_eq_true, if_false, List.append_nil, List.length_range,
          Nat.le_add_right, true_and]
        intro i hi
        by_cases hlast : i = n
        · simp [hlast, hn]
        · exact ⟨fun _ => by omega, fun hlt => hbefore i hlt⟩
    · rw [if_neg hall]
      refine ⟨by omega, fun i hi => ?_⟩
      by_cases hlast : i = n
      · rw [hlast]
        refine ⟨fun hn => ?_, fun hlt => by omega⟩
        have hc : ((List.range n).takeWhile p).length < n := by omega
        exact absurd ((hiff _ hc).1 (h _ n (by omega) (by omega) hn)) (Nat.lt_irrefl _)
      · exact hiff i (by omega)

end Wifi
