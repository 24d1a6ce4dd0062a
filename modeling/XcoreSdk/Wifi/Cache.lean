import XcoreSdk.Wifi.Scan
import Mathlib.Logic.Equiv.Set
/-!
# The cache of access points is kept

In every run the active entries are the first ones and every entry has one
pointer. After a scan the active entries are in order and hold what was seen.
-/

namespace Wifi
variable {s s' : ScanList} {k : Nat}

/-- `ap_cache_count` counts the active entries, which are the first ones. -/
def Cached (s : ScanList) : Prop := Prefix s s.ap_cache_count

/-- The strongest first. -/
def Sorted (s : ScanList) : Prop := ∀ i j, i ≤ j → j < s.ap_cache_count → (s.ap j).rssi ≤ (s.ap i).rssi

/-- Everything in the results that was in the cache or found room in it has an
entry of this scan. -/
def Seen (s s' : ScanList) (rs : List ScanResult) : Prop :=
  ∀ j (hj : j < rs.length), known s rs[j].ucBSSID = true ∨ s.ap_cache_count + fresh s (rs.take j) < CACHED_AP_COUNT →
    Held s' s'.ap_cache_count rs[j].ucBSSID

/-! ## After sorting -/

theorem Pointers.sorted {n : Nat} (h : Pointers s) (hn : n ≤ CACHED_AP_COUNT) (hswaps : Swaps ap_swap n s s') :
    Pointers s' := by
  obtain ⟨σ, hσ, heq⟩ := hswaps.perm ap_swap_pointers
  have hσ' : ∀ i, CACHED_AP_COUNT ≤ i → σ i = i := fun i hi => hσ i (by omega)
  unfold Pointers
  rw [heq]
  refine Set.BijOn.comp h (Equiv.bijOn σ fun i => ⟨fun hi => ?_, fun hi => perm_lt hσ' hi⟩)
  by_contra hge
  have hfix : σ i = i := hσ' i (Nat.le_of_not_lt hge)
  rw [hfix] at hi
  exact hge hi

/-- What `heapsort` and the count after it give. -/
theorem sorted_spec (hpointers : Pointers s) (hk : k ≤ CACHED_AP_COUNT)
    (hinactive : ∀ i, k ≤ i → i < CACHED_AP_COUNT → (s.ap i).age = 0) (hage : ∀ i, i < k → 0 ≤ (s.ap i).age) :
    Cached { heapsort ap_cmp ap_swap s k with ap_cache_count := count_aps (heapsort ap_cmp ap_swap s k) } ∧
      Sorted { heapsort ap_cmp ap_swap s k with ap_cache_count := count_aps (heapsort ap_cmp ap_swap s k) } ∧
      ∀ b, Held s k b → Held (heapsort ap_cmp ap_swap s k) (count_aps (heapsort ap_cmp ap_swap s k)) b := by
  obtain ⟨hsorted, hswaps⟩ := heapsort_spec ap_keyed s k
  have hpointers' := hpointers.sorted hk hswaps
  obtain ⟨σ, hσ, hap⟩ := hswaps.perm ap_swap_ap
  generalize heapsort ap_cmp ap_swap s k = s' at hsorted hpointers' hap ⊢
  have hbehind : ∀ i, k ≤ i → i < CACHED_AP_COUNT → (s'.ap i).age = 0 := fun i hi hil => by
    rw [hap, Function.comp_apply, hσ i hi]
    exact hinactive i hi hil
  have hnonneg : ∀ i, i < k → 0 ≤ (s'.ap i).age := fun i hi => by
    rw [hap, Function.comp_apply]
    exact hage _ (perm_lt hσ hi)
  have hlt_of_active : ∀ j, j < CACHED_AP_COUNT → 0 < (s'.ap j).age → j < k := fun j hj hpos => by
    by_contra hge
    have := hbehind j (by omega) hj
    omega
  have hclosed : ∀ i j, i ≤ j → j < CACHED_AP_COUNT → decide ((s'.ap j).age > 0) = true →
      decide ((s'.ap i).age > 0) = true := fun i j hij hj hpos => by
    rw [decide_eq_true_eq] at hpos ⊢
    have hjk := hlt_of_active j hj hpos
    have hkey := hsorted i j hij hjk
    have := hnonneg i (by omega)
    have hne : (s'.ap i).age ≠ 0 := fun hzero => by
      simp [ap_key, hzero, show (s'.ap j).age ≠ 0 by omega] at hkey
    omega
  obtain ⟨hle, hcount⟩ := takeWhile_range (fun i => (s'.ap i).age > 0) CACHED_AP_COUNT hclosed
  have hiff : ∀ i, i < CACHED_AP_COUNT → (0 < (s'.ap i).age ↔ i < count_aps s') := fun i hi => by
    have := hcount i hi
    rwa [decide_eq_true_eq] at this
  refine ⟨⟨hpointers', hle, fun i hi => (hiff i (Nat.lt_of_lt_of_le hi hle)).2 hi, fun i hi hil => ?_⟩,
    fun i j hij hj => ?_, ?_⟩
  · have hzero := (not_congr (hiff i hil)).2 (Nat.not_lt.2 hi)
    by_cases hik : i < k
    · have := hnonneg i hik
      exact le_antisymm (not_lt.1 hzero) this
    · exact hbehind i (by omega) hil
  · have hjl : j < CACHED_AP_COUNT := Nat.lt_of_lt_of_le hj hle
    have hposj := (hiff j hjl).2 hj
    have hposi := (hiff i (by omega)).2 (Nat.lt_of_le_of_lt hij hj)
    have hkey := hsorted i j hij (hlt_of_active j hjl hposj)
    simp only [ap_key, show (s'.ap i).age ≠ 0 by omega, show (s'.ap j).age ≠ 0 by omega, if_false,
      WithTop.coe_le_coe] at hkey
    change (s'.ap j).rssi ≤ (s'.ap i).rssi
    omega
  · rintro b ⟨i, hi, hb, hone⟩
    have hσi : σ.symm i < k := by
      by_contra hge
      have := hσ (σ.symm i) (by omega)
      rw [Equiv.apply_symm_apply] at this
      omega
    have heq : s'.ap (σ.symm i) = s.ap i := by rw [hap, Function.comp_apply, Equiv.apply_symm_apply]
    refine ⟨σ.symm i, (hiff _ (by omega)).1 (by rw [heq, hone]; decide), ?_, ?_⟩
    · rw [heq]
      exact hb
    · rw [heq]
      exact hone

/-! ## A scan -/

/-- The cache when the results are taken. -/
theorem scan_aged (h : Cached s) (hyoung : ∀ i, i < s.ap_cache_count → (s.ap i).age < 2 ^ 31 - 1) :
    ∃ s₁, age_aps s.ap_cache_count s = some s₁ ∧ Scanning s s₁ s.ap_cache_count := by
  obtain ⟨s₁, hs₁, hpointers, hcount, hap⟩ := age_aps_spec h s.ap_cache_count (Nat.le_refl _)
  have hbssid : ∀ i, i < s.ap_cache_count → (s₁.ap i).bssid = (s.ap i).bssid := fun i hi => by
    rw [hap i (Nat.lt_of_lt_of_le hi h.le), if_pos hi]
  exact ⟨s₁, hs₁, h.older hyoung hpointers hap, hcount, Nat.le_refl _, hbssid⟩

/-- What is done after the results have been taken. -/
theorem scan_taken {s₁ : ScanList} {rs : List ScanResult} (hs₁ : age_aps s.ap_cache_count s = some s₁)
    (h : Scanning s ((scanned rs).foldl take_result s₁) k) :
    ∃ s₃, Pointers s₃ ∧ Expired ((scanned rs).foldl take_result s₁) s₃ k ∧
      (∀ i, k ≤ i → i < CACHED_AP_COUNT → (s₃.ap i).age = 0) ∧ (∀ i, i < k → 0 ≤ (s₃.ap i).age) ∧
      scan_networks s (some rs) = some (0, { heapsort ap_cmp ap_swap s₃ k with
        ap_cache_count := count_aps (heapsort ap_cmp ap_swap s₃ k) }) := by
  have hle := h.pref.le
  obtain ⟨s₃, hs₃, hpointers₃, hexpired⟩ := expire_aps_spec CACHED_AP_COUNT 0 _ h.pref.pointers (by omega)
    (Nat.zero_le k) h.pref.le (fun j _ hj => h.pref.active j hj) h.pref.inactive
  refine ⟨s₃, hpointers₃, hexpired, fun i hi hil => ?_, fun i hi => ?_, ?_⟩
  · have hzero := h.pref.inactive i hi hil
    rcases hexpired i hil with heq | ⟨hik, -⟩
    · rwa [heq]
    · omega
  · have hpos := h.pref.active i hi
    rcases hexpired i (by omega) with heq | ⟨-, -, heq⟩
    · rw [heq]
      omega
    · rw [heq]
  · unfold scan_networks
    rw [hs₁, Option.map_some]
    dsimp only
    rw [hs₃]

theorem scan_networks_spec (h : Cached s) (hyoung : ∀ i, i < s.ap_cache_count → (s.ap i).age < 2 ^ 31 - 1)
    (scan_results : Option (List ScanResult)) : ∃ ret s', scan_networks s scan_results = some (ret, s') ∧ Cached s' ∧
      ∀ rs, scan_results = some rs → Sorted s' ∧ Seen s s' (scanned rs) := by
  obtain ⟨s₁, hs₁, hstart⟩ := scan_aged h hyoung
  cases scan_results with
  | none =>
    refine ⟨-1, s₁, by simp [scan_networks, hs₁], ?_, nofun⟩
    unfold Cached
    rw [hstart.count]
    exact hstart.pref
  | some rs =>
    obtain ⟨k, hscanning, -, hheld⟩ := hstart.take_results (scanned rs)
    obtain ⟨s₃, hpointers₃, hexpired, hinactive, hage, hscan⟩ := scan_taken hs₁ hscanning
    have hle := hscanning.pref.le
    obtain ⟨hcached, hsorted, hkept⟩ := sorted_spec hpointers₃ hle hinactive hage
    refine ⟨0, _, hscan, hcached, ?_⟩
    rintro _ ⟨⟩
    refine ⟨hsorted, fun j hj hfits => hkept _ ?_⟩
    obtain ⟨i, hi, hb, hone⟩ := hheld j hj hfits
    rcases hexpired i (by omega) with heq | ⟨-, hold, -⟩
    · exact ⟨i, hi, by rw [heq, hb], by rw [heq, hone]⟩
    · rw [hone] at hold
      exact absurd hold (by decide)

/-! ## Every run -/

/-- `scan_networks` is not called while the age of an active entry is the
greatest `int`. -/
def Young (s : ScanList) : Act → Prop
  | .scan _ => ∀ i, i < s.ap_cache_count → (s.ap i).age < 2 ^ 31 - 1
  | _ => True

instance (s : ScanList) : ∀ a, Decidable (Young s a)
  | .scan _ => inferInstanceAs (Decidable (∀ i, i < s.ap_cache_count → (s.ap i).age < 2 ^ 31 - 1))
  | .connect _ _ | .signal _ _ | .reload _ => isTrue trivial

theorem reset_cached (profiles : List Ssid) : Cached (reset_scan_search_list_and_ap_cache profiles) :=
  ⟨Set.bijOn_id _, Nat.zero_le _, fun i hi => absurd hi (Nat.not_lt_zero i), fun _ _ _ => rfl⟩

theorem connect_age {ap : ApInfo} (connected : Nat → Bool) (h : 0 < ap.age) :
    0 < (connect_to_network ap connected).2.age := by
  unfold connect_to_network
  split
  · split
    · exact h
    · split
      · exact h
      · exact (by decide : (0 : Int) < AP_CACHE_ENTRY_MAX_AGE)
  · exact h

theorem Prefix.signal (h : Prefix s k) (p : Nat) (rssi : Int8) : Prefix
    { s with cached_aps := Function.update s.cached_aps p (update_ap_rssi (s.cached_aps p) rssi) } k := by
  have hage : ∀ i, (ScanList.ap { s with
      cached_aps := Function.update s.cached_aps p (update_ap_rssi (s.cached_aps p) rssi) } i).age = (s.ap i).age :=
    fun i => by
      unfold ScanList.ap
      dsimp only
      by_cases hp : s.sorted_aps i = p
      · rw [hp, Function.update_self, update_ap_rssi_age]
      · rw [Function.update_of_ne hp]
  refine ⟨h.pointers, h.le, fun i hi => ?_, fun i hi hil => ?_⟩
  · rw [hage]
    exact h.active i hi
  · rw [hage]
    exact h.inactive i hi hil

theorem cached_step {a : Act} (h : Cached s) (hyoung : Young s a) (hs : manager.step s a = some s') : Cached s' := by
  cases a with
  | scan scan_results =>
    obtain ⟨ret, s₁, hscan, hcached, -⟩ := scan_networks_spec h hyoung scan_results
    have hs : (scan_networks s scan_results).map Prod.snd = some s' := hs
    rw [hscan] at hs
    cases hs
    exact hcached
  | connect i connected =>
    simp only [manager] at hs
    split at hs
    · rename_i hi
      cases hs
      exact Prefix.set_ap h hi (connect_age connected (h.active i hi))
    · cases hs
  | signal p rssi =>
    simp only [manager] at hs
    split at hs
    · cases hs
      exact Prefix.signal h p rssi
    · cases hs
  | reload profiles =>
    cases hs
    exact reset_cached profiles

theorem cached_reachable (h : manager.Reachable Young s) : Cached s := by
  refine h.inv (fun s hinit => ?_) fun s a s' h hyoung hs => cached_step h hyoung hs
  obtain ⟨profiles, rfl⟩ := hinit
  exact reset_cached profiles

/-- In every run in which no age overflows: every entry has one pointer, the
first `ap_cache_count` are active and the others are not, the assertion in the
next scan holds, and after it, if it succeeds, the active entries are in order
and hold everything that was seen and fits. -/
theorem cache_kept (h : manager.Reachable Young s) :
    Set.BijOn s.sorted_aps (Set.Iio CACHED_AP_COUNT) (Set.Iio CACHED_AP_COUNT) ∧ s.ap_cache_count ≤ CACHED_AP_COUNT ∧
      (∀ i, i < s.ap_cache_count → 0 < (s.ap i).age) ∧
      (∀ i, s.ap_cache_count ≤ i → i < CACHED_AP_COUNT → (s.ap i).age = 0) ∧
      ∀ scan_results, ∃ ret s', scan_networks s scan_results = some (ret, s') ∧
        (Young s (.scan scan_results) → ∀ rs, scan_results = some rs → Sorted s' ∧ Seen s s' (scanned rs)) := by
  have hcached := cached_reachable h
  refine ⟨hcached.pointers, hcached.le, hcached.active, hcached.inactive, fun scan_results => ?_⟩
  by_cases hyoung : Young s (.scan scan_results)
  · obtain ⟨ret, s', hscan, -, hresults⟩ := scan_networks_spec hcached hyoung scan_results
    exact ⟨ret, s', hscan, fun _ => hresults⟩
  · obtain ⟨s₁, hs₁, -⟩ := age_aps_spec hcached s.ap_cache_count (Nat.le_refl _)
    have hscan : ∃ r, scan_networks s scan_results = some r := ⟨_, by
      unfold scan_networks
      rw [hs₁]
      rfl⟩
    obtain ⟨⟨ret, s'⟩, hscan⟩ := hscan
    exact ⟨ret, s', hscan, fun hyes => absurd hyes hyoung⟩

/-- A result for the access point with a number. -/
def heard (n : UInt8) (rssi : Int8) : ScanResult := ⟨[], Vector.replicate 6 n, rssi, 1⟩

/-- Two access points, the weaker one first; then a failed connection, a new
signal strength and a failed scan. -/
theorem cache_kept_two : ∃ s : ScanList,
    (s.ap_cache_count = 2 ∧ ((s.ap 0).bssid, (s.ap 0).rssi, (s.ap 0).age) = (Vector.replicate 6 2, -41, 2) ∧
      ((s.ap 1).bssid, (s.ap 1).rssi, (s.ap 1).age) = (Vector.replicate 6 1, -60, 2)) ∧
    Set.BijOn s.sorted_aps (Set.Iio CACHED_AP_COUNT) (Set.Iio CACHED_AP_COUNT) ∧ s.ap_cache_count ≤ CACHED_AP_COUNT ∧
      (∀ i, i < s.ap_cache_count → 0 < (s.ap i).age) ∧
      (∀ i, s.ap_cache_count ≤ i → i < CACHED_AP_COUNT → (s.ap i).age = 0) ∧
      ∀ scan_results, ∃ ret s', scan_networks s scan_results = some (ret, s') ∧
        (Young s (.scan scan_results) → ∀ rs, scan_results = some rs → Sorted s' ∧ Seen s s' (scanned rs)) := by
  have hrun : (manager.exec Young (reset_scan_search_list_and_ap_cache [])
      [.scan (some [heard 1 (-60), heard 2 (-40)]), .connect 0 fun _ => false, .signal 1 (-60), .scan none]).any
        (fun s => decide (s.ap_cache_count = 2 ∧
          ((s.ap 0).bssid, (s.ap 0).rssi, (s.ap 0).age) = (Vector.replicate 6 2, -41, 2) ∧
          ((s.ap 1).bssid, (s.ap 1).rssi, (s.ap 1).age) = (Vector.replicate 6 1, -60, 2))) := by decide +kernel
  obtain ⟨s, hs, hends⟩ := (Option.any_eq_true _ _).1 hrun
  exact ⟨s, of_decide_eq_true hends, cache_kept (Machine.exec_reachable ⟨[], rfl⟩ hs)⟩

/-! ## An age that overflows -/

/-- One access point is in the cache. -/
def lone (age : Int) : ScanList :=
  ⟨1, [], Function.update (fun _ => zeroed) 0 ⟨age, none, List.replicate RSSI_HISTORY_LENGTH (-60), -60, 0, false,
    Vector.replicate 6 1, 1, 0⟩, id⟩

theorem lone_reachable : manager.Reachable Machine.Free (lone 1) := by
  have hrun : manager.exec Machine.Free (reset_scan_search_list_and_ap_cache []) [.scan (some [heard 1 (-60)])] =
      some (lone 1) := rfl
  exact Machine.exec_reachable ⟨[], rfl⟩ hrun

/-- A failed scan. -/
theorem lone_step {age : Int} (h : 0 < age) : manager.step (lone age) (.scan none) = some (lone (int (age + 1))) := by
  have hap : (lone age).ap 0 = ⟨age, none, List.replicate RSSI_HISTORY_LENGTH (-60), -60, 0, false, Vector.replicate 6 1,
    1, 0⟩ := by simp [lone, ScanList.ap]
  have hage : age_aps 1 (lone age) = some ((lone age).set_ap 0 { (lone age).ap 0 with age := int (age + 1) }) := by
    simp only [age_aps, Option.bind_some, hap, gt_iff_lt, h, if_true]
  have hset : (lone age).set_ap 0 { (lone age).ap 0 with age := int (age + 1) } = lone (int (age + 1)) := by
    rw [hap]
    simp [lone, ScanList.set_ap]
  have hscan : scan_networks (lone age) none = some (-1, lone (int (age + 1))) := by
    rw [hset] at hage
    exact congrArg (Option.map (Prod.mk (-1))) hage
  exact congrArg (Option.map Prod.snd) hscan

theorem lone_many (n : Nat) (hn : (n : Int) + 1 < 2 ^ 31) : manager.Reachable Machine.Free (lone (n + 1)) := by
  induction n with
  | zero => exact lone_reachable
  | succ n ih =>
    have hpos : (0 : Int) < n + 1 := by omega
    have hstep := lone_step hpos
    rw [int_eq (by omega) (by push_cast at hn; omega)] at hstep
    exact (ih (by push_cast at hn; omega)).step trivial hstep

/-- After 2147483647 failed scans in a row the age of an entry is negative, and
the assertion fails. -/
theorem age_overflows : ∃ s : ScanList, manager.Reachable Machine.Free s ∧ s.ap_cache_count = 1 ∧
    (s.ap 0).age = -2147483648 ∧ ∀ scan_results, scan_networks s scan_results = none := by
  have hlast := (lone_many 2147483646 (by decide)).step (a := .scan none) trivial (lone_step (by decide))
  have hoverflow : lone (int ((2147483646 : Nat) + 1 + 1)) = lone (-2147483648) := congrArg lone (by decide)
  rw [hoverflow] at hlast
  exact ⟨_, hlast, rfl, rfl, fun scan_results => rfl⟩

end Wifi
