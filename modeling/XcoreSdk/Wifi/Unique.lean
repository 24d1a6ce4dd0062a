import XcoreSdk.Wifi.Cache
import Mathlib.Data.List.Nodup
/-!
# One entry for each access point

A result is looked for among the entries that were active before the scan. What
a scan adds is not looked at, so the same new address is added again.
-/

namespace Wifi
variable {s s' : ScanList} {k : Nat} {bs : List Bssid} {rs : List ScanResult}

/-- No two active entries have the same address. -/
def Distinct (s : ScanList) : Prop := ∀ p q, p < CACHED_AP_COUNT → q < CACHED_AP_COUNT →
  0 < (s.cached_aps p).age → 0 < (s.cached_aps q).age → (s.cached_aps p).bssid = (s.cached_aps q).bssid → p = q

/-- The addresses that a scan adds: of the results that the cache does not know, as many as there is room for. -/
def added (s : ScanList) (rs : List ScanResult) : List Bssid :=
  ((rs.filter fun r => !known s r.ucBSSID).take (CACHED_AP_COUNT - s.ap_cache_count)).map fun r => r.ucBSSID

/-- No address is added twice. -/
def Fresh (s : ScanList) : Act → Prop
  | .scan (some rs) => Young s (.scan (some rs)) ∧ (added s (scanned rs)).Nodup
  | a => Young s a

instance (s : ScanList) : ∀ a, Decidable (Fresh s a)
  | .scan (some rs) => inferInstanceAs (Decidable (Young s (.scan (some rs)) ∧ (added s (scanned rs)).Nodup))
  | .scan none => inferInstanceAs (Decidable (Young s (.scan none)))
  | .connect _ _ | .signal _ _ | .reload _ => isTrue trivial

/-! ## By pointers -/

theorem distinct_iff (h : Pointers s) : Distinct s ↔ ∀ i j, i < CACHED_AP_COUNT → j < CACHED_AP_COUNT →
    0 < (s.ap i).age → 0 < (s.ap j).age → (s.ap i).bssid = (s.ap j).bssid → i = j := by
  refine ⟨fun hd i j hi hj hai haj hb => ?_, fun hd p q hp hq hap haq hb => ?_⟩
  · exact h.injOn hi hj (hd _ _ (h.mapsTo hi) (h.mapsTo hj) hai haj hb)
  · obtain ⟨i, hi, rfl⟩ := h.surjOn hp
    obtain ⟨j, hj, rfl⟩ := h.surjOn hq
    rw [hd i j hi hj hap haq hb]

/-! ## Adding -/

/-- The cache in the course of a scan, with the addresses added so far. -/
structure Added (s s' : ScanList) (k : Nat) (bs : List Bssid) : Prop where
  scanning : Scanning s s' k
  length : s.ap_cache_count + bs.length = k
  entry : ∀ i (hi : i < bs.length), (s'.ap (s.ap_cache_count + i)).bssid = bs[i] ∧
    (s'.ap (s.ap_cache_count + i)).age = 1
  new : ∀ b ∈ bs, known s b = false

theorem Added.take_known {r : ScanResult} (h : Added s s' k bs) (hknown : known s r.ucBSSID = true) :
    Added s (take_result s' r) k bs := by
  have hlen := h.length
  have hle := h.scanning.pref.le
  obtain ⟨i, hfind, hi, hbssid⟩ := h.scanning.find_some hknown
  unfold take_result
  rw [hfind]
  refine ⟨(h.scanning.update hi hbssid).1, hlen, fun j hj => ?_, h.new⟩
  dsimp only
  rw [h.scanning.update_at r hi _ (by omega), if_neg (by omega)]
  exact h.entry j hj

theorem Added.take_new {r : ScanResult} (h : Added s s' k bs) (hnew : known s r.ucBSSID = false)
    (hroom : k < CACHED_AP_COUNT) : Added s (take_result s' r) (k + 1) (bs ++ [r.ucBSSID]) := by
  have hlen := h.length
  obtain ⟨ap, -, hage, hbssid, hat⟩ := h.scanning.add_at r hroom
  unfold take_result
  rw [h.scanning.find_none hnew]
  refine ⟨(h.scanning.add hroom).1, by simp; omega, fun i hi => ?_, fun b hb => ?_⟩
  · rw [List.length_append, List.length_singleton] at hi
    dsimp only
    rw [hat _ (by omega)]
    by_cases hlast : i = bs.length
    · subst hlast
      rw [if_pos hlen, List.getElem_concat_length rfl]
      exact ⟨hbssid, hage⟩
    · rw [if_neg (by omega), List.getElem_append_left (by omega)]
      exact h.entry i (by omega)
  · rcases List.mem_append.1 hb with hb | hb
    · exact h.new b hb
    · rw [List.mem_singleton.1 hb]
      exact hnew

theorem Added.take_full {r : ScanResult} (h : Added s s' k bs) (hnew : known s r.ucBSSID = false)
    (hfull : ¬ k < CACHED_AP_COUNT) : take_result s' r = s' := by
  unfold take_result
  rw [h.scanning.find_none hnew]
  exact h.scanning.add_full hfull

/-- The results of a scan, one after another. -/
theorem Added.take_results (h : Added s s' k bs) (rs : List ScanResult) :
    ∃ k', Added s (rs.foldl take_result s') k'
      (bs ++ ((rs.filter fun r => !known s r.ucBSSID).take (CACHED_AP_COUNT - k)).map fun r => r.ucBSSID) := by
  induction rs generalizing s' k bs with
  | nil => exact ⟨k, by simpa using h⟩
  | cons r rs ih =>
    rw [List.foldl_cons]
    cases hknown : known s r.ucBSSID with
    | true =>
      rw [List.filter_cons_of_neg (by simp [hknown])]
      exact ih (h.take_known hknown)
    | false =>
      rw [List.filter_cons_of_pos (by simp [hknown])]
      by_cases hroom : k < CACHED_AP_COUNT
      · obtain ⟨k', h'⟩ := ih (h.take_new hknown hroom)
        refine ⟨k', ?_⟩
        rw [show CACHED_AP_COUNT - k = CACHED_AP_COUNT - (k + 1) + 1 by omega, List.take_succ_cons, List.map_cons]
        rwa [List.append_assoc, List.singleton_append] at h'
      · rw [h.take_full hknown hroom]
        obtain ⟨k', h'⟩ := ih h
        rw [show CACHED_AP_COUNT - k = 0 by omega, List.take_zero] at h' ⊢
        exact ⟨k', h'⟩

/-- What was known before is distinct from what is new. -/
theorem Added.distinct_iff (h : Added s s' k bs)
    (hs : ∀ i j, i < s.ap_cache_count → j < s.ap_cache_count → (s.ap i).bssid = (s.ap j).bssid → i = j) :
    (∀ i j, i < k → j < k → (s'.ap i).bssid = (s'.ap j).bssid → i = j) ↔ bs.Nodup := by
  have hlen := h.length
  have hold : ∀ i, i < s.ap_cache_count → known s (s'.ap i).bssid = true := fun i hi => by
    rw [h.scanning.bssid i hi, known, List.any_eq_true]
    exact ⟨i, List.mem_range.2 hi, decide_eq_true rfl⟩
  have hnew : ∀ i, s.ap_cache_count ≤ i → i < k → ∃ hi : i - s.ap_cache_count < bs.length,
      (s'.ap i).bssid = bs[i - s.ap_cache_count] := fun i hi hik => by
    have hentry := (h.entry (i - s.ap_cache_count) (by omega)).1
    rw [show s.ap_cache_count + (i - s.ap_cache_count) = i by omega] at hentry
    exact ⟨by omega, hentry⟩
  have hcross : ∀ i j, i < s.ap_cache_count → s.ap_cache_count ≤ j → j < k →
      (s'.ap i).bssid ≠ (s'.ap j).bssid := fun i j hi hj hjk heq => by
    obtain ⟨hj', hb⟩ := hnew j hj hjk
    have hunknown := h.new _ (List.getElem_mem hj')
    rw [← hb, ← heq, hold i hi] at hunknown
    cases hunknown
  rw [List.nodup_iff_injective_get]
  refine ⟨fun hd i j hij => ?_, fun hinj i j hi hj hb => ?_⟩
  · have hb : (s'.ap (s.ap_cache_count + i)).bssid = (s'.ap (s.ap_cache_count + j)).bssid := by
      rw [(h.entry i i.isLt).1, (h.entry j j.isLt).1]
      exact hij
    have heq := hd _ _ (by have := i.isLt; omega) (by have := j.isLt; omega) hb
    exact Fin.ext (by omega)
  · by_cases hio : i < s.ap_cache_count <;> by_cases hjo : j < s.ap_cache_count
    · rw [h.scanning.bssid i hio, h.scanning.bssid j hjo] at hb
      exact hs i j hio hjo hb
    · exact absurd hb (hcross i j hio (by omega) hj)
    · exact absurd hb.symm (hcross j i hjo (by omega) hi)
    · obtain ⟨hi', hbi⟩ := hnew i (by omega) hi
      obtain ⟨hj', hbj⟩ := hnew j (by omega) hj
      have hfin := @hinj ⟨_, hi'⟩ ⟨_, hj'⟩ (by rw [hbi, hbj] at hb; exact hb)
      have := Fin.val_eq_of_eq hfin
      dsimp only at this
      omega

/-! ## A scan -/

/-- Entries that expire or move leave the others' addresses as they were. -/
theorem Added.sorted_distinct {s₂ s₃ : ScanList} (h : Added s s₂ k bs) (hpointers : Pointers s₃)
    (hexpired : Expired s₂ s₃ k) (hs : ∀ i j, i < s.ap_cache_count → j < s.ap_cache_count →
      (s.ap i).bssid = (s.ap j).bssid → i = j) :
    Distinct (heapsort ap_cmp ap_swap s₃ k) ↔ bs.Nodup := by
  have hle := h.scanning.pref.le
  obtain ⟨-, hswaps⟩ := heapsort_spec ap_keyed s₃ k
  have hpointers' := hpointers.sorted hle hswaps
  obtain ⟨σ, hσ, hap⟩ := hswaps.perm ap_swap_ap
  have hσ' : ∀ i, CACHED_AP_COUNT ≤ i → σ i = i := fun i hi => hσ i (by omega)
  have hsymm : ∀ i, CACHED_AP_COUNT ≤ i → σ.symm i = i := fun i hi => by
    rw [Equiv.symm_apply_eq, hσ' i hi]
  have hactive : ∀ i, i < CACHED_AP_COUNT → 0 < (s₃.ap i).age → i < k ∧ s₃.ap i = s₂.ap i := fun i hi hpos => by
    rcases hexpired i hi with heq | ⟨-, -, heq⟩
    · refine ⟨?_, heq⟩
      by_contra hge
      have := h.scanning.pref.inactive i (by omega) hi
      rw [heq] at hpos
      omega
    · rw [heq] at hpos
      exact absurd hpos (lt_irrefl _)
  rw [Wifi.distinct_iff hpointers', hap]
  refine ⟨fun hd => ?_, fun hnodup i j hi hj hai haj hb => ?_⟩
  · -- The new entries are young, so they are all still there.
    rw [List.nodup_iff_injective_get]
    intro i j hij
    have hlen := h.length
    have hkept : ∀ i : Fin bs.length, s₃.ap (s.ap_cache_count + i) = s₂.ap (s.ap_cache_count + i) := fun i => by
      have hi := i.isLt
      rcases hexpired (s.ap_cache_count + i) (by omega) with heq | ⟨-, hold, -⟩
      · exact heq
      · rw [(h.entry i hi).2] at hold
        exact absurd hold (by decide)
    have hpos : ∀ i : Fin bs.length, 0 < (s₃.ap (s.ap_cache_count + i)).age := fun i => by
      rw [hkept, (h.entry i i.isLt).2]
      decide
    have hplace : ∀ i : Fin bs.length, σ.symm (s.ap_cache_count + i) < CACHED_AP_COUNT := fun i =>
      perm_lt hsymm (by have := i.isLt; omega)
    have heq := hd (σ.symm (s.ap_cache_count + i)) (σ.symm (s.ap_cache_count + j)) (hplace i) (hplace j)
      (by rw [Function.comp_apply, Equiv.apply_symm_apply]; exact hpos i)
      (by rw [Function.comp_apply, Equiv.apply_symm_apply]; exact hpos j)
      (by
        rw [Function.comp_apply, Function.comp_apply, Equiv.apply_symm_apply, Equiv.apply_symm_apply, hkept, hkept,
          (h.entry i i.isLt).1, (h.entry j j.isLt).1]
        exact hij)
    have := σ.symm.injective heq
    exact Fin.ext (by omega)
  · obtain ⟨hik, hi'⟩ := hactive _ (perm_lt hσ' hi) hai
    obtain ⟨hjk, hj'⟩ := hactive _ (perm_lt hσ' hj) haj
    rw [Function.comp_apply, Function.comp_apply, hi', hj'] at hb
    exact σ.injective ((h.distinct_iff hs).2 hnodup _ _ hik hjk hb)

theorem Prefix.distinct (h : Prefix s k) (hd : Distinct s) (i j : Nat) (hi : i < k) (hj : j < k)
    (hb : (s.ap i).bssid = (s.ap j).bssid) : i = j :=
  have hle := h.le
  (distinct_iff h.pointers).1 hd i j (by omega) (by omega) (h.active i hi) (h.active j hj) hb

/-- After a scan the addresses are distinct if and only if what it adds is. -/
theorem scan_distinct_iff (h : Cached s) (hd : Distinct s)
    (hyoung : ∀ i, i < s.ap_cache_count → (s.ap i).age < 2 ^ 31 - 1) {r : Int × ScanList}
    (hscan : scan_networks s (some rs) = some r) : Distinct r.2 ↔ (added s (scanned rs)).Nodup := by
  obtain ⟨s₁, hs₁, hstart⟩ := scan_aged h hyoung
  have hadded : Added s s₁ s.ap_cache_count [] :=
    ⟨hstart, rfl, fun i hi => absurd hi (Nat.not_lt_zero i), fun b hb => absurd hb List.not_mem_nil⟩
  obtain ⟨k, hk⟩ := hadded.take_results (scanned rs)
  obtain ⟨s₃, hpointers₃, hexpired, -, -, hscan'⟩ := scan_taken hs₁ hk.scanning
  rw [hscan'] at hscan
  obtain rfl := Option.some.inj hscan
  exact hk.sorted_distinct hpointers₃ hexpired (Prefix.distinct h hd)

/-! ## Every run -/

theorem Fresh.young {a : Act} (h : Fresh s a) : Young s a := by
  cases a with
  | scan scan_results =>
    cases scan_results with
    | none => exact h
    | some rs => exact h.1
  | connect i connected => exact h
  | signal p rssi => exact h
  | reload profiles => exact h

/-- A failed scan only makes the entries older. -/
theorem failed_scan_distinct (h : Cached s) (hd : Distinct s)
    (hyoung : ∀ i, i < s.ap_cache_count → (s.ap i).age < 2 ^ 31 - 1) {r : Int × ScanList}
    (hscan : scan_networks s none = some r) : Distinct r.2 := by
  obtain ⟨s₁, hs₁, hstart⟩ := scan_aged h hyoung
  obtain rfl : (-1, s₁) = r := by simpa [scan_networks, hs₁] using hscan
  have hle := h.le
  refine (distinct_iff hstart.pref.pointers).2 fun i j hi hj hai haj hb => ?_
  have hlt : ∀ i, i < CACHED_AP_COUNT → 0 < (s₁.ap i).age → i < s.ap_cache_count := fun i hi hpos => by
    by_contra hge
    have := hstart.pref.inactive i (by omega) hi
    omega
  have hi' := hlt i hi hai
  have hj' := hlt j hj haj
  rw [hstart.bssid i hi', hstart.bssid j hj'] at hb
  exact Prefix.distinct h hd i j hi' hj' hb

/-- An entry that keeps its address and was active before. -/
theorem Distinct.update (hd : Distinct s) {p : Nat} {ap : ApInfo} (hb : ap.bssid = (s.cached_aps p).bssid)
    (ha : 0 < ap.age → 0 < (s.cached_aps p).age) :
    Distinct { s with cached_aps := Function.update s.cached_aps p ap } := by
  have hbssid : ∀ q, (Function.update s.cached_aps p ap q).bssid = (s.cached_aps q).bssid := fun q => by
    by_cases hq : q = p
    · rw [hq, Function.update_self, hb]
    · rw [Function.update_of_ne hq]
  have hage : ∀ q, 0 < (Function.update s.cached_aps p ap q).age → 0 < (s.cached_aps q).age := fun q hpos => by
    by_cases hq : q = p
    · rw [hq, Function.update_self] at hpos
      rw [hq]
      exact ha hpos
    · rwa [Function.update_of_ne hq] at hpos
  intro p' q' hp hq hap haq heq
  dsimp only at hap haq heq
  rw [hbssid, hbssid] at heq
  exact hd p' q' hp hq (hage p' hap) (hage q' haq) heq

theorem distinct_step {a : Act} (h : Cached s) (hd : Distinct s) (hfresh : Fresh s a)
    (hs : manager.step s a = some s') : Distinct s' := by
  cases a with
  | scan scan_results =>
    obtain ⟨r, hr, rfl⟩ := Option.map_eq_some_iff.1 hs
    cases scan_results with
    | none => exact failed_scan_distinct h hd hfresh hr
    | some rs => exact (scan_distinct_iff h hd hfresh.1 hr).2 hfresh.2
  | connect i connected =>
    obtain ⟨hi, hs⟩ := Option.ite_none_right_eq_some.1 hs
    obtain rfl := Option.some.inj hs
    refine hd.update ?_ fun _ => h.active i hi
    unfold connect_to_network
    split_ifs <;> rfl
  | signal p rssi =>
    obtain ⟨-, hs⟩ := Option.ite_none_right_eq_some.1 hs
    obtain rfl := Option.some.inj hs
    exact hd.update rfl id
  | reload profiles =>
    obtain rfl := Option.some.inj hs
    exact fun p q _ _ hpos => absurd hpos (lt_irrefl _)

/-- In every run in which no scan adds an address twice, the active entries have distinct addresses; and then the
next scan keeps that up if and only if it adds none twice. -/
theorem unique_kept (h : manager.Reachable Fresh s) : Distinct s ∧
    ∀ rs s', Young s (.scan (some rs)) → manager.step s (.scan (some rs)) = some s' →
      (Distinct s' ↔ (added s (scanned rs)).Nodup) := by
  have hboth : Cached s ∧ Distinct s := by
    refine h.inv (I := fun s => Cached s ∧ Distinct s) (fun s hinit => ?_) fun s a s' hboth hfresh hs => ?_
    · obtain ⟨profiles, rfl⟩ := hinit
      exact ⟨reset_cached profiles, fun p q _ _ hpos => absurd hpos (lt_irrefl _)⟩
    · exact ⟨cached_step hboth.1 hfresh.young hs, distinct_step hboth.1 hboth.2 hfresh hs⟩
  refine ⟨hboth.2, fun rs s' hyoung hs => ?_⟩
  obtain ⟨r, hr, rfl⟩ := Option.map_eq_some_iff.1 hs
  exact scan_distinct_iff hboth.1 hboth.2 hyoung hr

/-- An access point that is found again, and a new one. -/
theorem unique_kept_two : ∃ s : ScanList, s.ap_cache_count = 2 ∧ Distinct s ∧
    ∀ rs s', Young s (.scan (some rs)) → manager.step s (.scan (some rs)) = some s' →
      (Distinct s' ↔ (added s (scanned rs)).Nodup) := by
  have hrun : (manager.exec Fresh (reset_scan_search_list_and_ap_cache [])
      [.scan (some [heard 1 (-60)]), .scan (some [heard 1 (-60), heard 2 (-40), heard 1 (-60)])]).any
        (fun s => decide (s.ap_cache_count = 2)) := by decide +kernel
  obtain ⟨s, hs, hends⟩ := (Option.any_eq_true _ _).1 hrun
  exact ⟨s, of_decide_eq_true hends, unique_kept (Machine.exec_reachable ⟨[], rfl⟩ hs)⟩

/-- A new access point that is reported twice gets two entries. -/
theorem reported_twice : ∃ s, manager.Reachable Machine.Free s ∧ ¬ Distinct s := by
  have hrun : (manager.exec Machine.Free (reset_scan_search_list_and_ap_cache [])
      [.scan (some [heard 1 (-60), heard 1 (-60)])]).any
        (fun s => decide (0 < (s.cached_aps 0).age ∧ 0 < (s.cached_aps 1).age ∧
          (s.cached_aps 0).bssid = (s.cached_aps 1).bssid)) := by decide +kernel
  obtain ⟨s, hs, hends⟩ := (Option.any_eq_true _ _).1 hrun
  obtain ⟨h0, h1, hb⟩ := of_decide_eq_true hends
  exact ⟨s, Machine.exec_reachable ⟨[], rfl⟩ hs,
    fun hd => absurd (hd 0 1 (by decide) (by decide) h0 h1 hb) Nat.zero_ne_one⟩

end Wifi
