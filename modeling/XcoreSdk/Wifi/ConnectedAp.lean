import XcoreSdk.Wifi.ConnMgr
import XcoreSdk.Wifi.Cache
import Mathlib.Data.List.Find
/-!
# The access point that the connection manager is connected to

A scan leaves an entry what it is as long as it does not grow too old: an entry
that is found is young again, and only an inactive one is reused. So the pointer
to the connected access point stays good, unless a scan misses the entry too
often or the cache is wiped while the pointer is in use.
-/

namespace Wifi
namespace ConnMgr

/-! ## An entry in the course of a scan -/

section
variable {s s' : ScanList} {p : Nat}

/-- Two states of an entry that is about the same access point. -/
def SameAp (ap ap' : ApInfo) : Prop := ap'.bssid = ap.bssid ∧ ap'.associated_profile = ap.associated_profile

theorem age_aps_pointers (n : Nat) (h : age_aps n s = some s') : s'.sorted_aps = s.sorted_aps := by
  induction n generalizing s' with
  | zero => cases h; rfl
  | succ n ih =>
    simp only [age_aps] at h
    obtain ⟨t, ht, h⟩ := Option.bind_eq_some_iff.1 h
    split at h
    · obtain rfl := Option.some.inj h
      exact (ih ht : t.sorted_aps = s.sorted_aps)
    · cases h

theorem age_aps_entry (h : Cached s) (hyoung : ∀ i, i < s.ap_cache_count → (s.ap i).age < 2 ^ 31 - 1)
    (hp : p < CACHED_AP_COUNT) (hage : 0 < (s.cached_aps p).age) (hs : age_aps s.ap_cache_count s = some s') :
    SameAp (s.cached_aps p) (s'.cached_aps p) ∧ (s'.cached_aps p).age = (s.cached_aps p).age + 1 := by
  obtain ⟨i, hi, rfl⟩ := h.pointers.surjOn (Set.mem_Iio.2 hp)
  have hi : i < CACHED_AP_COUNT := hi
  have hlt : i < s.ap_cache_count := by
    by_contra hge
    have hzero : (s.ap i).age = 0 := h.inactive i (Nat.le_of_not_lt hge) hi
    rw [ScanList.ap] at hzero
    omega
  obtain ⟨t, ht, -, -, hap⟩ := age_aps_spec h s.ap_cache_count (Nat.le_refl _)
  obtain rfl : t = s' := Option.some.inj (ht.symm.trans hs)
  have hentry : t.cached_aps (s.sorted_aps i) = { s.ap i with age := int ((s.ap i).age + 1) } := by
    have hat := hap i hi
    rw [if_pos hlt, ScanList.ap, age_aps_pointers _ hs] at hat
    exact hat
  have hyoung := hyoung i hlt
  rw [hentry]
  refine ⟨⟨rfl, rfl⟩, int_eq ?_ ?_⟩
  · have hage : 0 < (s.ap i).age := hage
    omega
  · omega

theorem take_result_frame (s : ScanList) (r : ScanResult) :
    (take_result s r).sorted_aps = s.sorted_aps ∧ (take_result s r).ap_cache_count = s.ap_cache_count := by
  unfold take_result
  split
  · exact ⟨rfl, rfl⟩
  · unfold add_ap_to_cache
    split
    · exact ⟨rfl, rfl⟩
    · exact ⟨rfl, rfl⟩

/-- A result is about another entry, or makes this one young. -/
theorem take_result_entry (r : ScanResult) (hage : 0 < (s.cached_aps p).age) :
    SameAp (s.cached_aps p) ((take_result s r).cached_aps p) ∧
      (((take_result s r).cached_aps p).age = (s.cached_aps p).age ∨ ((take_result s r).cached_aps p).age = 1) := by
  unfold take_result
  split
  · rename_i i hfind
    unfold update_ap_in_cache ScanList.set_ap
    dsimp only
    by_cases hip : s.sorted_aps i = p
    · subst hip
      rw [Function.update_self]
      exact ⟨⟨rfl, rfl⟩, .inr rfl⟩
    · rw [Function.update_of_ne (Ne.symm hip)]
      exact ⟨⟨rfl, rfl⟩, .inl rfl⟩
  · unfold add_ap_to_cache
    split
    · exact ⟨⟨rfl, rfl⟩, .inl rfl⟩
    · rename_i i hfind
      have hzero : (s.ap i).age = 0 := by simpa using List.find?_some hfind
      -- an active entry is not reused
      have hip : s.sorted_aps i ≠ p := by
        intro hip
        rw [ScanList.ap, hip] at hzero
        omega
      unfold ScanList.set_ap
      dsimp only
      rw [Function.update_of_ne (Ne.symm hip)]
      exact ⟨⟨rfl, rfl⟩, .inl rfl⟩

/-- The result that is found under a pointer to this entry makes it young. -/
theorem take_result_found {r : ScanResult} {i : Nat} (hfind : find_ap_in_cache s r = some i) :
    ((take_result s r).cached_aps (s.sorted_aps i)).age = 1 := by
  unfold take_result
  rw [hfind]
  simp [update_ap_in_cache, ScanList.set_ap]

theorem find_congr {r : ScanResult} (hcount : s'.ap_cache_count = s.ap_cache_count)
    (hage : ∀ i, i < s.ap_cache_count → 0 < (s.ap i).age ∧ 0 < (s'.ap i).age)
    (hbssid : ∀ i, i < s.ap_cache_count → (s'.ap i).bssid = (s.ap i).bssid) :
    find_ap_in_cache s' r = find_ap_in_cache s r := by
  unfold find_ap_in_cache
  rw [hcount]
  refine List.find?_congr fun i hi => ?_
  have hi := List.mem_range.1 hi
  simp [hage i hi, hbssid i hi]

/-- Some result is found under a pointer to this entry. -/
def Found (s : ScanList) (p : Nat) (rs : List ScanResult) : Prop :=
  ∃ r ∈ rs, (find_ap_in_cache s r).map s.sorted_aps = some p

instance (s : ScanList) (p : Nat) (rs : List ScanResult) : Decidable (Found s p rs) :=
  inferInstanceAs (Decidable (∃ r ∈ rs, (find_ap_in_cache s r).map s.sorted_aps = some p))

theorem take_results_entry (rs : List ScanResult) (hactive : ∀ i, i < s.ap_cache_count → 0 < (s.ap i).age)
    (hage : 0 < (s.cached_aps p).age) :
    SameAp (s.cached_aps p) ((rs.foldl take_result s).cached_aps p) ∧ 0 < ((rs.foldl take_result s).cached_aps p).age ∧
      (((rs.foldl take_result s).cached_aps p).age = (s.cached_aps p).age ∨
        ((rs.foldl take_result s).cached_aps p).age = 1) ∧
      (Found s p rs → ((rs.foldl take_result s).cached_aps p).age = 1) := by
  induction rs generalizing s with
  | nil => exact ⟨⟨rfl, rfl⟩, hage, .inl rfl, fun ⟨r, hr, _⟩ => absurd hr List.not_mem_nil⟩
  | cons r rs ih =>
    obtain ⟨hpointers, hcount⟩ := take_result_frame s r
    have hap : ∀ i, (take_result s r).ap i = (take_result s r).cached_aps (s.sorted_aps i) := fun i => by
      rw [ScanList.ap, hpointers]
    have hactive' : ∀ i, i < s.ap_cache_count → 0 < ((take_result s r).ap i).age := fun i hi => by
      rw [hap]
      have hpos : 0 < (s.cached_aps (s.sorted_aps i)).age := hactive i hi
      rcases (take_result_entry r hpos).2 with heq | heq
      · rwa [heq]
      · rw [heq]
        exact Int.one_pos
    obtain ⟨hsame, hages⟩ := take_result_entry (p := p) r hage
    have hage' : 0 < ((take_result s r).cached_aps p).age := by
      rcases hages with heq | heq
      · rwa [heq]
      · rw [heq]
        exact Int.one_pos
    obtain ⟨hsame', hpos, hages', hfound⟩ := ih (by rwa [hcount]) hage'
    refine ⟨⟨hsame'.1.trans hsame.1, hsame'.2.trans hsame.2⟩, hpos, ?_, ?_⟩
    · rcases hages' with heq | heq
      · rw [List.foldl_cons, heq]
        exact hages
      · exact .inr heq
    · rintro ⟨q, hq, hp⟩
      obtain ⟨i, hfind, rfl⟩ := Option.map_eq_some_iff.1 hp
      rcases List.mem_cons.1 hq with rfl | hq
      · have hone := take_result_found hfind
        rcases hages' with heq | heq
        · exact heq.trans hone
        · exact heq
      · -- what is found stays the same during the scan
        refine hfound ⟨q, hq, ?_⟩
        rw [find_congr hcount (fun j hj => ⟨hactive j hj, hactive' j hj⟩) fun j hj => ?_, hpointers, hp]
        rw [hap]
        exact (take_result_entry r (hactive j hj)).1.1

theorem expire_aps_entry (left i : Nat) (hage : (s.cached_aps p).age ≤ AP_CACHE_ENTRY_MAX_AGE) :
    (expire_aps left i s).2.cached_aps p = s.cached_aps p := by
  induction left generalizing i s with
  | zero => rfl
  | succ left ih =>
    simp only [expire_aps]
    split
    · rename_i hold
      have hip : s.sorted_aps i ≠ p := by
        rintro rfl
        exact Int.not_lt.2 hage hold
      have heq : (s.set_ap i { s.ap i with age := 0 }).cached_aps p = s.cached_aps p :=
        Function.update_of_ne (Ne.symm hip) _ _
      rw [ih (i + 1) (by rwa [heq]), heq]
    · split
      · rfl
      · exact ih (i + 1) hage

theorem heapsort_entries (s : ScanList) (n : Nat) : (heapsort ap_cmp ap_swap s n).cached_aps = s.cached_aps := by
  have hframe : ∀ s' : ScanList, Swaps ap_swap n s s' → s'.cached_aps = s.cached_aps := by
    intro s' h
    induction h with
    | refl => rfl
    | snoc a b _ _ _ ih => exact ih
  exact hframe _ (heapsort_spec ap_keyed s n).2

/-- A scan keeps an entry that is young or found. -/
theorem scan_networks_entry {ret : Int} {scan_results : Option (List ScanResult)} (h : Cached s)
    (hyoung : Young s (.scan scan_results)) (hp : p < CACHED_AP_COUNT) (hage : 0 < (s.cached_aps p).age)
    (hkept : ∀ rs, scan_results = some rs → (s.cached_aps p).age < AP_CACHE_ENTRY_MAX_AGE ∨ Found s p (scanned rs))
    (hs : scan_networks s scan_results = some (ret, s')) :
    SameAp (s.cached_aps p) (s'.cached_aps p) ∧ 0 < (s'.cached_aps p).age := by
  obtain ⟨s₁, hs₁, hs⟩ := Option.map_eq_some_iff.1 hs
  obtain ⟨hsame, hage₁⟩ := age_aps_entry h hyoung hp hage hs₁
  cases scan_results with
  | none =>
    cases hs
    exact ⟨hsame, by omega⟩
  | some rs =>
    obtain ⟨t, ht, hpointers, hcount, hap⟩ := age_aps_spec h s.ap_cache_count (Nat.le_refl _)
    obtain rfl : t = s₁ := Option.some.inj (ht.symm.trans hs₁)
    have hpre := h.older hyoung hpointers hap
    have hactive : ∀ i, i < t.ap_cache_count → 0 < (t.ap i).age := by
      rw [hcount]
      exact hpre.active
    have hfind : ∀ r, find_ap_in_cache t r = find_ap_in_cache s r := fun r =>
      find_congr hcount (fun i hi => ⟨h.active i hi, hpre.active i hi⟩) fun i hi => by
        rw [hap i (Nat.lt_of_lt_of_le hi h.le), if_pos hi]
    obtain ⟨hsame₂, hpos, hages, hfound⟩ := take_results_entry (p := p) (scanned rs) hactive (by omega)
    have hmax : (((scanned rs).foldl take_result t).cached_aps p).age ≤ AP_CACHE_ENTRY_MAX_AGE := by
      rcases hkept rs rfl with hlt | ⟨r, hr, hp⟩
      · rcases hages with heq | heq
        · omega
        · rw [heq]
          decide
      · rw [hfound ⟨r, hr, by rw [hfind, age_aps_pointers _ hs₁, hp]⟩]
        decide
    have hexpired := expire_aps_entry CACHED_AP_COUNT 0 hmax
    rcases hexp : expire_aps CACHED_AP_COUNT 0 ((scanned rs).foldl take_result t) with ⟨i, t'⟩
    dsimp only at hs
    rw [hexp] at hs hexpired
    obtain ⟨-, rfl⟩ := Prod.mk.inj hs
    dsimp only
    rw [heapsort_entries, hexpired]
    exact ⟨⟨hsame₂.1.trans hsame.1, hsame₂.2.trans hsame.2⟩, hpos⟩

end

/-! ## Every run -/

variable {s s' : State}

/-- What the connected access point's entry is. -/
structure Valid (s : State) (p : Nat) : Prop where
  lt : p < CACHED_AP_COUNT
  active : 0 < (s.scan_list.cached_aps p).age
  bssid : s.bssid = some (s.scan_list.cached_aps p).bssid
  profile : (s.scan_list.cached_aps p).associated_profile ≠ none

/-- While an access point is connected, a successful scan finds it again before
it is too old, and the cache is not wiped. No age overflows. -/
def Kept (s : State) : Act → Prop
  | .scan scan_results => Young s.scan_list (.scan scan_results) ∧
      ∀ p ∈ s.connected_ap, ∀ rs ∈ scan_results,
        (s.scan_list.cached_aps p).age < AP_CACHE_ENTRY_MAX_AGE ∨ Found s.scan_list p (scanned rs)
  | .notify (some bits) _ => bits.NOTIFY_WIFI_PROFILES_UPDATED = true → bits.NOTIFY_WIFI_RESET = true ∨ s.connected_ap = none
  | _ => True

instance (s : State) : ∀ a, Decidable (Kept s a)
  | .scan scan_results => inferInstanceAs (Decidable (Young s.scan_list (.scan scan_results) ∧
      ∀ p ∈ s.connected_ap, ∀ rs ∈ scan_results,
        (s.scan_list.cached_aps p).age < AP_CACHE_ENTRY_MAX_AGE ∨ Found s.scan_list p (scanned rs)))
  | .notify (some bits) _ => inferInstanceAs (Decidable
      (bits.NOTIFY_WIFI_PROFILES_UPDATED = true → bits.NOTIFY_WIFI_RESET = true ∨ s.connected_ap = none))
  | .notify none _ | .loop | .connect _ | .callback _ | .signal _ | .network_down _ _ => isTrue trivial

/-- Whether there is a connected access point, as far as the place in the loop tells. -/
def Placed (s : State) : Prop :=
  match s.pc with
  | .scan _ | .scanned => s.perform_connection = s.connected_ap.isNone ∧ (s.poor_signal = true → s.connected_ap ≠ none)
  | .connect _ => s.connected_ap = none
  | .signal => s.connected_ap ≠ none
  | .fault => False
  | .top | .report | .soft_ap | .wait | .network_down => True

structure Inv (s : State) : Prop where
  cached : Cached s.scan_list
  valid : ∀ p, s.connected_ap = some p → Valid s p
  placed : Placed s

theorem Valid.frame {p : Nat} (h : Valid s p) (hlist : s'.scan_list = s.scan_list) (hbssid : s'.bssid = s.bssid) :
    Valid s' p := by
  refine ⟨h.lt, ?_, ?_, ?_⟩
  · rw [hlist]
    exact h.active
  · rw [hlist, hbssid]
    exact h.bssid
  · rw [hlist]
    exact h.profile

theorem placed_scan (hpc : (∃ n, s.pc = .scan n) ∨ s.pc = .scanned)
    (hperform : s.perform_connection = s.connected_ap.isNone)
    (hpoor : s.poor_signal = true → s.connected_ap ≠ none) : Placed s := by
  unfold Placed
  rcases hpc with ⟨n, hpc⟩ | hpc
  · rw [hpc]
    exact ⟨hperform, hpoor⟩
  · rw [hpc]
    exact ⟨hperform, hpoor⟩

theorem Inv.begin_loop (h : Inv s) : Inv (begin_loop s) := by
  unfold ConnMgr.begin_loop
  dsimp only
  cases hmode : s.mode with
  | SOFT_AP => exact ⟨h.cached, fun p hp => (h.valid p hp).frame rfl rfl, trivial⟩
  | STATION =>
    refine ⟨h.cached, fun p hp => (h.valid p hp).frame rfl rfl, placed_scan ?_ rfl fun hpoor hnone => ?_⟩
    · dsimp only
      split
      · exact .inl ⟨0, rfl⟩
      · exact .inr rfl
    · have hnone : s.connected_ap = none := hnone
      simp [hnone] at hpoor

theorem Inv.scan {ret : Int} {scan_results : Option (List ScanResult)} {scan_list : ScanList} {pc : Pc} (h : Inv s)
    (hk : Kept s (.scan scan_results)) (hat : ∃ n, s.pc = .scan n) (hpc : (∃ n, pc = .scan n) ∨ pc = .scanned)
    (hs : scan_networks s.scan_list scan_results = some (ret, scan_list)) : Inv { s with scan_list, pc } := by
  obtain ⟨ret', list', hs', hcached, -⟩ := scan_networks_spec h.cached hk.1 scan_results
  obtain ⟨rfl, rfl⟩ := Prod.mk.inj (Option.some.inj (hs'.symm.trans hs))
  have hplaced := h.placed
  unfold Placed at hplaced
  obtain ⟨n, hat⟩ := hat
  rw [hat] at hplaced
  refine ⟨hcached, fun p hp => ?_, placed_scan hpc hplaced.1 hplaced.2⟩
  have hv := h.valid p hp
  obtain ⟨⟨hbssid, hprofile⟩, hage⟩ := scan_networks_entry h.cached hk.1 hv.lt hv.active (hk.2 p hp) hs'
  exact ⟨hv.lt, hage, hbssid ▸ hv.bssid, hprofile ▸ hv.profile⟩

theorem Inv.after_scan (h : Inv s) (hpc : s.pc = .scanned) : Inv (after_scan s) := by
  have hplaced := h.placed
  unfold Placed at hplaced
  rw [hpc] at hplaced
  obtain ⟨hperform, hpoor⟩ := hplaced
  have hgoes : Inv { s with pc := if s.perform_connection then .connect 0 else .signal } := by
    refine ⟨h.cached, fun p hp => (h.valid p hp).frame rfl rfl, ?_⟩
    unfold Placed
    dsimp only
    cases hc : s.connected_ap with
    | none => rw [hperform, hc]; simp
    | some p => rw [hperform, hc]; simp
  unfold ConnMgr.after_scan
  split
  · rename_i hpoor'
    cases hc : s.connected_ap with
    | none => exact absurd hc (hpoor hpoor')
    | some p =>
      dsimp only
      split
      · exact ⟨h.cached, fun q hq => absurd hq (by simp), rfl⟩
      · rwa [← hc]
  · exact hgoes

theorem connect_to_network_entry (ap : ApInfo) (connected : Nat → Bool) :
    SameAp ap (connect_to_network ap connected).2 ∧ ((connect_to_network ap connected).1 ≠ -1 →
      ap.associated_profile ≠ none) := by
  unfold connect_to_network
  split
  · rename_i htry
    split
    · exact ⟨⟨rfl, rfl⟩, fun _ => htry.1⟩
    · split
      · exact ⟨⟨rfl, rfl⟩, fun _ => htry.1⟩
      · exact ⟨⟨rfl, rfl⟩, fun _ => htry.1⟩
  · exact ⟨⟨rfl, rfl⟩, fun hne => absurd rfl hne⟩

theorem Inv.attempt {i : Nat} (h : Inv s) (hpc : s.pc = .connect i) (connected : Nat → Bool) :
    Inv (attempt s i connected) := by
  have hnone : s.connected_ap = none := by
    have hplaced := h.placed
    unfold Placed at hplaced
    rwa [hpc] at hplaced
  unfold ConnMgr.attempt
  split
  · rename_i hi
    obtain ⟨⟨hbssid, hprofile⟩, htried⟩ := connect_to_network_entry (s.scan_list.ap i) connected
    have hage := connect_age connected (h.cached.active i hi)
    have hcached : Cached (s.scan_list.set_ap i (connect_to_network (s.scan_list.ap i) connected).2) :=
      Prefix.set_ap h.cached hi hage
    have hself := set_ap_self s.scan_list i (connect_to_network (s.scan_list.ap i) connected).2
    dsimp only
    split
    · rename_i hret
      refine ⟨hcached, fun p hp => ?_, trivial⟩
      obtain rfl := Option.some.inj hp
      have hentry : (s.scan_list.set_ap i (connect_to_network (s.scan_list.ap i) connected).2).cached_aps
          (s.scan_list.sorted_aps i) = (connect_to_network (s.scan_list.ap i) connected).2 := hself
      refine ⟨Set.mem_Iio.1 (h.cached.pointers.mapsTo (Set.mem_Iio.2 (Nat.lt_of_lt_of_le hi h.cached.le))), ?_, ?_, ?_⟩
      · exact lt_of_lt_of_eq hage (congrArg ApInfo.age hentry).symm
      · exact congrArg some (congrArg ApInfo.bssid hentry).symm
      · intro hnone
        exact htried hret (hprofile.symm.trans ((congrArg ApInfo.associated_profile hentry).symm.trans hnone))
    · exact ⟨hcached, fun p hp => absurd (hnone.symm.trans hp) nofun, hnone⟩
  · exact ⟨h.cached, fun p hp => (h.valid p hp).frame rfl rfl, trivial⟩

theorem Inv.report (h : Inv s) (mode : Mode) : Inv (report s mode) := by
  unfold ConnMgr.report
  split
  · split
    · exact ⟨h.cached, fun p hp => (h.valid p hp).frame rfl rfl, trivial⟩
    · exact ⟨h.cached, fun p hp => (h.valid p hp).frame rfl rfl, trivial⟩
  · rename_i p hp
    rw [if_neg (h.valid p hp).profile]
    exact ⟨h.cached, fun p hp => (h.valid p hp).frame rfl rfl, trivial⟩

theorem Inv.signal_strength (h : Inv s) (hpc : s.pc = .signal) (rcpi : Option UInt32) : Inv (signal_strength s rcpi) := by
  have hsome : s.connected_ap ≠ none := by
    have hplaced := h.placed
    unfold Placed at hplaced
    rwa [hpc] at hplaced
  unfold ConnMgr.signal_strength
  split
  · exact ⟨h.cached, fun p hp => (h.valid p hp).frame rfl rfl, trivial⟩
  · rename_i hnone
    exact absurd hnone hsome
  · rename_i p hp
    refine ⟨Prefix.signal h.cached p _, fun q hq => ?_, trivial⟩
    obtain rfl : p = q := Option.some.inj (hp.symm.trans hq)
    have hv := h.valid p hp
    refine ⟨hv.lt, ?_, ?_, ?_⟩
    · simpa using hv.active
    · simpa using hv.bssid
    · simpa [update_ap_rssi] using hv.profile

theorem Inv.notified {bits : Bits} {profiles : List Ssid} (h : Inv s) (hk : Kept s (.notify (some bits) profiles)) :
    Inv (notified s bits profiles) := by
  unfold ConnMgr.notified
  split
  · exact ⟨h.cached, fun p hp => absurd hp nofun, trivial⟩
  · rename_i hreset
    have hplaced : ∀ s' : State, s'.pc = (if bits.NOTIFY_NETWORK_DOWN then .network_down else .top) → Placed s' := by
      intro s' hpc
      unfold Placed
      rw [hpc]
      cases bits.NOTIFY_NETWORK_DOWN <;> trivial
    split
    · rename_i hupdated
      have hnone := (hk hupdated).resolve_left hreset
      exact ⟨reset_cached profiles, fun p hp => absurd (hnone.symm.trans hp) nofun, hplaced _ rfl⟩
    · exact ⟨h.cached, fun p hp => (h.valid p hp).frame rfl rfl, hplaced _ rfl⟩

theorem Inv.network_down (h : Inv s) (WIFI_IsConnected : Bool) (mode : Mode) :
    Inv (network_down s WIFI_IsConnected mode) := by
  have hkeep : ∀ s' : State, s'.scan_list = s.scan_list → s'.bssid = s.bssid → s'.pc = .top →
      s'.connected_ap = s.connected_ap ∨ s'.connected_ap = none → Inv s' := by
    intro s' hlist hbssid hpc hconnected
    refine ⟨by rw [hlist]; exact h.cached, fun p hp => ?_, by unfold Placed; rw [hpc]; trivial⟩
    rcases hconnected with heq | hnone
    · exact (h.valid p (heq ▸ hp)).frame hlist hbssid
    · rw [hnone] at hp
      cases hp
  unfold ConnMgr.network_down
  split
  · split
    · exact hkeep _ rfl rfl rfl (.inl rfl)
    · split
      · exact hkeep _ rfl rfl rfl (.inr rfl)
      · split
        · rename_i p hp
          rw [if_neg (h.valid p hp).profile]
          exact hkeep _ rfl rfl rfl (.inr rfl)
        · exact hkeep _ rfl rfl rfl (.inr rfl)
  · split
    · exact hkeep _ rfl rfl rfl (.inl rfl)
    · refine hkeep _ rfl rfl rfl ?_
      dsimp only
      split
      · exact .inl rfl
      · exact .inr rfl

theorem Inv.step {a : Act} (h : Inv s) (hk : Kept s a) (hs : wifi_conn_mgr.step s a = some s') : Inv s' := by
  simp only [wifi_conn_mgr] at hs
  split at hs
  · cases hs
    exact h.begin_loop
  · rename_i n scan_results hpc
    obtain ⟨⟨ret, scan_list⟩, hscan, rfl⟩ := Option.map_eq_some_iff.1 hs
    refine h.scan hk ⟨n, hpc⟩ ?_ hscan
    split
    · exact .inl ⟨n + 1, rfl⟩
    · exact .inr rfl
  · rename_i hpc
    cases hs
    exact h.after_scan hpc
  · rename_i i connected hpc
    cases hs
    exact h.attempt hpc connected
  · cases hs
    exact h.report _
  · rename_i hpc
    cases hs
    exact h.signal_strength hpc _
  · cases hs
    exact ⟨h.cached, fun p hp => (h.valid p hp).frame rfl rfl, trivial⟩
  · cases hs
    exact ⟨h.cached, fun p hp => (h.valid p hp).frame rfl rfl, trivial⟩
  · cases hs
    exact h.notified hk
  · cases hs
    exact h.network_down _ _
  · cases hs

theorem inv_reachable (h : wifi_conn_mgr.Reachable Kept s) : Inv s := by
  refine h.inv (fun s hinit => ?_) fun s a s' h hk hs => h.step hk hs
  obtain ⟨profiles, mode, rfl⟩ := hinit
  exact ⟨reset_cached profiles, fun p hp => absurd hp nofun, trivial⟩

/-- In every run in which no successful scan misses the connected access point
until it is too old, the profiles are not loaded while one is connected, and no
age overflows: the connected access point is an active entry with the address
last connected to and a profile, and no null pointer is followed. -/
theorem connected_kept (h : wifi_conn_mgr.Reachable Kept s) :
    s.pc ≠ .fault ∧ ∀ p, s.connected_ap = some p →
      p < CACHED_AP_COUNT ∧ 0 < (s.scan_list.cached_aps p).age ∧ s.bssid = some (s.scan_list.cached_aps p).bssid ∧
        (s.scan_list.cached_aps p).associated_profile ≠ none := by
  have hinv := inv_reachable h
  refine ⟨fun hpc => ?_, fun p hp => ?_⟩
  · have hplaced := hinv.placed
    unfold Placed at hplaced
    rwa [hpc] at hplaced
  · have hv := hinv.valid p hp
    exact ⟨hv.lt, hv.active, hv.bssid, hv.profile⟩

/-- With one profile, in station mode. -/
def started : State :=
  ⟨reset_scan_search_list_and_ap_cache [[97]], none, 0, .STATION, false, false, false, .top, none⟩

/-- The scan finds an access point of the profile, and the attempt to connect succeeds. -/
def connecting : List Act :=
  [.loop, .scan (some [⟨[97], Vector.replicate 6 1, -60, 1⟩]), .loop, .connect fun _ => true, .callback .STATION, .loop]

/-- The signal strength is read. -/
def reading (rcpi : UInt32) : List Act := [.notify none [], .loop, .loop, .signal (some rcpi), .loop]

/-- Connected, with a strong signal. -/
theorem connected_kept_one : ∃ s : State, s.connected_ap = some 0 ∧
    s.pc ≠ .fault ∧ ∀ p, s.connected_ap = some p →
      p < CACHED_AP_COUNT ∧ 0 < (s.scan_list.cached_aps p).age ∧ s.bssid = some (s.scan_list.cached_aps p).bssid ∧
        (s.scan_list.cached_aps p).associated_profile ≠ none := by
  have hrun : (wifi_conn_mgr.exec Kept started (List.flatten [connecting, reading 100])).any
      (fun s => decide (s.connected_ap = some 0)) := by decide +kernel
  obtain ⟨s, hs, hends⟩ := (Option.any_eq_true _ _).1 hrun
  exact ⟨s, of_decide_eq_true hends, connected_kept (Machine.exec_reachable ⟨_, _, rfl⟩ hs)⟩

/-- A scan for a better access point that finds none. -/
def searching : List Act := [.notify none [], .loop, .scan (some []), .loop, .signal none, .loop]

/-- The application has the profiles loaded again and disconnects: the callback
is given the name in a profile that is not there any more. And a signal that
is weak for 16 readings makes the manager search; after five searches without
a result the connected access point's entry is inactive. -/
theorem connected_ap_dangles :
    (∃ s, wifi_conn_mgr.Reachable Machine.Free s ∧ s.pc = .fault) ∧
      ∃ s, wifi_conn_mgr.Reachable Machine.Free s ∧ s.connected_ap = some 0 ∧ (s.scan_list.cached_aps 0).age = 0 := by
  constructor
  · have hrun : (wifi_conn_mgr.exec Machine.Free started (List.flatten [
    connecting, [.notify (some ⟨true, false, true⟩) [[97]], .network_down false .STATION]])).any
          (fun s => decide (s.pc = .fault)) := by decide +kernel
    obtain ⟨s, hs, hends⟩ := (Option.any_eq_true _ _).1 hrun
    exact ⟨s, Machine.exec_reachable ⟨_, _, rfl⟩ hs, of_decide_eq_true hends⟩
  · have hrun : (wifi_conn_mgr.exec Machine.Free started (List.flatten [
    connecting, (List.replicate 16 (reading 60)).flatten, (List.replicate 5 searching).flatten])).any
          (fun s => decide (s.connected_ap = some 0 ∧ (s.scan_list.cached_aps 0).age = 0)) := by decide +kernel
    obtain ⟨s, hs, hends⟩ := (Option.any_eq_true _ _).1 hrun
    obtain ⟨hconnected, hage⟩ := of_decide_eq_true hends
    exact ⟨s, Machine.exec_reachable ⟨_, _, rfl⟩ hs, hconnected, hage⟩

end ConnMgr
end Wifi
