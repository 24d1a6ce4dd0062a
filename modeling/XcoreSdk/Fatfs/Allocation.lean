import XcoreSdk.Fatfs.Clusters
import Mathlib.Logic.Relation
/-!
# The clusters of the files of a volume

`f_write` and `f_lseek` follow the clusters of a file, and get it another one
behind the last; `f_truncate` frees those behind the last that is kept, and all
when a file is emptied or removed. In whatever order this is done to any files,
the chains of the files stay apart, a cluster is granted just where one is free,
and what is no file's stays what it is.
-/

namespace Fatfs
open QspiFlash Prog

/-! ## What the callers do -/

/-- In `f_write` and `f_lseek`: the cluster behind `clust`, or a file's first one. -/
def next_cluster (ctx : Ctx) (sclust clust : Nat) : Prog Volume Nat :=
  if clust = 0 then if sclust = 0 then create_chain ctx 0 else pure sclust else create_chain ctx clust

/-- In `f_truncate`: the clusters behind `clust` are freed, or all. -/
def cut_chain (ctx : Ctx) (sclust clust : Nat) : Prog Volume FatResult :=
  if clust = 0 then remove_chain ctx sclust 0
  else do
    let ncl ← get_fat ctx clust
    if ncl = 0xFFFFFFFF then return .FR_DISK_ERR
    else if ncl = 1 then return .FR_INT_ERR
    else
      let fs := (← get).fs
      if ncl < fs.n_fatent then remove_chain ctx ncl clust else return .FR_OK

/-- A volume, and the clusters that its files have got. -/
structure Files where
  volume : Volume
  chains : Nat → List Nat

/-- The last of the first `k` clusters of a file, or 0. -/
def cluster (l : List Nat) (k : Nat) : Nat := if k = 0 then 0 else l.getD (k - 1) 0

def Files.next_cluster (ctx : Ctx) (s : Files) (i k : Nat) : Prog Volume Nat :=
  Fatfs.next_cluster ctx ((s.chains i).headD 0) (cluster (s.chains i) k)

def Files.cut_chain (ctx : Ctx) (s : Files) (i k : Nat) : Prog Volume FatResult :=
  Fatfs.cut_chain ctx ((s.chains i).headD 0) (cluster (s.chains i) k)

/-- A cluster that was got behind a file's last one is the file's. -/
def Files.followed (s : Files) (i k ncl : Nat) (volume : Volume) : Files :=
  ⟨volume, if k = (s.chains i).length ∧ 2 ≤ ncl ∧ ncl < volume.fs.n_fatent then
    Function.update s.chains i (s.chains i ++ [ncl]) else s.chains⟩

/-- What is done for file `i`, which goes on behind its first `k` clusters or keeps them only. In between, the window is
moved to other sectors, or written back. -/
inductive Step (ctx : Ctx) (s : Files) : Files → Prop
  | follow {i k ncl : Nat} {volume : Volume} : k ≤ (s.chains i).length → Does (s.next_cluster ctx i k) s.volume ncl volume →
      Step ctx s (s.followed i k ncl volume)
  | truncate {i k : Nat} {res : FatResult} {volume : Volume} : s.chains i ≠ [] → k ≤ (s.chains i).length →
      Does (s.cut_chain ctx i k) s.volume res volume →
      Step ctx s ⟨volume, Function.update s.chains i ((s.chains i).take k)⟩
  | look {sect : Nat} {res : FatResult} {volume : Volume} : InFlash ctx sect → Does (move_window ctx sect) s.volume res volume →
      Step ctx s ⟨volume, s.chains⟩
  | sync {res : FatResult} {volume : Volume} : Does (sync_window ctx) s.volume res volume → Step ctx s ⟨volume, s.chains⟩

/-! ## What is promised -/

/-- The files' chains are those in the FAT. -/
structure Sound (ctx : Ctx) (s : Files) : Prop where
  mounted : Mounted ctx s.volume
  some_cluster : 2 < s.volume.fs.n_fatent
  counted : Counted s.volume
  not_one : ∀ c, 2 ≤ c → c < s.volume.fs.n_fatent → s.volume.entry c ≠ 1
  chain : ∀ i, Clusters s.volume.fs.n_fatent s.volume.entry (s.chains i)
  apart : ∀ i j, ∀ c ∈ s.chains i, c ∈ s.chains j → i = j

/-- A cluster that is in use, though no file has it. -/
def Files.Lost (s : Files) (c : Nat) : Prop := s.volume.entry c ≠ 0 ∧ ∀ i, c ∉ s.chains i

/-- What has not changed since. -/
structure Kept (ctx : Ctx) (s s' : Files) : Prop where
  /-- Sectors outside of the FATs are as they were, and both FATs still the same if they were. -/
  volume : Turns ctx s.volume s'.volume.entry s'.volume
  lost : ∀ c, c < s.volume.fs.n_fatent → (s'.Lost c ↔ s.Lost c)
  lost_entry : ∀ c, c < s.volume.fs.n_fatent → s.Lost c → s'.volume.entry c = s.volume.entry c

/-- The calls come to an end, and with these results. -/
structure Serves (ctx : Ctx) (s : Files) : Prop where
  followed : ∀ i k, ∀ h : k < (s.chains i).length, ∃ volume, Does (s.next_cluster ctx i k) s.volume (s.chains i)[k] volume
  granted : ∀ i, (∃ c, 2 ≤ c ∧ c < s.volume.fs.n_fatent ∧ s.volume.entry c = 0) →
    ∃ ncl volume, Does (s.next_cluster ctx i (s.chains i).length) s.volume ncl volume ∧
      2 ≤ ncl ∧ ncl < s.volume.fs.n_fatent ∧ s.volume.entry ncl = 0
  full : ∀ i, (¬ ∃ c, 2 ≤ c ∧ c < s.volume.fs.n_fatent ∧ s.volume.entry c = 0) →
    ∃ volume, Does (s.next_cluster ctx i (s.chains i).length) s.volume 0 volume
  truncated : ∀ i k, s.chains i ≠ [] → k ≤ (s.chains i).length → ∃ volume, Does (s.cut_chain ctx i k) s.volume .FR_OK volume
  /-- The flash has the chains then. -/
  synced : ∃ volume, Does (sync_window ctx) s.volume .FR_OK volume ∧ OnFlash ctx s.volume s.volume.entry volume

/-! ## `create_chain` -/

variable {ctx : Ctx} {v v' : Volume} {table : Nat → Nat} {clst ncl n : Nat}

theorem Holds.counted (h : Holds ctx v v.entry v') (hc : Counted v) : Counted v' := by
  refine h.turns.counted ?_
  have hfree : v'.fs.free_clst = v.fs.free_clst := by rw [h.fs]
  rw [hfree]
  exact hc

theorem Mounted.eoc_ne_zero (hm : Mounted ctx v) : v.fs.fs_type.eoc ≠ 0 := by
  have hle := hm.le_eoc
  have hn := hm.n_fatent
  omega

/-- The FAT once cluster `ncl` is behind `clst`, or a chain of its own. -/
def granted (table : Nat → Nat) (clst ncl eoc : Nat) : Nat → Nat :=
  if clst = 0 then Function.update table ncl eoc else Function.update (Function.update table ncl eoc) clst ncl

theorem granted_congr {table' : Nat → Nat} {eoc d : Nat} (h : table d = table' d) :
    granted table clst ncl eoc d = granted table' clst ncl eoc d := by
  unfold granted
  split <;> simp only [Function.update_apply, h]

theorem card_granted {eoc : Nat} (hlo : 2 ≤ ncl) (hhi : ncl < n) (hfree : table ncl = 0) (heoc : eoc ≠ 0)
    (hused : clst ≠ 0 → table clst ≠ 0) : (free n (granted table clst ncl eoc)).card + 1 = (free n table).card := by
  have htaken := free_taken hlo hhi hfree heoc
  unfold granted
  split
  · exact htaken
  · rename_i hne
    rw [free_used _ (by omega)]
    · exact htaken
    · have hne' : clst ≠ ncl := fun heq => hused hne (heq ▸ hfree)
      rw [Function.update_of_ne hne']
      exact hused hne

/-- The new cluster is linked, and counted. -/
theorem link_new_does (hm : Mounted ctx v) (hcounted : Counted v) (hlo : 2 ≤ ncl) (hhi : ncl < v.fs.n_fatent)
    (hfree : v.entry ncl = 0) (hlast : clst ≠ 0 → 2 ≤ clst ∧ clst < v.fs.n_fatent ∧ v.entry clst ≠ 0) :
    ∃ v', Does (link_new ctx clst ncl) v ncl v' ∧ Turns ctx v (granted v.entry clst ncl v.fs.fs_type.eoc) v' ∧ Counted v' := by
  obtain ⟨v₁, hput₁, hh₁⟩ : ∃ v₁, Does (put_fat ctx ncl 0xFFFFFFFF) v .FR_OK v₁ ∧
      Holds ctx v (Function.update v.entry ncl v.fs.fs_type.eoc) v₁ := put_fat_holds hm hlo hhi 0xFFFFFFFF
  have hn₁ := hh₁.turns.n_fatent
  have hlimit := hm.limit
  obtain ⟨v₂, hput₂, ht₂, hfree₂⟩ : ∃ v₂, (clst = 0 ∧ v₂ = v₁ ∨ clst ≠ 0 ∧ Does (put_fat ctx clst ncl) v₁ .FR_OK v₂) ∧
      Turns ctx v (granted v.entry clst ncl v.fs.fs_type.eoc) v₂ ∧ v₂.fs.free_clst = v.fs.free_clst := by
    by_cases hzero : clst = 0
    · refine ⟨v₁, .inl ⟨hzero, rfl⟩, hh₁.turns.of_entry fun d _ => ?_, by rw [hh₁.fs]⟩
      rw [granted, if_pos hzero]
    · obtain ⟨hclo, hchi, -⟩ := hlast hzero
      obtain ⟨v₂, hput, hh₂⟩ := put_fat_holds hh₁.mounted hclo (by rwa [hn₁]) ncl
      refine ⟨v₂, .inr ⟨hzero, hput⟩, (hh₁.turns.trans hh₂.turns).of_entry fun d hd => ?_, by rw [hh₂.fs, hh₁.fs]⟩
      have hmod : ncl % v₁.fs.fs_type.limit = ncl := by
        rw [hh₁.turns.fs_type]
        exact Nat.mod_eq_of_lt (hhi.trans hlimit)
      rw [granted, if_neg hzero, hmod, Function.update_apply, Function.update_apply, hh₁.entry d hd]
  have ht₃ : Turns ctx v₂ v₂.entry { v₂ with fs := count_taken v₂.fs ncl } := turns_counts ht₂.mounted _ _ _
  have ht := (ht₂.trans ht₃).of_entry ht₂.entry
  refine ⟨_, ?_, ht, ht.counted ?_⟩
  · unfold link_new
    refine hput₁.bind ?_
    rcases hput₂ with ⟨hzero, rfl⟩ | ⟨hne, hput⟩
    · rw [if_neg fun h => h.2 hzero]
      refine (does_pure _ _).bind ?_
      simp only [if_true]
      exact Does.modify_bind (does_pure _ _)
    · rw [if_pos ⟨rfl, hne⟩]
      refine hput.bind ?_
      simp only [if_true]
      exact Does.modify_bind (does_pure _ _)
  · have hcard := card_granted hlo hhi hfree hm.eoc_ne_zero fun h => (hlast h).2.2
    have hle := card_free_le v.fs.n_fatent v.entry
    show (if v₂.fs.free_clst ≤ v₂.fs.n_fatent - 2 then v₂.fs.free_clst - 1 else v₂.fs.free_clst) = _ ∨
      _ < if v₂.fs.free_clst ≤ v₂.fs.n_fatent - 2 then v₂.fs.free_clst - 1 else v₂.fs.free_clst
    rw [hfree₂, ht₂.n_fatent]
    rcases hcounted with hcount | hcount
    · rw [if_pos (by omega)]
      left
      omega
    · rw [if_neg (by omega)]
      exact .inr hcount

/-- A cluster is granted, or none is free. -/
inductive Grants (ctx : Ctx) (v : Volume) (clst : Nat) : Nat → Volume → Prop
  | granted {ncl : Nat} {v' : Volume} : 2 ≤ ncl → ncl < v.fs.n_fatent → v.entry ncl = 0 →
      Turns ctx v (granted v.entry clst ncl v.fs.fs_type.eoc) v' → Grants ctx v clst ncl v'
  | full {v' : Volume} : (∀ c, 2 ≤ c → c < v.fs.n_fatent → v.entry c ≠ 0) → Turns ctx v v.entry v' → Grants ctx v clst 0 v'

theorem create_from {scl : Nat} (hstart : Does (search_start ctx clst) v (.ok scl) v') (hh : Holds ctx v v.entry v')
    (hcounted : Counted v) (hsome : 2 < v.fs.n_fatent) (hone : ∀ c, 2 ≤ c → c < v.fs.n_fatent → v.entry c ≠ 1)
    (hlo : 1 ≤ scl) (hhi : scl < v.fs.n_fatent) (hlast : clst ≠ 0 → 2 ≤ clst ∧ clst < v.fs.n_fatent ∧ v.entry clst ≠ 0) :
    ∃ ncl v'', Does (create_chain ctx clst) v ncl v'' ∧ Grants ctx v clst ncl v'' ∧ Counted v'' := by
  have hn := hh.turns.n_fatent
  by_cases hzero : v'.fs.free_clst = 0
  · refine ⟨0, v', ?_, .full (fun c hclo hchi hfree => ?_) hh.turns, hh.counted hcounted⟩
    · unfold create_chain
      refine hstart.bind (Does.get_bind ?_)
      simp only [if_pos hzero]
      exact does_pure _ _
    · -- it would be counted
      have hpos := Finset.card_pos.2 ⟨c, mem_free.2 ⟨⟨hclo, hchi⟩, hfree⟩⟩
      have hcount : v'.fs.free_clst = v.fs.free_clst := by rw [hh.fs]
      rcases hcounted with h | h <;> omega
  · have hone' : ∀ c, 2 ≤ c → c < v'.fs.n_fatent → v'.entry c ≠ 1 := fun c hclo hchi => by
      rw [hn] at hchi
      rw [hh.entry c hchi]
      exact hone c hclo hchi
    obtain ⟨r, v₂, hfind, hh₂, hfinds⟩ : ∃ r v₂, Does (find_free ctx clst scl) v' r v₂ ∧ _ :=
      find_free_does hh.mounted (by rwa [hn]) hone' hlo (by rwa [hn])
    have hheld := hh.trans hh₂
    rw [Finds, hn] at hfinds
    rcases hfinds with ⟨ncl, rfl, hnlo, hnhi, hfree⟩ | ⟨rfl, hall⟩
    · have hn₂ := hheld.turns.n_fatent
      have hfree₂ : v₂.entry ncl = 0 := by rw [hh₂.entry ncl (by rwa [hn]), hfree]
      obtain ⟨v₃, hlink, ht₃, hc₃⟩ : ∃ v₃, Does (link_new ctx clst ncl) v₂ ncl v₃ ∧ _ :=
        link_new_does hheld.mounted (hheld.counted hcounted) hnlo (by rwa [hn₂]) hfree₂ fun hne => by
          obtain ⟨hclo, hchi, hused⟩ := hlast hne
          exact ⟨hclo, by rwa [hn₂], by rwa [hheld.entry clst hchi]⟩
      refine ⟨ncl, v₃, ?_, .granted hnlo hnhi ?_ ((hheld.turns.trans ht₃).of_entry fun d hd => ?_), hc₃⟩
      · unfold create_chain
        refine hstart.bind (Does.get_bind ?_)
        simp only [if_neg hzero]
        exact hfind.bind hlink
      · rw [← hh.entry ncl hnhi, hfree]
      · rw [hheld.turns.fs_type]
        exact granted_congr (hheld.entry d hd)
    · refine ⟨0, v₂, ?_, .full (fun c hclo hchi => ?_) hheld.turns, hheld.counted hcounted⟩
      · unfold create_chain
        refine hstart.bind (Does.get_bind ?_)
        simp only [if_neg hzero]
        exact hfind.bind (does_pure _ _)
      · rw [← hh.entry c hchi]
        exact hall c (List.mem_range'_1.2 ⟨hclo, by omega⟩)

/-- A new chain. -/
theorem create_chain_new (hm : Mounted ctx v) (hcounted : Counted v) (hsome : 2 < v.fs.n_fatent)
    (hone : ∀ c, 2 ≤ c → c < v.fs.n_fatent → v.entry c ≠ 1) :
    ∃ ncl v', Does (create_chain ctx 0) v ncl v' ∧ Grants ctx v 0 ncl v' ∧ Counted v' := by
  have hstart : Does (search_start ctx 0) v (.ok (if v.fs.last_clst = 0 ∨ v.fs.n_fatent ≤ v.fs.last_clst then 1 else v.fs.last_clst))
      v := by
    unfold search_start
    refine Does.get_bind ?_
    simp only [if_true]
    exact does_pure _ _
  refine create_from hstart (.refl hm) hcounted hsome hone ?_ ?_ fun h => absurd rfl h
  · split <;> omega
  · split <;> omega

/-- A chain is stretched at its end. -/
theorem create_chain_last (hm : Mounted ctx v) (hcounted : Counted v) (hone : ∀ c, 2 ≤ c → c < v.fs.n_fatent → v.entry c ≠ 1)
    (hlo : 2 ≤ clst) (hhi : clst < v.fs.n_fatent) (hlast : v.fs.n_fatent ≤ v.entry clst) :
    ∃ ncl v', Does (create_chain ctx clst) v ncl v' ∧ Grants ctx v clst ncl v' ∧ Counted v' := by
  obtain ⟨v₁, hget, hh⟩ := get_fat_holds hm hlo hhi
  have hstart : Does (search_start ctx clst) v (.ok clst) v₁ := by
    unfold search_start
    refine Does.get_bind ?_
    simp only [if_neg (show ¬ clst = 0 by omega)]
    refine hget.bind ?_
    rw [if_neg (by omega), if_neg (entry_ne_error v clst), if_neg (by omega)]
    exact does_pure _ _
  exact create_from hstart hh hcounted (by omega) hone (by omega) hhi fun _ => ⟨hlo, hhi, by omega⟩

/-- In the middle of a chain, it is just followed. -/
theorem create_chain_followed (hm : Mounted ctx v) (hlo : 2 ≤ clst) (hhi : clst < v.fs.n_fatent) (hnlo : 2 ≤ v.entry clst)
    (hnhi : v.entry clst < v.fs.n_fatent) : ∃ v', Does (create_chain ctx clst) v (v.entry clst) v' ∧ Holds ctx v v.entry v' := by
  obtain ⟨v₁, hget, hh⟩ := get_fat_holds hm hlo hhi
  have hstart : Does (search_start ctx clst) v (.error (v.entry clst)) v₁ := by
    unfold search_start
    refine Does.get_bind ?_
    simp only [if_neg (show ¬ clst = 0 by omega)]
    refine hget.bind ?_
    rw [if_neg (by omega), if_neg (entry_ne_error v clst), if_pos hnhi]
    exact does_pure _ _
  exact ⟨v₁, hstart.bind (does_pure _ _), hh⟩

/-! ## One file changes -/

variable {s s' : Files} {i k : Nat} {l l' : List Nat}

theorem Clusters.congr (h : Clusters n table l) {table' : Nat → Nat} (heq : ∀ c ∈ l, table' c = table c) : Clusters n table' l :=
  ⟨h.1.congr heq, h.2⟩

/-- File `i` has the clusters `l` now: it has got free ones, and those that it has no longer are free. -/
theorem Sound.change (hs : Sound ctx s) (ht : Turns ctx s.volume table v') (hcounted : Counted v')
    (hl : Clusters s.volume.fs.n_fatent table l) (hnew : ∀ c ∈ l, c ∈ s.chains i ∨ s.volume.entry c = 0)
    (hfreed : ∀ c ∈ s.chains i, c ∉ l → table c = 0) (hother : ∀ c, c ∉ s.chains i → c ∉ l → table c = s.volume.entry c) :
    Sound ctx ⟨v', Function.update s.chains i l⟩ ∧ Kept ctx s ⟨v', Function.update s.chains i l⟩ := by
  have hn := ht.n_fatent
  have hsome := hs.some_cluster
  have hmem : ∀ j ≠ i, ∀ c ∈ s.chains j, c ∉ s.chains i ∧ c ∉ l := by
    intro j hj c hc
    have hnot : c ∉ s.chains i := fun hci => hj (hs.apart j i c hc hci)
    refine ⟨hnot, fun hcl => ?_⟩
    rcases hnew c hcl with hci | hfree
    · exact hnot hci
    · have hused := (hs.chain j).entry (by omega) hc
      omega
  refine ⟨⟨ht.mounted, by rwa [hn], hcounted, fun c hlo hhi => ?_, fun j => ?_, fun j₁ j₂ c h₁ h₂ => ?_⟩, ?_, fun c hc => ?_,
    fun c hc hlost => ?_⟩
  · rw [hn] at hhi
    rw [ht.entry c hhi]
    by_cases hcl : c ∈ l
    · have hused := hl.entry (by omega) hcl
      omega
    · by_cases hci : c ∈ s.chains i
      · rw [hfreed c hci hcl]
        decide
      · rw [hother c hci hcl]
        exact hs.not_one c hlo hhi
  · rw [hn]
    by_cases hj : j = i
    · subst hj
      simp only [Function.update_self]
      exact hl.congr fun c hc => ht.entry c (hl.lt hc)
    · simp only [Function.update_of_ne hj]
      refine (hs.chain j).congr fun c hc => ?_
      obtain ⟨hci, hcl⟩ := hmem j hj c hc
      rw [ht.entry c ((hs.chain j).lt hc), hother c hci hcl]
  · by_cases hj₁ : j₁ = i
    · by_cases hj₂ : j₂ = i
      · rw [hj₁, hj₂]
      · simp only [hj₁, Function.update_self, Function.update_of_ne hj₂] at h₁ h₂
        exact absurd h₁ (hmem j₂ hj₂ c h₂).2
    · by_cases hj₂ : j₂ = i
      · simp only [hj₂, Function.update_self, Function.update_of_ne hj₁] at h₁ h₂
        exact absurd h₂ (hmem j₁ hj₁ c h₁).2
      · simp only [Function.update_of_ne hj₁, Function.update_of_ne hj₂] at h₁ h₂
        exact hs.apart j₁ j₂ c h₁ h₂
  · exact ht.of_entry fun c hc => (ht.entry c hc).symm
  · constructor
    · rintro ⟨hused, hnone⟩
      have hcl : c ∉ l := by
        have hni := hnone i
        simpa only [Function.update_self] using hni
      rw [ht.entry c hc] at hused
      have hci : c ∉ s.chains i := fun hci => hused (hfreed c hci hcl)
      refine ⟨by rwa [hother c hci hcl] at hused, fun j => ?_⟩
      by_cases hj : j = i
      · rwa [hj]
      · have hnj := hnone j
        simpa only [Function.update_of_ne hj] using hnj
    · rintro ⟨hused, hnone⟩
      have hcl : c ∉ l := fun hcl => (hnew c hcl).elim (hnone i) hused
      refine ⟨?_, fun j => ?_⟩
      · rw [ht.entry c hc, hother c (hnone i) hcl]
        exact hused
      · by_cases hj : j = i
        · simpa only [hj, Function.update_self] using hcl
        · simpa only [Function.update_of_ne hj] using hnone j
  · have hcl : c ∉ l := fun hcl => (hnew c hcl).elim (hlost.2 i) hlost.1
    exact (ht.entry c hc).trans (hother c (hlost.2 i) hcl)

/-- No file changes. -/
theorem Sound.same (hs : Sound ctx s) (ht : Turns ctx s.volume s.volume.entry v') (hcounted : Counted v') :
    Sound ctx ⟨v', s.chains⟩ ∧ Kept ctx s ⟨v', s.chains⟩ := by
  have hchange := hs.change (i := 0) (l := s.chains 0) ht hcounted (hs.chain 0) (fun c hc => .inl hc)
    (fun c hc hnot => absurd hc hnot) fun _ _ _ => rfl
  rwa [Function.update_eq_self] at hchange

/-! ## Following a chain -/

theorem Clusters.pos (h : Clusters n table l) {c : Nat} (hc : c ∈ l) : c ≠ 0 := by
  have hlo := h.2 c hc
  omega

theorem cluster_succ (h : k < l.length) : cluster l (k + 1) = l[k] := by
  rw [cluster, if_neg (Nat.succ_ne_zero k), Nat.add_sub_cancel, List.getD_eq_getElem?_getD, List.getElem?_eq_getElem h]
  rfl

theorem cluster_last (l : List Nat) (c : Nat) : cluster (l ++ [c]) (l ++ [c]).length = c := by
  rw [List.length_append, List.length_singleton, cluster_succ (by simp), List.getElem_append_right (Nat.le_refl _)]
  simp

theorem Clusters.next (h : Clusters n table l) (hk : k + 1 < l.length) : table l[k] = l[k + 1] := by
  have heq : l = l.take k ++ l[k] :: l[k + 1] :: l.drop (k + 2) := by
    rw [List.getElem_cons_drop, List.getElem_cons_drop, List.take_append_drop]
  have hlinked := h.1
  rw [heq] at hlinked
  exact hlinked.next

theorem Sound.followed (hs : Sound ctx s) (hk : k < (s.chains i).length) :
    ∃ v', Does (s.next_cluster ctx i k) s.volume (s.chains i)[k] v' ∧ Holds ctx s.volume s.volume.entry v' := by
  have hchain := hs.chain i
  unfold Files.next_cluster Fatfs.next_cluster
  cases k with
  | zero =>
    have hhead : (s.chains i).headD 0 = (s.chains i)[0] := by
      rw [List.headD_eq_head?_getD, List.head?_eq_getElem?, List.getElem?_eq_getElem hk]
      rfl
    rw [cluster, if_pos rfl, if_pos rfl, hhead, if_neg (hchain.pos (List.getElem_mem hk))]
    exact ⟨s.volume, does_pure _ _, .refl hs.mounted⟩
  | succ k =>
    have hmem : (s.chains i)[k] ∈ s.chains i := List.getElem_mem (by omega)
    rw [cluster_succ (by omega), if_neg (hchain.pos hmem), ← hchain.next hk]
    refine create_chain_followed hs.mounted (hchain.2 _ hmem) (hchain.lt hmem) ?_ ?_
    · rw [hchain.next hk]
      exact hchain.2 _ (List.getElem_mem hk)
    · rw [hchain.next hk]
      exact hchain.lt (List.getElem_mem hk)

/-- Behind the last cluster, or for a file that has none. -/
theorem Sound.stretched (hs : Sound ctx s) (i : Nat) :
    ∃ ncl v', Does (s.next_cluster ctx i (s.chains i).length) s.volume ncl v' ∧
      Grants ctx s.volume (cluster (s.chains i) (s.chains i).length) ncl v' ∧ Counted v' := by
  have hchain := hs.chain i
  unfold Files.next_cluster Fatfs.next_cluster
  rcases List.eq_nil_or_concat (s.chains i) with hnil | ⟨l, c, hl⟩
  · rw [hnil, List.length_nil, cluster, if_pos rfl, if_pos rfl, List.headD_nil, if_pos rfl]
    exact create_chain_new hs.mounted hs.counted hs.some_cluster hs.not_one
  · rw [List.concat_eq_append] at hl
    rw [hl] at hchain ⊢
    have hmem : c ∈ l ++ [c] := List.mem_append_right l (List.mem_cons_self ..)
    rw [cluster_last, if_neg (hchain.pos hmem)]
    exact create_chain_last hs.mounted hs.counted hs.not_one (hchain.2 c hmem) (hchain.lt hmem) hchain.1.last

/-- A chain with a cluster more. -/
theorem Clusters.granted (h : Clusters n table l) {eoc : Nat} (hlo : 2 ≤ ncl) (hhi : ncl < n) (heoc : n ≤ eoc)
    (hfree : table ncl = 0) : Clusters n (granted table (cluster l l.length) ncl eoc) (l ++ [ncl]) := by
  have hnot : ncl ∉ l := fun hmem => by
    have hused := h.entry (by omega) hmem
    omega
  refine ⟨?_, fun c hc => ?_⟩
  · unfold Fatfs.granted
    rcases List.eq_nil_or_concat l with rfl | ⟨l, c, rfl⟩
    · rw [cluster, if_pos List.length_nil, if_pos rfl]
      refine ⟨Nat.not_le.2 hhi, ?_⟩
      rwa [Function.update_self]
    · rw [List.concat_eq_append] at h hnot ⊢
      have hmem : c ∈ l ++ [c] := List.mem_append_right l (List.mem_cons_self ..)
      rw [cluster_last, if_neg (h.pos hmem)]
      exact h.1.stretch hnot (Nat.not_le.2 hhi) heoc
  · rcases List.mem_append.1 hc with hc | hc
    · exact h.2 c hc
    · rwa [List.mem_singleton.1 hc]

theorem granted_other {eoc d : Nat} (hncl : d ≠ ncl) (hclst : d ≠ clst) : granted table clst ncl eoc d = table d := by
  unfold granted
  split
  · rw [Function.update_of_ne hncl]
  · rw [Function.update_of_ne hclst, Function.update_of_ne hncl]

theorem cluster_mem {c : Nat} (hzero : c ≠ 0) (hk : k ≤ l.length) (h : c = cluster l k) : c ∈ l := by
  cases k with
  | zero => exact absurd h hzero
  | succ k =>
    rw [h, cluster_succ hk]
    exact List.getElem_mem hk

theorem Grants.range (h : Grants ctx v clst ncl v') (hn : 2 ≤ v.fs.n_fatent) : ncl < v.fs.n_fatent := by
  cases h with
  | granted _ hhi => exact hhi
  | full => omega

theorem Sound.follow_step (hs : Sound ctx s) (hk : k ≤ (s.chains i).length) {volume : Volume}
    (hdoes : Does (s.next_cluster ctx i k) s.volume ncl volume) :
    Sound ctx (s.followed i k ncl volume) ∧ Kept ctx s (s.followed i k ncl volume) := by
  have hsome := hs.some_cluster
  by_cases hlast : k = (s.chains i).length
  · obtain ⟨c, v', hdoes', hgrants, hcounted⟩ := hs.stretched i
    obtain ⟨rfl, rfl⟩ := hdoes.unique (hlast ▸ hdoes')
    unfold Files.followed
    cases hgrants with
    | granted hlo hhi hfree ht =>
      rw [if_pos ⟨hlast, hlo, by rwa [ht.n_fatent]⟩]
      refine hs.change ht hcounted ((hs.chain i).granted hlo hhi hs.mounted.le_eoc hfree) (fun c hc => ?_)
        (fun c hc hnot => absurd (List.mem_append_left [ncl] hc) hnot) fun c hc hnot => ?_
      · rcases List.mem_append.1 hc with hc | hc
        · exact .inl hc
        · exact .inr ((List.mem_singleton.1 hc).symm ▸ hfree)
      · by_cases hc0 : c = 0
        · -- not a cluster
          rw [hc0]
          unfold granted
          split
          · rw [Function.update_of_ne (by omega)]
          · rename_i hne
            rw [Function.update_of_ne (Ne.symm hne), Function.update_of_ne (by omega)]
        · refine granted_other (fun heq => hnot (heq ▸ List.mem_append_right _ (List.mem_cons_self ..))) fun heq => ?_
          exact hc (cluster_mem hc0 (Nat.le_refl _) heq)
    | full _ ht =>
      rw [if_neg (by omega)]
      exact hs.same ht hcounted
  · obtain ⟨v', hdoes', hh⟩ := hs.followed (i := i) (show k < (s.chains i).length by omega)
    obtain ⟨-, rfl⟩ := hdoes.unique hdoes'
    unfold Files.followed
    rw [if_neg fun h => hlast h.1]
    exact hs.same hh.turns (hh.counted hs.counted)

/-! ## Cutting a chain -/

/-- What is left of a chain, and of the FAT. -/
structure Cut (ctx : Ctx) (v : Volume) (l kept : List Nat) (v' : Volume) (table : Nat → Nat) : Prop where
  turns : Turns ctx v table v'
  counted : Counted v'
  chain : Clusters v.fs.n_fatent table kept
  freed : ∀ c ∈ l, c ∉ kept → table c = 0
  other : ∀ c, c ∉ l → table c = v.entry c

theorem cut_whole {c sclust : Nat} (hm : Mounted ctx v) (hcounted : Counted v) (hl : Clusters v.fs.n_fatent v.entry (c :: l))
    (hsclust : sclust = c) : ∃ v' table, Does (cut_chain ctx sclust 0) v .FR_OK v' ∧ Cut ctx v (c :: l) [] v' table := by
  obtain ⟨v', hdoes, ht, hcounted', -⟩ := remove_chain_does hm hcounted hl fun h => absurd rfl h
  refine ⟨v', _, ?_, ht, hcounted', ⟨trivial, fun c hc => by cases hc⟩, fun d hd _ => if_pos hd, fun d hd => ?_⟩
  · rw [hsclust]
    exact hdoes
  · rw [removed, if_neg hd, if_neg fun h => h.2 rfl]

theorem cut_behind {sclust : Nat} {l₁ l₂ : List Nat} (hm : Mounted ctx v) (hcounted : Counted v)
    (hl : Clusters v.fs.n_fatent v.entry (l₁ ++ clst :: l₂)) :
    ∃ v' table, Does (cut_chain ctx sclust clst) v .FR_OK v' ∧ Cut ctx v (l₁ ++ clst :: l₂) (l₁ ++ [clst]) v' table := by
  have hmem : clst ∈ l₁ ++ clst :: l₂ := List.mem_append_right l₁ (List.mem_cons_self ..)
  have hlo := hl.2 clst hmem
  have hhi := hl.lt hmem
  obtain ⟨v₁, hget, hh⟩ := get_fat_holds hm hlo hhi
  have hn := hh.turns.n_fatent
  have hnodup := hl.1.nodup
  have hsn := hm.n_fatent
  cases l₂ with
  | nil =>
    have hlast : v.fs.n_fatent ≤ v.entry clst := hl.1.last
    refine ⟨v₁, v.entry, ?_, hh.turns, hh.counted hcounted, hl, fun c hc hnot => absurd hc hnot, fun c _ => rfl⟩
    unfold cut_chain
    rw [if_neg (by omega)]
    refine hget.bind ?_
    rw [if_neg (entry_ne_error v clst), if_neg (by omega)]
    refine Does.get_bind ?_
    rw [if_neg (by omega)]
    exact does_pure _ _
  | cons d l₂ =>
    have hnext : v.entry clst = d := hl.1.next
    have htail : Clusters v.fs.n_fatent v.entry (d :: l₂) :=
      ⟨(hl.1.of_append).tail, fun c hc => hl.2 c (List.mem_append_right l₁ (List.mem_cons_of_mem clst hc))⟩
    have hdlo := htail.2 d (List.mem_cons_self ..)
    have hdhi := htail.lt (List.mem_cons_self ..)
    have hdisjoint : ∀ c ∈ l₁ ++ [clst], c ∉ d :: l₂ := by
      intro c hc hc'
      have happend : l₁ ++ clst :: d :: l₂ = (l₁ ++ [clst]) ++ d :: l₂ := by simp
      rw [happend] at hnodup
      exact (List.nodup_append.1 hnodup).2.2 c hc c hc' rfl
    have htail₁ : Clusters v₁.fs.n_fatent v₁.entry (d :: l₂) := by
      rw [hn]
      exact htail.congr fun c hc => hh.entry c (htail.lt hc)
    obtain ⟨v₂, hremove, ht₂, hcounted₂, -⟩ : ∃ v₂, Does (remove_chain ctx d clst) v₁ .FR_OK v₂ ∧ _ :=
      remove_chain_does hh.mounted (hh.counted hcounted) htail₁ fun _ => by
        refine ⟨hlo, by rwa [hn], ?_, hdisjoint clst (List.mem_append_right l₁ (List.mem_cons_self ..))⟩
        rw [hh.entry clst hhi]
        omega
    have ht : Turns ctx v (removed v.entry (d :: l₂) clst v.fs.fs_type.eoc) v₂ := by
      refine (hh.turns.trans ht₂).of_entry fun c hc => ?_
      unfold removed
      rw [hh.turns.fs_type, hh.entry c hc]
    refine ⟨v₂, _, ?_, ht, hcounted₂, ⟨?_, fun c hc => ?_⟩, fun c hc hnot => ?_, fun c hc => ?_⟩
    · unfold cut_chain
      rw [if_neg (by omega)]
      refine hget.bind ?_
      rw [if_neg (entry_ne_error v clst), if_neg (by omega)]
      refine Does.get_bind ?_
      rw [if_pos (by omega), hnext]
      exact hremove
    · -- the last cluster that is kept ends the chain
      refine (hl.1.cut hm.le_eoc).congr fun c hc => ?_
      rw [removed, if_neg (hdisjoint c hc), Function.update_apply]
      by_cases heq : c = clst
      · rw [if_pos ⟨heq, by omega⟩, if_pos heq]
      · rw [if_neg fun h => heq h.1, if_neg heq]
    · refine hl.2 c ?_
      rcases List.mem_append.1 hc with hc | hc
      · exact List.mem_append_left _ hc
      · rwa [List.mem_singleton.1 hc]
    · refine if_pos ?_
      rcases List.mem_append.1 hc with hc | hc
      · exact absurd (List.mem_append_left [clst] hc) hnot
      · rcases List.mem_cons.1 hc with rfl | hc
        · exact absurd (List.mem_append_right l₁ (List.mem_cons_self ..)) hnot
        · exact hc
    · have hne : c ≠ clst := fun heq => hc (heq ▸ hmem)
      have hnot : c ∉ d :: l₂ := fun h => hc (List.mem_append_right l₁ (List.mem_cons_of_mem clst h))
      rw [removed, if_neg hnot, if_neg fun h => hne h.1]

theorem Sound.cut (hs : Sound ctx s) (hsome : s.chains i ≠ []) (hk : k ≤ (s.chains i).length) :
    ∃ v' table, Does (s.cut_chain ctx i k) s.volume .FR_OK v' ∧ Cut ctx s.volume (s.chains i) ((s.chains i).take k) v' table := by
  have hchain := hs.chain i
  unfold Files.cut_chain
  cases k with
  | zero =>
    obtain ⟨c, l, hl⟩ := List.exists_cons_of_ne_nil hsome
    rw [hl] at hchain ⊢
    exact cut_whole hs.mounted hs.counted hchain rfl
  | succ k =>
    have heq : s.chains i = (s.chains i).take k ++ (s.chains i)[k] :: (s.chains i).drop (k + 1) := by
      rw [List.getElem_cons_drop, List.take_append_drop]
    have htake : (s.chains i).take (k + 1) = (s.chains i).take k ++ [(s.chains i)[k]] := (List.take_concat_get' _ _ hk).symm
    rw [cluster_succ hk, htake]
    obtain ⟨v', table, hdoes, hcut⟩ : ∃ v' table,
        Does (Fatfs.cut_chain ctx ((s.chains i).headD 0) (s.chains i)[k]) s.volume .FR_OK v' ∧ _ :=
      cut_behind hs.mounted hs.counted (heq ▸ hchain)
    rw [← heq] at hcut
    exact ⟨v', table, hdoes, hcut⟩

theorem Sound.truncate_step (hs : Sound ctx s) (hsome : s.chains i ≠ []) (hk : k ≤ (s.chains i).length) {res : FatResult}
    {volume : Volume} (hdoes : Does (s.cut_chain ctx i k) s.volume res volume) :
    Sound ctx ⟨volume, Function.update s.chains i ((s.chains i).take k)⟩ ∧
      Kept ctx s ⟨volume, Function.update s.chains i ((s.chains i).take k)⟩ := by
  obtain ⟨v', table, hdoes', hcut⟩ := hs.cut hsome hk
  obtain ⟨-, rfl⟩ := hdoes.unique hdoes'
  exact hs.change hcut.turns hcut.counted hcut.chain (fun c hc => .inl (List.mem_of_mem_take hc)) hcut.freed
    fun c hc _ => hcut.other c hc

/-! ## Any calls -/

theorem Sound.moved {sect : Nat} (hs : Sound ctx s) (hmoved : Moved ctx sect s.volume v') :
    Sound ctx ⟨v', s.chains⟩ ∧ Kept ctx s ⟨v', s.chains⟩ := by
  have hh := (hmoved.becomes hs.mounted).holds hs.mounted
  exact hs.same hh.turns (hh.counted hs.counted)

theorem Sound.step (hs : Sound ctx s) (h : Step ctx s s') : Sound ctx s' ∧ Kept ctx s s' := by
  cases h with
  | follow hk hdoes => exact hs.follow_step hk hdoes
  | truncate hsome hk hdoes => exact hs.truncate_step hsome hk hdoes
  | look hsect hdoes =>
    obtain ⟨v', hdoes', hmoved⟩ := move_window_does hs.mounted.windowed hsect
    obtain ⟨-, rfl⟩ := hdoes.unique hdoes'
    exact hs.moved hmoved
  | sync hdoes =>
    obtain ⟨v', hdoes', hmoved⟩ := sync_window_moved hs.mounted.windowed
    obtain ⟨-, rfl⟩ := hdoes.unique hdoes'
    exact hs.moved hmoved

theorem Kept.refl (hs : Sound ctx s) : Kept ctx s s := ⟨.refl hs.mounted, fun _ _ => Iff.rfl, fun _ _ _ => rfl⟩

theorem Kept.trans {s'' : Files} (h : Kept ctx s s') (h' : Kept ctx s' s'') : Kept ctx s s'' := by
  have hn := h.volume.n_fatent
  refine ⟨h.volume.trans h'.volume, fun c hc => ?_, fun c hc hlost => ?_⟩
  · exact (h'.lost c (by rwa [hn])).trans (h.lost c hc)
  · have hlost' := (h.lost c hc).2 hlost
    exact (h'.lost_entry c (by rwa [hn]) hlost').trans (h.lost_entry c hc hlost)

theorem Sound.serves (hs : Sound ctx s) : Serves ctx s := by
  refine ⟨fun i k hk => ?_, fun i hsome => ?_, fun i hnone => ?_, fun i k hsome hk => ?_, (Holds.refl hs.mounted).sync⟩
  · obtain ⟨v', hdoes, -⟩ := hs.followed hk
    exact ⟨v', hdoes⟩
  · obtain ⟨ncl, v', hdoes, hgrants, -⟩ := hs.stretched i
    cases hgrants with
    | granted hlo hhi hfree _ => exact ⟨ncl, v', hdoes, hlo, hhi, hfree⟩
    | full hall _ =>
      obtain ⟨c, hlo, hhi, hfree⟩ := hsome
      exact absurd hfree (hall c hlo hhi)
  · obtain ⟨ncl, v', hdoes, hgrants, -⟩ := hs.stretched i
    cases hgrants with
    | granted hlo hhi hfree _ => exact absurd ⟨ncl, hlo, hhi, hfree⟩ hnone
    | full => exact ⟨v', hdoes⟩
  · obtain ⟨v', _, hdoes, -⟩ := hs.cut hsome hk
    exact ⟨v', hdoes⟩

theorem run_sound {s₀ : Files} (hs : Sound ctx s₀) (h : Relation.ReflTransGen (Step ctx) s₀ s) : Sound ctx s ∧ Kept ctx s₀ s := by
  induction h with
  | refl => exact ⟨hs, .refl hs⟩
  | tail _ hstep ih =>
    obtain ⟨hs', hkept'⟩ := ih.1.step hstep
    exact ⟨hs', ih.2.trans hkept'⟩

/-- Whatever is done for the files of a volume: their chains are apart and in the FAT, no cluster gets lost, nothing but the
FATs has changed, and the next call comes to its end, with a cluster where one is free. -/
theorem clusters_kept (ctx : Ctx) {s₀ s : Files} (hs : Sound ctx s₀) (h : Relation.ReflTransGen (Step ctx) s₀ s) :
    Sound ctx s ∧ Kept ctx s₀ s ∧ Serves ctx s := by
  obtain ⟨hs', hkept⟩ := run_sound hs h
  exact ⟨hs', hkept, hs'.serves⟩

/-- No file has a cluster yet. -/
def no_files : Files := ⟨formatted, fun _ => []⟩

theorem no_files_entry (c : Nat) (hc : c < 10) : no_files.volume.entry c = 0 := by
  revert c
  decide

theorem no_files_sound : Sound two_mib no_files := by
  refine ⟨formatted_mounted, by decide, .inl ?_, fun c _ hhi hone => ?_, fun i => ⟨trivial, fun c hc => ?_⟩, fun i j c hc => ?_⟩
  · decide
  · rw [no_files_entry c hhi] at hone
    cases hone
  · cases hc
  · cases hc

theorem Sound.last_used (hs : Sound ctx s) (i : Nat) (hsome : cluster (s.chains i) (s.chains i).length ≠ 0) :
    s.volume.entry (cluster (s.chains i) (s.chains i).length) ≠ 0 := by
  have hchain := hs.chain i
  have hn := hs.some_cluster
  rcases List.eq_nil_or_concat (s.chains i) with hnil | ⟨l, c, hl⟩
  · rw [hnil] at hsome
    exact absurd rfl hsome
  · rw [List.concat_eq_append] at hl
    rw [hl] at hchain ⊢
    have hlast := hchain.1.last
    rw [cluster_last]
    omega

/-- A file gets a cluster more, as long as one is free. -/
theorem Sound.gets (hs : Sound ctx s) (i : Nat) (hsome : 0 < (free s.volume.fs.n_fatent s.volume.entry).card) :
    ∃ ncl volume, Step ctx s ⟨volume, Function.update s.chains i (s.chains i ++ [ncl])⟩ ∧
      (free volume.fs.n_fatent volume.entry).card + 1 = (free s.volume.fs.n_fatent s.volume.entry).card := by
  obtain ⟨ncl, volume, hdoes, hgrants, -⟩ := hs.stretched i
  cases hgrants with
  | full hall _ =>
    obtain ⟨c, hc⟩ := Finset.card_pos.1 hsome
    obtain ⟨⟨hlo, hhi⟩, hfree⟩ := mem_free.1 hc
    exact absurd hfree (hall c hlo hhi)
  | granted hlo hhi hfree ht =>
    have hstep : Step ctx s _ := .follow (Nat.le_refl _) hdoes
    rw [Files.followed, if_pos ⟨rfl, hlo, by rwa [ht.n_fatent]⟩] at hstep
    refine ⟨ncl, volume, hstep, ?_⟩
    rw [ht.n_fatent, free_congr ht.entry]
    exact card_granted hlo hhi hfree hs.mounted.eoc_ne_zero (hs.last_used i)

/-- Two files get a cluster each, one of them another, and the other one is truncated: its cluster is free again. -/
theorem clusters_kept_first : ∃ s a b c, Relation.ReflTransGen (Step two_mib) no_files s ∧ s.chains 0 = [a, c] ∧
    s.chains 1 = [] ∧ s.volume.entry b = 0 ∧ Sound two_mib s ∧ Kept two_mib no_files s ∧ Serves two_mib s := by
  have hfree : (free no_files.volume.fs.n_fatent no_files.volume.entry).card = 8 := by
    have heq : free no_files.volume.fs.n_fatent no_files.volume.entry = free 10 fun _ => 0 := free_congr no_files_entry
    rw [heq]
    decide
  obtain ⟨a, v₁, hstep₁, hcard₁⟩ := no_files_sound.gets 0 (by omega)
  have hs₁ := (no_files_sound.step hstep₁).1
  obtain ⟨b, v₂, hstep₂, hcard₂⟩ := hs₁.gets 1 (by dsimp only; omega)
  have hs₂ := (hs₁.step hstep₂).1
  obtain ⟨c, v₃, hstep₃, -⟩ := hs₂.gets 0 (by dsimp only at hcard₂ ⊢; omega)
  have hs₃ := (hs₂.step hstep₃).1
  obtain ⟨v₄, table, hcuts, hcut⟩ := hs₃.cut (i := 1) (k := 0) (List.cons_ne_nil b []) (Nat.zero_le _)
  have hstep₄ : Step two_mib _ _ := .truncate (List.cons_ne_nil b []) (Nat.zero_le _) hcuts
  have hrun := (((Relation.ReflTransGen.single hstep₁).tail hstep₂).tail hstep₃).tail hstep₄
  have hmem : b ∈ [b] := List.mem_singleton_self b
  have hb : b < v₃.fs.n_fatent := (hs₃.chain 1).lt hmem
  exact ⟨_, a, b, c, hrun, rfl, rfl, (hcut.turns.entry b hb).trans (hcut.freed b hmem List.not_mem_nil),
    clusters_kept two_mib no_files_sound hrun⟩

end Fatfs
