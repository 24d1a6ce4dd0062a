import XcoreSdk.Fatfs.Fat
import XcoreSdk.Lib.Chain
import Mathlib.Order.Interval.Finset.Nat
/-!
# Chains of clusters

A file's clusters are a chain in the FAT. `create_chain` looks for a free
cluster, from behind the chain's last one on or from where the last one was
allocated, all around the volume; `remove_chain` frees the clusters of a chain
from some cluster on. Both keep count of the free clusters.
-/

namespace Fatfs
open QspiFlash Prog

/-! ## `remove_chain` -/

/-- One more cluster is free. -/
def count_freed (fs : FATFS) : FATFS :=
  if fs.free_clst < fs.n_fatent - 2 then { fs with free_clst := fs.free_clst + 1, fsi_flag := fs.fsi_flag ||| 1 } else fs

/-- A round of the loop, which goes on with the next cluster. -/
def remove_round (ctx : Ctx) (clst : Nat) : Prog Volume (Nat ⊕ FatResult) := do
  let nxt ← get_fat ctx clst
  if nxt = 0 then return .inr .FR_OK
  else if nxt = 1 then return .inr .FR_INT_ERR
  else if nxt = 0xFFFFFFFF then return .inr .FR_DISK_ERR
  else
    let res ← put_fat ctx clst 0
    if res = .FR_OK then
      modify fun v => { v with fs := count_freed v.fs }
      let fs := (← get).fs
      return if nxt < fs.n_fatent then .inl nxt else .inr .FR_OK
    else return .inr res

def remove_chain (ctx : Ctx) (clst pclst : Nat) : Prog Volume FatResult := do
  let fs := (← get).fs
  if clst < 2 ∨ fs.n_fatent ≤ clst then return .FR_INT_ERR
  else
    let res ← if pclst ≠ 0 then put_fat ctx pclst 0xFFFFFFFF else pure .FR_OK
    if res = .FR_OK then repeated (remove_round ctx) clst else return res

/-! ## `create_chain` -/

/-- A round of the search, after cluster `ncl`: a free cluster is found, or the call returns with a value. -/
def search_round (ctx : Ctx) (scl ncl : Nat) : Prog Volume (Nat ⊕ Except Nat Nat) := do
  let fs := (← get).fs
  if fs.n_fatent ≤ ncl + 1 ∧ scl < 2 then return .inr (.error 0)
  else
    let ncl := if fs.n_fatent ≤ ncl + 1 then 2 else ncl + 1
    let cs ← get_fat ctx ncl
    if cs = 0 then return .inr (.ok ncl)
    else if cs = 1 ∨ cs = 0xFFFFFFFF then return .inr (.error cs)
    else if ncl = scl then return .inr (.error 0)
    else return .inl ncl

/-- Where the search begins, if there is to be one. -/
def search_start (ctx : Ctx) (clst : Nat) : Prog Volume (Except Nat Nat) := do
  let fs := (← get).fs
  if clst = 0 then return .ok (if fs.last_clst = 0 ∨ fs.n_fatent ≤ fs.last_clst then 1 else fs.last_clst)
  else
    let cs ← get_fat ctx clst
    if cs < 2 then return .error 1
    else if cs = 0xFFFFFFFF then return .error cs
    else if cs < fs.n_fatent then return .error cs
    else return .ok clst

/-- The cluster behind the last one of a chain is looked at first. -/
def find_free (ctx : Ctx) (clst scl : Nat) : Prog Volume (Except Nat Nat) := do
  let fs := (← get).fs
  if scl = clst then
    let ncl := if fs.n_fatent ≤ scl + 1 then 2 else scl + 1
    let cs ← get_fat ctx ncl
    if cs = 1 ∨ cs = 0xFFFFFFFF then return .error cs
    else if cs = 0 then return .ok ncl
    else
      let scl := if 2 ≤ fs.last_clst ∧ fs.last_clst < fs.n_fatent then fs.last_clst else scl
      repeated (search_round ctx scl) scl
  else repeated (search_round ctx scl) scl

/-- One free cluster less. -/
def count_taken (fs : FATFS) (ncl : Nat) : FATFS :=
  { fs with
    last_clst := ncl
    free_clst := if fs.free_clst ≤ fs.n_fatent - 2 then fs.free_clst - 1 else fs.free_clst
    fsi_flag := fs.fsi_flag ||| 1 }

/-- The new cluster ends its chain, and is linked to the cluster in front of it. -/
def link_new (ctx : Ctx) (clst ncl : Nat) : Prog Volume Nat := do
  let res ← put_fat ctx ncl 0xFFFFFFFF
  let res ← if res = .FR_OK ∧ clst ≠ 0 then put_fat ctx clst ncl else pure res
  if res = .FR_OK then
    modify fun v => { v with fs := count_taken v.fs ncl }
    return ncl
  else return if res = .FR_DISK_ERR then 0xFFFFFFFF else 1

def create_chain (ctx : Ctx) (clst : Nat) : Prog Volume Nat := do
  match ← search_start ctx clst with
  | .error cs => return cs
  | .ok scl =>
    let fs := (← get).fs
    if fs.free_clst = 0 then return 0
    else match ← find_free ctx clst scl with
      | .error cs => return cs
      | .ok ncl => link_new ctx clst ncl

/-! ## The FAT as a table -/

variable {ctx : Ctx} {v v' v'' : Volume} {table table' : Nat → Nat} {clst c n : Nat}

/-- The volume `v` becomes one with these entries, and some counts. -/
structure Turns (ctx : Ctx) (v : Volume) (table : Nat → Nat) (v' : Volume) : Prop where
  fs : v'.fs = { v.fs with
    wflag := v'.fs.wflag, winsect := v'.fs.winsect, win := v'.fs.win
    fsi_flag := v'.fs.fsi_flag, last_clst := v'.fs.last_clst, free_clst := v'.fs.free_clst }
  mounted : Mounted ctx v'
  entry : ∀ clst < v.fs.n_fatent, v'.entry clst = table clst
  outside : ∀ j i, i < SS → InFlash ctx j → ¬ v.fs.InFat j → ¬ v.fs.InSecond j → v'.byte j i = v.byte j i
  mirrored : Mirrored v → Mirrored v'

theorem Holds.turns (h : Holds ctx v table v') : Turns ctx v table v' := by
  refine ⟨?_, h.mounted, h.entry, h.outside, h.mirrored⟩
  rw [h.fs]

theorem Turns.n_fatent (h : Turns ctx v table v') : v'.fs.n_fatent = v.fs.n_fatent := by rw [h.fs]

theorem Turns.fs_type (h : Turns ctx v table v') : v'.fs.fs_type = v.fs.fs_type := by rw [h.fs]

theorem Turns.refl (hm : Mounted ctx v) : Turns ctx v v.entry v := ⟨rfl, hm, fun _ _ => rfl, fun _ _ _ _ _ _ => rfl, id⟩

theorem Turns.trans (h : Turns ctx v table v') (h' : Turns ctx v' table' v'') : Turns ctx v table' v'' := by
  have hfs := h.fs
  refine ⟨?_, h'.mounted, fun c hc => h'.entry c (by rwa [h.n_fatent]), fun j i hi hj hnot hnot' => ?_,
    fun hm => h'.mirrored (h.mirrored hm)⟩
  · rw [h'.fs, hfs]
  · have heq := h'.outside j i hi hj (by rw [hfs]; exact hnot) (by rw [hfs]; exact hnot')
    exact heq.trans (h.outside j i hi hj hnot hnot')

/-- Only the entries of the volume count. -/
theorem Turns.of_entry (h : Turns ctx v table v') (heq : ∀ c < v.fs.n_fatent, table c = table' c) : Turns ctx v table' v' :=
  ⟨h.fs, h.mounted, fun c hc => (h.entry c hc).trans (heq c hc), h.outside, h.mirrored⟩

/-- Counting changes nothing else. -/
theorem turns_counts (hm : Mounted ctx v) (fsi_flag : UInt8) (last_clst free_clst : Nat) :
    Turns ctx v v.entry { v with fs := { v.fs with fsi_flag, last_clst, free_clst } } :=
  ⟨rfl, ⟨⟨⟨hm.windowed.placed.n_fats, hm.windowed.placed.within, hm.windowed.placed.erases, hm.windowed.placed.sector⟩,
    hm.windowed.ready, hm.windowed.clean, hm.windowed.dirty⟩, hm.room, hm.n_fatent, hm.limit⟩, fun _ _ => rfl,
    fun _ _ _ _ _ _ => rfl, id⟩

/-! ## Counting free clusters -/

/-- The free clusters of a table. -/
def free (n : Nat) (table : Nat → Nat) : Finset Nat := (Finset.Ico 2 n).filter fun c => table c = 0

theorem mem_free : c ∈ free n table ↔ (2 ≤ c ∧ c < n) ∧ table c = 0 := by
  rw [free, Finset.mem_filter, Finset.mem_Ico]

theorem free_congr (h : ∀ c < n, table' c = table c) : free n table' = free n table := by
  ext c
  rw [mem_free, mem_free]
  constructor
  · rintro ⟨hc, h0⟩
    exact ⟨hc, (h c hc.2).symm.trans h0⟩
  · rintro ⟨hc, h0⟩
    exact ⟨hc, (h c hc.2).trans h0⟩

theorem card_free_le (n : Nat) (table : Nat → Nat) : (free n table).card ≤ n - 2 :=
  (Finset.card_filter_le _ _).trans (Nat.card_Ico 2 n).le

theorem free_freed (hlo : 2 ≤ c) (hhi : c < n) (hused : table c ≠ 0) :
    (free n (Function.update table c 0)).card = (free n table).card + 1 := by
  have heq : free n (Function.update table c 0) = insert c (free n table) := by
    ext d
    rw [mem_free, Finset.mem_insert, mem_free]
    by_cases hd : d = c
    · subst hd
      simp [hlo, hhi]
    · simp [hd]
  rw [heq, Finset.card_insert_of_notMem fun hmem => hused (mem_free.1 hmem).2]

theorem free_taken {x : Nat} (hlo : 2 ≤ c) (hhi : c < n) (hfree : table c = 0) (hx : x ≠ 0) :
    (free n (Function.update table c x)).card + 1 = (free n table).card := by
  have heq : free n (Function.update table c x) = (free n table).erase c := by
    ext d
    rw [mem_free, Finset.mem_erase, mem_free]
    by_cases hd : d = c
    · subst hd
      simp [hx]
    · simp [hd]
  rw [heq, Finset.card_erase_add_one (mem_free.2 ⟨⟨hlo, hhi⟩, hfree⟩)]

theorem free_used {x : Nat} (hused : table c ≠ 0) (hx : x ≠ 0) : free n (Function.update table c x) = free n table := by
  ext d
  rw [mem_free, mem_free]
  by_cases hd : d = c
  · subst hd
    simp [hx, hused]
  · rw [Function.update_of_ne hd]

/-- The count of the free clusters is right, or there is none. -/
def Counted (v : Volume) : Prop :=
  v.fs.free_clst = (free v.fs.n_fatent v.entry).card ∨ v.fs.n_fatent - 2 < v.fs.free_clst

theorem Turns.counted (h : Turns ctx v table v')
    (hc : v'.fs.free_clst = (free v.fs.n_fatent table).card ∨ v.fs.n_fatent - 2 < v'.fs.free_clst) : Counted v' := by
  unfold Counted
  rw [h.n_fatent, free_congr h.entry]
  exact hc

/-! ## Removing a chain -/

/-- A cluster that is followed by another one, or that ends a chain. -/
def Used (v : Volume) (clst : Nat) : Prop := 2 ≤ clst ∧ clst < v.fs.n_fatent ∧ 2 ≤ v.entry clst

theorem entry_ne_error (v : Volume) (clst : Nat) : v.entry clst ≠ 0xFFFFFFFF := by
  have hlt := FatType.entry_lt v.fs.fs_type v.fat_byte clst
  have hle : v.fs.fs_type.limit ≤ 0x10000000 := by cases v.fs.fs_type <;> decide
  intro heq
  rw [Volume.entry] at heq
  omega

theorem remove_round_does (hm : Mounted ctx v) (hcounted : Counted v) (hused : Used v clst) :
    ∃ v', Does (remove_round ctx clst) v (if v.entry clst < v.fs.n_fatent then .inl (v.entry clst) else .inr .FR_OK) v' ∧
      Turns ctx v (Function.update v.entry clst 0) v' ∧ Counted v' ∧ v'.fs.last_clst = v.fs.last_clst := by
  obtain ⟨hlo, hhi, hentry⟩ := hused
  obtain ⟨v₁, hget, hh₁⟩ := get_fat_holds hm hlo hhi
  have ht₁ := hh₁.turns
  obtain ⟨v₂, hput, hh₂⟩ := put_fat_holds hh₁.mounted hlo (by rwa [ht₁.n_fatent]) 0
  have ht₂ : Turns ctx v (Function.update v.entry clst 0) v₂ := by
    refine (ht₁.trans hh₂.turns).of_entry fun c hc => ?_
    simp only [Function.update_apply, Nat.zero_mod, ht₁.entry c hc]
  have hfree₂ : v₂.fs.free_clst = v.fs.free_clst := by rw [hh₂.fs, hh₁.fs]
  have hlast₂ : v₂.fs.last_clst = v.fs.last_clst := by rw [hh₂.fs, hh₁.fs]
  let v₃ : Volume := { v₂ with fs := count_freed v₂.fs }
  have ht₃ : Turns ctx v₂ v₂.entry v₃ := by
    show Turns ctx v₂ v₂.entry { v₂ with fs := count_freed v₂.fs }
    unfold count_freed
    split
    · exact turns_counts ht₂.mounted (v₂.fs.fsi_flag ||| 1) v₂.fs.last_clst (v₂.fs.free_clst + 1)
    · exact .refl ht₂.mounted
  have ht : Turns ctx v (Function.update v.entry clst 0) v₃ := (ht₂.trans ht₃).of_entry ht₂.entry
  refine ⟨v₃, ?_, ht, ht.counted ?_, ?_⟩
  · unfold remove_round
    refine hget.bind ?_
    rw [if_neg (by omega), if_neg (by omega), if_neg (entry_ne_error v clst)]
    refine hput.bind ?_
    rw [if_pos rfl]
    refine Does.modify_bind (Does.get_bind ?_)
    have hn : v₃.fs.n_fatent = v.fs.n_fatent := ht.n_fatent
    show Does (pure (if v.entry clst < v₃.fs.n_fatent then _ else _)) _ _ _
    rw [hn]
    exact does_pure _ _
  · have hcard := free_freed hlo hhi (show v.entry clst ≠ 0 by omega)
    have hle := card_free_le v.fs.n_fatent (Function.update v.entry clst 0)
    have hn : v₂.fs.n_fatent = v.fs.n_fatent := ht₂.n_fatent
    show (count_freed v₂.fs).free_clst = _ ∨ _ < (count_freed v₂.fs).free_clst
    unfold count_freed
    rw [hfree₂, hn]
    rcases hcounted with hcount | hcount
    · rw [if_pos (by omega)]
      left
      show v.fs.free_clst + 1 = _
      omega
    · rw [if_neg (by omega)]
      right
      rwa [hfree₂]
  · show (count_freed v₂.fs).last_clst = _
    unfold count_freed
    split <;> exact hlast₂

/-- A chain of clusters: the nodes are below the number of entries. -/
abbrev Clusters (n : Nat) (table : Nat → Nat) (l : List Nat) : Prop := Chain.Linked (fun c => n ≤ c) table l ∧ ∀ c ∈ l, 2 ≤ c

theorem Clusters.lt {l : List Nat} (h : Clusters n table l) (hc : c ∈ l) : c < n := Nat.lt_of_not_le (h.1.not_out hc)

theorem Clusters.entry {l : List Nat} (hn : 2 ≤ n) (h : Clusters n table l) (hc : c ∈ l) : 2 ≤ table c := by
  obtain ⟨l₁, l₂, rfl⟩ := List.append_of_mem hc
  have htail := h.1.of_append
  cases l₂ with
  | nil => exact hn.trans htail.2
  | cons d l₂ =>
    rw [htail.2.1]
    exact h.2 d (List.mem_append_right l₁ (List.mem_cons_of_mem c (List.mem_cons_self ..)))

/-- The loop frees the clusters of a chain, one after the other. -/
theorem remove_rounds {l : List Nat} (hm : Mounted ctx v) (hcounted : Counted v) (hl : Clusters v.fs.n_fatent v.entry (c :: l)) :
    ∃ v', Repeats (remove_round ctx) c v .FR_OK v' ∧ Turns ctx v (fun d => if d ∈ c :: l then 0 else v.entry d) v' ∧
      Counted v' ∧ v'.fs.last_clst = v.fs.last_clst := by
  induction l generalizing c v with
  | nil =>
    have hused : Used v c := ⟨hl.2 c (List.mem_cons_self ..), hl.lt (List.mem_cons_self ..), hl.entry hm.n_fatent (List.mem_cons_self ..)⟩
    obtain ⟨v', hround, ht, hc, hlast⟩ := remove_round_does hm hcounted hused
    rw [if_neg (Nat.not_lt.2 hl.1.2)] at hround
    refine ⟨v', .leave hround, ht.of_entry fun d _ => ?_, hc, hlast⟩
    rw [Function.update_apply]
    simp only [List.mem_singleton]
  | cons d l ih =>
    have hused : Used v c := ⟨hl.2 c (List.mem_cons_self ..), hl.lt (List.mem_cons_self ..), hl.entry hm.n_fatent (List.mem_cons_self ..)⟩
    obtain ⟨v₁, hround, ht₁, hc₁, hlast₁⟩ := remove_round_does hm hcounted hused
    have hnext : v.entry c = d := hl.1.2.1
    have hd : d < v.fs.n_fatent := hl.lt (List.mem_cons_of_mem c (List.mem_cons_self ..))
    rw [hnext, if_pos hd] at hround
    have hnodup := List.nodup_cons.1 hl.1.nodup
    have htail : Clusters v₁.fs.n_fatent v₁.entry (d :: l) := by
      rw [ht₁.n_fatent]
      refine ⟨hl.1.tail.congr fun x hx => ?_, fun x hx => hl.2 x (List.mem_cons_of_mem c hx)⟩
      rw [ht₁.entry x (hl.lt (List.mem_cons_of_mem c hx)), Function.update_of_ne]
      exact fun heq => hnodup.1 (heq ▸ hx)
    obtain ⟨v₂, hrounds, ht₂, hc₂, hlast₂⟩ := ih ht₁.mounted hc₁ htail
    refine ⟨v₂, .again hround hrounds, (ht₁.trans ht₂).of_entry fun x hx => ?_, hc₂, hlast₂.trans hlast₁⟩
    by_cases hin : x ∈ d :: l
    · rw [if_pos hin, if_pos (List.mem_cons_of_mem c hin)]
    · rw [if_neg hin, ht₁.entry x hx, Function.update_apply]
      simp only [List.mem_cons, not_or] at hin
      simp [hin]

/-- What ends a chain. -/
def FatType.eoc (t : FatType) : Nat := 0xFFFFFFFF % t.limit

theorem Mounted.le_eoc (hm : Mounted ctx v) : v.fs.n_fatent ≤ v.fs.fs_type.eoc := by
  have hlt := hm.limit
  have heoc : v.fs.fs_type.eoc + 1 = v.fs.fs_type.limit := by cases v.fs.fs_type <;> rfl
  omega

/-- What is left of a table when the clusters `l` are removed, behind cluster `pclst` or as a whole chain. -/
def removed (table : Nat → Nat) (l : List Nat) (pclst eoc : Nat) (d : Nat) : Nat :=
  if d ∈ l then 0 else if d = pclst ∧ pclst ≠ 0 then eoc else table d

theorem remove_chain_does {pclst : Nat} {l : List Nat} (hm : Mounted ctx v) (hcounted : Counted v)
    (hl : Clusters v.fs.n_fatent v.entry (c :: l))
    (hp : pclst ≠ 0 → 2 ≤ pclst ∧ pclst < v.fs.n_fatent ∧ v.entry pclst ≠ 0 ∧ pclst ∉ c :: l) :
    ∃ v', Does (remove_chain ctx c pclst) v .FR_OK v' ∧
      Turns ctx v (removed v.entry (c :: l) pclst v.fs.fs_type.eoc) v' ∧ Counted v' ∧ v'.fs.last_clst = v.fs.last_clst := by
  have hrange : ¬ (c < 2 ∨ v.fs.n_fatent ≤ c) := by
    have hlo := hl.2 c (List.mem_cons_self ..)
    have hhi := hl.lt (List.mem_cons_self ..)
    omega
  have hsn := hm.n_fatent
  by_cases hzero : pclst = 0
  · obtain ⟨v', hrounds, ht, hc, hlast⟩ := remove_rounds hm hcounted hl
    refine ⟨v', ?_, ht.of_entry fun d _ => ?_, hc, hlast⟩
    · unfold remove_chain
      refine Does.get_bind ?_
      rw [if_neg hrange, if_neg (not_not.2 hzero)]
      refine (does_pure _ _).bind ?_
      simp only [if_true]
      exact hrounds.does
    · simp [removed, hzero]
  · obtain ⟨hlo, hhi, hused, hnot⟩ := hp hzero
    obtain ⟨v₁, hput, hh⟩ : ∃ v₁, Does (put_fat ctx pclst 0xFFFFFFFF) v .FR_OK v₁ ∧
        Holds ctx v (Function.update v.entry pclst v.fs.fs_type.eoc) v₁ := put_fat_holds hm hlo hhi 0xFFFFFFFF
    have ht₁ := hh.turns
    have heoc : v.fs.fs_type.eoc ≠ 0 := by
      have hle := hm.le_eoc
      omega
    have hcounted₁ : Counted v₁ := by
      refine ht₁.counted ?_
      have hfree : v₁.fs.free_clst = v.fs.free_clst := by rw [hh.fs]
      rw [hfree, free_used hused heoc]
      exact hcounted
    have hl₁ : Clusters v₁.fs.n_fatent v₁.entry (c :: l) := by
      rw [ht₁.n_fatent]
      refine ⟨hl.1.congr fun x hx => ?_, hl.2⟩
      rw [ht₁.entry x (hl.lt hx), Function.update_of_ne]
      exact fun heq => hnot (heq ▸ hx)
    obtain ⟨v₂, hrounds, ht₂, hc₂, hlast₂⟩ := remove_rounds ht₁.mounted hcounted₁ hl₁
    refine ⟨v₂, ?_, (ht₁.trans ht₂).of_entry fun d hd => ?_, hc₂, hlast₂.trans (by rw [hh.fs])⟩
    · unfold remove_chain
      refine Does.get_bind ?_
      rw [if_neg hrange, if_pos hzero]
      refine hput.bind ?_
      simp only [if_true]
      exact hrounds.does
    · unfold removed
      rw [ht₁.entry d hd, Function.update_apply]
      simp only [hzero, ne_eq, not_false_eq_true, and_true]

/-! ## Looking for a free cluster -/

/-- The cluster that is looked at after another one. -/
def next (n ncl : Nat) : Nat := if n ≤ ncl + 1 then 2 else ncl + 1

/-- What a round of the search does, if it looks at a cluster at all. -/
theorem search_round_does {scl ncl : Nat} (hm : Mounted ctx v) (hsome : 2 < v.fs.n_fatent)
    (hgo : ¬ (v.fs.n_fatent ≤ ncl + 1 ∧ scl < 2)) (hlo : 1 ≤ ncl) (hone : v.entry (next v.fs.n_fatent ncl) ≠ 1) :
    ∃ v', Does (search_round ctx scl ncl) v
        (if v.entry (next v.fs.n_fatent ncl) = 0 then .inr (.ok (next v.fs.n_fatent ncl))
          else if next v.fs.n_fatent ncl = scl then .inr (.error 0) else .inl (next v.fs.n_fatent ncl)) v' ∧
      Holds ctx v v.entry v' := by
  have hrange : 2 ≤ next v.fs.n_fatent ncl ∧ next v.fs.n_fatent ncl < v.fs.n_fatent := by
    unfold next
    split <;> omega
  obtain ⟨v', hget, hh⟩ := get_fat_holds hm hrange.1 hrange.2
  refine ⟨v', ?_, hh⟩
  unfold search_round
  refine Does.get_bind ?_
  rw [if_neg hgo]
  refine Does.bind hget ?_
  by_cases hfree : v.entry (next v.fs.n_fatent ncl) = 0
  · rw [if_pos hfree, if_pos hfree]
    exact does_pure _ _
  · rw [if_neg hfree, if_neg hfree, if_neg (not_or.2 ⟨hone, entry_ne_error v _⟩)]
    by_cases hend : next v.fs.n_fatent ncl = scl
    · rw [if_pos hend]
      exact (does_pure _ _).of_eq (if_pos hend)
    · rw [if_neg hend]
      exact (does_pure _ _).of_eq (if_neg hend)

theorem Holds.trans (h : Holds ctx v v.entry v') (h' : Holds ctx v' v'.entry v'') : Holds ctx v v.entry v'' :=
  (h.andThen h').of_entry h.entry

theorem Holds.refl (hm : Mounted ctx v) : Holds ctx v v.entry v :=
  ⟨rfl, hm, fun _ _ => rfl, fun _ _ _ _ _ _ => rfl, id⟩

/-- The clusters that the search looks at after `ncl`, if it finds none that is free. -/
inductive Path (n scl : Nat) : Nat → List Nat → Prop
  /-- All have been looked at, and it has not begun at any of them. -/
  | wrap {ncl : Nat} : n ≤ ncl + 1 ∧ scl < 2 → Path n scl ncl []
  /-- It looks at the cluster that it has begun at. -/
  | last {ncl : Nat} : ¬ (n ≤ ncl + 1 ∧ scl < 2) → next n ncl = scl → Path n scl ncl [scl]
  | step {ncl : Nat} {rest : List Nat} : ¬ (n ≤ ncl + 1 ∧ scl < 2) → next n ncl ≠ scl → Path n scl (next n ncl) rest →
      Path n scl ncl (next n ncl :: rest)

theorem path_to_start {scl : Nat} (hscl : 2 ≤ scl) (hn : scl < n) (k : Nat) : ∀ ncl, ncl + k + 1 = scl →
    ∃ todo, Path n scl ncl todo ∧ ∀ c, ncl < c → c ≤ scl → c ∈ todo := by
  have hgo : ∀ ncl, ¬ (n ≤ ncl + 1 ∧ scl < 2) := fun ncl h => by omega
  induction k with
  | zero =>
    intro ncl hk
    have hnext : next n ncl = scl := (if_neg (by omega)).trans hk
    exact ⟨[scl], .last (hgo ncl) hnext, fun c hlo hhi => List.mem_singleton.2 (by omega)⟩
  | succ k ih =>
    intro ncl hk
    have hnext : next n ncl = ncl + 1 := if_neg (by omega)
    obtain ⟨rest, hpath, hrest⟩ := ih (ncl + 1) (by omega)
    refine ⟨next n ncl :: rest, .step (hgo ncl) (by omega) (hnext ▸ hpath), fun c hlo hhi => ?_⟩
    by_cases hc : c = ncl + 1
    · rw [hc, hnext]
      exact List.mem_cons_self ..
    · exact List.mem_cons_of_mem _ (hrest c (by omega) hhi)

/-- From the cluster that it begins at, it looks at all. -/
theorem path_around {scl : Nat} (hscl : 1 ≤ scl) (hn : 2 < n) (hlt : scl < n) (k : Nat) : ∀ ncl, scl ≤ ncl → ncl + k + 1 = n →
    ∃ todo, Path n scl ncl todo ∧ ∀ c, 2 ≤ c → c < n → c ≤ scl ∨ ncl < c → c ∈ todo := by
  induction k with
  | zero =>
    intro ncl hle hk
    by_cases hfirst : scl < 2
    · exact ⟨[], .wrap ⟨by omega, hfirst⟩, fun c hlo hhi hor => by omega⟩
    · -- the next one is cluster 2, as it is after cluster 1
      obtain ⟨todo, hpath, htodo⟩ := path_to_start (by omega) hlt (scl - 2) 1 (by omega)
      have hnext : next n ncl = next n 1 := (if_pos (by omega)).trans (if_neg (by omega)).symm
      refine ⟨todo, ?_, fun c hlo hhi hor => htodo c (by omega) (by omega)⟩
      cases hpath with
      | wrap h => exact absurd h.2 hfirst
      | last _ h => exact .last (fun h => hfirst h.2) (hnext.trans h)
      | step _ h hrest =>
        rw [← hnext] at h hrest ⊢
        exact .step (fun h => hfirst h.2) h hrest
  | succ k ih =>
    intro ncl hle hk
    have hnext : next n ncl = ncl + 1 := if_neg (by omega)
    obtain ⟨rest, hpath, hrest⟩ := ih (ncl + 1) (by omega) (by omega)
    refine ⟨next n ncl :: rest, .step (fun h => by omega) (by omega) (hnext ▸ hpath), fun c hlo hhi hor => ?_⟩
    by_cases hc : c = ncl + 1
    · rw [hc, hnext]
      exact List.mem_cons_self ..
    · exact List.mem_cons_of_mem _ (hrest c hlo hhi (by omega))

/-- What the search for a free cluster finds. -/
def Finds (v : Volume) (todo : List Nat) (r : Except Nat Nat) : Prop :=
  (∃ ncl, r = .ok ncl ∧ 2 ≤ ncl ∧ ncl < v.fs.n_fatent ∧ v.entry ncl = 0) ∨ (r = .error 0 ∧ ∀ c ∈ todo, v.entry c ≠ 0)

theorem next_range {ncl : Nat} (hn : 2 < n) (hlo : 1 ≤ ncl) : 2 ≤ next n ncl ∧ next n ncl < n := by
  unfold next
  split <;> omega

theorem Path.lt {scl ncl : Nat} {todo : List Nat} (h : Path n scl ncl todo) (hn : 2 < n) (hlo : 1 ≤ ncl) (hc : c ∈ todo) : c < n := by
  induction h with
  | wrap => cases hc
  | last _ hnext =>
    rw [List.mem_singleton.1 hc, ← hnext]
    exact (next_range hn hlo).2
  | step _ _ _ ih =>
    obtain ⟨hnlo, hnhi⟩ := next_range hn hlo
    rcases List.mem_cons.1 hc with rfl | hc
    · exact hnhi
    · exact ih (by omega) hc

theorem search_does {scl ncl : Nat} {todo : List Nat} (hpath : Path v.fs.n_fatent scl ncl todo) (hm : Mounted ctx v)
    (hsome : 2 < v.fs.n_fatent) (hone : ∀ c, 2 ≤ c → c < v.fs.n_fatent → v.entry c ≠ 1) (hlo : 1 ≤ ncl) :
    ∃ r v', Repeats (search_round ctx scl) ncl v r v' ∧ Holds ctx v v.entry v' ∧ Finds v todo r := by
  generalize hn : v.fs.n_fatent = n at hpath
  induction hpath generalizing v with
  | @wrap ncl h =>
    refine ⟨.error 0, v, .leave ?_, .refl hm, .inr ⟨rfl, fun c hc => by cases hc⟩⟩
    unfold search_round
    refine Does.get_bind ?_
    simp only [hn, if_pos h]
    exact does_pure _ _
  | @last ncl hgo hnext =>
    obtain ⟨hnlo, hnhi⟩ := next_range (hn ▸ hsome) hlo
    obtain ⟨v', hround, hh⟩ := search_round_does hm hsome (by rwa [hn]) hlo (hone _ (by rwa [hn]) (by rw [hn]; exact hnhi))
    rw [hn] at hround
    by_cases hfree : v.entry (next n ncl) = 0
    · rw [if_pos hfree] at hround
      exact ⟨_, v', .leave hround, hh, .inl ⟨_, rfl, hnlo, by rwa [hn], hfree⟩⟩
    · rw [if_neg hfree, if_pos hnext] at hround
      refine ⟨_, v', .leave hround, hh, .inr ⟨rfl, fun c hc => ?_⟩⟩
      rwa [List.mem_singleton.1 hc, ← hnext]
  | @step ncl rest hgo hnext hrest ih =>
    obtain ⟨hnlo, hnhi⟩ := next_range (hn ▸ hsome) hlo
    obtain ⟨v', hround, hh⟩ := search_round_does hm hsome (by rwa [hn]) hlo (hone _ (by rwa [hn]) (by rw [hn]; exact hnhi))
    rw [hn] at hround
    by_cases hfree : v.entry (next n ncl) = 0
    · rw [if_pos hfree] at hround
      exact ⟨_, v', .leave hround, hh, .inl ⟨_, rfl, hnlo, by rwa [hn], hfree⟩⟩
    · rw [if_neg hfree, if_neg hnext] at hround
      have hn' : v'.fs.n_fatent = n := hh.turns.n_fatent.trans hn
      have hentry : ∀ c < n, v'.entry c = v.entry c := fun c hc => hh.entry c (by rwa [hn])
      obtain ⟨r, v'', hrounds, hh', hfinds⟩ := ih hh.mounted (by rwa [hn', ← hn])
        (fun c hlo hhi => by rw [hentry c (hn' ▸ hhi)]; exact hone c hlo (by rw [hn]; exact hn' ▸ hhi)) (by omega) hn'
      refine ⟨r, v'', .again hround hrounds, hh.trans hh', ?_⟩
      rcases hfinds with ⟨d, hr, hdlo, hdhi, hd⟩ | ⟨hr, hall⟩
      · rw [hn'] at hdhi
        exact .inl ⟨d, hr, hdlo, by rwa [hn], (hentry d hdhi).symm.trans hd⟩
      · refine .inr ⟨hr, fun c hc => ?_⟩
        rcases List.mem_cons.1 hc with rfl | hc
        · exact hfree
        · rw [← hentry c (hrest.lt (hn ▸ hsome) (by omega) hc)]
          exact hall c hc

/-- The search begins at a cluster, and looks at all of them if need be. -/
theorem search_all {scl : Nat} (hm : Mounted ctx v) (hsome : 2 < v.fs.n_fatent)
    (hone : ∀ c, 2 ≤ c → c < v.fs.n_fatent → v.entry c ≠ 1) (hlo : 1 ≤ scl) (hhi : scl < v.fs.n_fatent) :
    ∃ r v', Does (repeated (search_round ctx scl) scl) v r v' ∧ Holds ctx v v.entry v' ∧
      Finds v (List.range' 2 (v.fs.n_fatent - 2)) r := by
  obtain ⟨todo, hpath, htodo⟩ := path_around hlo hsome hhi (v.fs.n_fatent - 1 - scl) scl (Nat.le_refl scl) (by omega)
  obtain ⟨r, v', hrounds, hh, hfinds⟩ := search_does hpath hm hsome hone hlo
  refine ⟨r, v', hrounds.does, hh, hfinds.imp_right fun ⟨hr, hall⟩ => ⟨hr, fun c hc => hall c ?_⟩⟩
  have hrange := List.mem_range'_1.1 hc
  exact htodo c hrange.1 (by omega) (by omega)

theorem find_free_does {scl : Nat} (hm : Mounted ctx v) (hsome : 2 < v.fs.n_fatent)
    (hone : ∀ c, 2 ≤ c → c < v.fs.n_fatent → v.entry c ≠ 1) (hlo : 1 ≤ scl) (hhi : scl < v.fs.n_fatent) :
    ∃ r v', Does (find_free ctx clst scl) v r v' ∧ Holds ctx v v.entry v' ∧ Finds v (List.range' 2 (v.fs.n_fatent - 2)) r := by
  by_cases hstretch : scl = clst
  · obtain ⟨hnlo, hnhi⟩ : 2 ≤ next v.fs.n_fatent scl ∧ next v.fs.n_fatent scl < v.fs.n_fatent := next_range hsome hlo
    obtain ⟨v₁, hget, hh₁⟩ := get_fat_holds hm hnlo hnhi
    by_cases hfree : v.entry (next v.fs.n_fatent scl) = 0
    · refine ⟨.ok (next v.fs.n_fatent scl), v₁, ?_, hh₁, .inl ⟨_, rfl, hnlo, hnhi, hfree⟩⟩
      unfold find_free
      refine Does.get_bind ?_
      simp only [if_pos hstretch]
      refine Does.bind hget ?_
      rw [if_neg (not_or.2 ⟨hone _ hnlo hnhi, entry_ne_error v _⟩), if_pos hfree]
      exact does_pure _ _
    · have hn : v₁.fs.n_fatent = v.fs.n_fatent := hh₁.turns.n_fatent
      have hone₁ : ∀ c, 2 ≤ c → c < v₁.fs.n_fatent → v₁.entry c ≠ 1 := fun c hlo hhi => by
        rw [hh₁.entry c (hn ▸ hhi)]
        exact hone c hlo (hn ▸ hhi)
      let scl' := if 2 ≤ v.fs.last_clst ∧ v.fs.last_clst < v.fs.n_fatent then v.fs.last_clst else scl
      have hscl' : 1 ≤ scl' ∧ scl' < v₁.fs.n_fatent := by
        rw [hn]
        show 1 ≤ (if _ then _ else _) ∧ (if _ then _ else _) < _
        split
        · rename_i hlast
          exact ⟨by omega, hlast.2⟩
        · exact ⟨hlo, hhi⟩
      obtain ⟨r, v₂, hsearch, hh₂, hfinds⟩ := search_all hh₁.mounted (by rwa [hn]) hone₁ hscl'.1 hscl'.2
      refine ⟨r, v₂, ?_, hh₁.trans hh₂, ?_⟩
      · unfold find_free
        refine Does.get_bind ?_
        simp only [if_pos hstretch]
        refine Does.bind hget ?_
        rw [if_neg (not_or.2 ⟨hone _ hnlo hnhi, entry_ne_error v _⟩), if_neg hfree]
        exact hsearch
      · rw [Finds, hn] at hfinds
        rcases hfinds with ⟨d, hr, hdlo, hdhi, hd⟩ | ⟨hr, hall⟩
        · exact .inl ⟨d, hr, hdlo, hdhi, (hh₁.entry d hdhi).symm.trans hd⟩
        · refine .inr ⟨hr, fun c hc => ?_⟩
          have hrange := List.mem_range'_1.1 hc
          rw [← hh₁.entry c (by omega)]
          exact hall c hc
  · obtain ⟨r, v', hsearch, hh, hfinds⟩ := search_all hm hsome hone hlo hhi
    refine ⟨r, v', ?_, hh, hfinds⟩
    unfold find_free
    refine Does.get_bind ?_
    simp only [if_neg hstretch]
    exact hsearch

end Fatfs
