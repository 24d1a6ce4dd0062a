import XcoreSdk.Fatfs.Entries
/-!
# The FAT of a volume

`get_fat` and `put_fat` have the window moved to an entry, which may be in two
sectors. Whatever sector the window was on, the entries of the FAT are read and
written as those of a table in memory are, and no sector outside of the FATs is
touched.
-/

namespace Fatfs
open QspiFlash Prog

/-! ## `get_fat` and `put_fat` -/

def get_fat (ctx : Ctx) (clst : Nat) : Prog Volume Nat := do
  let fs := (← get).fs
  if clst < 2 ∨ fs.n_fatent ≤ clst then return 1
  else match fs.fs_type with
    | .FS_FAT12 =>
      let bc := fat12_byte clst
      if (← move_window ctx (fs.fatbase + bc / SS)) = .FR_OK then
        let first := (← get).fs.win (bc % SS)
        if (← move_window ctx (fs.fatbase + (bc + 1) / SS)) = .FR_OK then
          let second := (← get).fs.win ((bc + 1) % SS)
          return fat12_value clst (first.toNat ||| second.toNat <<< 8)
        else return 0xFFFFFFFF
      else return 0xFFFFFFFF
    | .FS_FAT16 =>
      if (← move_window ctx (fs.fatbase + clst / (SS / 2))) = .FR_OK then return ld_word (← get).fs.win (clst * 2 % SS)
      else return 0xFFFFFFFF
    | .FS_FAT32 =>
      if (← move_window ctx (fs.fatbase + clst / (SS / 4))) = .FR_OK then
        return ld_dword (← get).fs.win (clst * 4 % SS) &&& 0x0FFFFFFF
      else return 0xFFFFFFFF

/-- The window is changed, and so it is dirty. -/
def change_window (change : (Nat → UInt8) → Nat → UInt8) : Prog Volume PUnit :=
  modify fun v => { v with fs := { v.fs with win := change v.fs.win, wflag := true } }

def put_fat (ctx : Ctx) (clst val : Nat) : Prog Volume FatResult := do
  let fs := (← get).fs
  if 2 ≤ clst ∧ clst < fs.n_fatent then
    match fs.fs_type with
    | .FS_FAT12 =>
      let bc := fat12_byte clst
      let res ← move_window ctx (fs.fatbase + bc / SS)
      if res = .FR_OK then
        change_window fun win => Function.update win (bc % SS) (fat12_first clst val (win (bc % SS)))
        let res ← move_window ctx (fs.fatbase + (bc + 1) / SS)
        if res = .FR_OK then
          change_window fun win => Function.update win ((bc + 1) % SS) (fat12_second clst val (win ((bc + 1) % SS)))
          return res
        else return res
      else return res
    | .FS_FAT16 =>
      let res ← move_window ctx (fs.fatbase + clst / (SS / 2))
      if res = .FR_OK then
        change_window fun win => st_word win (clst * 2 % SS) val
        return res
      else return res
    | .FS_FAT32 =>
      let res ← move_window ctx (fs.fatbase + clst / (SS / 4))
      if res = .FR_OK then
        change_window fun win =>
          st_dword win (clst * 4 % SS) ((val &&& 0x0FFFFFFF) ||| (ld_dword win (clst * 4 % SS) &&& 0xF0000000))
        return res
      else return res
  else return .FR_INT_ERR

/-! ## The FAT in memory -/

variable {ctx : Ctx} {v v' v'' : Volume} {fat fat' : Nat → UInt8} {clst val b : Nat}

/-- A byte of the first FAT. -/
def Volume.fat_byte (v : Volume) (b : Nat) : UInt8 := v.byte (v.fs.fatbase + b / SS) (b % SS)

/-- The value of an entry. -/
def Volume.entry (v : Volume) (clst : Nat) : Nat := v.fs.fs_type.entry v.fat_byte clst

/-- What mounting a volume sees to. -/
structure Mounted (ctx : Ctx) (v : Volume) : Prop where
  windowed : Windowed ctx v
  /-- The FAT has room for its entries. -/
  room : ∀ clst < v.fs.n_fatent, v.fs.fs_type.last_byte clst < v.fs.fsize * SS
  n_fatent : 2 ≤ v.fs.n_fatent
  /-- The values that end a chain are no clusters. -/
  limit : v.fs.n_fatent < v.fs.fs_type.limit

/-- The volume `v` becomes one whose FAT has these bytes. -/
structure Becomes (ctx : Ctx) (v : Volume) (fat : Nat → UInt8) (v' : Volume) : Prop where
  fs : v'.fs = { v.fs with wflag := v'.fs.wflag, winsect := v'.fs.winsect, win := v'.fs.win }
  mounted : Mounted ctx v'
  fat : ∀ b < v.fs.fsize * SS, v'.fat_byte b = fat b
  outside : ∀ j i, i < SS → InFlash ctx j → ¬ v.fs.InFat j → ¬ v.fs.InSecond j → v'.byte j i = v.byte j i
  mirrored : Mirrored v → Mirrored v'

theorem Becomes.refl (hm : Mounted ctx v) : Becomes ctx v v.fat_byte v := ⟨rfl, hm, fun _ _ => rfl, fun _ _ _ _ _ _ => rfl, id⟩

theorem Becomes.trans (h : Becomes ctx v fat v') (h' : Becomes ctx v' fat' v'') : Becomes ctx v fat' v'' := by
  have hfs := h.fs
  refine ⟨?_, h'.mounted, fun b hb => ?_, fun j i hi hj hnot hnot' => ?_, fun hm => h'.mirrored (h.mirrored hm)⟩
  · rw [h'.fs, hfs]
  · refine h'.fat b ?_
    rw [hfs]
    exact hb
  · have heq := h'.outside j i hi hj (by rw [hfs]; exact hnot) (by rw [hfs]; exact hnot')
    exact heq.trans (h.outside j i hi hj hnot hnot')

theorem in_fat_of_lt (hb : b < v.fs.fsize * SS) : v.fs.InFat (v.fs.fatbase + b / SS) :=
  ⟨Nat.le_add_right _ _, Nat.add_lt_add_left (Nat.div_lt_of_lt_mul (Nat.mul_comm _ _ ▸ hb)) _⟩

/-- The window shows another sector, and the volume has the same bytes. -/
theorem Moved.becomes {sect : Nat} (hm : Mounted ctx v) (h : Moved ctx sect v v') : Becomes ctx v v.fat_byte v' := by
  have hnot : ∀ k < v.fs.fsize, ¬ v.fs.InSecond (v.fs.fatbase + k) := by
    rintro k hk ⟨-, hle, -⟩
    omega
  refine ⟨?_, ⟨h.windowed, ?_, ?_, ?_⟩, fun b hb => ?_, fun j i hi hj _ hsecond => h.bytes j i hi hj hsecond, h.mirrored⟩
  · rw [h.fs]
  · rw [h.fs]
    exact hm.room
  · rw [h.fs]
    exact hm.n_fatent
  · rw [h.fs]
    exact hm.limit
  · have hdiv : b / SS < v.fs.fsize := Nat.div_lt_of_lt_mul (Nat.mul_comm _ _ ▸ hb)
    unfold Volume.fat_byte
    rw [h.fs]
    exact h.bytes _ _ (Nat.mod_lt _ (by decide)) (hm.windowed.placed.in_flash (in_fat_of_lt hb)) (hnot _ hdiv)

/-- The window is moved to a byte of the FAT. -/
theorem window_to (hm : Mounted ctx v) (hb : b < v.fs.fsize * SS) :
    ∃ v', Does (move_window ctx (v.fs.fatbase + b / SS)) v .FR_OK v' ∧ Becomes ctx v v.fat_byte v' ∧
      v'.fs.winsect = v.fs.fatbase + b / SS ∧ ∀ i < SS, v'.fs.win i = v.fat_byte (b / SS * SS + i) := by
  have hflash := hm.windowed.placed.in_flash (in_fat_of_lt hb)
  obtain ⟨v', hdoes, hmoved⟩ := move_window_does hm.windowed hflash
  have hwinsect : v'.fs.winsect = v.fs.fatbase + b / SS := by rw [hmoved.fs]
  refine ⟨v', hdoes, hmoved.becomes hm, hwinsect, fun i hi => ?_⟩
  have hnot : ¬ v.fs.InSecond (v.fs.fatbase + b / SS) := by
    have hdiv : b / SS < v.fs.fsize := Nat.div_lt_of_lt_mul (Nat.mul_comm _ _ ▸ hb)
    rintro ⟨-, hle, -⟩
    omega
  have hbyte := hmoved.bytes (v.fs.fatbase + b / SS) i hi hflash hnot
  rw [Volume.byte, if_pos hwinsect.symm] at hbyte
  rw [hbyte, Volume.fat_byte, Nat.mul_comm, Nat.mul_add_div (by decide), Nat.div_eq_of_lt hi, Nat.add_zero, Nat.mul_add_mod,
    Nat.mod_eq_of_lt hi]

theorem win_at {win : Nat → UInt8} {k : Nat} (hwin : ∀ i < SS, win i = fat (b / SS * SS + i)) (hk : b % SS + k < SS) :
    win (b % SS + k) = fat (b + k) := by
  rw [hwin _ hk, ← Nat.add_assoc, Nat.div_add_mod']

theorem win_here {win : Nat → UInt8} (hwin : ∀ i < SS, win i = fat (b / SS * SS + i)) : win (b % SS) = fat b :=
  win_at (k := 0) hwin (Nat.mod_lt _ (by decide))

/-- Words and double words are within a sector. -/
theorem word_place (clst : Nat) : clst / (SS / 2) = clst * 2 / SS ∧ clst * 2 % SS + 1 < SS := by
  unfold SS
  omega

theorem dword_place (clst : Nat) : clst / (SS / 4) = clst * 4 / SS ∧ clst * 4 % SS + 3 < SS := by
  unfold SS
  omega

theorem ld_word_window {win : Nat → UInt8} (hwin : ∀ i < SS, win i = fat (b / SS * SS + i)) (hin : b % SS + 1 < SS) :
    ld_word win (b % SS) = ld_word fat b := by
  unfold ld_word
  rw [win_at (k := 1) hwin hin, win_here hwin]

theorem ld_dword_window {win : Nat → UInt8} (hwin : ∀ i < SS, win i = fat (b / SS * SS + i)) (hin : b % SS + 3 < SS) :
    ld_dword win (b % SS) = ld_dword fat b := by
  unfold ld_dword
  rw [win_at (k := 1) hwin (by omega), win_at (k := 2) hwin (by omega), win_at (k := 3) hwin (by omega), win_here hwin]

/-- The window is on the FAT, and its new contents are those of `fat`. -/
theorem change_window_does {k : Nat} {change : (Nat → UInt8) → Nat → UInt8} (hm : Mounted ctx v) (hk : k < v.fs.fsize)
    (hw : v.fs.winsect = v.fs.fatbase + k) (hin : ∀ i < SS, change v.fs.win i = fat (k * SS + i))
    (hout : ∀ b < v.fs.fsize * SS, b / SS ≠ k → fat b = v.fat_byte b) :
    ∃ v', Does (change_window change) v ⟨⟩ v' ∧ Becomes ctx v fat v' := by
  have hinfat : v.fs.InFat v.fs.winsect := by
    rw [hw]
    exact ⟨Nat.le_add_right _ _, Nat.add_lt_add_left hk _⟩
  have hplaced := hm.windowed.placed
  refine ⟨_, does_modify _ v, ⟨rfl, ⟨⟨⟨hplaced.n_fats, hplaced.within, hplaced.erases, hplaced.sector⟩, hm.windowed.ready, ?_, ?_⟩,
    hm.room, hm.n_fatent, hm.limit⟩, fun b hb => ?_, fun j i _ _ hnot _ => ?_, ?_⟩⟩
  · intro hfalse
    cases hfalse
  · intro _
    refine ⟨hplaced.in_flash hinfat, ?_⟩
    rintro ⟨-, hle, -⟩
    obtain ⟨-, hlt⟩ := hinfat
    dsimp only at hle
    omega
  · by_cases hhere : b / SS = k
    · have hpos : v.fs.fatbase + b / SS = v.fs.winsect := by rw [hw, hhere]
      refine (if_pos hpos).trans ?_
      show change v.fs.win (b % SS) = fat b
      rw [hin _ (Nat.mod_lt _ (by decide)), ← hhere, Nat.div_add_mod']
    · have hneg : ¬ v.fs.fatbase + b / SS = v.fs.winsect := by
        rw [hw]
        omega
      rw [hout b hb hhere]
      exact (if_neg hneg).trans (if_neg hneg).symm
  · have hneg : ¬ j = v.fs.winsect := fun heq => hnot (heq ▸ hinfat)
    exact (if_neg hneg).trans (if_neg hneg).symm
  · intro hmirror htwo j hj i hi hclean
    exact hmirror htwo j hj i hi fun h => hclean ⟨rfl, h.2⟩

theorem Becomes.n_fatent (h : Becomes ctx v fat v') : v'.fs.n_fatent = v.fs.n_fatent := by rw [h.fs]

theorem Becomes.fs_type (h : Becomes ctx v fat v') : v'.fs.fs_type = v.fs.fs_type := by rw [h.fs]

theorem Becomes.fsize (h : Becomes ctx v fat v') : v'.fs.fsize = v.fs.fsize := by rw [h.fs]

theorem Becomes.fatbase (h : Becomes ctx v fat v') : v'.fs.fatbase = v.fs.fatbase := by rw [h.fs]

/-- Reading an entry changes nothing. -/
theorem get_fat_does (hm : Mounted ctx v) (hlo : 2 ≤ clst) (hhi : clst < v.fs.n_fatent) :
    ∃ v', Does (get_fat ctx clst) v (v.entry clst) v' ∧ Becomes ctx v v.fat_byte v' := by
  have hroom := hm.room clst hhi
  have hrange : ¬ (clst < 2 ∨ v.fs.n_fatent ≤ clst) := by omega
  cases htype : v.fs.fs_type with
  | FS_FAT12 =>
    rw [htype, FatType.last_byte] at hroom
    obtain ⟨v₁, hmove₁, hb₁, -, hwin₁⟩ := window_to hm (show fat12_byte clst < v.fs.fsize * SS by omega)
    have hroom' : fat12_byte clst + 1 < v₁.fs.fsize * SS := by rwa [hb₁.fsize]
    obtain ⟨v₂, hmove₂, hb₂, -, hwin₂⟩ := window_to hb₁.mounted hroom'
    rw [hb₁.fatbase] at hmove₂
    have hfirst : v₁.fs.win (fat12_byte clst % SS) = v.fat_byte (fat12_byte clst) := win_here hwin₁
    have hsecond : v₂.fs.win ((fat12_byte clst + 1) % SS) = v.fat_byte (fat12_byte clst + 1) :=
      (win_here hwin₂).trans (hb₁.fat _ hroom)
    refine ⟨v₂, ?_, hb₁.trans ⟨hb₂.fs, hb₂.mounted, fun b hb => ?_, hb₂.outside, hb₂.mirrored⟩⟩
    · unfold get_fat
      refine Does.get_bind ?_
      simp only [if_neg hrange, htype]
      refine hmove₁.bind ?_
      simp only [if_true]
      refine Does.get_bind (hmove₂.bind ?_)
      simp only [if_true]
      refine Does.get_bind ?_
      rw [hfirst, hsecond, Volume.entry, htype]
      exact does_pure _ _
    · exact (hb₂.fat b hb).trans (hb₁.fat b (by rwa [hb₁.fsize] at hb))
  | FS_FAT16 =>
    rw [htype, FatType.last_byte] at hroom
    obtain ⟨v₁, hmove, hb, -, hwin⟩ := window_to hm (show clst * 2 < v.fs.fsize * SS by omega)
    refine ⟨v₁, ?_, hb⟩
    unfold get_fat
    refine Does.get_bind ?_
    simp only [if_neg hrange, htype]
    rw [(word_place clst).1]
    refine hmove.bind ?_
    simp only [if_true]
    refine Does.get_bind ?_
    rw [ld_word_window hwin (word_place clst).2, Volume.entry, htype]
    exact does_pure _ _
  | FS_FAT32 =>
    rw [htype, FatType.last_byte] at hroom
    obtain ⟨v₁, hmove, hb, -, hwin⟩ := window_to hm (show clst * 4 < v.fs.fsize * SS by omega)
    refine ⟨v₁, ?_, hb⟩
    unfold get_fat
    refine Does.get_bind ?_
    simp only [if_neg hrange, htype]
    rw [(dword_place clst).1]
    refine hmove.bind ?_
    simp only [if_true]
    refine Does.get_bind ?_
    rw [ld_dword_window hwin (dword_place clst).2, Volume.entry, htype]
    exact does_pure _ _

theorem place_iff {i k : Nat} : b / SS * SS + i = b + k ↔ i = b % SS + k := by
  unfold SS at *
  omega

/-- The window is moved to a byte of the FAT and changed there. -/
theorem change_at (hm : Mounted ctx v) (hb : b < v.fs.fsize * SS) (change : (Nat → UInt8) → Nat → UInt8) (fat : Nat → UInt8)
    (hin : ∀ win, (∀ i < SS, win i = v.fat_byte (b / SS * SS + i)) → ∀ i < SS, change win i = fat (b / SS * SS + i))
    (hout : ∀ b', b' / SS ≠ b / SS → fat b' = v.fat_byte b') :
    ∃ v₁ v₂, Does (move_window ctx (v.fs.fatbase + b / SS)) v .FR_OK v₁ ∧ Does (change_window change) v₁ ⟨⟩ v₂ ∧
      Becomes ctx v fat v₂ := by
  obtain ⟨v₁, hmove, hb₁, hw, hwin⟩ := window_to hm hb
  have hk : b / SS < v₁.fs.fsize := by
    rw [hb₁.fsize]
    exact Nat.div_lt_of_lt_mul (Nat.mul_comm _ _ ▸ hb)
  obtain ⟨v₂, hchange, hb₂⟩ := change_window_does hb₁.mounted hk (by rw [hw, hb₁.fatbase]) (hin _ hwin) fun b' hb' hne =>
    (hout b' hne).trans (hb₁.fat b' (by rwa [hb₁.fsize] at hb')).symm
  exact ⟨v₁, v₂, hmove, hchange, hb₁.trans hb₂⟩

/-- Changes of the window that are ones of the FAT. -/
theorem update_window {win : Nat → UInt8} {x : UInt8} (hwin : ∀ i < SS, win i = fat (b / SS * SS + i)) :
    ∀ i < SS, Function.update win (b % SS) x i = Function.update fat b x (b / SS * SS + i) := by
  intro i hi
  have hplace : b / SS * SS + i = b + 0 ↔ i = b % SS + 0 := place_iff
  rw [Nat.add_zero, Nat.add_zero] at hplace
  simp only [Function.update_apply, hplace, hwin i hi]

theorem st_word_window {win : Nat → UInt8} (hwin : ∀ i < SS, win i = fat (b / SS * SS + i)) :
    ∀ i < SS, st_word win (b % SS) val i = st_word fat b val (b / SS * SS + i) := by
  intro i hi
  have h0 : b / SS * SS + i = b + 0 ↔ i = b % SS + 0 := place_iff
  rw [Nat.add_zero, Nat.add_zero] at h0
  simp only [st_word_apply, h0, place_iff, hwin i hi]

theorem st_dword_window {win : Nat → UInt8} (hwin : ∀ i < SS, win i = fat (b / SS * SS + i)) :
    ∀ i < SS, st_dword win (b % SS) val i = st_dword fat b val (b / SS * SS + i) := by
  intro i hi
  have h0 : b / SS * SS + i = b + 0 ↔ i = b % SS + 0 := place_iff
  rw [Nat.add_zero, Nat.add_zero] at h0
  simp only [st_dword_apply, h0, place_iff, hwin i hi]

/-- Writing an entry changes the FAT as it would in memory. -/
theorem put_fat_does (hm : Mounted ctx v) (hlo : 2 ≤ clst) (hhi : clst < v.fs.n_fatent) (val : Nat) :
    ∃ v', Does (put_fat ctx clst val) v .FR_OK v' ∧ Becomes ctx v (v.fs.fs_type.put v.fat_byte clst val) v' := by
  have hroom := hm.room clst hhi
  cases htype : v.fs.fs_type with
  | FS_FAT12 =>
    rw [htype, FatType.last_byte] at hroom
    obtain ⟨v₁, v₂, hmove₁, hchange₁, hb₁⟩ := change_at hm (show fat12_byte clst < v.fs.fsize * SS by omega)
      (fun win => Function.update win (fat12_byte clst % SS) (fat12_first clst val (win (fat12_byte clst % SS))))
      (Function.update v.fat_byte (fat12_byte clst) (fat12_first clst val (v.fat_byte (fat12_byte clst))))
      (fun win hwin => by
        rw [win_here hwin]
        exact update_window hwin)
      fun b' hne => Function.update_of_ne (fun heq => hne (by rw [heq])) _ _
    have hroom' : fat12_byte clst + 1 < v₂.fs.fsize * SS := by rwa [hb₁.fsize]
    obtain ⟨v₃, v₄, hmove₂, hchange₂, hb₂⟩ := change_at hb₁.mounted hroom'
      (fun win => Function.update win ((fat12_byte clst + 1) % SS) (fat12_second clst val (win ((fat12_byte clst + 1) % SS))))
      (Function.update v₂.fat_byte (fat12_byte clst + 1) (fat12_second clst val (v₂.fat_byte (fat12_byte clst + 1))))
      (fun win hwin => by
        rw [win_here hwin]
        exact update_window hwin)
      fun b' hne => Function.update_of_ne (fun heq => hne (by rw [heq])) _ _
    rw [hb₁.fatbase] at hmove₂
    refine ⟨v₄, ?_, hb₁.trans ⟨hb₂.fs, hb₂.mounted, fun b hb => (hb₂.fat b hb).trans ?_, hb₂.outside, hb₂.mirrored⟩⟩
    · unfold put_fat
      refine Does.get_bind ?_
      simp only [if_pos (And.intro hlo hhi), htype]
      refine hmove₁.bind ?_
      simp only [if_true]
      refine hchange₁.bind (hmove₂.bind ?_)
      simp only [if_true]
      exact hchange₂.bind (does_pure _ _)
    · rw [hb₁.fsize] at hb
      simp only [FatType.put, Function.update_apply, hb₁.fat b hb, hb₁.fat _ hroom]
  | FS_FAT16 =>
    rw [htype, FatType.last_byte] at hroom
    obtain ⟨v₁, v₂, hmove, hchange, hb⟩ := change_at hm (show clst * 2 < v.fs.fsize * SS by omega)
      (fun win => st_word win (clst * 2 % SS) val) (st_word v.fat_byte (clst * 2) val) (fun win hwin => st_word_window hwin)
      fun b' hne => st_word_other (by
        have hin := (word_place clst).2
        unfold SS at *
        omega)
    refine ⟨v₂, ?_, hb⟩
    unfold put_fat
    refine Does.get_bind ?_
    simp only [if_pos (And.intro hlo hhi), htype]
    rw [(word_place clst).1]
    refine hmove.bind ?_
    simp only [if_true]
    exact hchange.bind (does_pure _ _)
  | FS_FAT32 =>
    rw [htype, FatType.last_byte] at hroom
    obtain ⟨v₁, v₂, hmove, hchange, hb⟩ := change_at hm (show clst * 4 < v.fs.fsize * SS by omega)
      (fun win => st_dword win (clst * 4 % SS) ((val &&& 0x0FFFFFFF) ||| (ld_dword win (clst * 4 % SS) &&& 0xF0000000)))
      (st_dword v.fat_byte (clst * 4) ((val &&& 0x0FFFFFFF) ||| (ld_dword v.fat_byte (clst * 4) &&& 0xF0000000)))
      (fun win hwin => by
        rw [ld_dword_window hwin (dword_place clst).2]
        exact st_dword_window hwin)
      fun b' hne => st_dword_other (by
        have hin := (dword_place clst).2
        unfold SS at *
        omega)
    refine ⟨v₂, ?_, hb⟩
    unfold put_fat
    refine Does.get_bind ?_
    simp only [if_pos (And.intro hlo hhi), htype]
    rw [(dword_place clst).1]
    refine hmove.bind ?_
    simp only [if_true]
    exact hchange.bind (does_pure _ _)

/-! ## The FAT is a table -/

/-- The volume `v` becomes one with these entries. -/
structure Holds (ctx : Ctx) (v : Volume) (table : Nat → Nat) (v' : Volume) : Prop where
  fs : v'.fs = { v.fs with wflag := v'.fs.wflag, winsect := v'.fs.winsect, win := v'.fs.win }
  mounted : Mounted ctx v'
  entry : ∀ clst < v.fs.n_fatent, v'.entry clst = table clst
  outside : ∀ j i, i < SS → InFlash ctx j → ¬ v.fs.InFat j → ¬ v.fs.InSecond j → v'.byte j i = v.byte j i
  mirrored : Mirrored v → Mirrored v'

theorem Holds.n_fatent {table : Nat → Nat} (h : Holds ctx v table v') : v'.fs.n_fatent = v.fs.n_fatent := by rw [h.fs]

theorem Becomes.holds (hm : Mounted ctx v) (h : Becomes ctx v fat v') : Holds ctx v (v.fs.fs_type.entry fat) v' := by
  refine ⟨h.fs, h.mounted, fun c hc => ?_, h.outside, h.mirrored⟩
  rw [Volume.entry, h.fs_type]
  have hroom := hm.room c hc
  exact FatType.entry_congr _ fun b hb => h.fat b (by omega)

theorem get_fat_holds (hm : Mounted ctx v) (hlo : 2 ≤ clst) (hhi : clst < v.fs.n_fatent) :
    ∃ v', Does (get_fat ctx clst) v (v.entry clst) v' ∧ Holds ctx v v.entry v' := by
  obtain ⟨v', hdoes, hb⟩ := get_fat_does hm hlo hhi
  exact ⟨v', hdoes, hb.holds hm⟩

theorem put_fat_holds (hm : Mounted ctx v) (hlo : 2 ≤ clst) (hhi : clst < v.fs.n_fatent) (val : Nat) :
    ∃ v', Does (put_fat ctx clst val) v .FR_OK v' ∧
      Holds ctx v (Function.update v.entry clst (val % v.fs.fs_type.limit)) v' := by
  obtain ⟨v', hdoes, hb⟩ := put_fat_does hm hlo hhi val
  have hh := hb.holds hm
  refine ⟨v', hdoes, hh.fs, hh.mounted, fun c hc => (hh.entry c hc).trans ?_, hh.outside, hh.mirrored⟩
  rw [FatType.entry_put, Function.update_apply]
  rfl

/-! ## On the flash -/

theorem Holds.andThen {table table' : Nat → Nat} (h : Holds ctx v table v') (h' : Holds ctx v' table' v'') : Holds ctx v table' v'' := by
  have hfs := h.fs
  refine ⟨by rw [h'.fs, hfs], h'.mounted, fun c hc => h'.entry c (by rwa [h.n_fatent]), fun j i hi hj hnot hnot' => ?_,
    fun hm => h'.mirrored (h.mirrored hm)⟩
  have heq := h'.outside j i hi hj (by rw [hfs]; exact hnot) (by rw [hfs]; exact hnot')
  exact heq.trans (h.outside j i hi hj hnot hnot')

theorem Holds.of_entry {table table' : Nat → Nat} (h : Holds ctx v table v') (heq : ∀ c < v.fs.n_fatent, table c = table' c) :
    Holds ctx v table' v' :=
  ⟨h.fs, h.mounted, fun c hc => (h.entry c hc).trans (heq c hc), h.outside, h.mirrored⟩

/-- Entries are written, up to the first that is not. -/
def put_entries (ctx : Ctx) : List (Nat × Nat) → Prog Volume FatResult
  | [] => return .FR_OK
  | (clst, val) :: entries => do
    let res ← put_fat ctx clst val
    if res = .FR_OK then put_entries ctx entries else return res

/-- The table that they are written to. -/
def written (limit : Nat) (table : Nat → Nat) : List (Nat × Nat) → Nat → Nat
  | [] => table
  | (clst, val) :: entries => written limit (Function.update table clst (val % limit)) entries

theorem written_congr {limit n : Nat} {table table' : Nat → Nat} {entries : List (Nat × Nat)} (h : ∀ c < n, table c = table' c) :
    ∀ c < n, written limit table entries c = written limit table' entries c := by
  induction entries generalizing table table' with
  | nil => exact h
  | cons e entries ih =>
    refine ih fun c hc => ?_
    rw [Function.update_apply, Function.update_apply, h c hc]

theorem put_entries_does {entries : List (Nat × Nat)} (hm : Mounted ctx v) (hin : ∀ e ∈ entries, 2 ≤ e.1 ∧ e.1 < v.fs.n_fatent) :
    ∃ v', Does (put_entries ctx entries) v .FR_OK v' ∧ Holds ctx v (written v.fs.fs_type.limit v.entry entries) v' := by
  induction entries generalizing v with
  | nil => exact ⟨v, does_pure _ _, rfl, hm, fun _ _ => rfl, fun _ _ _ _ _ _ => rfl, id⟩
  | cons e entries ih =>
    obtain ⟨clst, val⟩ := e
    obtain ⟨hlo, hhi⟩ := hin (clst, val) (List.mem_cons_self ..)
    obtain ⟨v₁, hput, hh₁⟩ := put_fat_holds hm hlo hhi val
    have htype : v₁.fs.fs_type = v.fs.fs_type := by rw [hh₁.fs]
    obtain ⟨v₂, hrest, hh₂⟩ := ih hh₁.mounted fun e he => by
      rw [hh₁.n_fatent]
      exact hin e (List.mem_cons_of_mem _ he)
    refine ⟨v₂, ?_, (hh₁.andThen hh₂).of_entry ?_⟩
    · refine hput.bind ?_
      rw [if_pos rfl]
      exact hrest
    · rw [htype]
      exact written_congr hh₁.entry

/-- An entry of the first FAT on the flash, or of the second one. -/
def Volume.flash_entry (v : Volume) (second : Bool) (clst : Nat) : Nat :=
  v.fs.fs_type.entry (fun b => v.disk.chip.mem
    (sector_byte (v.fs.fatbase + (if second then v.fs.fsize else 0) + b / SS) (b % SS))) clst

/-- What is on the flash once all is written back. -/
structure OnFlash (ctx : Ctx) (v : Volume) (table : Nat → Nat) (v' : Volume) : Prop where
  first : ∀ clst < v.fs.n_fatent, v'.flash_entry false clst = table clst
  second : v.fs.n_fats = 2 → Mirrored v → ∀ clst < v.fs.n_fatent, v'.flash_entry true clst = table clst
  /-- Another sector that was in the window is written back as well. -/
  outside : ∀ j i, i < SS → InFlash ctx j → ¬ v.fs.InFat j → ¬ v.fs.InSecond j → v'.disk.chip.mem (sector_byte j i) = v.byte j i

theorem Holds.sync {table : Nat → Nat} (h : Holds ctx v table v') :
    ∃ v'', Does (sync_window ctx) v' .FR_OK v'' ∧ OnFlash ctx v table v'' := by
  obtain ⟨disk, hsync, hsynced⟩ := sync_window_synced h.mounted.windowed
  have hn := h.n_fatent
  have hbyte : ∀ b < v'.fs.fsize * SS, disk.chip.mem (sector_byte (v'.fs.fatbase + b / SS) (b % SS)) = v'.fat_byte b := by
    intro b hb
    have hflash := h.mounted.windowed.placed.in_flash (in_fat_of_lt hb)
    refine hsynced.bytes _ _ (Nat.mod_lt _ (by decide)) hflash ?_
    have hdiv : b / SS < v'.fs.fsize := Nat.div_lt_of_lt_mul (Nat.mul_comm _ _ ▸ hb)
    rintro ⟨-, hle, -⟩
    omega
  refine ⟨_, hsync, fun c hc => ?_, fun htwo hmirror c hc => ?_, fun j i hi hj hnot hnot' => ?_⟩
  · have hroom := h.mounted.room c (by rwa [hn])
    rw [← h.entry c hc]
    exact FatType.entry_congr _ fun b hb => hbyte b (Nat.lt_of_le_of_lt hb hroom)
  · have hroom := h.mounted.room c (by rwa [hn])
    rw [← h.entry c hc]
    refine FatType.entry_congr _ fun b hb => ?_
    have hb' : b < v'.fs.fsize * SS := Nat.lt_of_le_of_lt hb hroom
    have hdiv : b / SS < v'.fs.fsize := Nat.div_lt_of_lt_mul (Nat.mul_comm _ _ ▸ hb')
    have htwo' : v'.fs.n_fats = 2 := by
      rw [h.fs]
      exact htwo
    exact (hsynced.mirrored (h.mirrored hmirror) htwo' _ hdiv _ (Nat.mod_lt _ (by decide))).trans (hbyte b hb')
  · rw [hsynced.bytes j i hi hj (by rw [h.fs]; exact hnot')]
    exact h.outside j i hi hj hnot hnot'

/-- Entries that are written, in any order and any number of times: the one written last to a cluster is read, and it is
what both FATs on the flash have once the window is written back. -/
theorem entries_written (entries : List (Nat × Nat)) (hm : Mounted ctx v) (hin : ∀ e ∈ entries, 2 ≤ e.1 ∧ e.1 < v.fs.n_fatent) :
    ∃ v', Does (put_entries ctx entries) v .FR_OK v' ∧
      (∀ clst, 2 ≤ clst → clst < v.fs.n_fatent →
        ∃ v'', Does (get_fat ctx clst) v' (written v.fs.fs_type.limit v.entry entries clst) v'') ∧
      ∃ v'', Does (sync_window ctx) v' .FR_OK v'' ∧ OnFlash ctx v (written v.fs.fs_type.limit v.entry entries) v'' := by
  obtain ⟨v', hput, hh⟩ := put_entries_does hm hin
  refine ⟨v', hput, fun c hlo hhi => ?_, hh.sync⟩
  obtain ⟨v'', hget, -⟩ := get_fat_holds hh.mounted hlo (by rwa [hh.n_fatent])
  rw [hh.entry c hhi] at hget
  exact ⟨v'', hget⟩

/-- A volume of 8 clusters with two FATs, mounted; no cluster is in use. -/
def formatted : Volume := ⟨⟨.FS_FAT12, 2, false, 0, 0, 8, 10, 1, 1, 0, fun _ => 0⟩, ⟨cleared, 0, []⟩⟩

theorem formatted_mounted : Mounted two_mib formatted := by
  have hplaced : Placed two_mib formatted.fs := ⟨.inr rfl, by decide, ⟨by decide, by decide, by decide⟩, by decide⟩
  refine ⟨⟨hplaced, ⟨rfl, rfl⟩, fun _ _ _ _ => rfl, fun h => ?_⟩, by decide, by decide, by decide⟩
  cases h

/-- Two entries that share a byte. -/
theorem entries_written_shared : ∃ v', Does (put_entries two_mib [(2, 3), (3, 0xFFFFFFFF)]) formatted .FR_OK v' ∧
    (∃ v'', Does (get_fat two_mib 2) v' 3 v'') ∧ ∃ v'', Does (get_fat two_mib 3) v' 0xFFF v'' := by
  have hin : ∀ e ∈ [(2, 3), (3, 0xFFFFFFFF)], 2 ≤ e.1 ∧ e.1 < formatted.fs.n_fatent := by decide
  obtain ⟨v', hput, hget, -⟩ := entries_written [(2, 3), (3, 0xFFFFFFFF)] formatted_mounted hin
  exact ⟨v', hput, hget 2 (by decide) (by decide), hget 3 (by decide) (by decide)⟩

end Fatfs
