import XcoreSdk.Fatfs.Sectors
import XcoreSdk.Lib.Rounds
/-!
# The window on the volume

FatFs looks at the FAT and at directories through a window of one sector, which
is written back when it is dirty and moves on. Then also the second FAT is
written, where there is one. Seen through the window a volume is an array of
sectors still, and moving the window changes none of them but those of the
second FAT.
-/

namespace Fatfs
open QspiFlash Blocks Prog

/-- `FF_MIN_SS` and `FF_MAX_SS` -/
abbrev SS : Nat := 4096

/-- `FS_FAT12`, `FS_FAT16` or `FS_FAT32`; the volume is mounted, and there is no exFAT. -/
inductive FatType
  | FS_FAT12
  | FS_FAT16
  | FS_FAT32
deriving DecidableEq

/-- The values of `FRESULT` that the functions for the FAT return. -/
inductive FatResult
  | FR_OK
  | FR_DISK_ERR
  | FR_INT_ERR
deriving DecidableEq

/-- The fields that the functions for the FAT use. -/
structure FATFS where
  fs_type : FatType
  n_fats : Nat
  /-- The window is dirty. -/
  wflag : Bool
  fsi_flag : UInt8
  last_clst : Nat
  free_clst : Nat
  n_fatent : Nat
  fsize : Nat
  fatbase : Nat
  winsect : Nat
  win : Nat → UInt8

/-- The filesystem object, and the drive of its volume. -/
structure Volume where
  fs : FATFS
  disk : Disk

/-! ## `sync_window` and `move_window` -/

/-- `disk_write(fs->pdrv, fs->win, sect, 1)` -/
def write_sector (ctx : Ctx) (sect : Nat) : Prog Volume DRESULT := fun v rounds =>
  (disk_write rounds ctx v.disk 0 v.fs.win sect 1).map fun r => (r.1, { v with disk := r.2 })

/-- `disk_read(fs->pdrv, fs->win, sect, 1)` -/
def read_sector (ctx : Ctx) (sect : Nat) : Prog Volume DRESULT := fun v rounds =>
  (disk_read rounds ctx v.disk 0 v.fs.win sect 1).map fun r => (r.1, ⟨{ v.fs with win := r.2.1 }, r.2.2⟩)

/-- The first FAT is reflected to the second one. -/
def reflect (ctx : Ctx) : Prog Volume PUnit := do
  let fs := (← get).fs
  if (fs.winsect + 2 ^ 32 - fs.fatbase) % 2 ^ 32 < fs.fsize ∧ fs.n_fats = 2 then
    let _ ← write_sector ctx ((fs.winsect + fs.fsize) % 2 ^ 32)

def sync_window (ctx : Ctx) : Prog Volume FatResult := do
  let fs := (← get).fs
  if fs.wflag then
    if (← write_sector ctx fs.winsect) = .RES_OK then
      modify fun v => { v with fs := { v.fs with wflag := false } }
      reflect ctx
      return .FR_OK
    else return .FR_DISK_ERR
  else return .FR_OK

def move_window (ctx : Ctx) (sect : Nat) : Prog Volume FatResult := do
  let fs := (← get).fs
  if sect ≠ fs.winsect then
    let res ← sync_window ctx
    if res = .FR_OK then
      if (← read_sector ctx sect) = .RES_OK then
        modify fun v => { v with fs := { v.fs with winsect := sect } }
        return .FR_OK
      else
        modify fun v => { v with fs := { v.fs with winsect := 2 ^ 32 - 1 } }
        return .FR_DISK_ERR
    else return res
  else return .FR_OK

/-! ## What is in the sectors -/

variable {ctx : Ctx} {v v' : Volume} {sect : Nat}

/-- A sector's byte, which may be in the window only. -/
def Volume.byte (v : Volume) (sect i : Nat) : UInt8 :=
  if sect = v.fs.winsect then v.fs.win i else v.disk.chip.mem (sector_byte sect i)

/-- The sector lies in the flash where three bytes of address reach. -/
def InFlash (ctx : Ctx) (sect : Nat) : Prop := sector_byte (sect + 1) 0 ≤ reach ctx

def FATFS.InFat (fs : FATFS) (sect : Nat) : Prop := fs.fatbase ≤ sect ∧ sect < fs.fatbase + fs.fsize

/-- A sector of the second FAT. -/
def FATFS.InSecond (fs : FATFS) (sect : Nat) : Prop :=
  fs.n_fats = 2 ∧ fs.fatbase + fs.fsize ≤ sect ∧ sect < fs.fatbase + 2 * fs.fsize

/-- The flash has room for the FATs where three bytes of address reach, and its smallest erase is no larger than a sector. -/
structure Placed (ctx : Ctx) (fs : FATFS) : Prop where
  n_fats : fs.n_fats = 1 ∨ fs.n_fats = 2
  within : sector_byte (fs.fatbase + fs.n_fats * fs.fsize) 0 ≤ reach ctx
  erases : EraseTable ctx.size_log2
  sector : ctx.sector ∣ QSPI_FLASH_SECTOR_SIZE

/-- What the window is to the disk. -/
structure Windowed (ctx : Ctx) (v : Volume) : Prop where
  placed : Placed ctx v.fs
  ready : Ready v.disk
  clean : v.fs.wflag = false → InFlash ctx v.fs.winsect → ∀ i < SS, v.fs.win i = v.disk.chip.mem (sector_byte v.fs.winsect i)
  dirty : v.fs.wflag = true → InFlash ctx v.fs.winsect ∧ ¬ v.fs.InSecond v.fs.winsect

/-- The second FAT has what the first one has on the disk, but for what is still to be written back. -/
def Mirrored (v : Volume) : Prop :=
  v.fs.n_fats = 2 → ∀ k < v.fs.fsize, ∀ i < SS, ¬ (v.fs.wflag = true ∧ v.fs.winsect = v.fs.fatbase + k) →
    v.disk.chip.mem (sector_byte (v.fs.fatbase + v.fs.fsize + k) i) = v.disk.chip.mem (sector_byte (v.fs.fatbase + k) i)

theorem InFlash.byte_lt {i : Nat} (h : InFlash ctx sect) (hi : i < SS) : sector_byte sect i < ctx.flash_size := by
  have hreach := reach_le ctx
  unfold InFlash sector_byte QSPI_FLASH_FILESYSTEM_START_ADDRESS QSPI_FLASH_SECTOR_SIZE SS at *
  omega

theorem InFlash.lt (h : InFlash ctx sect) : sect < 2 ^ 32 - 1 := by
  have hreach := reach_le ctx
  unfold InFlash sector_byte QSPI_FLASH_FILESYSTEM_START_ADDRESS QSPI_FLASH_SECTOR_SIZE at h
  omega

theorem sector_byte_mono {j j' : Nat} (h : j ≤ j') : sector_byte j 0 ≤ sector_byte j' 0 := by
  unfold sector_byte QSPI_FLASH_FILESYSTEM_START_ADDRESS QSPI_FLASH_SECTOR_SIZE
  omega

theorem Placed.in_flash (h : Placed ctx v.fs) (hsect : v.fs.InFat sect) : InFlash ctx sect := by
  refine (sector_byte_mono ?_).trans h.within
  obtain ⟨-, hlt⟩ := hsect
  rcases h.n_fats with h1 | h1 <;> rw [h1] <;> omega

theorem Placed.second_in_flash (h : Placed ctx v.fs) (hsect : v.fs.InSecond sect) : InFlash ctx sect := by
  refine (sector_byte_mono ?_).trans h.within
  obtain ⟨htwo, -, hlt⟩ := hsect
  rw [htwo]
  omega

theorem Placed.contained (h : Placed ctx v.fs) (hsect : InFlash ctx sect) (buff : Nat → UInt8) :
    (Call.write buff sect 1).Contained ctx := by
  have hdvd : ∀ j, ctx.sector ∣ sector_byte j 0 := by
    intro j
    have hstart : QSPI_FLASH_SECTOR_SIZE ∣ sector_byte j 0 := ⟨256 + j, by
      unfold sector_byte QSPI_FLASH_FILESYSTEM_START_ADDRESS QSPI_FLASH_SECTOR_SIZE
      omega⟩
    exact h.sector.trans hstart
  exact ⟨hsect, hdvd _, hdvd _⟩

/-! ## One sector -/

theorem disk_read_mono {d : Disk} {rounds sector count : Nat} {buff : Nat → UInt8} {r : DRESULT × (Nat → UInt8) × Disk} (hr : Ready d)
    (h : disk_read rounds ctx d 0 buff sector count = some r) (more : Nat) :
    disk_read (rounds + more) ctx d 0 buff sector count = some r := by
  rw [disk_read, if_pos rfl, if_pos hr.read_status, rtos_qspi_flash_read] at h ⊢
  rw [Option.map_map, Option.map_eq_some_iff] at h ⊢
  obtain ⟨data, hdata, rfl⟩ := h
  exact ⟨data, read_op_mono hdata more, rfl⟩

/-- A write of the window to a sector. -/
theorem write_sector_does (hp : Placed ctx v.fs) (hr : Ready v.disk) (hsect : InFlash ctx sect) :
    ∃ disk, Does (write_sector ctx sect) v .RES_OK { v with disk } ∧ Ready disk ∧ ∀ j i, i < SS → InFlash ctx j →
      disk.chip.mem (sector_byte j i) = if j = sect then v.fs.win i else v.disk.chip.mem (sector_byte j i) := by
  obtain ⟨n, disk, hwrite, hready, -, hmem⟩ := disk_write_spec hp.erases hr (hp.contained hsect v.fs.win)
  have hsect' : sector_byte (sect + 1) 0 ≤ reach ctx := hsect
  obtain ⟨haddress, hbytes, -⟩ := sector_range hsect'
  refine ⟨disk, ⟨n, fun m hm => ?_⟩, hready, fun j i hi hj => ?_⟩
  · obtain ⟨k, rfl⟩ := Nat.exists_eq_add_of_le hm
    rw [write_sector, disk_write_mono hwrite k]
    rfl
  · have hwithin : (sector_byte sect 0 ≤ sector_byte j i ∧ sector_byte j i < sector_byte sect 0 + 1 * QSPI_FLASH_SECTOR_SIZE) ↔
        sect ≤ j ∧ j < sect + 1 := sector_byte_within hi
    rw [hmem _ (hj.byte_lt hi), haddress, hbytes]
    by_cases heq : j = sect
    · subst heq
      rw [if_pos (hwithin.2 ⟨Nat.le_refl j, Nat.lt_succ_self j⟩), if_pos rfl]
      congr 1
      unfold sector_byte
      omega
    · rw [if_neg heq, if_neg (hwithin.not.2 (by omega))]

/-- A read of a sector into the window. -/
theorem read_sector_does (hr : Ready v.disk) (hsect : InFlash ctx sect) :
    ∃ win disk, Does (read_sector ctx sect) v .RES_OK ⟨{ v.fs with win }, disk⟩ ∧ Ready disk ∧
      disk.chip.mem = v.disk.chip.mem ∧ ∀ i < SS, win i = v.disk.chip.mem (sector_byte sect i) := by
  obtain ⟨n, win, disk, hread, hwin⟩ := disk_read_spec v.fs.win hr hsect
  have hdisk : disk = _ := disk_read_frame hr hread
  refine ⟨win, disk, ⟨n, fun m hm => ?_⟩, ?_, ?_, fun i hi => ?_⟩
  · obtain ⟨k, rfl⟩ := Nat.exists_eq_add_of_le hm
    rw [read_sector, disk_read_mono hr hread k]
    rfl
  · rw [hdisk]
    exact ⟨hr.idle, hr.drive_status⟩
  · rw [hdisk]
  · have hlt : i < 1 * QSPI_FLASH_SECTOR_SIZE := by
      unfold QSPI_FLASH_SECTOR_SIZE SS at *
      omega
    exact hwin i hlt

/-! ## Moving the window -/

/-- The window's sector is one of the first FAT. -/
theorem in_fat_iff (hp : Placed ctx v.fs) (hw : InFlash ctx v.fs.winsect) :
    (v.fs.winsect + 2 ^ 32 - v.fs.fatbase) % 2 ^ 32 < v.fs.fsize ↔ v.fs.InFat v.fs.winsect := by
  have hlt := hw.lt
  have hend : v.fs.fatbase + v.fs.fsize < 2 ^ 32 - 1 := by
    have hreach := reach_le ctx
    have hwithin := hp.within
    unfold sector_byte QSPI_FLASH_FILESYSTEM_START_ADDRESS QSPI_FLASH_SECTOR_SIZE at hwithin
    rcases hp.n_fats with h1 | h1 <;> rw [h1] at hwithin <;> omega
  unfold FATFS.InFat
  by_cases hle : v.fs.fatbase ≤ v.fs.winsect
  · rw [show v.fs.winsect + 2 ^ 32 - v.fs.fatbase = v.fs.winsect - v.fs.fatbase + 2 ^ 32 by omega, Nat.add_mod_right,
      Nat.mod_eq_of_lt (by omega)]
    omega
  · rw [Nat.mod_eq_of_lt (by omega)]
    omega

/-- Where the window is reflected to, if it is. -/
def FATFS.Reflects (fs : FATFS) (sect : Nat) : Prop := fs.n_fats = 2 ∧ fs.InFat fs.winsect ∧ sect = fs.winsect + fs.fsize

instance (fs : FATFS) (sect : Nat) : Decidable (fs.Reflects sect) :=
  inferInstanceAs (Decidable (_ ∧ (_ ∧ _) ∧ _))

theorem reflect_does (hp : Placed ctx v.fs) (hr : Ready v.disk) (hw : InFlash ctx v.fs.winsect) :
    ∃ disk, Does (reflect ctx) v ⟨⟩ { v with disk } ∧ Ready disk ∧ ∀ j i, i < SS → InFlash ctx j →
      disk.chip.mem (sector_byte j i) = if v.fs.Reflects j then v.fs.win i else v.disk.chip.mem (sector_byte j i) := by
  by_cases h : (v.fs.winsect + 2 ^ 32 - v.fs.fatbase) % 2 ^ 32 < v.fs.fsize ∧ v.fs.n_fats = 2
  · have hin := (in_fat_iff hp hw).1 h.1
    have hsecond : v.fs.InSecond (v.fs.winsect + v.fs.fsize) := by
      obtain ⟨hle, hlt⟩ := hin
      exact ⟨h.2, by omega, by omega⟩
    have hflash := hp.second_in_flash hsecond
    obtain ⟨disk, hdoes, hready, hmem⟩ := write_sector_does hp hr hflash
    refine ⟨disk, ?_, hready, fun j i hi hj => ?_⟩
    · unfold reflect
      refine Does.get_bind ?_
      simp only [if_pos h]
      rw [Nat.mod_eq_of_lt (by have := hflash.lt; omega)]
      exact hdoes.bind (does_pure _ _)
    · rw [hmem j i hi hj]
      by_cases heq : j = v.fs.winsect + v.fs.fsize
      · rw [if_pos heq, if_pos ⟨h.2, hin, heq⟩]
      · rw [if_neg heq, if_neg fun hr => heq hr.2.2]
  · refine ⟨v.disk, ?_, hr, fun j i _ _ => ?_⟩
    · unfold reflect
      refine Does.get_bind ?_
      simp only [if_neg h]
      exact does_pure _ _
    · rw [if_neg]
      intro hr
      exact h ⟨(in_fat_iff hp hw).2 hr.2.1, hr.1⟩

/-- A dirty window is written back. -/
theorem sync_window_does (hv : Windowed ctx v) :
    ∃ disk, Does (sync_window ctx) v .FR_OK ⟨{ v.fs with wflag := false }, disk⟩ ∧ Ready disk ∧
      ∀ j i, i < SS → InFlash ctx j → disk.chip.mem (sector_byte j i) =
        if v.fs.wflag = true ∧ (j = v.fs.winsect ∨ v.fs.Reflects j) then v.fs.win i else v.disk.chip.mem (sector_byte j i) := by
  cases hflag : v.fs.wflag with
  | false =>
    refine ⟨v.disk, ?_, hv.ready, fun j i _ _ => (if_neg fun h => Bool.false_ne_true h.1).symm⟩
    have hfs : { v.fs with wflag := false } = v.fs := by rw [← hflag]
    unfold sync_window
    refine Does.get_bind ?_
    rw [hfs]
    simp only [hflag, Bool.false_eq_true, if_false]
    exact does_pure _ _
  | true =>
    obtain ⟨hflash, -⟩ := hv.dirty hflag
    obtain ⟨disk, hwrite, hready, hmem⟩ := write_sector_does hv.placed hv.ready hflash
    let w : Volume := ⟨{ v.fs with wflag := false }, disk⟩
    have hplaced : Placed ctx w.fs := ⟨hv.placed.n_fats, hv.placed.within, hv.placed.erases, hv.placed.sector⟩
    obtain ⟨disk', hreflect, hready', hmem'⟩ := reflect_does hplaced hready hflash
    refine ⟨disk', ?_, hready', fun j i hi hj => ?_⟩
    · unfold sync_window
      refine Does.get_bind ?_
      simp only [hflag, if_true]
      refine hwrite.bind ?_
      simp only [if_true]
      exact Does.modify_bind (hreflect.bind (does_pure _ _))
    · rw [hmem' j i hi hj]
      by_cases hj' : v.fs.Reflects j
      · rw [if_pos (show w.fs.Reflects j from hj'), if_pos ⟨rfl, .inr hj'⟩]
      · rw [if_neg (show ¬ w.fs.Reflects j from hj')]
        refine (hmem j i hi hj).trans ?_
        by_cases heq : j = v.fs.winsect
        · rw [if_pos heq, if_pos ⟨rfl, .inl heq⟩]
        · rw [if_neg heq, if_neg fun h => h.2.elim heq hj']

/-- The disk once the window is written back: it has the bytes of the volume, also in its second FAT. -/
structure Synced (ctx : Ctx) (v : Volume) (disk : Disk) : Prop where
  ready : Ready disk
  bytes : ∀ j i, i < SS → InFlash ctx j → ¬ v.fs.InSecond j → disk.chip.mem (sector_byte j i) = v.byte j i
  window : InFlash ctx v.fs.winsect → ∀ i < SS, disk.chip.mem (sector_byte v.fs.winsect i) = v.fs.win i
  mirrored : Mirrored v → v.fs.n_fats = 2 → ∀ k < v.fs.fsize, ∀ i < SS,
    disk.chip.mem (sector_byte (v.fs.fatbase + v.fs.fsize + k) i) = disk.chip.mem (sector_byte (v.fs.fatbase + k) i)

theorem sync_window_synced (hv : Windowed ctx v) :
    ∃ disk, Does (sync_window ctx) v .FR_OK ⟨{ v.fs with wflag := false }, disk⟩ ∧ Synced ctx v disk := by
  obtain ⟨disk, hsync, hready, hmem⟩ := sync_window_does hv
  refine ⟨disk, hsync, hready, fun j i hi hj hsecond => ?_, fun hflash i hi => ?_, fun hm htwo k hk i hi => ?_⟩
  · have hnot : ¬ v.fs.Reflects j := by
      rintro ⟨htwo, ⟨hle, hlt⟩, heq⟩
      exact hsecond ⟨htwo, by omega, by omega⟩
    rw [hmem j i hi hj, Volume.byte]
    by_cases heq : j = v.fs.winsect
    · rw [if_pos heq]
      cases hflag : v.fs.wflag with
      | true => rw [if_pos ⟨rfl, .inl heq⟩]
      | false =>
        rw [if_neg fun h => Bool.false_ne_true h.1, hv.clean hflag (heq ▸ hj) i hi, heq]
    · rw [if_neg heq, if_neg fun h => h.2.elim heq hnot]
  · rw [hmem _ i hi hflash]
    cases hflag : v.fs.wflag with
    | true => rw [if_pos ⟨rfl, .inl rfl⟩]
    | false => rw [if_neg fun h => Bool.false_ne_true h.1, hv.clean hflag hflash i hi]
  · have hfirst : InFlash ctx (v.fs.fatbase + k) := hv.placed.in_flash ⟨Nat.le_add_right _ _, Nat.add_lt_add_left hk _⟩
    have hsecond : v.fs.InSecond (v.fs.fatbase + v.fs.fsize + k) := ⟨htwo, by omega, by omega⟩
    rw [hmem _ i hi (hv.placed.second_in_flash hsecond), hmem _ i hi hfirst]
    have hnotwin : v.fs.wflag = true → v.fs.fatbase + v.fs.fsize + k ≠ v.fs.winsect := fun hflag heq =>
      (hv.dirty hflag).2 (heq ▸ hsecond)
    have hnotreflect : ¬ v.fs.Reflects (v.fs.fatbase + k) := by
      rintro ⟨-, ⟨hle, hlt⟩, heq⟩
      omega
    by_cases hwin' : v.fs.wflag = true ∧ v.fs.winsect = v.fs.fatbase + k
    · have hin : v.fs.InFat v.fs.winsect := by
        rw [hwin'.2]
        exact ⟨Nat.le_add_right _ _, Nat.add_lt_add_left hk _⟩
      rw [if_pos ⟨hwin'.1, .inr ⟨htwo, hin, by omega⟩⟩, if_pos ⟨hwin'.1, .inl hwin'.2.symm⟩]
    · rw [if_neg, if_neg]
      · exact hm htwo k hk i hi hwin'
      · rintro ⟨hflag, heq | hr⟩
        · exact hwin' ⟨hflag, heq.symm⟩
        · exact hnotreflect hr
      · rintro ⟨hflag, heq | hr⟩
        · exact hnotwin hflag heq
        · exact hwin' ⟨hflag, by have := hr.2.2; omega⟩

/-- What moving the window does. -/
structure Moved (ctx : Ctx) (sect : Nat) (v v' : Volume) : Prop where
  fs : v'.fs = { v.fs with wflag := v'.fs.wflag, winsect := sect, win := v'.fs.win }
  windowed : Windowed ctx v'
  bytes : ∀ j i, i < SS → InFlash ctx j → ¬ v.fs.InSecond j → v'.byte j i = v.byte j i
  mirrored : Mirrored v → Mirrored v'

theorem Moved.here (hv : Windowed ctx v) : Moved ctx v.fs.winsect v v := ⟨rfl, hv, fun _ _ _ _ _ => rfl, id⟩

/-- Writing the window back changes none of the volume's bytes either. -/
theorem sync_window_moved (hv : Windowed ctx v) : ∃ v', Does (sync_window ctx) v .FR_OK v' ∧ Moved ctx v.fs.winsect v v' := by
  obtain ⟨disk, hsync, hsynced⟩ := sync_window_synced hv
  have hplaced : Placed ctx { v.fs with wflag := false } :=
    ⟨hv.placed.n_fats, hv.placed.within, hv.placed.erases, hv.placed.sector⟩
  refine ⟨_, hsync, rfl, ⟨hplaced, hsynced.ready, fun _ hflash i hi => ?_, fun h => ?_⟩, fun j i hi hj hsecond => ?_, ?_⟩
  · exact (hsynced.window hflash i hi).symm
  · cases h
  · by_cases heq : j = v.fs.winsect
    · exact (if_pos heq).trans (if_pos heq).symm
    · exact (if_neg heq).trans (hsynced.bytes j i hi hj hsecond)
  · intro hm htwo k hk i hi _
    exact hsynced.mirrored hm htwo k hk i hi

theorem move_window_does (hv : Windowed ctx v) (hflash : InFlash ctx sect) :
    ∃ v', Does (move_window ctx sect) v .FR_OK v' ∧ Moved ctx sect v v' := by
  by_cases hhere : sect = v.fs.winsect
  · subst hhere
    refine ⟨v, ?_, .here hv⟩
    unfold move_window
    refine Does.get_bind ?_
    simp only [ne_eq, not_true_eq_false, if_false]
    exact does_pure _ _
  · obtain ⟨disk, hsync, hsynced⟩ := sync_window_synced hv
    let w : Volume := ⟨{ v.fs with wflag := false }, disk⟩
    obtain ⟨win, disk', hread, hready', hmem', hwin⟩ := read_sector_does (v := w) hsynced.ready hflash
    refine ⟨⟨{ v.fs with wflag := false, win, winsect := sect }, disk'⟩, ?_, ⟨rfl, ⟨?_, hready', ?_, nofun⟩, ?_, ?_⟩⟩
    · unfold move_window
      refine Does.get_bind ?_
      simp only [ne_eq, hhere, not_false_eq_true, if_true]
      refine hsync.bind ?_
      simp only [if_true]
      refine hread.bind ?_
      simp only [if_true]
      exact Does.modify_bind (does_pure _ _)
    · exact ⟨hv.placed.n_fats, hv.placed.within, hv.placed.erases, hv.placed.sector⟩
    · intro _ _ i hi
      rw [hmem']
      exact hwin i hi
    · intro j i hi hj hsecond
      rw [← hsynced.bytes j i hi hj hsecond]
      unfold Volume.byte
      split
      · rename_i heq
        dsimp only at heq ⊢
        rw [heq]
        exact hwin i hi
      · show disk'.chip.mem _ = _
        rw [hmem']
    · intro hm htwo k hk i hi _
      show disk'.chip.mem _ = disk'.chip.mem _
      rw [hmem']
      exact hsynced.mirrored hm htwo k hk i hi

end Fatfs
