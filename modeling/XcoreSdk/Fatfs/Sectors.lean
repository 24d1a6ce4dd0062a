import XcoreSdk.Fatfs.Diskio
/-!
# The volume as an array of sectors

A call whose sectors lie in the flash touches just their bytes, and its address
and length do not wrap. The driver's count of sectors is that of the whole flash,
though the volume begins behind its first part: a call may have sectors past the
end of the flash and still be within the count.
-/

namespace Fatfs
open QspiFlash Blocks
open QspiFlash.Locking (Request)

variable {ctx : Ctx} {d d' : Disk} {s s' : State} {chip chip' : Chip} {rounds sector count address len a : Nat}
  {buff : Nat → UInt8}

theorem reach_le (ctx : Ctx) : reach ctx ≤ ctx.flash_size ∧ reach ctx ≤ 2 ^ 24 := ⟨Nat.min_le_left .., Nat.min_le_right ..⟩

/-- An erase of whole sectors behind the start of the flash. -/
theorem erase_op_whole (ht : EraseTable ctx.size_log2) (hidle : chip.busy = 0) (hpos : 0 < address)
    (hend : address + len ≤ ctx.flash_size) (hbytes : address + len ≤ 2 ^ 24) (hfirst : ctx.sector ∣ address)
    (hlast : ctx.sector ∣ address + len) :
    ∃ rounds chip', erase_op rounds ctx chip address len = some chip' ∧ chip'.busy = 0 ∧
      ∀ a < ctx.flash_size, chip'.mem a = if address ≤ a ∧ a < address + len then 0xFF else chip.mem a := by
  have hsize := ctx.flash_size_lt
  have hnot : ¬ (address = 0 ∧ len ≥ ctx.flash_size) := by omega
  by_cases hlen : len = 0
  · subst hlen
    have hstart := erase_op_start_eq ctx chip (show address < 2 ^ 32 by omega) (show 0 < 2 ^ 32 by decide)
    rw [Nat.mod_eq_zero_of_dvd hfirst, Nat.zero_add, Nat.zero_mod] at hstart
    obtain ⟨rounds, hrun⟩ : Loop.Ends (erase_op_round ctx) ⟨chip, 0, address / ctx.sector * ctx.sector⟩ (some chip) :=
      erase_loop_none (.inl rfl)
    refine ⟨rounds, chip, ?_, hidle, fun a _ => (if_neg (by omega)).symm⟩
    rw [erase_op, if_neg hnot, hstart, hrun]
    rfl
  · have hsent : three_bytes address = address := three_bytes_eq (by omega)
    obtain ⟨rounds, chip', hrun, hidle', hmem⟩ := erased_within ht hidle (Nat.pos_of_ne_zero hlen) hend (hsent.symm ▸ hbytes)
    refine ⟨rounds, chip', hrun, hidle', fun a ha => ?_⟩
    have hexact := meets_aligned (a := a) ctx.sector_pos hfirst hlast
    rw [hsent] at hmem
    split
    · rename_i hin
      exact (hmem a ha).1 (hexact.2 hin)
    · rename_i hout
      exact (hmem a ha).2 (hexact.not.2 hout)

/-! ## A call -/

theorem sector_byte_add (sector count : Nat) :
    sector_byte (sector + count) 0 = sector_byte sector 0 + count * QSPI_FLASH_SECTOR_SIZE := by
  unfold sector_byte QSPI_FLASH_SECTOR_SIZE
  omega

theorem sector_byte_pos (j i : Nat) : 0 < sector_byte j i := by
  unfold sector_byte QSPI_FLASH_FILESYSTEM_START_ADDRESS
  omega

/-- A byte of a sector, counted from an earlier sector on. -/
theorem sector_byte_from {sector j i : Nat} (h : sector ≤ j) :
    sector_byte sector 0 + ((j - sector) * QSPI_FLASH_SECTOR_SIZE + i) = sector_byte j i := by
  unfold sector_byte QSPI_FLASH_SECTOR_SIZE
  omega

theorem sector_byte_within {sector count j i : Nat} (hi : i < QSPI_FLASH_SECTOR_SIZE) :
    (sector_byte sector 0 ≤ sector_byte j i ∧ sector_byte j i < sector_byte sector 0 + count * QSPI_FLASH_SECTOR_SIZE) ↔
      sector ≤ j ∧ j < sector + count := by
  unfold sector_byte QSPI_FLASH_SECTOR_SIZE at *
  omega

/-- Behind the start of the volume an address is a byte of a sector. -/
theorem exists_sector_byte {j : Nat} (h : sector_byte j 0 ≤ a) :
    ∃ j i, i < QSPI_FLASH_SECTOR_SIZE ∧ a = sector_byte j i := by
  refine ⟨(a - QSPI_FLASH_FILESYSTEM_START_ADDRESS) / QSPI_FLASH_SECTOR_SIZE,
    (a - QSPI_FLASH_FILESYSTEM_START_ADDRESS) % QSPI_FLASH_SECTOR_SIZE, Nat.mod_lt _ (by decide), ?_⟩
  unfold sector_byte QSPI_FLASH_FILESYSTEM_START_ADDRESS QSPI_FLASH_SECTOR_SIZE at *
  omega

/-- The bytes of the sectors lie in the flash, so neither the address nor the length wraps. -/
theorem sector_range (h : sector_byte (sector + count) 0 ≤ reach ctx) :
    sector_address sector = sector_byte sector 0 ∧ sector_bytes count = count * QSPI_FLASH_SECTOR_SIZE ∧
      sector_address sector + sector_bytes count = sector_byte (sector + count) 0 := by
  have hreach := reach_le ctx
  unfold sector_address sector_bytes sector_byte QSPI_FLASH_FILESYSTEM_START_ADDRESS QSPI_FLASH_SECTOR_SIZE at *
  omega

/-- What the calls rely on and keep of the drive. -/
structure Ready (d : Disk) : Prop where
  idle : d.chip.busy = 0
  drive_status : d.drive_status = 0

theorem disk_initialize_zero (chip : Chip) : ( disk_initialize ⟨chip, STA_NOINIT, []⟩ 0).2 = ⟨chip, 0, []⟩ := by
  have hbits : STA_NOINIT &&& STA_NOINIT = STA_NOINIT := by decide
  have hclear : STA_NOINIT &&& ~~~STA_NOINIT = 0 := by decide
  rw [ disk_initialize, if_pos rfl]
  simp only [if_pos hbits, hclear]

theorem Ready.read_status (h : Ready d) : d.drive_status &&& ~~~STA_PROTECT = 0 := by
  rw [h.drive_status]
  rfl

variable (buff) in
theorem disk_read_spec (h : Ready d)
    (hin : sector_byte (sector + count) 0 ≤ reach ctx) :
    ∃ rounds out disk, disk_read rounds ctx d 0 buff sector count = some (.RES_OK, out, disk) ∧
      ∀ i < count * QSPI_FLASH_SECTOR_SIZE, out i = d.chip.mem (sector_byte sector 0 + i) := by
  obtain ⟨haddress, hbytes, hend⟩ := sector_range hin
  have hin' := hend.le.trans hin
  obtain ⟨rounds, out, hrun, hout⟩ := read_op_reached d.chip buff (hin'.trans (reach_le ctx).1) (hin'.trans (reach_le ctx).2)
  refine ⟨rounds, out, { d with requests := d.requests ++ [Request.read (sector_address sector) (sector_bytes count)] },
    ?_, fun i hi => ?_⟩
  · rw [disk_read, if_pos rfl, if_pos h.read_status, rtos_qspi_flash_read, hrun]
    rfl
  · rw [hout i (hbytes ▸ hi), haddress]

/-- A read changes nothing. -/
theorem disk_read_frame (h : Ready d) {r : DRESULT × (Nat → UInt8) × Disk}
    (hr : disk_read rounds ctx d 0 buff sector count = some r) :
    r.2.2 = { d with requests := d.requests ++ [.read (sector_address sector) (sector_bytes count)] } := by
  rw [disk_read, if_pos rfl, if_pos h.read_status, rtos_qspi_flash_read, Option.map_map, Option.map_eq_some_iff] at hr
  obtain ⟨data, -, rfl⟩ := hr
  rfl

/-- A write sets the bytes of its sectors. -/
theorem disk_write_spec (ht : EraseTable ctx.size_log2) (h : Ready d) (hin : (Call.write buff sector count).Contained ctx) :
    ∃ rounds disk, disk_write rounds ctx d 0 buff sector count = some (.RES_OK, disk) ∧ Ready disk ∧
      (∃ data, data.length = sector_bytes count ∧ disk.requests =
        d.requests ++ [.erase (sector_address sector) (sector_bytes count), .write (sector_address sector) data]) ∧
      ∀ a < ctx.flash_size, disk.chip.mem a =
        if sector_address sector ≤ a ∧ a < sector_address sector + sector_bytes count then buff (a - sector_address sector)
        else d.chip.mem a := by
  obtain ⟨haddress, hbytes, hend⟩ := sector_range hin.1
  have hin' := (hend.le.trans hin.1).trans (reach_le ctx).1
  have hlow := (hend.le.trans hin.1).trans (reach_le ctx).2
  obtain ⟨n, chip, herase, hidle, hmem⟩ := erase_op_whole ht h.idle (haddress ▸ sector_byte_pos ..) hin' hlow
    (haddress ▸ hin.2.1) (hend ▸ hin.2.2)
  obtain ⟨m, chip', hwrite, hidle', hmem'⟩ := write_op_reached buff hidle hin' hlow fun a hle hlt => by
    rw [hmem a (by omega), if_pos ⟨hle, hlt⟩]
  refine ⟨n + m, ⟨chip', d.drive_status, d.requests ++ [Request.erase (sector_address sector) (sector_bytes count)] ++
    [Request.write (sector_address sector) ((List.range (sector_bytes count)).map buff)]⟩, ?_, ⟨hidle', h.drive_status⟩,
    ⟨(List.range (sector_bytes count)).map buff, ?_, List.append_assoc ..⟩, fun a ha => ?_⟩
  · rw [disk_write, if_pos rfl, if_pos h.drive_status, rtos_qspi_flash_erase, erase_op_mono herase m, Option.map_some,
      Option.bind_some, rtos_qspi_flash_write, Nat.add_comm, write_op_mono hwrite n]
    rfl
  · rw [List.length_map, List.length_range]
  · rw [hmem' a ha]
    split
    · rfl
    · rename_i hout
      rw [hmem a ha, if_neg hout]

theorem disk_write_mono {r : DRESULT × Disk} (h : disk_write rounds ctx d 0 buff sector count = some r) (more : Nat) :
    disk_write (rounds + more) ctx d 0 buff sector count = some r := by
  unfold disk_write rtos_qspi_flash_erase rtos_qspi_flash_write at h ⊢
  rw [if_pos rfl] at h ⊢
  split at h
  · rename_i hstatus
    obtain ⟨d', herased, h⟩ := Option.bind_eq_some_iff.1 h
    obtain ⟨chip, herase, rfl⟩ := Option.map_eq_some_iff.1 herased
    obtain ⟨d'', hwritten, rfl⟩ := Option.map_eq_some_iff.1 h
    obtain ⟨chip', hwrite, rfl⟩ := Option.map_eq_some_iff.1 hwritten
    rw [if_pos hstatus, erase_op_mono herase more, Option.map_some, Option.bind_some]
    dsimp only
    rw [write_op_mono hwrite more]
    rfl
  · rename_i hstatus
    rw [if_neg hstatus]
    exact h

theorem disk_write_unique {rounds' : Nat} {r r' : DRESULT × Disk} (h : disk_write rounds ctx d 0 buff sector count = some r)
    (h' : disk_write rounds' ctx d 0 buff sector count = some r') : r = r' := by
  have hr := disk_write_mono h rounds'
  rw [Nat.add_comm, disk_write_mono h' rounds] at hr
  exact (Option.some.inj hr).symm

/-! ## Runs -/

/-- What holds of every state of a run of contained calls. -/
structure Inv (ctx : Ctx) (s : State) : Prop where
  ready : Ready s.disk
  touched : ∀ r ∈ s.disk.requests, ∀ a, Touches ctx r a → QSPI_FLASH_FILESYSTEM_START_ADDRESS ≤ a ∧ a < ctx.flash_size
  /-- A sector that was written lies in the flash. -/
  within : ∀ j, (s.written j).isSome → ∀ i < QSPI_FLASH_SECTOR_SIZE, sector_byte j i < ctx.flash_size
  stored : ∀ j f, s.written j = some f → ∀ i < QSPI_FLASH_SECTOR_SIZE, s.disk.chip.mem (sector_byte j i) = f i
  unchanged : ∀ a < ctx.flash_size, (∀ j i, (s.written j).isSome → i < QSPI_FLASH_SECTOR_SIZE → a ≠ sector_byte j i) →
    s.disk.chip.mem a = s.initial a

theorem inv_init (h : (machine ctx).init s) : Inv ctx s := by
  obtain ⟨chip, hidle, rfl⟩ := h
  rw [ disk_initialize_zero]
  exact ⟨⟨hidle, rfl⟩, fun r hr => (List.not_mem_nil hr).elim, (fun j hj => by cases hj), (fun j f hj => by cases hj),
    fun a _ _ => rfl⟩

theorem Inv.read_step (h : Inv ctx s) (hin : (Call.read buff sector count).Contained ctx)
    (hs : (machine ctx).step s (.read buff sector count, rounds) = some s') : Inv ctx s' := by
  obtain ⟨r, hr, rfl⟩ := Option.map_eq_some_iff.1 hs
  obtain ⟨haddress, -, hend⟩ := sector_range hin
  have hpos : QSPI_FLASH_FILESYSTEM_START_ADDRESS ≤ sector_byte sector 0 := Nat.le_add_right_of_le (Nat.le_add_right ..)
  have hin' : sector_byte (sector + count) 0 ≤ reach ctx := hin
  have hreach := reach_le ctx
  rw [disk_read_frame h.ready hr]
  refine ⟨⟨h.ready.idle, h.ready.drive_status⟩, fun q hq a ha => ?_, h.within, h.stored, h.unchanged⟩
  rcases List.mem_append.1 hq with hq | hq
  · exact h.touched q hq a ha
  · obtain rfl := List.mem_singleton.1 hq
    obtain ⟨hle, hlt⟩ := ha
    exact ⟨by omega, by omega⟩

/-- The sectors that have been written after a write lie in the flash. -/
theorem Inv.written (h : Inv ctx s) (hin : sector_byte (sector + count) 0 ≤ reach ctx) (j : Nat)
    (hj : ((s.write buff sector count d).written j).isSome) (i : Nat) (hi : i < QSPI_FLASH_SECTOR_SIZE) :
    sector_byte j i < ctx.flash_size := by
  by_cases hjin : sector ≤ j ∧ j < sector + count
  · have hless := ((sector_byte_within hi).2 hjin).2
    have hreach := reach_le ctx
    rw [← sector_byte_add] at hless
    omega
  · have hj' : ((s.write buff sector count d).written j) = s.written j := if_neg hjin
    exact h.within j (hj' ▸ hj) i hi

theorem Inv.write_step (h : Inv ctx s) (ht : EraseTable ctx.size_log2) (hin : (Call.write buff sector count).Contained ctx)
    (hs : (machine ctx).step s (.write buff sector count, rounds) = some s') : Inv ctx s' := by
  obtain ⟨r, hr, rfl⟩ := Option.map_eq_some_iff.1 hs
  obtain ⟨haddress, hbytes, hend⟩ := sector_range hin.1
  have hpos : QSPI_FLASH_FILESYSTEM_START_ADDRESS ≤ sector_byte sector 0 := Nat.le_add_right_of_le (Nat.le_add_right ..)
  obtain ⟨n, disk, hdisk, hready, ⟨data, hdata, hrequests⟩, hmem⟩ := disk_write_spec ht h.ready hin
  obtain rfl := disk_write_unique hdisk hr
  rw [haddress, hbytes] at hmem
  refine ⟨hready, fun q hq a ha => ?_, h.written hin.1, fun j f hj i hi => ?_, fun a ha hout => ?_⟩
  · have hq' : q ∈ disk.requests := hq
    rw [hrequests] at hq'
    rcases List.mem_append.1 hq' with hq | hq
    · exact h.touched q hq a ha
    · have hrange : sector_address sector ≤ a ∧ a < sector_address sector + sector_bytes count := by
        rcases List.mem_cons.1 hq with rfl | hq
        · exact (meets_aligned ctx.sector_pos (haddress ▸ hin.2.1) (hend ▸ hin.2.2)).1 ha
        · obtain rfl := List.mem_singleton.1 hq
          exact hdata ▸ ha
      have hin' := hin.1
      have hreach := reach_le ctx
      exact ⟨by omega, by omega⟩
  · have hless := h.written hin.1 j (by rw [hj]; rfl) i hi
    refine (hmem _ hless).trans ?_
    by_cases hjin : sector ≤ j ∧ j < sector + count
    · obtain rfl := Option.some.inj ((if_pos hjin).symm.trans hj)
      rw [if_pos ((sector_byte_within hi).2 hjin), ← sector_byte_from hjin.1, Nat.add_sub_cancel_left]
    · rw [if_neg ((sector_byte_within hi).not.2 hjin)]
      exact h.stored j f ((if_neg hjin).symm.trans hj) i hi
  · have hnot : ¬ (sector_byte sector 0 ≤ a ∧ a < sector_byte sector 0 + count * QSPI_FLASH_SECTOR_SIZE) := by
      intro hrange
      obtain ⟨j, i, hi, rfl⟩ := exists_sector_byte hrange.1
      have hj : ((s.write buff sector count disk).written j) = some _ := if_pos ((sector_byte_within hi).1 hrange)
      exact hout j i (by rw [hj]; rfl) hi rfl
    refine ((hmem a ha).trans (if_neg hnot)).trans (h.unchanged a ha fun j i hj hi => hout j i ?_ hi)
    by_cases hjin : sector ≤ j ∧ j < sector + count
    · have hj' : ((s.write buff sector count disk).written j) = some _ := if_pos hjin
      rw [hj']
      rfl
    · have hj' : ((s.write buff sector count disk).written j) = s.written j := if_neg hjin
      rwa [hj']

theorem Inv.step (h : Inv ctx s) (ht : EraseTable ctx.size_log2) {a : Call × Nat} (hin : a.1.Contained ctx)
    (hs : (machine ctx).step s a = some s') : Inv ctx s' := by
  obtain ⟨call, rounds⟩ := a
  rcases call with ⟨buff, sector, count⟩ | ⟨buff, sector, count⟩
  · exact h.read_step hin hs
  · exact h.write_step ht hin hs

theorem Inv.sector_array (h : Inv ctx s) (ht : EraseTable ctx.size_log2) : SectorArray ctx (Call.Contained ctx) s := by
  refine ⟨h.touched, h.stored, h.unchanged, fun buff sector count hin => ?_, fun buff sector count hin => ?_⟩
  · obtain ⟨rounds, out, disk, hread, hout⟩ := disk_read_spec buff h.ready hin
    refine ⟨rounds, out, disk, hread, fun j f hle hlt hj i hi => ?_⟩
    have hless : (j - sector) * QSPI_FLASH_SECTOR_SIZE + i < count * QSPI_FLASH_SECTOR_SIZE := by
      unfold QSPI_FLASH_SECTOR_SIZE at *
      omega
    rw [hout _ hless, sector_byte_from hle]
    exact h.stored j f hj i hi
  · obtain ⟨rounds, disk, hwrite, -⟩ := disk_write_spec ht h.ready hin
    exact ⟨rounds, disk, hwrite⟩

/-- In a run whose calls have their sectors in the flash, the volume is an array of sectors. -/
theorem sectors_kept (ctx : Ctx) (ht : EraseTable ctx.size_log2) {s : State}
    (h : (machine ctx).Reachable (fun _ a => a.1.Contained ctx) s) : SectorArray ctx (Call.Contained ctx) s :=
  Inv.sector_array (h.inv (fun _ => inv_init) fun _ _ _ hinv hin hs => hinv.step ht hin hs) ht

/-- A flash of 2 MiB, with sectors of 4, 32 and 64 KiB. -/
def two_mib : Ctx := ⟨0x200000, 256, [12, 15, 16, 0].get, by decide, 8, rfl⟩

/-- The volume as it is first initialised. -/
def fresh : State := ⟨⟨cleared, 0, []⟩, cleared.mem, fun _ => none⟩

theorem fresh_init (ctx : Ctx) : (machine ctx).init fresh := ⟨cleared, rfl, by rw [ disk_initialize_zero]; rfl⟩

/-- FatFs is told of 512 sectors; a read of the last one, which is past the end of the flash, does not return. -/
theorem sectors_kept_last : ∃ s, (machine two_mib).Reachable (fun s a => a.1.Counted two_mib s.disk) s ∧
    ¬ SectorArray two_mib (Call.Counted two_mib s.disk) s := by
  refine ⟨fresh, .init (fresh_init _), fun h => ?_⟩
  have hcounted : (Call.read (fun _ => 0) 511 1).Counted two_mib fresh.disk := by
    intro n hn
    obtain rfl := Option.some.inj ((show (disk_ioctl two_mib fresh.disk 0 .GET_SECTOR_COUNT).2 = some 512 by decide).symm.trans hn)
    decide
  obtain ⟨rounds, out, disk, hread, -⟩ := h.read (fun _ => 0) 511 1 hcounted
  rw [disk_read, if_pos rfl, if_pos (by decide), rtos_qspi_flash_read, read_op_none (by decide) (by decide)] at hread
  cases hread

/-- Two sectors are written and one of them once more: what was written last is read back. -/
theorem sectors_kept_first : EraseTable two_mib.size_log2 ∧ ∃ s, s.disk.requests.length = 4 ∧
    (machine two_mib).Reachable (fun _ a => a.1.Contained two_mib) s ∧ SectorArray two_mib (Call.Contained two_mib) s ∧
    ∃ rounds out disk, disk_read rounds two_mib s.disk 0 (fun _ => 0xAA) 3 2 = some (.RES_OK, out, disk) ∧
      (∀ i < QSPI_FLASH_SECTOR_SIZE, out i = .ofNat i) ∧
      ∀ i < QSPI_FLASH_SECTOR_SIZE, out (QSPI_FLASH_SECTOR_SIZE + i) = .ofNat (i + 1) := by
  have ht : EraseTable two_mib.size_log2 := ⟨by decide, by decide, by decide⟩
  have hin : (Call.write (fun i => .ofNat i) 3 2).Contained two_mib := ⟨by decide, by decide, by decide⟩
  have hin' : (Call.write (fun i => .ofNat (i + 1)) 4 1).Contained two_mib := ⟨by decide, by decide, by decide⟩
  obtain ⟨n, d, hwrite, hready, ⟨data, -, hrequests⟩, -⟩ := disk_write_spec (d := fresh.disk) ht ⟨rfl, rfl⟩ hin
  obtain ⟨m, d', hwrite', -, ⟨data', -, hrequests'⟩, -⟩ := disk_write_spec ht hready hin'
  have hstep : (machine two_mib).step fresh (.write (fun i => .ofNat i) 3 2, n) =
      some (fresh.write (fun i => .ofNat i) 3 2 d) := by
    rw [machine]
    dsimp only
    rw [hwrite]
    rfl
  have hstep' : (machine two_mib).step (fresh.write (fun i => .ofNat i) 3 2 d) (.write (fun i => .ofNat (i + 1)) 4 1, m) =
      some ((fresh.write (fun i => .ofNat i) 3 2 d).write (fun i => .ofNat (i + 1)) 4 1 d') := by
    have hdisk : disk_write m two_mib (fresh.write (fun i => .ofNat i) 3 2 d).disk 0 (fun i => .ofNat (i + 1)) 4 1 =
        some (.RES_OK, d') := hwrite'
    rw [machine]
    dsimp only
    rw [hdisk]
    rfl
  have hreach : (machine two_mib).Reachable (fun _ a => a.1.Contained two_mib)
      ((fresh.write (fun i => .ofNat i) 3 2 d).write (fun i => .ofNat (i + 1)) 4 1 d') :=
    ((Machine.Reachable.init (fresh_init _)).step hin hstep).step hin' hstep'
  have harray := sectors_kept two_mib ht hreach
  refine ⟨ht, _, ?_, hreach, harray, ?_⟩
  · show d'.requests.length = 4
    rw [hrequests', hrequests]
    rfl
  · have hcontained : (Call.read (fun _ => 0xAA) 3 2).Contained two_mib := by
      show sector_byte (3 + 2) 0 ≤ reach two_mib
      decide
    obtain ⟨rounds, out, disk, hread, hout⟩ := harray.read (fun _ => 0xAA) 3 2 hcontained
    refine ⟨rounds, out, disk, hread, fun i hi => ?_, fun i hi => ?_⟩
    · have hfirst := hout 3 _ (by decide) (by decide) rfl i hi
      rwa [Nat.sub_self, Nat.zero_mul, Nat.zero_add] at hfirst
    · have hsecond := hout 4 _ (by decide) (by decide) rfl i hi
      rwa [Nat.sub_self, Nat.zero_mul, Nat.zero_add, Nat.one_mul] at hsecond

end Fatfs
