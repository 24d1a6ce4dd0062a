import XcoreSdk.QspiFlash.EraseOp
import XcoreSdk.QspiFlash.ReadOp
import XcoreSdk.QspiFlash.WriteOp
/-!
# The USB mass storage disk on the flash

A write reads a window of 4096 bytes from the block's first byte on into a
buffer, copies the data into it, erases the window and writes it back. The
driver's operations are performed in turn, with its lock held from the read on.
Where the flash has more than three bytes address, a window behind them is one in
front as it is sent.
-/

namespace Msc
open QspiFlash Blocks

abbrev QSPI_FLASH_SECTOR_SIZE : Nat := 4096

/-- The members of `disk_desc_t` that reads and writes use. -/
structure DiskDesc where
  starting_addr : Nat
  block_size : Nat
  /-- The flash driver. -/
  args : Ctx

/-- `starting_addr + (lba * block_size) + offset`, in 32 bits. -/
def DiskDesc.address (disk_ctx : DiskDesc) (lba offset : Nat) : Nat :=
  (disk_ctx.starting_addr + lba * disk_ctx.block_size + offset) % 2 ^ 32

def memcpy (dst : Nat → UInt8) (pos : Nat) (src : Nat → UInt8) (len : Nat) : Nat → UInt8 :=
  fun i => if pos ≤ i ∧ i < pos + len then src (i - pos) else dst i

/-- The result and the buffer. -/
def qspi_flash_disk_read (rounds : Nat) (disk_ctx : DiskDesc) (chip : Chip) (buffer : Nat → UInt8)
    (lba offset bufsize : Nat) : Option (Nat × (Nat → UInt8)) :=
  (read_op rounds disk_ctx.args chip buffer (disk_ctx.address lba offset) bufsize).map fun buffer => (bufsize, buffer)

/-- The result, the chip, and which bytes of `tmp_buf` were accessed (first byte and number). At first
`tmp_buf` is what the heap has from the allocated bytes on. `none` is a failed assertion, or an
operation that has not ended. -/
def qspi_flash_disk_write (rounds : Nat) (disk_ctx : DiskDesc) (chip : Chip) (tmp_buf buffer : Nat → UInt8)
    (lba offset bufsize : Nat) : Option (Nat × Chip × List (Nat × Nat)) :=
  if bufsize ≤ QSPI_FLASH_SECTOR_SIZE then
    (read_op rounds disk_ctx.args chip tmp_buf (disk_ctx.address lba 0) QSPI_FLASH_SECTOR_SIZE).bind fun tmp_buf =>
      let tmp_buf := memcpy tmp_buf offset buffer bufsize
      (erase_op rounds disk_ctx.args chip (disk_ctx.address lba 0) QSPI_FLASH_SECTOR_SIZE).bind fun chip =>
        (write_op rounds disk_ctx.args chip ((List.range QSPI_FLASH_SECTOR_SIZE).map tmp_buf) (disk_ctx.address lba 0)).map
          fun chip => (bufsize, chip, [(0, QSPI_FLASH_SECTOR_SIZE), (offset, bufsize), (0, QSPI_FLASH_SECTOR_SIZE)])
  else none

/-! ## What is promised -/

/-- The write ends; a read returns what was written, no other byte of the flash has changed, and no byte
outside the temporary buffer was accessed. -/
def Written (disk_ctx : DiskDesc) (chip : Chip) (tmp_buf buffer : Nat → UInt8) (lba offset bufsize : Nat) : Prop :=
  ∃ rounds chip' accessed,
    qspi_flash_disk_write rounds disk_ctx chip tmp_buf buffer lba offset bufsize = some (bufsize, chip', accessed) ∧
    (∀ out, ∃ rounds out', qspi_flash_disk_read rounds disk_ctx chip' out lba offset bufsize = some (bufsize, out') ∧
      ∀ i < bufsize, out' i = buffer i) ∧
    (∀ a < disk_ctx.args.flash_size,
      ¬ (disk_ctx.address lba offset ≤ a ∧ a < disk_ctx.address lba offset + bufsize) → chip'.mem a = chip.mem a) ∧
    ∀ r ∈ accessed, ∀ i, r.1 ≤ i → i < r.1 + r.2 → i < QSPI_FLASH_SECTOR_SIZE

/-- Where the window begins, as it is sent. -/
def DiskDesc.window (disk_ctx : DiskDesc) (lba : Nat) : Nat := three_bytes (disk_ctx.address lba 0)

/-- The data end with the window, which lies in the flash, three bytes hold its addresses, or the data are there
already where it is sent to, and what is erased besides it is erased already. -/
structure Fits (disk_ctx : DiskDesc) (chip : Chip) (buffer : Nat → UInt8) (lba offset bufsize : Nat) : Prop where
  within : bufsize = 0 ∨ offset + bufsize ≤ QSPI_FLASH_SECTOR_SIZE
  in_flash : disk_ctx.address lba 0 + QSPI_FLASH_SECTOR_SIZE ≤ disk_ctx.args.flash_size
  whole : disk_ctx.window lba + QSPI_FLASH_SECTOR_SIZE ≤ 2 ^ 24
  reached : disk_ctx.address lba 0 < 2 ^ 24 ∨ ∀ i < bufsize, chip.mem (disk_ctx.window lba + offset + i) = buffer i
  beside : ∀ a < disk_ctx.args.flash_size, Meets disk_ctx.args.sector (disk_ctx.window lba) QSPI_FLASH_SECTOR_SIZE a →
    ¬ (disk_ctx.window lba ≤ a ∧ a < disk_ctx.window lba + QSPI_FLASH_SECTOR_SIZE) →
    ¬ (disk_ctx.address lba offset ≤ a ∧ a < disk_ctx.address lba offset + bufsize) → chip.mem a = 0xFF

/-! ## A write -/

variable {disk_ctx : DiskDesc} {chip chip' : Chip} {tmp_buf buffer : Nat → UInt8} {rounds lba offset bufsize a : Nat}

variable (disk_ctx lba) in
/-- In the window an offset adds to the address. -/
theorem address_offset (h : disk_ctx.address lba 0 + offset < 2 ^ 32) :
    disk_ctx.address lba offset = disk_ctx.address lba 0 + offset := by
  unfold DiskDesc.address at h ⊢
  omega

/-- What a write leaves in the flash: the window with the data in it, and `0xFF` in the rest of the
sectors that the window meets. -/
structure Left (disk_ctx : DiskDesc) (chip chip' : Chip) (buffer : Nat → UInt8) (lba offset bufsize : Nat) : Prop where
  idle : chip'.busy = 0
  window : ∀ i < QSPI_FLASH_SECTOR_SIZE, chip'.mem (disk_ctx.window lba + i) =
    memcpy (fun i => chip.mem (disk_ctx.window lba + i)) offset buffer bufsize i
  erased : ∀ a < disk_ctx.args.flash_size, Meets disk_ctx.args.sector (disk_ctx.window lba) QSPI_FLASH_SECTOR_SIZE a →
    ¬ (disk_ctx.window lba ≤ a ∧ a < disk_ctx.window lba + QSPI_FLASH_SECTOR_SIZE) → chip'.mem a = 0xFF
  kept : ∀ a < disk_ctx.args.flash_size, ¬ Meets disk_ctx.args.sector (disk_ctx.window lba) QSPI_FLASH_SECTOR_SIZE a →
    chip'.mem a = chip.mem a

/-- The window's own bytes are erased. -/
theorem meets_window {x len n : Nat} (hle : x ≤ a) (hlt : a < x + len) : Meets n x len a := ⟨a, hle, hlt, rfl⟩

variable (tmp_buf buffer offset) in
theorem write_left (ht : EraseTable disk_ctx.args.size_log2) (hidle : chip.busy = 0) (hsize : bufsize ≤ QSPI_FLASH_SECTOR_SIZE)
    (hin : disk_ctx.address lba 0 + QSPI_FLASH_SECTOR_SIZE ≤ disk_ctx.args.flash_size)
    (hbytes : disk_ctx.window lba + QSPI_FLASH_SECTOR_SIZE ≤ 2 ^ 24) : ∃ rounds chip',
    qspi_flash_disk_write rounds disk_ctx chip tmp_buf buffer lba offset bufsize =
      some (bufsize, chip', [(0, QSPI_FLASH_SECTOR_SIZE), (offset, bufsize), (0, QSPI_FLASH_SECTOR_SIZE)]) ∧
    Left disk_ctx chip chip' buffer lba offset bufsize := by
  have hsent : three_bytes (disk_ctx.address lba 0) = disk_ctx.window lba := rfl
  have hle := three_bytes_le (disk_ctx.address lba 0)
  obtain ⟨n, copy, hread, hcopy⟩ := read_op_copies chip tmp_buf hin hbytes
  obtain ⟨m, blank, herase, hidle', hblank⟩ := erased_within ht hidle (by decide) hin hbytes
  obtain ⟨k, chip', hwrite, hidle'', hmem⟩ := write_op_erased (memcpy copy offset buffer bufsize) hidle' hin hbytes
    fun a hle hlt => (hblank a (by omega)).1 (meets_window hle hlt)
  simp only [hsent] at hcopy hblank hmem
  refine ⟨n + m + k, chip', ?_, hidle'', fun i hi => ?_, fun a ha hmeets hout => ?_, fun a ha hmeets => ?_⟩
  · rw [qspi_flash_disk_write, if_pos hsize, read_op_mono (read_op_mono hread m) k, Option.bind_some]
    dsimp only
    rw [Nat.add_comm n m, erase_op_mono (erase_op_mono herase n) k, Option.bind_some, Nat.add_comm (m + n) k,
      write_op_mono hwrite (m + n)]
    rfl
  · rw [hmem _ (by omega), if_pos ⟨Nat.le_add_right .., by omega⟩, Nat.add_sub_cancel_left, memcpy, memcpy, hcopy i hi]
  · rw [hmem a ha, if_neg hout]
    exact (hblank a ha).1 hmeets
  · rw [hmem a ha, if_neg fun h => hmeets (meets_window h.1 h.2)]
    exact (hblank a ha).2 hmeets

theorem write_mono (more : Nat) {r : Nat × Chip × List (Nat × Nat)}
    (h : qspi_flash_disk_write rounds disk_ctx chip tmp_buf buffer lba offset bufsize = some r) :
    qspi_flash_disk_write (rounds + more) disk_ctx chip tmp_buf buffer lba offset bufsize = some r := by
  unfold qspi_flash_disk_write at h ⊢
  split at h
  · rename_i hsize
    obtain ⟨copy, hread, h⟩ := Option.bind_eq_some_iff.1 h
    obtain ⟨blank, herase, h⟩ := Option.bind_eq_some_iff.1 h
    obtain ⟨chip', hwrite, rfl⟩ := Option.map_eq_some_iff.1 h
    rw [if_pos hsize, read_op_mono hread more, Option.bind_some]
    dsimp only
    rw [erase_op_mono herase more, Option.bind_some, write_op_mono hwrite more]
    rfl
  · cases h

/-- A write whose window does not lie in the flash does not end. -/
theorem write_outside (h : disk_ctx.args.flash_size < disk_ctx.address lba 0 + QSPI_FLASH_SECTOR_SIZE) (rounds : Nat) :
    qspi_flash_disk_write rounds disk_ctx chip tmp_buf buffer lba offset bufsize = none := by
  rw [qspi_flash_disk_write, read_op_none (by decide) h]
  split
  · rfl
  · rfl

/-- Nor does one whose window goes past the last address of three bytes. -/
theorem write_across (hin : disk_ctx.address lba 0 + QSPI_FLASH_SECTOR_SIZE ≤ disk_ctx.args.flash_size)
    (h : 2 ^ 24 < disk_ctx.window lba + QSPI_FLASH_SECTOR_SIZE) (rounds : Nat) :
    qspi_flash_disk_write rounds disk_ctx chip tmp_buf buffer lba offset bufsize = none := by
  rw [qspi_flash_disk_write, read_op_none_across (by decide) (by decide) hin h]
  split
  · rfl
  · rfl

/-- A write in the flash leaves that, whatever rounds it is given. -/
theorem write_leaves (ht : EraseTable disk_ctx.args.size_log2) (hidle : chip.busy = 0)
    (hin : disk_ctx.address lba 0 + QSPI_FLASH_SECTOR_SIZE ≤ disk_ctx.args.flash_size)
    (hbytes : disk_ctx.window lba + QSPI_FLASH_SECTOR_SIZE ≤ 2 ^ 24) {n : Nat} {accessed : List (Nat × Nat)}
    (hw : qspi_flash_disk_write rounds disk_ctx chip tmp_buf buffer lba offset bufsize = some (n, chip', accessed)) :
    accessed = [(0, QSPI_FLASH_SECTOR_SIZE), (offset, bufsize), (0, QSPI_FLASH_SECTOR_SIZE)] ∧
      Left disk_ctx chip chip' buffer lba offset bufsize := by
  have hsize : bufsize ≤ QSPI_FLASH_SECTOR_SIZE := by
    by_contra hnot
    rw [qspi_flash_disk_write, if_neg hnot] at hw
    cases hw
  obtain ⟨rounds', chip'', hw', hleft⟩ := write_left tmp_buf buffer offset ht hidle hsize hin hbytes
  have heq := (write_mono rounds' hw).symm.trans (Nat.add_comm rounds rounds' ▸ write_mono rounds hw')
  cases heq
  exact ⟨rfl, hleft⟩

/-- Where the data are not empty, they begin at the offset into the window. -/
theorem Fits.address (h : Fits disk_ctx chip buffer lba offset bufsize) (hsome : bufsize ≠ 0) :
    disk_ctx.address lba offset = disk_ctx.address lba 0 + offset ∧ offset + bufsize ≤ QSPI_FLASH_SECTOR_SIZE ∧
      three_bytes (disk_ctx.address lba offset) = disk_ctx.window lba + offset := by
  have hsize := disk_ctx.args.flash_size_lt
  have hin := h.in_flash
  have hwhole := h.whole
  have hwithin := h.within.resolve_left hsome
  have haddress := address_offset disk_ctx lba (show disk_ctx.address lba 0 + offset < 2 ^ 32 by omega)
  refine ⟨haddress, hwithin, ?_⟩
  rw [haddress]
  exact three_bytes_add (show disk_ctx.window lba + offset < 2 ^ 24 by omega)

/-- The data as they are read back. -/
theorem Left.read_back (hleft : Left disk_ctx chip chip' buffer lba offset bufsize)
    (h : Fits disk_ctx chip buffer lba offset bufsize) (out : Nat → UInt8) : ∃ rounds out',
    qspi_flash_disk_read rounds disk_ctx chip' out lba offset bufsize = some (bufsize, out') ∧
      ∀ i < bufsize, out' i = buffer i := by
  by_cases hsome : bufsize = 0
  · subst hsome
    exact ⟨1, out, rfl, fun i hi => absurd hi (Nat.not_lt_zero i)⟩
  · obtain ⟨haddress, hwithin, hsent⟩ := h.address hsome
    have hin := h.in_flash
    have hwhole := h.whole
    obtain ⟨rounds, out', hread, hout⟩ := read_op_copies chip' out
      (show disk_ctx.address lba offset + bufsize ≤ disk_ctx.args.flash_size by omega) (by omega)
    refine ⟨rounds, out', by rw [qspi_flash_disk_read, hread]; rfl, fun i hi => ?_⟩
    rw [hout i hi, hsent, Nat.add_assoc, hleft.window _ (by omega), memcpy, if_pos (by omega), Nat.add_sub_cancel_left]

/-- The bytes that were not written. -/
theorem Left.unchanged (hleft : Left disk_ctx chip chip' buffer lba offset bufsize)
    (h : Fits disk_ctx chip buffer lba offset bufsize) (ha : a < disk_ctx.args.flash_size)
    (hnot : ¬ (disk_ctx.address lba offset ≤ a ∧ a < disk_ctx.address lba offset + bufsize)) : chip'.mem a = chip.mem a := by
  by_cases hmeets : Meets disk_ctx.args.sector (disk_ctx.window lba) QSPI_FLASH_SECTOR_SIZE a
  · by_cases hwindow : disk_ctx.window lba ≤ a ∧ a < disk_ctx.window lba + QSPI_FLASH_SECTOR_SIZE
    · obtain ⟨i, rfl⟩ := Nat.exists_eq_add_of_le hwindow.1
      rw [hleft.window i (by omega), memcpy]
      split
      · rename_i hdata
        have haddress := (h.address (by omega)).1
        rcases h.reached with hlow | hthere
        · have hsent : disk_ctx.window lba = disk_ctx.address lba 0 := three_bytes_eq hlow
          exact absurd ⟨by omega, by omega⟩ hnot
        · obtain ⟨j, rfl⟩ := Nat.exists_eq_add_of_le hdata.1
          rw [Nat.add_sub_cancel_left, ← hthere j (by omega), Nat.add_assoc]
      · rfl
    · rw [hleft.erased a ha hmeets hwindow, h.beside a ha hmeets hwindow hnot]
  · exact hleft.kept a ha hmeets

theorem written_of_fits (ht : EraseTable disk_ctx.args.size_log2) (hidle : chip.busy = 0) (hsize : bufsize ≤ QSPI_FLASH_SECTOR_SIZE)
    (h : Fits disk_ctx chip buffer lba offset bufsize) : Written disk_ctx chip tmp_buf buffer lba offset bufsize := by
  obtain ⟨rounds, chip', hwrite, hleft⟩ := write_left tmp_buf buffer offset ht hidle hsize h.in_flash h.whole
  refine ⟨rounds, chip', _, hwrite, hleft.read_back h, fun a => hleft.unchanged h, fun r hr i hle hlt => ?_⟩
  rcases List.mem_cons.1 hr with rfl | hr
  · omega
  · rcases List.mem_cons.1 hr with rfl | hr
    · rcases h.within with hnone | hwithin
      · omega
      · omega
    · obtain rfl := List.mem_singleton.1 hr
      omega

theorem fits_of_written (ht : EraseTable disk_ctx.args.size_log2) (hidle : chip.busy = 0)
    (h : Written disk_ctx chip tmp_buf buffer lba offset bufsize) : Fits disk_ctx chip buffer lba offset bufsize := by
  obtain ⟨rounds, chip', accessed, hwrite, -, hkept, haccessed⟩ := h
  have hin : disk_ctx.address lba 0 + QSPI_FLASH_SECTOR_SIZE ≤ disk_ctx.args.flash_size := by
    by_contra hnot
    rw [write_outside (Nat.lt_of_not_le hnot)] at hwrite
    cases hwrite
  have hwhole : disk_ctx.window lba + QSPI_FLASH_SECTOR_SIZE ≤ 2 ^ 24 := by
    by_contra hnot
    rw [write_across hin (Nat.lt_of_not_le hnot)] at hwrite
    cases hwrite
  obtain ⟨rfl, hleft⟩ := write_leaves ht hidle hin hwhole hwrite
  have hwithin : bufsize = 0 ∨ offset + bufsize ≤ QSPI_FLASH_SECTOR_SIZE := by
    by_contra hnot
    have hlast := haccessed (offset, bufsize) (.tail _ (.head _)) (offset + bufsize - 1) (by omega) (by omega)
    omega
  refine ⟨hwithin, hin, hwhole, ?_, fun a ha hmeets hout hdata => ?_⟩
  · by_contra hnot
    rw [not_or] at hnot
    refine hnot.2 fun i hi => ?_
    have hsize := disk_ctx.args.flash_size_lt
    have haddress : disk_ctx.address lba offset = disk_ctx.address lba 0 + offset := address_offset disk_ctx lba (by omega)
    have hsame := hkept (disk_ctx.window lba + offset + i) (by omega) (by omega)
    rw [Nat.add_assoc, hleft.window (offset + i) (by omega), memcpy, if_pos (by omega), Nat.add_sub_cancel_left] at hsame
    rw [Nat.add_assoc, ← hsame]
  · rw [← hkept a ha hdata, hleft.erased a ha hmeets hout]

/-- A write does what is promised exactly where its data fit in the window, the window in the flash and in what three
bytes address, and the erase in the window or what is erased already. -/
theorem disk_write_iff (disk_ctx : DiskDesc) (ht : EraseTable disk_ctx.args.size_log2) (chip : Chip) (hidle : chip.busy = 0)
    (tmp_buf buffer : Nat → UInt8) (lba offset bufsize : Nat) (hsize : bufsize ≤ QSPI_FLASH_SECTOR_SIZE) :
    Written disk_ctx chip tmp_buf buffer lba offset bufsize ↔ Fits disk_ctx chip buffer lba offset bufsize :=
  ⟨fits_of_written ht hidle, written_of_fits ht hidle hsize⟩

theorem two_mib_lt : 0x200000 < 2 ^ 32 := by decide

theorem two_mib_page : ∃ k, 256 = 2 ^ k := ⟨8, rfl⟩

/-- A flash of 2 MiB with sectors of 4, 32 and 64 KiB. -/
def two_mib : Ctx := ⟨0x200000, 256, [12, 15, 16, 0].get, two_mib_lt, two_mib_page⟩

/-- A disk on its second half. -/
def disk_of (block_size : Nat) : DiskDesc := ⟨0x100000, block_size, two_mib⟩

def zeros : Chip := ⟨fun _ => 0, false, 0, [], fun _ => 0⟩

theorem two_mib_table : EraseTable two_mib.size_log2 := ⟨by decide, by decide, by decide⟩

/-- With blocks of 512 bytes, writing block 1 loses block 0. -/
theorem disk_write_block : ¬ Written (disk_of 512) zeros (fun _ => 0) (fun i => .ofNat i) 1 0 512 := by
  intro h
  have hfits := fits_of_written two_mib_table rfl h
  have hmeets : Meets (disk_of 512).args.sector ((disk_of 512).window 1) QSPI_FLASH_SECTOR_SIZE 0x100000 :=
    ⟨0x100200, by decide, by decide, by decide⟩
  have hbyte := hfits.beside 0x100000 (by decide) hmeets (by decide) (by decide)
  cases hbyte

/-- With blocks of 4096 bytes, 512 bytes within block 1. -/
theorem disk_write_part : EraseTable (disk_of 4096).args.size_log2 ∧ zeros.busy = 0 ∧ 512 ≤ QSPI_FLASH_SECTOR_SIZE ∧
    Fits (disk_of 4096) zeros (fun i => .ofNat i) 1 1024 512 ∧
    Written (disk_of 4096) zeros (fun _ => 0) (fun i => .ofNat i) 1 1024 512 := by
  have hfits : Fits (disk_of 4096) zeros (fun i => .ofNat i) 1 1024 512 := by
    refine ⟨.inr (by decide), by decide, by decide, .inl (by decide), fun a _ hmeets hout _ => absurd ?_ hout⟩
    exact (meets_aligned (by decide) (by decide) (by decide)).1 hmeets
  exact ⟨two_mib_table, rfl, by decide, hfits,
    (disk_write_iff (disk_of 4096) two_mib_table zeros rfl (fun _ => 0) (fun i => .ofNat i) 1 1024 512 (by decide)).2 hfits⟩

end Msc
