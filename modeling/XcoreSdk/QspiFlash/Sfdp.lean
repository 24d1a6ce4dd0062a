import XcoreSdk.Lib.Bubble
import XcoreSdk.QspiFlash.EraseOp
/-!
# The geometry of the flash

`qspi_flash_init` reads the basic flash parameter table of the chip, or keeps what
the application has set where the chip has none that it knows. The page count is
computed from a size in kilobytes that is first divided by the page size, so the
bits that this shifts out are missing.
-/

namespace QspiFlash

/-! ## `sfdp.h` -/

structure SfdpEraseInfo where
  size : UInt8
  cmd : UInt8
deriving DecidableEq

/-- The members of `sfdp_parameter_table_t` that `qspi_flash_init` uses. -/
structure SfdpParameterTable where
  address_bytes : BitVec 2
  supports_144_fast_read : Bool
  memory_density : BitVec 30
  memory_density_is_exponent : Bool
  quad_144_read_dummy_clocks : BitVec 5
  quad_144_read_mode_clocks : BitVec 3
  quad_144_read_cmd : UInt8
  /-- Four of them. -/
  erase_info : Nat → SfdpEraseInfo
  page_size : BitVec 4
  busy_poll_methods : BitVec 6
  quad_enable_method : BitVec 3

/-- A little-endian word of what the chip answers to SFDP reads. -/
def sfdp_word (sfdp : Nat → UInt8) (address : Nat) : BitVec 32 :=
  (sfdp (address + 3)).toBitVec ++ (sfdp (address + 2)).toBitVec ++ (sfdp (address + 1)).toBitVec ++ (sfdp address).toBitVec

/-- The table as it lies in memory after the read, a bit-field's first member in the lowest bits. -/
def sfdp_parameter_table (sfdp : Nat → UInt8) (address : Nat) : SfdpParameterTable where
  address_bytes := (sfdp_word sfdp address).extractLsb' 17 2
  supports_144_fast_read := (sfdp_word sfdp address).getLsbD 21
  memory_density := (sfdp_word sfdp (address + 4)).extractLsb' 0 30
  memory_density_is_exponent := (sfdp_word sfdp (address + 4)).getLsbD 30
  quad_144_read_dummy_clocks := (sfdp (address + 8)).toBitVec.extractLsb' 0 5
  quad_144_read_mode_clocks := (sfdp (address + 8)).toBitVec.extractLsb' 5 3
  quad_144_read_cmd := sfdp (address + 9)
  erase_info i := ⟨sfdp (address + 28 + 2 * i), sfdp (address + 28 + 2 * i + 1)⟩
  page_size := (sfdp_word sfdp (address + 40)).extractLsb' 4 4
  busy_poll_methods := (sfdp_word sfdp (address + 52)).extractLsb' 2 6
  quad_enable_method := (sfdp_word sfdp (address + 56)).extractLsb' 20 3

/-! ## `sfdp.c` -/

def sfdp_flash_size_kbytes (t : SfdpParameterTable) : Nat :=
  if t.memory_density_is_exponent then
    if t.memory_density.toNat ≥ 32 ∧ t.memory_density.toNat ≤ 44 then 1 <<< (t.memory_density.toNat - 13) else 0
  else (1 + t.memory_density.toNat) >>> 13

def sfdp_flash_page_size_bytes (t : SfdpParameterTable) : Nat := 1 <<< t.page_size.toNat

structure BusyPoll where
  instruction : UInt8
  bit : UInt8
  ready_value : UInt8

def sfdp_busy_poll_method (t : SfdpParameterTable) : Option BusyPoll :=
  if t.busy_poll_methods.getLsbD 1 then some ⟨0x70, 7, 1⟩
  else if t.busy_poll_methods.getLsbD 0 then some ⟨0x05, 0, 0⟩
  else none

structure QuadEnable where
  qe_reg : UInt8
  qe_bit : UInt8
  sr2_read_instruction : UInt8
  sr2_write_instruction : UInt8

def sfdp_quad_enable_method (t : SfdpParameterTable) : Option QuadEnable :=
  match t.quad_enable_method.toNat with
  | 0 => some ⟨0, 0, 0, 0⟩
  | 1 => some ⟨2, 1, 0, 0⟩
  | 2 => some ⟨1, 6, 0, 0⟩
  | 3 => some ⟨2, 7, 0x3F, 0x3E⟩
  | 4 => some ⟨2, 1, 0, 0⟩
  | 5 => some ⟨2, 1, 0x35, 0⟩
  | 6 => some ⟨2, 1, 0x35, 0x31⟩
  | _ => none

/-- Size 0 counts as a maximum value, to keep it at the end of the table. -/
def sfdp_erase_exchanges (a b : SfdpEraseInfo) : Prop := a.size = 0 ∨ (b.size ≠ 0 ∧ a.size > b.size)

instance : DecidableRel sfdp_erase_exchanges := fun _ _ => inferInstanceAs (Decidable (_ ∨ _))

def sfdp_erase_table_sort (t : SfdpParameterTable) : SfdpParameterTable :=
  { t with erase_info := Bubble.sort sfdp_erase_exchanges 4 t.erase_info }

/-- The headers are of a revision that has the table in full. -/
def sfdp_supported (sfdp : Nat → UInt8) : Prop :=
  sfdp_word sfdp 0 = 0x50444653#32 ∧ sfdp 5 = 1 ∧ sfdp 10 = 1 ∧ sfdp 4 ≥ 5 ∧ sfdp 9 ≥ 5 ∧ 4 * (sfdp 11).toNat ≥ 64

instance (sfdp : Nat → UInt8) : Decidable (sfdp_supported sfdp) := inferInstanceAs (Decidable (_ ∧ _))

/-- `basic_parameter_header.table_address`. -/
def sfdp_table_address (sfdp : Nat → UInt8) : Nat := ((sfdp_word sfdp 12).extractLsb' 0 24).toNat

/-- The basic flash parameter table as the chip has it. -/
def sfdp_table (sfdp : Nat → UInt8) : SfdpParameterTable := sfdp_parameter_table sfdp (sfdp_table_address sfdp)

def sfdp_discover (sfdp : Nat → UInt8) : Option SfdpParameterTable :=
  if sfdp_supported sfdp then some (sfdp_erase_table_sort (sfdp_table sfdp)) else none

/-! ## `qspi_flash.c` -/

/-- Each bit of the byte on the first of four lines, the others high. -/
def QSPI_IO_BYTE_TO_MOSI (x : UInt8) : Nat :=
  (List.range 8).foldl (fun word i => word ||| ((x.toNat >>> i &&& 1) ||| 0xE) <<< (i * 4)) 0

structure EraseInfo where
  size_log2 : Nat
  cmd : Nat

/-- The members of `qspi_flash_ctx_t` that are set automatically if SFDP is supported. -/
structure FlashCtx where
  sfdp_supported : Bool
  page_size_bytes : Nat
  page_count : Nat
  flash_size_kbytes : Nat
  address_bytes : Nat
  erase_info : Fin 4 → EraseInfo
  busy_poll_cmd : Nat
  busy_poll_bit : UInt8
  busy_poll_ready_value : UInt8
  qe_reg : UInt8
  qe_bit : UInt8
  sr2_read_cmd : Nat
  sr2_write_cmd : Nat

/-- An entry of the context's erase table. The command of one that is not used stays as it was. -/
def erase_entry (old : EraseInfo) (entry : SfdpEraseInfo) : EraseInfo :=
  if entry.size ≠ 0 then ⟨entry.size.toNat, QSPI_IO_BYTE_TO_MOSI entry.cmd⟩ else { old with size_log2 := 0 }

/-- `qspi_flash_init` on a chip whose answers to SFDP reads are these. The result `none` is that of a
failed assertion. -/
def qspi_flash_init (sfdp : Nat → UInt8) (ctx : FlashCtx) : Option FlashCtx :=
  match sfdp_discover sfdp with
  | some t =>
    if t.supports_144_fast_read ∧ t.quad_144_read_cmd = 0xEB ∧
        t.quad_144_read_mode_clocks.toNat + t.quad_144_read_dummy_clocks.toNat = 6 then
      let flash_size_kbytes := sfdp_flash_size_kbytes t
      if flash_size_kbytes ≠ 0 then
        match sfdp_busy_poll_method t, sfdp_quad_enable_method t with
        | some poll, some enable =>
          -- 2 is `sfdp_4_byte_address`, whose entry is not yet implemented
          if t.address_bytes.toNat ≠ 2 then
            some {
              sfdp_supported := true
              page_size_bytes := sfdp_flash_page_size_bytes t
              page_count := (flash_size_kbytes >>> t.page_size.toNat) <<< 10 % 2 ^ 32
              flash_size_kbytes := flash_size_kbytes
              address_bytes := 3
              erase_info := fun i => erase_entry (ctx.erase_info i) (t.erase_info i)
              busy_poll_cmd := QSPI_IO_BYTE_TO_MOSI poll.instruction
              busy_poll_bit := poll.bit
              busy_poll_ready_value := poll.ready_value
              qe_reg := enable.qe_reg
              qe_bit := enable.qe_bit
              sr2_read_cmd := QSPI_IO_BYTE_TO_MOSI enable.sr2_read_instruction
              sr2_write_cmd := QSPI_IO_BYTE_TO_MOSI enable.sr2_write_instruction }
          else none
        | _, _ => none
      else none
    else none
  | none =>
    if (ctx.address_bytes = 3 ∨ ctx.address_bytes = 4) ∧ ctx.busy_poll_bit ≤ 7 ∧
        (ctx.busy_poll_ready_value = 0 ∨ ctx.busy_poll_ready_value = 1) then
      some { ctx with sfdp_supported := false }
    else none

/-- The part of `rtos_qspi_flash_init` that follows. -/
def rtos_qspi_flash_init (ctx : FlashCtx) : Option Ctx :=
  let flash_size := ctx.flash_size_kbytes * 1024 % 2 ^ 32
  if flash_size > ctx.flash_size_kbytes then
    if h : ctx.page_size_bytes ≠ 0 ∧ ctx.page_size_bytes &&& (ctx.page_size_bytes - 1) = 0 then
      some ⟨flash_size, ctx.page_size_bytes, fun i => (ctx.erase_info i).size_log2, Nat.mod_lt _ (Nat.two_pow_pos 32),
        Nat.ne_zero_and_sub_one_eq_zero_iff_isPowerOfTwo.1 h⟩
    else none
  else none

/-! ## What the table says -/

/-- The size of the flash in bits, in either of the two encodings. -/
def SfdpParameterTable.flash_bits (t : SfdpParameterTable) : Nat :=
  if t.memory_density_is_exponent then 2 ^ t.memory_density.toNat else 1 + t.memory_density.toNat

/-- So many pages of that size are the flash. -/
def PagesCover (t : SfdpParameterTable) (ctx : FlashCtx) : Prop :=
  ctx.page_count * ctx.page_size_bytes * 8 = t.flash_bits

/-- A page in bits. -/
def SfdpParameterTable.page_bits (t : SfdpParameterTable) : Nat := 2 ^ t.page_size.toNat * 8

/-- The flash is a multiple of 1024 pages, and their number is a `size_t`. -/
def SfdpParameterTable.WholePages (t : SfdpParameterTable) : Prop :=
  1024 * t.page_bits ∣ t.flash_bits ∧ t.flash_bits / t.page_bits < 2 ^ 32

instance (t : SfdpParameterTable) : Decidable t.WholePages := inferInstanceAs (Decidable (_ ∧ _))

/-- The table in use has the entries of the decoded one in ascending order of the sizes, those
without a size last, each with its own command. -/
structure EraseTableOf (decoded : Nat → SfdpEraseInfo) (erase_info : Fin 4 → EraseInfo) : Prop where
  permuted : ∃ sorted, Bubble.Permuted 4 decoded sorted ∧ ∀ i : Fin 4, (erase_info i).size_log2 = (sorted i).size.toNat ∧
    ((sorted i).size ≠ 0 → (erase_info i).cmd = QSPI_IO_BYTE_TO_MOSI (sorted i).cmd)
  sorted : ∀ i j : Fin 4, i ≤ j → (erase_info j).size_log2 ≠ 0 →
    (erase_info i).size_log2 ≠ 0 ∧ (erase_info i).size_log2 ≤ (erase_info j).size_log2

variable {t : SfdpParameterTable} {ctx ctx' : FlashCtx} {sfdp : Nat → UInt8}

/-! ## The page count -/

theorem sfdp_flash_size_kbytes_eq (h : sfdp_flash_size_kbytes t ≠ 0) :
    sfdp_flash_size_kbytes t = t.flash_bits / (1024 * 8) := by
  unfold sfdp_flash_size_kbytes SfdpParameterTable.flash_bits at *
  split
  · rename_i hexp
    rw [if_pos hexp] at h
    split
    · rename_i hd
      rw [Nat.one_shiftLeft]
      exact (Nat.pow_div (by omega : 13 ≤ t.memory_density.toNat) (by decide)).symm
    · rename_i hd
      exact absurd (if_neg hd) h
  · exact Nat.shiftRight_eq_div_pow _ 13

/-- The division by 1024 pages in two steps, and the multiplication that may wrap. -/
theorem pages_cover_iff {flash page wrap : Nat} (hpage : 0 < page) (hwrap : 0 < wrap) :
    flash / (1024 * 8) / page * 1024 % wrap * page * 8 = flash ↔
      1024 * (page * 8) ∣ flash ∧ flash / (page * 8) < wrap := by
  have hunit : 0 < page * 8 := by omega
  have hsplit : flash / (1024 * 8) / page = flash / (page * 8) / 1024 := by
    rw [Nat.div_div_eq_div_mul, Nat.div_div_eq_div_mul]
    congr 1
    omega
  rw [hsplit, Nat.mul_assoc]
  constructor
  · intro h
    -- the count is no more than the number of pages, of which there are that many
    have hcount : flash / (page * 8) = flash / (page * 8) / 1024 * 1024 % wrap := by
      conv => lhs; rw [← h]
      exact Nat.mul_div_cancel _ hunit
    have hle := Nat.mod_le (flash / (page * 8) / 1024 * 1024) wrap
    have hge := Nat.div_mul_le_self (flash / (page * 8)) 1024
    have heq : flash / (page * 8) / 1024 * 1024 % wrap = flash / (page * 8) / 1024 * 1024 := by omega
    refine ⟨⟨flash / (page * 8) / 1024, ?_⟩, hcount ▸ Nat.mod_lt _ hwrap⟩
    calc flash = flash / (page * 8) / 1024 * 1024 * (page * 8) := by rw [← heq, h]
      _ = 1024 * (page * 8) * (flash / (page * 8) / 1024) := by ac_rfl
  · rintro ⟨⟨q, rfl⟩, hlt⟩
    rw [Nat.mul_comm 1024, Nat.mul_assoc, Nat.mul_div_cancel_left _ hunit] at hlt ⊢
    rw [Nat.mul_div_cancel_left _ (by decide : 0 < 1024), Nat.mul_comm q, Nat.mod_eq_of_lt hlt, Nat.mul_comm]

/-! ## The erase table -/

/-- The order of the entries, those without a size last. -/
def SfdpEraseInfo.key (e : SfdpEraseInfo) : Nat := if e.size = 0 then 256 else e.size.toNat

theorem sfdp_erase_keyed : Bubble.Keyed sfdp_erase_exchanges SfdpEraseInfo.key := by
  constructor
  · intro a b h
    have hb := b.size.toNat_lt
    unfold SfdpEraseInfo.key
    rcases h with ha | ⟨hne, hgt⟩
    · rw [if_pos ha]
      split <;> omega
    · rw [if_neg hne]
      split
      · omega
      · exact Nat.le_of_lt hgt
  · intro a b h
    have ha := a.size.toNat_lt
    obtain ⟨hne, hle⟩ := not_or.1 h
    unfold SfdpEraseInfo.key
    rw [if_neg hne]
    split
    · omega
    · rename_i hb
      exact Nat.le_of_not_lt fun hgt => hle ⟨hb, hgt⟩

/-- Sizes first and in ascending order, which is the order of the keys. -/
theorem key_le_iff {a b : SfdpEraseInfo} (h : a.key ≤ b.key) (hb : b.size.toNat ≠ 0) :
    a.size.toNat ≠ 0 ∧ a.size.toNat ≤ b.size.toNat := by
  have hlt := b.size.toNat_lt
  have hzero : ∀ x : UInt8, x = 0 ↔ x.toNat = 0 := fun x => UInt8.toNat_inj.symm
  unfold SfdpEraseInfo.key at h
  rw [if_neg (fun heq => hb ((hzero _).1 heq))] at h
  split at h
  · omega
  · rename_i ha
    exact ⟨fun heq => ha ((hzero _).2 heq), h⟩

@[simp] theorem erase_entry_size (old : EraseInfo) (entry : SfdpEraseInfo) :
    (erase_entry old entry).size_log2 = entry.size.toNat := by
  unfold erase_entry
  split
  · rfl
  · rename_i h
    rw [Decidable.not_not.1 h]
    rfl

theorem erase_table_of (decoded : Nat → SfdpEraseInfo) (old : Fin 4 → EraseInfo) :
    EraseTableOf decoded fun i => erase_entry (old i) (Bubble.sort sfdp_erase_exchanges 4 decoded i) := by
  constructor
  · refine ⟨_, Bubble.sort_permuted decoded (by decide), fun i => ⟨erase_entry_size _ _, fun hne => ?_⟩⟩
    rw [erase_entry, if_pos hne]
  · intro i j hij hj
    rw [erase_entry_size] at hj
    rw [erase_entry_size, erase_entry_size]
    exact key_le_iff (Bubble.sort_le sfdp_erase_keyed decoded hij j.isLt) hj

/-! ## Initialisation -/

/-- What is computed from a table that is accepted. -/
structure Accepted (t : SfdpParameterTable) (ctx ctx' : FlashCtx) : Prop where
  kbytes : ctx'.flash_size_kbytes = sfdp_flash_size_kbytes t
  kbytes_ne_zero : sfdp_flash_size_kbytes t ≠ 0
  page_size : ctx'.page_size_bytes = sfdp_flash_page_size_bytes t
  page_count : ctx'.page_count = (sfdp_flash_size_kbytes t >>> t.page_size.toNat) <<< 10 % 2 ^ 32
  erase_info : ctx'.erase_info = fun i => erase_entry (ctx.erase_info i) (Bubble.sort sfdp_erase_exchanges 4 t.erase_info i)

theorem qspi_flash_init_accepts (h : qspi_flash_init sfdp ctx = some ctx') (hs : ctx'.sfdp_supported = true) :
    sfdp_supported sfdp ∧ Accepted (sfdp_table sfdp) ctx ctx' := by
  unfold qspi_flash_init sfdp_discover at h
  by_cases hsupported : sfdp_supported sfdp
  · rw [if_pos hsupported] at h
    generalize sfdp_table sfdp = t at h ⊢
    simp only at h
    split at h
    · split at h
      · rename_i hkbytes
        split at h
        · split at h
          · obtain rfl := Option.some.inj h
            exact ⟨hsupported, rfl, hkbytes, rfl, rfl, rfl⟩
          · cases h
        · cases h
      · cases h
    · cases h
  · rw [if_neg hsupported] at h
    simp only at h
    split at h
    · obtain rfl := Option.some.inj h
      cases hs
    · cases h

theorem Accepted.pages_cover (h : Accepted t ctx ctx') : PagesCover t ctx' ↔ t.WholePages := by
  unfold PagesCover SfdpParameterTable.WholePages SfdpParameterTable.page_bits
  rw [h.page_count, h.page_size, sfdp_flash_page_size_bytes, Nat.one_shiftLeft, Nat.shiftRight_eq_div_pow, Nat.shiftLeft_eq,
    sfdp_flash_size_kbytes_eq h.kbytes_ne_zero]
  exact pages_cover_iff (Nat.two_pow_pos _) (Nat.two_pow_pos 32)

/-- What is read from a table that is accepted is its erase table in order, and its page count and page size
exactly where the flash has whole pages. -/
theorem geometry_of_sfdp (h : qspi_flash_init sfdp ctx = some ctx') (hs : ctx'.sfdp_supported = true) :
    PagesCover (sfdp_table sfdp) ctx' ∧ EraseTableOf (sfdp_table sfdp).erase_info ctx'.erase_info ↔
      (sfdp_table sfdp).WholePages := by
  obtain ⟨_, haccepted⟩ := qspi_flash_init_accepts h hs
  rw [haccepted.pages_cover, haccepted.erase_info]
  exact and_iff_left (erase_table_of _ _)

/-- The answers of a chip with its table at address 16: three erase sizes, of which 64 KiB is the first,
and pages of 256 bytes. -/
def sfdp_of_density (d0 d1 d2 d3 : UInt8) : Nat → UInt8 :=
  ([0x53, 0x46, 0x44, 0x50, 5, 1, 0, 0xFF, 0x00, 5, 1, 16, 16, 0, 0, 0xFF,
    0xE5, 0x20, 0xF1, 0xFF, d0, d1, d2, d3, 0x44, 0xEB, 0x08, 0x6B, 0, 0, 0, 0, 0, 0, 0, 0, 0, 0, 0, 0, 0, 0, 0, 0,
    0x10, 0xD8, 0, 0, 0x0C, 0x20, 0x0F, 0x52, 0, 0, 0, 0, 0x80, 0, 0, 0, 0, 0, 0, 0, 0, 0, 0, 0, 0x04, 0, 0, 0,
    0, 0, 0x10, 0, 0, 0, 0, 0].getD · 0xFF)

/-- Before the initialisation. -/
def FlashCtx.unset : FlashCtx := ⟨false, 0, 0, 0, 0, fun _ => ⟨0, 0⟩, 0, 0, 0, 0, 0, 0, 0⟩

/-- A flash of 16 MiB. -/
theorem geometry_of_sfdp_16_mib : ∃ ctx', qspi_flash_init (sfdp_of_density 0xFF 0xFF 0xFF 0x07) .unset = some ctx' ∧
    PagesCover (sfdp_table (sfdp_of_density 0xFF 0xFF 0xFF 0x07)) ctx' ∧
    EraseTableOf (sfdp_table (sfdp_of_density 0xFF 0xFF 0xFF 0x07)).erase_info ctx'.erase_info := by
  have hinit : (qspi_flash_init (sfdp_of_density 0xFF 0xFF 0xFF 0x07) .unset).any (·.sfdp_supported) = true := by
    decide +kernel
  obtain ⟨ctx', h, hs⟩ := (Option.any_eq_true _ _).1 hinit
  refine ⟨ctx', h, (geometry_of_sfdp h hs).2 ?_⟩
  decide +kernel

/-- A flash of 128 KiB has 512 pages, and the count is 0. -/
theorem geometry_of_sfdp_128_kib : ¬ ∀ sfdp ctx ctx', qspi_flash_init sfdp ctx = some ctx' → ctx'.sfdp_supported = true →
    PagesCover (sfdp_table sfdp) ctx' ∧ EraseTableOf (sfdp_table sfdp).erase_info ctx'.erase_info := by
  intro hall
  have hinit : (qspi_flash_init (sfdp_of_density 0xFF 0xFF 0x0F 0x00) .unset).any
      (fun ctx' => ctx'.sfdp_supported && ctx'.page_count == 0) = true := by
    decide +kernel
  obtain ⟨ctx', h, hs⟩ := (Option.any_eq_true _ _).1 hinit
  obtain ⟨hs, hcount⟩ := Bool.and_eq_true_iff.1 hs
  have hcover := (hall _ _ _ h hs).1
  rw [PagesCover, beq_iff_eq.1 hcount, Nat.zero_mul, Nat.zero_mul] at hcover
  revert hcover
  decide +kernel

/-! ## The driver -/

/-- The table is one that `erase_op` can use, if it has an entry and no size is of more than 32 bits. -/
theorem EraseTableOf.erase_table {decoded : Nat → SfdpEraseInfo} {erase_info : Fin 4 → EraseInfo}
    (h : EraseTableOf decoded erase_info) (hlt : ∀ i < 4, (decoded i).size.toNat < 32)
    (hsome : ∃ i < 4, (decoded i).size.toNat ≠ 0) : EraseTable fun i => (erase_info i).size_log2 := by
  obtain ⟨sorted, hpermuted, hentry⟩ := h.permuted
  refine ⟨fun i => ?_, Nat.pos_of_ne_zero fun hzero => ?_, h.sorted⟩
  · rw [(hentry i).1]
    exact hpermuted.all (p := fun e => e.size.toNat < 32) hlt i.isLt
  · -- with the first all are zero, and so were all that were read
    have hnone : ∀ i < 4, (sorted i).size.toNat = 0 := fun i hi => by
      by_contra hne
      rw [← (hentry ⟨i, hi⟩).1] at hne
      exact (h.sorted 0 ⟨i, hi⟩ (Fin.zero_le _) hne).1 hzero
    obtain ⟨i, hi, hne⟩ := hsome
    exact hne (hpermuted.symm.all (p := fun e => e.size.toNat = 0) hnone hi)

/-- What the driver takes for the size of the flash is what its pages make up. -/
theorem rtos_qspi_flash_init_size {c : Ctx} (h : qspi_flash_init sfdp ctx = some ctx') (hs : ctx'.sfdp_supported = true)
    (hwhole : (sfdp_table sfdp).WholePages) (hr : rtos_qspi_flash_init ctx' = some c)
    (hlt : (sfdp_table sfdp).flash_bits < 2 ^ 35) :
    c.flash_size = ctx'.page_count * c.page_size_bytes ∧ c.flash_size * 8 = (sfdp_table sfdp).flash_bits := by
  obtain ⟨_, haccepted⟩ := qspi_flash_init_accepts h hs
  have hcover := haccepted.pages_cover.2 hwhole
  have hkbytes := haccepted.kbytes
  rw [sfdp_flash_size_kbytes_eq haccepted.kbytes_ne_zero] at hkbytes
  unfold PagesCover at hcover
  unfold rtos_qspi_flash_init at hr
  simp only at hr
  split at hr
  · split at hr
    · obtain rfl := Option.some.inj hr
      obtain ⟨q, hq⟩ := hwhole.1
      have hsize : ctx'.flash_size_kbytes * 1024 * 8 = (sfdp_table sfdp).flash_bits := by
        rw [hkbytes, Nat.mul_assoc]
        refine Nat.div_mul_cancel (Dvd.intro (2 ^ (sfdp_table sfdp).page_size.toNat * q) ?_)
        rw [hq, SfdpParameterTable.page_bits]
        ac_rfl
      have hmod : ctx'.flash_size_kbytes * 1024 % 2 ^ 32 = ctx'.flash_size_kbytes * 1024 := Nat.mod_eq_of_lt (by omega)
      simp only [hmod]
      exact ⟨by omega, hsize⟩
    · cases hr
  · cases hr

end QspiFlash
