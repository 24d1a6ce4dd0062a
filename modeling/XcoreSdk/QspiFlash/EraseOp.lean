import XcoreSdk.Lib.Blocks
import XcoreSdk.QspiFlash.Device
/-!
# `erase_op`

The operation thread starts at the beginning of the smallest sector that holds
the address and erases at each place the largest sector that is aligned there
and still asked for. In between all that was passed is erased, and nothing else.
The length is adjusted to the earlier start before it is looked at, so an empty
range that does not start with a sector is erased like one that ends there, and
the length of a range to the end of the address space wraps. Three bytes of each
sector's address are sent, so for the sectors of a larger flash behind them others
are erased.
-/

namespace QspiFlash
open Blocks

/-! ## The code -/

/-- `s << ss_log2`, an `unsigned`. -/
def SECTORS_TO_BYTES (s ss_log2 : Nat) : Nat := (s <<< ss_log2) % 2 ^ 32

def SECTOR_TO_BYTE_ADDRESS (s ss_log2 : Nat) : Nat := SECTORS_TO_BYTES s ss_log2

def BYTE_TO_SECTOR_ADDRESS (b ss_log2 : Nat) : Nat := b >>> ss_log2

/-- The variables of `erase_op`, and the chip. -/
structure Erase where
  chip : Chip
  bytes_left_to_erase : Nat
  address_to_erase : Nat

/-- The `for` loop over the sector sizes: the size and the command to use. -/
def erase_size (ctx : Ctx) (s : Erase) : List (Fin 4) → Nat × Fin 4
  | [] => (qspi_flash_erase_type_size_log2 ctx 0, 0)
  | i :: sizes =>
    let sector_size_log2 := qspi_flash_erase_type_size_log2 ctx i
    if sector_size_log2 ≠ 0 ∧ SECTOR_TO_BYTE_ADDRESS (BYTE_TO_SECTOR_ADDRESS s.address_to_erase sector_size_log2)
        sector_size_log2 = s.address_to_erase then
      if s.bytes_left_to_erase ≥ 1 <<< sector_size_log2 % 2 ^ 32 then (sector_size_log2, i) else erase_size ctx s sizes
    else erase_size ctx s sizes

/-- One round of the loop. The result `none` is that of a failed assertion. -/
def erase_op_round (ctx : Ctx) (s : Erase) : Erase ⊕ Option Chip :=
  if s.bytes_left_to_erase > 0 then
    if s.address_to_erase ≥ ctx.flash_size then .inr (some s.chip)
    else
      let size := erase_size ctx s [3, 2, 1]
      let erase_length := 1 <<< size.1 % 2 ^ 32
      if s.address_to_erase = SECTOR_TO_BYTE_ADDRESS (BYTE_TO_SECTOR_ADDRESS s.address_to_erase size.1) size.1 then
        match qspi_flash_erase ctx (qspi_flash_write_enable s.chip) s.address_to_erase (.sector size.2) with
        | none => .inr none
        | some chip => .inl ⟨while_busy chip,
            s.bytes_left_to_erase - (if erase_length < s.bytes_left_to_erase then erase_length else s.bytes_left_to_erase),
            (s.address_to_erase + erase_length) % 2 ^ 32⟩
      else .inr none
  else .inr (some s.chip)

/-- Where the loop starts. -/
def erase_op_start (ctx : Ctx) (chip : Chip) (address len : Nat) : Erase :=
  let log2 := qspi_flash_erase_type_size_log2 ctx 0
  let start := SECTOR_TO_BYTE_ADDRESS (BYTE_TO_SECTOR_ADDRESS address log2) log2
  if start ≠ address then ⟨chip, (len + (address - start)) % 2 ^ 32, start⟩ else ⟨chip, len, address⟩

/-- The chip after an `erase_op` of so many rounds. -/
def erase_op (rounds : Nat) (ctx : Ctx) (chip : Chip) (address len : Nat) : Option Chip :=
  if address = 0 ∧ len ≥ ctx.flash_size then
    (qspi_flash_erase ctx (qspi_flash_write_enable chip) address .chip).map while_busy
  else (Loop.run (erase_op_round ctx) rounds (erase_op_start ctx chip address len)).join

/-! ## What an erase is to do -/

/-- An erase table as `sfdp_erase_table_sort` leaves it: some sizes, in ascending order, and zeros behind
them. A sector's size is a `size_t`. -/
structure EraseTable (size_log2 : Fin 4 → Nat) : Prop where
  lt : ∀ i, size_log2 i < 32
  first : 0 < size_log2 0
  sorted : ∀ i j, i ≤ j → size_log2 j ≠ 0 → size_log2 i ≠ 0 ∧ size_log2 i ≤ size_log2 j

def Command.Erases (a : Nat) : Command → Prop
  | .program .. => False
  | .erase address size_log2 => a / 2 ^ size_log2 = address / 2 ^ size_log2
  | .erase_chip => True

/-- An erase command begins where its sector does. -/
def Command.Aligned : Command → Prop
  | .erase address size_log2 => 2 ^ size_log2 ∣ address
  | .program .. | .erase_chip => True

/-- An erase of the block of size `2 ^ b.2` at `b.1`, as it is sent. -/
def Command.ofBlock (b : Nat × Nat) : Command := .erase (three_bytes b.1) b.2

/-- The size of the smallest sectors. -/
def Ctx.sector (ctx : Ctx) : Nat := 2 ^ ctx.size_log2 0

/-- These commands erase the smallest sectors that the range has bytes in, as far as they lie in the flash. -/
structure Erasing (ctx : Ctx) (address len : Nat) (commands : List Command) : Prop where
  aligned : ∀ c ∈ commands, c.Aligned
  exact : ∀ a < ctx.flash_size, (∃ c ∈ commands, c.Erases a) ↔ Meets ctx.sector address len a

/-- An `erase_op` ends, and what it gives the chip to do is to erase the range. -/
def Erased (ctx : Ctx) (chip : Chip) (address len : Nat) : Prop :=
  ∃ rounds chip' commands, erase_op rounds ctx chip address len = some chip' ∧
    chip'.commands = chip.commands ++ commands ∧ Erasing ctx address len commands ∧
    (∀ a, (∃ c ∈ commands, c.Erases a) → chip'.mem a = 0xFF) ∧
    (∀ a, (¬ ∃ c ∈ commands, c.Erases a) → chip'.mem a = chip.mem a) ∧ chip'.busy = 0

variable {ctx : Ctx} {chip : Chip} {s s' : Erase} {address len start left pos : Nat}

theorem Ctx.sector_pos (ctx : Ctx) : 0 < ctx.sector := Nat.two_pow_pos _

/-- Rounding down to the start of a sector. -/
theorem sector_start {l : Nat} (h : address < 2 ^ 32) :
    SECTOR_TO_BYTE_ADDRESS (BYTE_TO_SECTOR_ADDRESS address l) l = address / 2 ^ l * 2 ^ l := by
  unfold SECTOR_TO_BYTE_ADDRESS SECTORS_TO_BYTES BYTE_TO_SECTOR_ADDRESS
  rw [Nat.shiftRight_eq_div_pow, Nat.shiftLeft_eq]
  exact Nat.mod_eq_of_lt (Nat.lt_of_le_of_lt (start_le ..) h)

theorem one_shiftLeft {l : Nat} (h : l < 32) : 1 <<< l % 2 ^ 32 = 2 ^ l := by
  rw [Nat.one_shiftLeft]
  exact Nat.mod_eq_of_lt (Nat.pow_lt_pow_right (by decide) h)

/-! ## A round -/

/-- The size that is used: no smaller than the smallest, aligned, and asked for in full unless it is the smallest. -/
theorem erase_size_spec (ht : EraseTable ctx.size_log2) (haddress : s.address_to_erase < 2 ^ 32)
    (haligned : ctx.sector ∣ s.address_to_erase) (sizes : List (Fin 4)) :
    (erase_size ctx s sizes).1 = ctx.size_log2 (erase_size ctx s sizes).2 ∧ 0 < (erase_size ctx s sizes).1 ∧
      ctx.size_log2 0 ≤ (erase_size ctx s sizes).1 ∧ 2 ^ (erase_size ctx s sizes).1 ∣ s.address_to_erase ∧
      ((erase_size ctx s sizes).2 = 0 ∨ 2 ^ (erase_size ctx s sizes).1 ≤ s.bytes_left_to_erase) := by
  induction sizes with
  | nil => exact ⟨rfl, ht.first, Nat.le_refl _, haligned, .inl rfl⟩
  | cons i sizes ih =>
    rw [erase_size]
    split
    · rename_i hsize
      split
      · rename_i hleft
        rw [qspi_flash_erase_type_size_log2] at hsize hleft ⊢
        rw [sector_start haddress, start_eq_iff] at hsize
        rw [one_shiftLeft (ht.lt i)] at hleft
        exact ⟨rfl, Nat.pos_of_ne_zero hsize.1, (ht.sorted 0 i (Fin.zero_le i) hsize.1).2, hsize.2, .inr hleft⟩
      · exact ih
    · exact ih

/-- At the start of the flash it is the largest size that is asked for in full. -/
theorem erase_size_largest (ht : EraseTable ctx.size_log2) (haddress : s.address_to_erase = 0) {sizes : List (Fin 4)}
    (hsizes : sizes.Pairwise fun i j => j ≤ i) {i : Fin 4} (hi : i ∈ sizes) (hused : ctx.size_log2 i ≠ 0)
    (hfull : 2 ^ ctx.size_log2 i ≤ s.bytes_left_to_erase) : ctx.size_log2 i ≤ (erase_size ctx s sizes).1 := by
  induction sizes with
  | nil => exact absurd hi List.not_mem_nil
  | cons j sizes ih =>
    obtain ⟨hj, hsizes⟩ := List.pairwise_cons.1 hsizes
    have hzero : SECTOR_TO_BYTE_ADDRESS (BYTE_TO_SECTOR_ADDRESS s.address_to_erase (ctx.size_log2 j)) (ctx.size_log2 j) =
        s.address_to_erase := by
      rw [sector_start (by rw [haddress]; decide), haddress, Nat.zero_div, Nat.zero_mul]
    rw [erase_size, qspi_flash_erase_type_size_log2, hzero, one_shiftLeft (ht.lt j)]
    rcases List.mem_cons.1 hi with rfl | hin
    · rw [if_pos ⟨hused, rfl⟩, if_pos hfull]
    · by_cases hused' : ctx.size_log2 j ≠ 0
      · rw [if_pos ⟨hused', rfl⟩]
        split
        · exact (ht.sorted i j (hj i hin) hused').2
        · exact ih hsizes hin
      · rw [if_neg fun h => hused' h.1]
        exact ih hsizes hin

/-- A size of the table that a loop over `left` bytes may use. -/
def Asked (ctx : Ctx) (left l : Nat) : Prop := ∃ i, l = ctx.size_log2 i ∧ (i = 0 ∨ 2 ^ l ≤ left)

/-- No size of the table that is asked for in full is larger. -/
def Largest (ctx : Ctx) (left n : Nat) : Prop := ∀ i, ctx.size_log2 i ≠ 0 → 2 ^ ctx.size_log2 i ≤ left → 2 ^ ctx.size_log2 i ≤ n

/-- A round that erases, with the size it uses. -/
theorem erase_op_erases (ht : EraseTable ctx.size_log2) (hidle : s.chip.busy = 0) (hleft : 0 < s.bytes_left_to_erase)
    (hlt : s.address_to_erase < ctx.flash_size) (haligned : ctx.sector ∣ s.address_to_erase) :
    ∃ l, ctx.size_log2 0 ≤ l ∧ l < 32 ∧ 2 ^ l ∣ s.address_to_erase ∧ Asked ctx s.bytes_left_to_erase l ∧
      (s.address_to_erase = 0 → Largest ctx s.bytes_left_to_erase (2 ^ l)) ∧
      erase_op_round ctx s = .inl ⟨s.chip.done ctx (.ofBlock (s.address_to_erase, l)), s.bytes_left_to_erase - 2 ^ l,
        (s.address_to_erase + 2 ^ l) % 2 ^ 32⟩ := by
  have haddress := Nat.lt_trans hlt ctx.flash_size_lt
  obtain ⟨hl, hpos, hge, hdvd, hfull⟩ := erase_size_spec ht haddress haligned [3, 2, 1]
  have hlargest : s.address_to_erase = 0 → Largest ctx s.bytes_left_to_erase (2 ^ (erase_size ctx s [3, 2, 1]).1) := by
    intro hzero i hused hin
    refine Nat.pow_le_pow_right (by decide) ?_
    by_cases hi : i = 0
    · exact hi ▸ hge
    · have hmem : ∀ i : Fin 4, i ≠ 0 → i ∈ [(3 : Fin 4), 2, 1] := by decide
      exact erase_size_largest ht hzero (by decide) (hmem i hi) hused hin
  generalize hsize : erase_size ctx s [3, 2, 1] = size at *
  obtain ⟨l, i⟩ := size
  dsimp only at hl hpos hge hdvd hfull hlargest
  have hl32 : l < 32 := hl ▸ ht.lt i
  refine ⟨l, hge, hl32, hdvd, ⟨i, hl, hfull⟩, hlargest, ?_⟩
  have hstart := (sector_start (l := l) haddress).trans (start_eq_iff.2 hdvd)
  have hmin : s.bytes_left_to_erase - (if 2 ^ l < s.bytes_left_to_erase then 2 ^ l else s.bytes_left_to_erase) =
      s.bytes_left_to_erase - 2 ^ l := by
    split <;> omega
  unfold erase_op_round qspi_flash_erase
  simp only [if_pos hleft, if_neg (Nat.not_le.2 hlt), hsize, hstart, if_true, ← hl, if_pos hpos, one_shiftLeft hl32, hmin,
    take_enabled hidle, Command.ofBlock]

/-! ## The loop -/

def InBlock (b : Nat × Nat) (a : Nat) : Prop := a / 2 ^ b.2 = b.1 / 2 ^ b.2

/-- A block that the loop over the `left` bytes from `start` on erases, if three bytes hold its address. -/
structure Block (ctx : Ctx) (start left : Nat) (b : Nat × Nat) : Prop where
  aligned : 2 ^ b.2 ∣ b.1
  smallest : ctx.size_log2 0 ≤ b.2
  lt : b.2 < 32
  asked : Asked ctx left b.2
  begun : start ≤ b.1
  before : b.1 < start + left
  in_flash : b.1 < ctx.flash_size
  /-- At the start of the flash the first block is the largest. -/
  behind : start = 0 → b.1 = 0 ∨ Largest ctx left b.1

/-- These blocks, as far as three bytes hold their addresses, are what has been erased since `chip`. -/
structure Blanked (ctx : Ctx) (chip chip' : Chip) (blocks : List (Nat × Nat)) : Prop where
  commands : chip'.commands = chip.commands ++ blocks.map Command.ofBlock
  idle : chip'.busy = 0
  blank : ∀ a, (∃ b ∈ blocks, (Command.ofBlock b).Erases a) → chip'.mem a = 0xFF
  kept : ∀ a, (¬ ∃ b ∈ blocks, (Command.ofBlock b).Erases a) → chip'.mem a = chip.mem a

theorem exists_snoc {bs : List (Nat × Nat)} {b : Nat × Nat} {P : Nat × Nat → Prop} :
    (∃ c ∈ bs ++ [b], P c) ↔ (∃ c ∈ bs, P c) ∨ P b := by
  simp only [List.mem_append, List.mem_singleton, or_and_right, exists_or, exists_eq_left]

theorem Blanked.nil (hidle : chip.busy = 0) : Blanked ctx chip chip [] :=
  ⟨(List.append_nil _).symm, hidle, fun _ ⟨_, hb, _⟩ => (List.not_mem_nil hb).elim, fun _ _ => rfl⟩

theorem Blanked.snoc {chip' : Chip} {blocks : List (Nat × Nat)} (h : Blanked ctx chip chip' blocks) (b : Nat × Nat) :
    Blanked ctx chip (chip'.done ctx (.ofBlock b)) (blocks ++ [b]) := by
  refine ⟨?_, h.idle, fun a ha => ?_, fun a ha => ?_⟩
  · rw [Chip.done_commands, h.commands, List.map_append, List.append_assoc]
    rfl
  · rw [Chip.done_mem, Command.ofBlock, Command.perform]
    split
    · rfl
    · rename_i hnot
      exact h.blank a ((exists_snoc.1 ha).resolve_right hnot)
  · rw [exists_snoc, not_or] at ha
    have hnot : ¬ a / 2 ^ b.2 = three_bytes b.1 / 2 ^ b.2 := ha.2
    rw [Chip.done_mem, Command.ofBlock, Command.perform, if_neg hnot]
    exact h.kept a ha.1

/-- The blocks from `start` up to `pos` are erased. -/
structure EraseInv (ctx : Ctx) (chip : Chip) (start left : Nat) (s : Erase) (pos : Nat) : Prop where
  reached : s.address_to_erase = pos % 2 ^ 32
  left_eq : s.bytes_left_to_erase = start + left - pos
  begun : start ≤ pos
  near : pos < start + left + ctx.sector
  aligned : ctx.sector ∣ pos
  passed : start = 0 → pos = 0 ∨ Largest ctx left pos
  blocks : ∃ blocks, Blanked ctx chip s.chip blocks ∧ (∀ b ∈ blocks, Block ctx start left b) ∧
    ∀ a, (∃ b ∈ blocks, InBlock b a) ↔ start ≤ a ∧ a < pos

theorem EraseInv.idle (h : EraseInv ctx chip start left s pos) : s.chip.busy = 0 := by
  obtain ⟨blocks, hblanked, -⟩ := h.blocks
  exact hblanked.idle

theorem EraseInv.round (h : EraseInv ctx chip start left s pos) (ht : EraseTable ctx.size_log2)
    (hend : start + left ≤ 2 ^ 32) (hleft : 0 < s.bytes_left_to_erase) (hlt : s.address_to_erase < ctx.flash_size) :
    ∃ s' pos', erase_op_round ctx s = .inl s' ∧ EraseInv ctx chip start left s' pos' ∧
      s'.bytes_left_to_erase < s.bytes_left_to_erase := by
  have hl := h.left_eq
  have hb := h.begun
  have hnear := h.near
  have hpos : s.address_to_erase = pos := h.reached.trans (Nat.mod_eq_of_lt (by omega))
  obtain ⟨l, hge, hl32, hdvd, ⟨i, hi, hfull⟩, hlargest, hround⟩ := erase_op_erases ht h.idle hleft hlt (hpos.symm ▸ h.aligned)
  rw [hpos] at hdvd hround hlargest hlt
  have hsize : 0 < 2 ^ l := Nat.two_pow_pos l
  have hfits : start = 0 → pos = 0 → Largest ctx left (2 ^ l) := by
    intro hstart hzero j hused hin
    exact hlargest hzero j hused (by omega)
  refine ⟨_, pos + 2 ^ l, hround, ⟨rfl, ?_, by omega, ?_, ?_, fun hstart => .inr fun j hused hin => ?_, ?_⟩, ?_⟩
  · dsimp only
    omega
  · rcases hfull with rfl | hfull
    · rw [hi]
      exact Nat.add_lt_add_right (show pos < start + left by omega) _
    · have := ctx.sector_pos
      omega
  · exact Nat.dvd_add h.aligned (pow_dvd_pow 2 hge)
  · rcases h.passed hstart with hzero | hpassed
    · exact (hfits hstart hzero j hused hin).trans (Nat.le_add_left ..)
    · exact (hpassed j hused hin).trans (Nat.le_add_right ..)
  · obtain ⟨blocks, hblanked, hblocks, hcover⟩ := h.blocks
    refine ⟨blocks ++ [(pos, l)], hblanked.snoc (pos, l), fun b hb => ?_, fun a => ?_⟩
    · rcases List.mem_append.1 hb with hb | hb
      · exact hblocks b hb
      · obtain rfl := List.mem_singleton.1 hb
        have hasked : i = 0 ∨ 2 ^ l ≤ left := hfull.imp_right fun hle => by omega
        exact ⟨hdvd, hge, hl32, ⟨i, hi, hasked⟩, h.begun, by dsimp only; omega, hlt, h.passed⟩
    · rw [exists_snoc, hcover, InBlock, div_eq_iff hsize hdvd]
      omega
  · dsimp only
    omega

/-- A round that leaves has erased all of the range, or all of it that lies in the flash. -/
theorem EraseInv.leaves (h : EraseInv ctx chip start left s pos) (ht : EraseTable ctx.size_log2)
    (hend : start + left ≤ 2 ^ 32) {r : Option Chip} (hr : erase_op_round ctx s = .inr r) :
    r = some s.chip ∧ (start + left ≤ pos ∨ pos < start + left ∧ ctx.flash_size ≤ pos) := by
  have hl := h.left_eq
  by_cases hleft : 0 < s.bytes_left_to_erase
  · have hpos : s.address_to_erase = pos := h.reached.trans (Nat.mod_eq_of_lt (by omega))
    by_cases hlt : s.address_to_erase < ctx.flash_size
    · obtain ⟨s', pos', hs', -⟩ := h.round ht hend hleft hlt
      cases hs'.symm.trans hr
    · rw [erase_op_round, if_pos hleft, if_pos (Nat.not_lt.1 hlt)] at hr
      exact ⟨(Sum.inr.inj hr).symm, .inr ⟨by omega, by omega⟩⟩
  · rw [erase_op_round, if_neg hleft] at hr
    exact ⟨(Sum.inr.inj hr).symm, .inl (by omega)⟩

variable (chip start left) in
/-- The loop goes over the sectors from `start` to that of the last byte, up to the end of the flash. -/
theorem erase_loop (ht : EraseTable ctx.size_log2) (hidle : chip.busy = 0) (hstart : ctx.sector ∣ start) (hleft : 0 < left)
    (hend : start + left ≤ 2 ^ 32) :
    ∃ chip' blocks, Loop.Ends (erase_op_round ctx) ⟨chip, left, start⟩ (some chip') ∧ Blanked ctx chip chip' blocks ∧
      (∀ b ∈ blocks, Block ctx start left b) ∧
      ∀ a, a < ctx.flash_size ∨ start + left ≤ ctx.flash_size → ((∃ b ∈ blocks, InBlock b a) ↔
        start / ctx.sector ≤ a / ctx.sector ∧ a / ctx.sector ≤ (start + left - 1) / ctx.sector) := by
  have hpos := ctx.sector_pos
  have hends : ∃ r, Loop.Ends (erase_op_round ctx) ⟨chip, left, start⟩ r ∧ ∃ s pos, EraseInv ctx chip start left s pos ∧
      r = some s.chip ∧ (start + left ≤ pos ∨ pos < start + left ∧ ctx.flash_size ≤ pos) := by
    apply Loop.ends_of_variant (I := fun s => ∃ pos, EraseInv ctx chip start left s pos) Erase.bytes_left_to_erase
    · rintro s s' ⟨pos, h⟩ hr
      by_cases hleft : 0 < s.bytes_left_to_erase
      · by_cases hlt : s.address_to_erase < ctx.flash_size
        · obtain ⟨t, pos', hround, hinv, hless⟩ := h.round ht hend hleft hlt
          obtain rfl := Sum.inl.inj (hround.symm.trans hr)
          exact ⟨⟨pos', hinv⟩, hless⟩
        · rw [erase_op_round, if_pos hleft, if_pos (Nat.not_lt.1 hlt)] at hr
          cases hr
      · rw [erase_op_round, if_neg hleft] at hr
        cases hr
    · rintro s r ⟨pos, h⟩ hr
      exact ⟨s, pos, h, h.leaves ht hend hr⟩
    · refine ⟨start, (Nat.mod_eq_of_lt (show start < 2 ^ 32 by omega)).symm, (Nat.add_sub_cancel_left ..).symm, Nat.le_refl _, by omega, hstart,
        .inl, [], .nil hidle, fun b hb => (List.not_mem_nil hb).elim, fun a => ?_⟩
      exact iff_of_false (fun ⟨c, hc, _⟩ => List.not_mem_nil hc) (by omega)
  obtain ⟨r, hrun, s, pos, h, rfl, hreached⟩ := hends
  obtain ⟨blocks, hblanked, hblocks, hcover⟩ := h.blocks
  have hnear := h.near
  refine ⟨s.chip, blocks, hrun, hblanked, hblocks, fun a ha => ?_⟩
  have hbegun : start ≤ a ↔ start / ctx.sector ≤ a / ctx.sector := by
    rw [← start_le_iff hpos, start_eq_iff.2 hstart]
  have hlast : a < pos ↔ a / ctx.sector ≤ (start + left - 1) / ctx.sector := by
    rcases hreached with hall | ⟨hbefore, hpast⟩
    · exact lt_iff_div_le hpos h.aligned (by omega) (by omega)
    · exact iff_of_true (by omega) (Nat.div_le_div_right (by omega))
  rw [hcover, hbegun, hlast]

/-! ## The range that is erased -/

variable (ctx chip) in
theorem erase_op_start_eq (haddress : address < 2 ^ 32) (hlen : len < 2 ^ 32) :
    erase_op_start ctx chip address len =
      ⟨chip, (address % ctx.sector + len) % 2 ^ 32, address / ctx.sector * ctx.sector⟩ := by
  have hdiv := Nat.div_add_mod' address ctx.sector
  have hstart : SECTOR_TO_BYTE_ADDRESS (BYTE_TO_SECTOR_ADDRESS address (qspi_flash_erase_type_size_log2 ctx 0))
      (qspi_flash_erase_type_size_log2 ctx 0) = address / ctx.sector * ctx.sector := sector_start haddress
  unfold erase_op_start
  simp only [hstart]
  split
  · have hdiff : len + (address - address / ctx.sector * ctx.sector) = address % ctx.sector + len := by omega
    rw [hdiff]
  · rename_i heq
    have hzero : address % ctx.sector = 0 := by omega
    rw [hzero, Nat.zero_add, Nat.mod_eq_of_lt hlen, Decidable.not_not.1 heq]

/-- Outside the chip erase, an erase is its loop. -/
theorem erased_iff (hnot : ¬ (address = 0 ∧ len ≥ ctx.flash_size)) : Erased ctx chip address len ↔
    ∃ chip' commands, Loop.Ends (erase_op_round ctx) (erase_op_start ctx chip address len) (some chip') ∧
      chip'.commands = chip.commands ++ commands ∧ Erasing ctx address len commands ∧
      (∀ a, (∃ c ∈ commands, c.Erases a) → chip'.mem a = 0xFF) ∧
      (∀ a, (¬ ∃ c ∈ commands, c.Erases a) → chip'.mem a = chip.mem a) ∧ chip'.busy = 0 := by
  constructor
  · rintro ⟨rounds, chip', commands, hrun, hrest⟩
    rw [erase_op, if_neg hnot] at hrun
    exact ⟨chip', commands, ⟨rounds, Option.join_eq_some_iff.1 hrun⟩, hrest⟩
  · rintro ⟨chip', commands, ⟨rounds, hrun⟩, hrest⟩
    exact ⟨rounds, chip', commands, by rw [erase_op, if_neg hnot, hrun]; rfl, hrest⟩

/-- The loop that has nothing to do. -/
theorem erase_loop_none (h : left = 0 ∨ ctx.flash_size ≤ start) :
    Loop.Ends (erase_op_round ctx) ⟨chip, left, start⟩ (some chip) := by
  apply Loop.ends_inr
  unfold erase_op_round
  by_cases hleft : 0 < left
  · rw [if_pos hleft, if_pos (show ctx.flash_size ≤ start by omega)]
  · rw [if_neg hleft]

variable (chip) in
/-- Nothing is given to the chip. -/
theorem erased_nothing (hidle : chip.busy = 0) (hnot : ¬ (address = 0 ∧ len ≥ ctx.flash_size))
    (hends : Loop.Ends (erase_op_round ctx) (erase_op_start ctx chip address len) (some chip)) :
    Erased ctx chip address len ↔ ∀ a < ctx.flash_size, ¬ Meets ctx.sector address len a := by
  rw [erased_iff hnot]
  have hnone : ∀ a, ¬ ∃ c ∈ ([] : List Command), c.Erases a := fun a ⟨c, hc, _⟩ => List.not_mem_nil hc
  constructor
  · rintro ⟨chip', commands, hends', hcommands, hexact, -⟩ a ha hmeets
    obtain rfl := Option.some.inj (hends.unique hends')
    obtain rfl := List.append_right_eq_self.1 hcommands.symm
    exact hnone a ((hexact.exact a ha).2 hmeets)
  · intro h
    refine ⟨chip, [], hends, (List.append_nil _).symm, ⟨fun c hc => (List.not_mem_nil hc).elim, fun a ha => ?_⟩,
      fun a ha => (hnone a ha).elim, fun a _ => rfl, hidle⟩
    exact iff_of_false (hnone a) (h a ha)

variable (chip) in
theorem erased_chip (hidle : chip.busy = 0) (haddress : address = 0) (hlen : len ≥ ctx.flash_size) :
    Erased ctx chip address len := by
  refine ⟨0, chip.done ctx .erase_chip, [.erase_chip], ?_, rfl, ⟨fun c hc => ?_, fun a ha => ?_⟩, fun a _ => rfl, fun a h => ?_, hidle⟩
  · rw [erase_op, if_pos ⟨haddress, hlen⟩, qspi_flash_erase, Option.map_some, take_enabled hidle]
  · obtain rfl := List.mem_singleton.1 hc
    trivial
  · refine iff_of_true ⟨_, List.mem_singleton_self _, trivial⟩ ⟨a, ?_, ?_, rfl⟩
    · exact haddress ▸ Nat.zero_le a
    · omega
  · exact (h ⟨_, List.mem_singleton_self _, trivial⟩).elim

/-! ### The blocks as they are sent -/

theorem exists_ofBlock {blocks : List (Nat × Nat)} {a : Nat} :
    (∃ c ∈ blocks.map Command.ofBlock, c.Erases a) ↔ ∃ b ∈ blocks, (Command.ofBlock b).Erases a := by
  simp only [List.mem_map, exists_exists_and_eq_and]

theorem three_bytes_dvd {l a : Nat} (h : 2 ^ l ∣ a) : 2 ^ l ∣ three_bytes a := by
  rcases Nat.le_total l 24 with hle | hle
  · exact (Nat.dvd_mod_iff (Nat.pow_dvd_pow 2 hle)).2 h
  · have hzero : three_bytes a = 0 := Nat.mod_eq_zero_of_dvd ((Nat.pow_dvd_pow 2 hle).trans h)
    exact hzero ▸ Nat.dvd_zero _

theorem erases_low {b : Nat × Nat} {a : Nat} (h : b.1 < 2 ^ 24) : (Command.ofBlock b).Erases a ↔ InBlock b a := by
  rw [Command.ofBlock, three_bytes_eq h]
  rfl

/-- What lies from 2 ^ 24 on is erased with blocks of more than that only, which begin with the flash. -/
theorem erases_high {b : Nat × Nat} {a : Nat} (haligned : 2 ^ b.2 ∣ b.1) (ha : 2 ^ 24 ≤ a) (h : (Command.ofBlock b).Erases a) :
    24 < b.2 ∧ a < 2 ^ b.2 ∧ (Command.ofBlock b).Erases 0 := by
  have herases : a / 2 ^ b.2 = three_bytes b.1 / 2 ^ b.2 := h
  by_cases hle : b.2 ≤ 24
  · have hsplit : 2 ^ 24 = 2 ^ (24 - b.2) * 2 ^ b.2 := by rw [← Nat.pow_add, Nat.sub_add_cancel hle]
    have hlow := three_bytes_lt b.1
    rw [hsplit] at ha hlow
    have hge := (Nat.le_div_iff_mul_le (Nat.two_pow_pos b.2)).2 ha
    have hless := (Nat.div_lt_iff_lt_mul (Nat.two_pow_pos b.2)).2 hlow
    omega
  · have hzero : three_bytes b.1 = 0 := Nat.mod_eq_zero_of_dvd ((Nat.pow_dvd_pow 2 (by omega)).trans haligned)
    rw [hzero, Nat.zero_div] at herases
    refine ⟨by omega, Nat.lt_of_div_eq_zero (Nat.two_pow_pos _) herases, ?_⟩
    show 0 / 2 ^ b.2 = three_bytes b.1 / 2 ^ b.2
    rw [hzero]

/-- Of what the range meets in the flash, three bytes hold the addresses of the blocks: of the smallest ones, or of
the one that holds it all, where that begins with the flash and is asked for in full. -/
def Reached (ctx : Ctx) (address len : Nat) : Prop :=
  ∃ i, (i = 0 ∨ address < ctx.sector ∧ ctx.size_log2 i ≠ 0 ∧ 2 ^ ctx.size_log2 i ≤ address + len) ∧
    ∀ a < ctx.flash_size, Meets ctx.sector address len a → a / 2 ^ ctx.size_log2 i * 2 ^ ctx.size_log2 i < 2 ^ 24

/-- The range ends in what three bytes address, or the flash does. -/
theorem reached_low (h : address + len ≤ 2 ^ 24 ∨ ctx.flash_size ≤ 2 ^ 24) : Reached ctx address len := by
  refine ⟨0, .inl rfl, fun a ha hmeets => ?_⟩
  have hle := start_le (2 ^ ctx.size_log2 0) a
  rcases h with h | h
  · obtain ⟨b, -, hlt, hab⟩ := hmeets
    have hstart := start_le ctx.sector b
    rw [← hab] at hstart
    exact Nat.lt_of_le_of_lt hstart (by omega)
  · omega

/-- Blocks of a range that is reached. -/
theorem Block.low {b : Nat × Nat} (h : Block ctx (address / ctx.sector * ctx.sector) (address % ctx.sector + len) b)
    (hr : Reached ctx address len) (hlen : 0 < len) : b.1 < 2 ^ 24 := by
  have hpos := ctx.sector_pos
  have hdiv := Nat.div_add_mod' address ctx.sector
  have hbefore := h.before
  have hmeets : Meets ctx.sector address len b.1 := by
    refine (meets_iff hlen).2 ⟨(start_le_iff hpos).1 h.begun, Nat.div_le_div_right ?_⟩
    omega
  obtain ⟨i, hi, hlow⟩ := hr
  have hless := hlow b.1 h.in_flash hmeets
  rcases hi with rfl | ⟨hfirst, hused, hfull⟩
  · rwa [start_eq_iff.2 ((Nat.pow_dvd_pow 2 h.smallest).trans h.aligned)] at hless
  · have hzero : address / ctx.sector * ctx.sector = 0 := by rw [Nat.div_eq_of_lt hfirst, Nat.zero_mul]
    rcases h.behind hzero with hstart | hlargest
    · omega
    · -- a block behind the first one is not in the larger sector
      have hge := hlargest i hused (by omega)
      have hone : 1 ≤ b.1 / 2 ^ ctx.size_log2 i := Nat.div_pos hge (Nat.two_pow_pos _)
      rcases Nat.le_total (ctx.size_log2 i) 24 with hle | hle
      · have hsplit : 2 ^ 24 = 2 ^ (24 - ctx.size_log2 i) * 2 ^ ctx.size_log2 i := by rw [← Nat.pow_add, Nat.sub_add_cancel hle]
        rw [hsplit] at hless ⊢
        exact (Nat.div_lt_iff_lt_mul (Nat.two_pow_pos _)).1 (Nat.lt_of_mul_lt_mul_right hless)
      · have hmul := Nat.mul_le_mul hone (Nat.pow_le_pow_right (show 0 < 2 by decide) hle)
        omega

section
variable {blocks : List (Nat × Nat)}
  (hblocks : ∀ b ∈ blocks, Block ctx (address / ctx.sector * ctx.sector) (address % ctx.sector + len) b)
  (hexact : ∀ a < ctx.flash_size, (∃ b ∈ blocks, (Command.ofBlock b).Erases a) ↔ Meets ctx.sector address len a)
include hblocks hexact

/-- What is not reached is erased nevertheless by a block beyond three bytes, larger than those of the size `i`. -/
theorem larger_block (hlen : 0 < len) (hnot : ¬ Reached ctx address len) {i : Fin 4}
    (hi : i = 0 ∨ address < ctx.sector ∧ ctx.size_log2 i ≠ 0 ∧ 2 ^ ctx.size_log2 i ≤ address + len) :
    ∃ b ∈ blocks, 24 < b.2 ∧ (24 < ctx.size_log2 i → ctx.size_log2 i < b.2) ∧ address < ctx.sector := by
  by_contra hnone
  refine hnot ⟨i, hi, fun a ha hmeets => ?_⟩
  by_contra hge
  have hlow : 2 ^ 24 ≤ a := (Nat.le_of_not_lt hge).trans (start_le _ a)
  obtain ⟨b, hb, herases⟩ := (hexact a ha).2 hmeets
  obtain ⟨hsize, hless, hzero⟩ := erases_high (hblocks b hb).aligned hlow herases
  have hfirst := (meets_iff hlen).1 ((hexact 0 (by omega)).1 ⟨b, hb, hzero⟩)
  rw [Nat.zero_div, Nat.le_zero] at hfirst
  refine hnone ⟨b, hb, hsize, fun _ => ?_, Nat.lt_of_div_eq_zero ctx.sector_pos hfirst.1⟩
  by_contra hle
  have hin : a / 2 ^ ctx.size_log2 i = 0 :=
    Nat.div_eq_of_lt (Nat.lt_of_lt_of_le hless (Nat.pow_le_pow_right (by decide) (Nat.le_of_not_lt hle)))
  rw [hin, Nat.zero_mul] at hge
  exact hge (Nat.two_pow_pos 24)

/-- So there are blocks of any size above 24. -/
theorem larger_blocks (hlen : 0 < len) (hnot : ¬ Reached ctx address len) (n : Nat) :
    ∃ b ∈ blocks, 24 + n < b.2 ∧ address < ctx.sector := by
  induction n with
  | zero =>
    obtain ⟨b, hb, hsize, -, hfirst⟩ := larger_block hblocks hexact hlen hnot (.inl rfl)
    exact ⟨b, hb, hsize, hfirst⟩
  | succ n ih =>
    obtain ⟨b, hb, hsize, hfirst⟩ := ih
    obtain ⟨i, hi, hfull⟩ := (hblocks b hb).asked
    rw [hi] at hsize hfull
    have hasked : i = 0 ∨ address < ctx.sector ∧ ctx.size_log2 i ≠ 0 ∧ 2 ^ ctx.size_log2 i ≤ address + len := by
      refine hfull.imp_right fun hle => ⟨hfirst, by omega, ?_⟩
      rwa [Nat.mod_eq_of_lt hfirst] at hle
    obtain ⟨c, hc, -, hlarge, -⟩ := larger_block hblocks hexact hlen hnot hasked
    have hless := hlarge (by omega)
    exact ⟨c, hc, by omega, hfirst⟩

theorem reached_of_exact (hlen : 0 < len) : Reached ctx address len := by
  by_contra hnot
  obtain ⟨b, hb, hsize, -⟩ := larger_blocks hblocks hexact hlen hnot 32
  have hlt := (hblocks b hb).lt
  omega

end

variable (chip) in
/-- An erase of a range whose length does not wrap with the adjustment. -/
theorem erased_range (ht : EraseTable ctx.size_log2) (hidle : chip.busy = 0) (haddress : address < 2 ^ 32)
    (hend : address + len ≤ 2 ^ 32) (hlen : 0 < len) (hwrap : address % ctx.sector + len < 2 ^ 32)
    (hchip : ¬ (address = 0 ∧ len ≥ ctx.flash_size)) : Erased ctx chip address len ↔ Reached ctx address len := by
  have hpos := ctx.sector_pos
  have hdiv := Nat.div_add_mod' address ctx.sector
  have hstart := erase_op_start_eq ctx chip haddress (show len < 2 ^ 32 by omega)
  rw [Nat.mod_eq_of_lt hwrap] at hstart
  obtain ⟨chip', blocks, hends, hblanked, hblocks, hcover⟩ := erase_loop chip
    (address / ctx.sector * ctx.sector) (address % ctx.sector + len) ht hidle (Nat.dvd_mul_left ..) (by omega) (by omega)
  have hrange : address / ctx.sector * ctx.sector + (address % ctx.sector + len) = address + len := by omega
  have hmeets : ∀ a < ctx.flash_size, (∃ b ∈ blocks, InBlock b a) ↔ Meets ctx.sector address len a := by
    intro a ha
    rw [hcover a (.inl ha), meets_iff hlen, hrange, Nat.mul_div_cancel _ hpos]
  rw [erased_iff hchip]
  constructor
  · rintro ⟨chip'', commands, hends', hcommands, herasing, -⟩
    obtain rfl := Option.some.inj ((hstart ▸ hends).unique hends')
    obtain rfl := List.append_cancel_left (hblanked.commands.symm.trans hcommands)
    exact reached_of_exact hblocks (fun a ha => exists_ofBlock.symm.trans (herasing.exact a ha)) hlen
  · intro hr
    have hsame : ∀ a, (∃ b ∈ blocks, (Command.ofBlock b).Erases a) ↔ ∃ b ∈ blocks, InBlock b a := fun a =>
      exists_congr fun b => and_congr_right fun hb => erases_low ((hblocks b hb).low hr hlen)
    refine ⟨chip', _, hstart ▸ hends, hblanked.commands, ⟨fun c hc => ?_, fun a ha => ?_⟩, fun a ha => ?_, fun a ha => ?_,
      hblanked.idle⟩
    · obtain ⟨b, hb, rfl⟩ := List.mem_map.1 hc
      exact three_bytes_dvd (hblocks b hb).aligned
    · rw [exists_ofBlock, hsame, hmeets a ha]
    · exact hblanked.blank a (exists_ofBlock.1 ha)
    · exact hblanked.kept a (exists_ofBlock.not.1 ha)

section
variable {blocks : List (Nat × Nat)}
  (hblocks : ∀ b ∈ blocks, Block ctx (address / ctx.sector * ctx.sector) (address % ctx.sector + len) b)
  (hcover : ∀ a, (∃ b ∈ blocks, InBlock b a) ↔ Meets ctx.sector address len a)
  (hbytes : three_bytes address + len ≤ 2 ^ 24)
include hblocks hcover hbytes

/-- Blocks of a range that is sent in one piece are sent so, too. -/
theorem sent_small (hsmall : ctx.size_log2 0 ≤ 24) (a : Nat) :
    (∃ b ∈ blocks, (Command.ofBlock b).Erases a) ↔ Meets ctx.sector (three_bytes address) len a := by
  have hpos := ctx.sector_pos
  have hdiv := Nat.div_add_mod' address ctx.sector
  have habove := three_bytes_above address
  obtain ⟨q, hq⟩ := above_dvd address
  have hwhole : ctx.sector ∣ above address := (Nat.pow_dvd_pow 2 hsmall).trans (above_dvd address)
  have hstart : above address ≤ address / ctx.sector * ctx.sector := by
    rw [← start_eq_iff.2 hwhole]
    exact Nat.mul_le_mul_right _ (Nat.div_le_div_right (by omega))
  rw [← meets_add hpos hwhole, habove, ← hcover]
  refine exists_congr fun b => and_congr_right fun hb => ?_
  have hblock := hblocks b hb
  have hbegun := hblock.begun
  have hbefore := hblock.before
  have hsent : b.1 = three_bytes b.1 + above address := by
    unfold three_bytes at *
    omega
  have hsize : b.2 ≤ 24 := by
    obtain ⟨i, hi, rfl | hfull⟩ := hblock.asked
    · exact hi ▸ hsmall
    · have hmod : address % ctx.sector ≤ three_bytes address := by
        obtain ⟨r, hr⟩ := hwhole
        conv_lhs => rw [← habove, hr, Nat.add_mul_mod_self_left]
        exact Nat.mod_le _ _
      exact (Nat.pow_le_pow_iff_right (by decide)).1 (hfull.trans (show _ ≤ 2 ^ 24 by omega))
  obtain ⟨r, hr⟩ := (Nat.pow_dvd_pow 2 hsize).trans (above_dvd address)
  have hdiv : b.1 / 2 ^ b.2 = three_bytes b.1 / 2 ^ b.2 + r := by
    conv_lhs => rw [hsent, hr, Nat.add_mul_div_left _ _ (Nat.two_pow_pos _)]
  show a / 2 ^ b.2 = three_bytes b.1 / 2 ^ b.2 ↔ (a + above address) / 2 ^ b.2 = b.1 / 2 ^ b.2
  rw [hdiv, hr, Nat.add_mul_div_left _ _ (Nat.two_pow_pos _), Nat.add_right_cancel_iff]

/-- Where the smallest sectors are larger than what three bytes address, the first one is erased. -/
theorem sent_large (hlen : 0 < len) (hlarge : 24 < ctx.size_log2 0) (a : Nat) :
    (∃ b ∈ blocks, (Command.ofBlock b).Erases a) ↔ Meets ctx.sector (three_bytes address) len a := by
  have hpos := ctx.sector_pos
  have hsector : 2 ^ 24 ∣ ctx.sector := Nat.pow_dvd_pow 2 hlarge.le
  have hleft : address % ctx.sector + len ≤ ctx.sector := by
    have hmod := Nat.mod_lt address hpos
    have hsent : address % ctx.sector % 2 ^ 24 = three_bytes address := Nat.mod_mod_of_dvd address hsector
    obtain ⟨c, hc⟩ := hsector
    omega
  have hblock : ∀ b ∈ blocks, ((Command.ofBlock b).Erases a ↔ a / ctx.sector = 0) := by
    intro b hb
    have hge := (hblocks b hb).smallest
    have hsize : b.2 = ctx.size_log2 0 := by
      obtain ⟨i, hi, rfl | hfull⟩ := (hblocks b hb).asked
      · exact hi
      · exact Nat.le_antisymm ((Nat.pow_le_pow_iff_right (by decide)).1 (hfull.trans hleft)) hge
    have hzero : three_bytes b.1 = 0 :=
      Nat.mod_eq_zero_of_dvd ((Nat.pow_dvd_pow 2 (hlarge.le.trans hge)).trans (hblocks b hb).aligned)
    show a / 2 ^ b.2 = three_bytes b.1 / 2 ^ b.2 ↔ _
    rw [hzero, Nat.zero_div, hsize]
    rfl
  have hwindow : ∀ x, x < three_bytes address + len → x / ctx.sector = 0 := by
    intro x hx
    exact Nat.div_eq_of_lt (Nat.lt_of_lt_of_le (Nat.lt_of_lt_of_le hx hbytes) (Nat.le_of_dvd hpos hsector))
  obtain ⟨b, hb, -⟩ := (hcover address).2 ⟨address, Nat.le_refl _, by omega, rfl⟩
  constructor
  · rintro ⟨c, hc, herases⟩
    exact ⟨three_bytes address, Nat.le_refl _, by omega, by rw [(hblock c hc).1 herases, hwindow _ (by omega)]⟩
  · rintro ⟨x, -, hlt, hax⟩
    exact ⟨b, hb, (hblock b hb).2 (hax.trans (hwindow x hlt))⟩

end

/-- What an erase of bytes of the flash leaves, where three bytes hold the addresses from the first one sent on. -/
theorem erased_within (ht : EraseTable ctx.size_log2) (hidle : chip.busy = 0) (hlen : 0 < len)
    (hend : address + len ≤ ctx.flash_size) (hbytes : three_bytes address + len ≤ 2 ^ 24) :
    ∃ rounds chip', erase_op rounds ctx chip address len = some chip' ∧ chip'.busy = 0 ∧ ∀ a < ctx.flash_size,
      (Meets ctx.sector (three_bytes address) len a → chip'.mem a = 0xFF) ∧
      (¬ Meets ctx.sector (three_bytes address) len a → chip'.mem a = chip.mem a) := by
  have hsize := ctx.flash_size_lt
  have hpos := ctx.sector_pos
  have hdiv := Nat.div_add_mod' address ctx.sector
  have hmod := Nat.mod_le address ctx.sector
  by_cases hchip : address = 0 ∧ len ≥ ctx.flash_size
  · refine ⟨0, chip.done ctx .erase_chip, ?_, hidle, fun a ha => ⟨fun _ => rfl, fun hnot => absurd ?_ hnot⟩⟩
    · rw [erase_op, if_pos hchip, qspi_flash_erase, Option.map_some, take_enabled hidle]
    · have hsent := three_bytes_le address
      exact ⟨a, by omega, by omega, rfl⟩
  · have hstart := erase_op_start_eq ctx chip (show address < 2 ^ 32 by omega) (show len < 2 ^ 32 by omega)
    rw [Nat.mod_eq_of_lt (show address % ctx.sector + len < 2 ^ 32 by omega)] at hstart
    obtain ⟨chip', blocks, ⟨rounds, hrun⟩, hblanked, hblocks, hcover⟩ := erase_loop chip
      (address / ctx.sector * ctx.sector) (address % ctx.sector + len) ht hidle (Nat.dvd_mul_left ..) (by omega) (by omega)
    have hrange : address / ctx.sector * ctx.sector + (address % ctx.sector + len) = address + len := by omega
    rw [hrange, Nat.mul_div_cancel _ hpos] at hcover
    have hmeets : ∀ a, (∃ b ∈ blocks, InBlock b a) ↔ Meets ctx.sector address len a := by
      intro a
      rw [hcover a (.inr hend), meets_iff hlen]
    have hsent : ∀ a, (∃ b ∈ blocks, (Command.ofBlock b).Erases a) ↔ Meets ctx.sector (three_bytes address) len a := by
      rcases Nat.lt_or_ge 24 (ctx.size_log2 0) with hlarge | hsmall
      · exact sent_large hblocks hmeets hbytes hlen hlarge
      · exact sent_small hblocks hmeets hbytes hsmall
    refine ⟨rounds, chip', ?_, hblanked.idle, fun a _ => ⟨fun hm => ?_, fun hm => ?_⟩⟩
    · rw [erase_op, if_neg hchip, hstart, hrun]
      rfl
    · exact hblanked.blank a ((hsent a).2 hm)
    · exact hblanked.kept a ((hsent a).not.2 hm)

theorem erase_op_mono {rounds : Nat} {chip' : Chip} (h : erase_op rounds ctx chip address len = some chip') (more : Nat) :
    erase_op (rounds + more) ctx chip address len = some chip' := by
  unfold erase_op at h ⊢
  split at h
  · rename_i hchip
    rwa [if_pos hchip]
  · rename_i hchip
    rw [if_neg hchip, Loop.run_mono (Option.join_eq_some_iff.1 h) more]
    rfl

/-- An erase is right unless it is of an empty range that does not begin with a sector, or of one that begins within
the first sector and ends with the address space, or three bytes do not hold the addresses. -/
theorem erase_op_erases_iff (ctx : Ctx) (ht : EraseTable ctx.size_log2) (chip : Chip) (hidle : chip.busy = 0) (address len : Nat)
    (haddress : address < 2 ^ 32) (hlen : len < 2 ^ 32) (hend : address + len ≤ 2 ^ 32) :
    Erased ctx chip address len ↔
      ¬ (len = 0 ∧ address % ctx.sector ≠ 0 ∧ address / ctx.sector * ctx.sector < ctx.flash_size) ∧
      ¬ (0 < address ∧ address < ctx.sector ∧ address + len = 2 ^ 32 ∧ 0 < ctx.flash_size) ∧
      (address = 0 ∧ len ≥ ctx.flash_size ∨ Reached ctx address len) := by
  have hpos := ctx.sector_pos
  have hdiv := Nat.div_add_mod' address ctx.sector
  have hmod := Nat.mod_lt address hpos
  have hlast := erase_op_start_eq ctx chip haddress hlen
  have hsector : ctx.sector ≤ 2 ^ 31 := Nat.pow_le_pow_right (by decide) (Nat.le_of_lt_succ (ht.lt 0))
  by_cases hchip : address = 0 ∧ len ≥ ctx.flash_size
  · refine iff_of_true (erased_chip chip hidle hchip.1 hchip.2) ⟨fun h => h.2.1 ?_, fun h => ?_, .inl hchip⟩
    · rw [hchip.1, Nat.zero_mod]
    · omega
  have hnone : len = 0 → Reached ctx address len := by
    rintro rfl
    exact ⟨0, .inl rfl, fun a _ hmeets => absurd hmeets not_meets_zero⟩
  generalize hstart : address / ctx.sector * ctx.sector = start at *
  by_cases hwrap : address % ctx.sector + len = 2 ^ 32
  · -- the length wraps to zero
    rw [hwrap, Nat.mod_self] at hlast
    rw [erased_nothing chip hidle hchip (hlast ▸ erase_loop_none (.inl rfl))]
    have hfirst : address < ctx.sector ∧ address + len = 2 ^ 32 ∧ 0 < len := by omega
    constructor
    · intro h
      refine ⟨by omega, fun hbad => h 0 hbad.2.2.2 ?_, .inr ⟨0, .inl rfl, fun a ha hmeets => absurd hmeets (h a ha)⟩⟩
      rw [meets_iff hfirst.2.2, Nat.zero_div, Nat.div_eq_of_lt hfirst.1]
      exact ⟨Nat.le_refl 0, Nat.zero_le _⟩
    · rintro ⟨-, hbad, -⟩ a ha
      exact absurd ⟨by omega, hfirst.1, hfirst.2.1, by omega⟩ hbad
  · by_cases hempty : len = 0
    · rw [Nat.mod_eq_of_lt (show address % ctx.sector + len < 2 ^ 32 by omega)] at hlast
      by_cases hnothing : address % ctx.sector + len = 0 ∨ ctx.flash_size ≤ start
      · rw [erased_nothing chip hidle hchip (hlast ▸ erase_loop_none (by omega))]
        refine iff_of_true (fun a _ => ?_) ⟨by omega, by omega, .inr (hnone hempty)⟩
        exact hempty ▸ not_meets_zero
      · -- the sector of the address is erased though the range is empty
        obtain ⟨chip', blocks, hends, hblanked, hblocks, hcover⟩ := erase_loop chip start (address % ctx.sector + len) ht
          hidle ⟨address / ctx.sector, by rw [Nat.mul_comm]; exact hstart.symm⟩ (by omega) (by omega)
        rw [← hlast] at hends
        rw [erased_iff hchip]
        refine iff_of_false ?_ (fun h => h.1 ⟨hempty, by omega, by omega⟩)
        rintro ⟨chip'', commands', hends', hcommands', herasing, -⟩
        obtain rfl := Option.some.inj (hends.unique hends')
        obtain rfl := List.append_cancel_left (hblanked.commands.symm.trans hcommands')
        obtain ⟨b, hb, -⟩ := (hcover start (.inl (by omega))).2 ⟨Nat.le_refl _, Nat.div_le_div_right (by omega)⟩
        have hsent := three_bytes_le b.1
        have hin := (hblocks b hb).in_flash
        have herased := (herasing.exact (three_bytes b.1) (by omega)).1 (exists_ofBlock.2 ⟨b, hb, rfl⟩)
        exact not_meets_zero (hempty ▸ herased)
    · rw [erased_range chip ht hidle haddress hend (Nat.pos_of_ne_zero hempty) (by omega) hchip]
      have hfirst : address < ctx.sector → address % ctx.sector = address := Nat.mod_eq_of_lt
      exact ⟨fun hr => ⟨by omega, by omega, .inr hr⟩, fun h => h.2.2.resolve_left hchip⟩

/-- A flash of four sectors, which can also be erased two at a time. -/
def four_sectors : Ctx := ⟨16, 4, [2, 3, 0, 0].get, by decide, 2, rfl⟩

def cleared : Chip := ⟨fun _ => 0, false, 0, [], fun _ => 0⟩

/-- An empty range at the second byte: the first sector is erased. -/
theorem erase_op_erases_empty : ¬ Erased four_sectors cleared 1 0 := by
  rintro ⟨rounds, chip', commands, hrun, hcommands, herasing, -⟩
  have hend : Loop.run (erase_op_round four_sectors) 2 (erase_op_start four_sectors cleared 1 0) =
      some (some (cleared.done four_sectors (.erase 0 2))) := rfl
  rw [erase_op, if_neg (by decide)] at hrun
  obtain rfl := Option.some.inj (Loop.Ends.unique ⟨_, hend⟩ ⟨_, Option.join_eq_some_iff.1 hrun⟩)
  obtain rfl : [.erase 0 2] = commands := hcommands
  exact not_meets_zero ((herasing.exact 0 (by decide)).1 ⟨_, List.mem_singleton_self _, rfl⟩)

/-- A range with bytes in the second and the third sector: both are erased. -/
theorem erase_op_erases_two : (5 < 2 ^ 32 ∧ 4 < 2 ^ 32 ∧ 5 + 4 ≤ 2 ^ 32) ∧ EraseTable four_sectors.size_log2 ∧
    Erased four_sectors cleared 5 4 ∧ ¬ (4 = 0 ∧ 5 % four_sectors.sector ≠ 0 ∧ 5 / four_sectors.sector * four_sectors.sector < 16) ∧
    ¬ (0 < 5 ∧ 5 < four_sectors.sector ∧ 5 + 4 = 2 ^ 32 ∧ 0 < 16) ∧ Reached four_sectors 5 4 :=
  have ht : EraseTable four_sectors.size_log2 := ⟨by decide, by decide, by decide⟩
  have hreached : Reached four_sectors 5 4 := reached_low (.inl (by decide))
  ⟨by decide, ht, (erase_op_erases_iff four_sectors ht cleared rfl 5 4 (by decide) (by decide) (by decide)).2
    ⟨by decide, by decide, .inr hreached⟩, by decide, by decide, hreached⟩

example : (erase_op 3 four_sectors cleared 5 11).map Chip.commands = some [.erase 4 2, .erase 8 3] := by decide

end QspiFlash
