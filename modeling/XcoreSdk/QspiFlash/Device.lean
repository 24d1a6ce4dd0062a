import XcoreSdk.Lib.Loop
import Mathlib.Algebra.Order.Ring.Nat
import Mathlib.Data.Fin.Basic
import Mathlib.Data.Nat.Init
/-!
# The flash chip and its low-level functions

A NOR flash: programming clears bits within one page, erasing sets the bytes of
an aligned block. The chip takes either only with the write enable latch set and
no write in progress, and then stays busy for some number of status reads, which
differs from command to command. It remembers the commands it performed.
-/

namespace QspiFlash

/-! ## The chip -/

/-- `qspi_flash_erase_length_t`. -/
inductive EraseLength
  | sector (i : Fin 4)
  | chip
deriving DecidableEq

/-- The members of `rtos_qspi_flash_t` and of its `qspi_flash_ctx_t` that the
operations read. `rtos_qspi_flash_init` verifies that the page size is a power of two. -/
structure Ctx where
  flash_size : Nat
  page_size_bytes : Nat
  /-- `erase_info[i].size_log2`. -/
  size_log2 : Fin 4 → Nat
  flash_size_lt : flash_size < 2 ^ 32
  page_size_two_pow : ∃ k, page_size_bytes = 2 ^ k

/-- What the chip did. -/
inductive Command
  | program (address : Nat) (bytes : List UInt8)
  | erase (address size_log2 : Nat)
  | erase_chip
deriving DecidableEq

structure Chip where
  mem : Nat → UInt8
  write_enabled : Bool
  /-- For how many more status reads a write is in progress. -/
  busy : Nat
  commands : List Command
  /-- The status reads that the n-th command takes. -/
  takes : Nat → Nat

def Chip.Ready (chip : Chip) : Prop := chip.write_enabled = true ∧ chip.busy = 0

instance (chip : Chip) : Decidable chip.Ready := inferInstanceAs (Decidable (_ ∧ _))

/-- The page latches keep the last `page` bytes of the data; programming past the end of the
page goes on at its start. -/
def programmed (page address : Nat) (bytes : List UInt8) (a : Nat) : Option UInt8 :=
  let excess := bytes.length - page
  if a / page = address / page then (bytes.drop excess)[(a + (page - (address + excess) % page)) % page]?
  else none

/-- Programming clears bits. -/
def clear (old : UInt8) : Option UInt8 → UInt8
  | some b => old &&& b
  | none => old

/-- The memory after a command. -/
def Command.perform (ctx : Ctx) (mem : Nat → UInt8) : Command → Nat → UInt8
  | .program address bytes, a => clear (mem a) (programmed ctx.page_size_bytes address bytes a)
  | .erase address size_log2, a => if a / 2 ^ size_log2 = address / 2 ^ size_log2 then 0xFF else mem a
  | .erase_chip, _ => 0xFF

/-- A write or erase command. -/
def Chip.take (ctx : Ctx) (chip : Chip) (c : Command) : Chip :=
  if chip.Ready then
    { chip with mem := c.perform ctx chip.mem, write_enabled := false,
                busy := chip.takes chip.commands.length, commands := chip.commands ++ [c] }
  else chip

/-! ## The low-level functions -/

/-- Bits 23:0 of an address are sent, in three bytes. -/
def three_bytes (address : Nat) : Nat := address % 2 ^ 24

def qspi_flash_write_enable (chip : Chip) : Chip :=
  if chip.busy = 0 then { chip with write_enabled := true } else chip

def qspi_flash_write_in_progress (chip : Chip) : Bool × Chip :=
  (decide (chip.busy ≠ 0), { chip with busy := chip.busy - 1 })

def qspi_flash_write (ctx : Ctx) (chip : Chip) (data : List UInt8) (address : Nat) : Chip :=
  chip.take ctx (.program (three_bytes address) data)

def qspi_flash_erase_type_size_log2 (ctx : Ctx) (i : Fin 4) : Nat := ctx.size_log2 i

/-- `none` is a failed assertion: the sector size is not in use. -/
def qspi_flash_erase (ctx : Ctx) (chip : Chip) (address : Nat) : EraseLength → Option Chip
  | .chip => some (chip.take ctx .erase_chip)
  | .sector i => if ctx.size_log2 i > 0 then some (chip.take ctx (.erase (three_bytes address) (ctx.size_log2 i))) else none

/-- `qspi_flash_read` into a buffer from index `pos` on. What the chip returns from beyond its end, or
behind the last address that three bytes hold, is not specified. -/
def qspi_flash_read (ctx : Ctx) (chip : Chip) (data : Nat → UInt8) (pos address len : Nat) : Option (Nat → UInt8) :=
  if address + len ≤ ctx.flash_size ∧ three_bytes address + len ≤ 2 ^ 24 then
    some fun i => if pos ≤ i ∧ i < pos + len then chip.mem (three_bytes address + (i - pos)) else data i
  else none

def while_busy (chip : Chip) : Chip := poll chip.busy chip
where
  poll : Nat → Chip → Chip
  | 0, chip => (qspi_flash_write_in_progress chip).2
  | n + 1, chip =>
    match qspi_flash_write_in_progress chip with
    | (true, chip) => poll n chip
    | (false, chip) => chip

/-! ## What they do -/

theorem three_bytes_eq {address : Nat} (h : address < 2 ^ 24) : three_bytes address = address := Nat.mod_eq_of_lt h

theorem three_bytes_lt (address : Nat) : three_bytes address < 2 ^ 24 := Nat.mod_lt address (Nat.two_pow_pos 24)

theorem three_bytes_le (address : Nat) : three_bytes address ≤ address := Nat.mod_le address _

/-- How far behind the address that is sent the address is. -/
def above (address : Nat) : Nat := address - three_bytes address

theorem three_bytes_above (address : Nat) : three_bytes address + above address = address :=
  Nat.add_sub_cancel' (three_bytes_le address)

theorem above_dvd (address : Nat) : 2 ^ 24 ∣ above address := Nat.dvd_sub_mod address

/-- Up to the last address of three bytes, the addresses that are sent are next to each other. -/
theorem three_bytes_add {address k : Nat} (h : three_bytes address + k < 2 ^ 24) :
    three_bytes (address + k) = three_bytes address + k := by
  unfold three_bytes at *
  omega

theorem Ctx.page_size_pos (ctx : Ctx) : 0 < ctx.page_size_bytes := by
  obtain ⟨k, hk⟩ := ctx.page_size_two_pow
  exact hk ▸ Nat.two_pow_pos k

/-- The bytes of an address that are sent are no further into their page. -/
theorem Ctx.three_bytes_page (ctx : Ctx) (address : Nat) :
    three_bytes address % ctx.page_size_bytes ≤ address % ctx.page_size_bytes := by
  obtain ⟨k, hk⟩ := ctx.page_size_two_pow
  rw [hk]
  rcases Nat.le_total k 24 with hle | hle
  · rw [three_bytes, Nat.mod_mod_of_dvd _ (Nat.pow_dvd_pow 2 hle)]
  · rw [Nat.mod_eq_of_lt (Nat.lt_of_lt_of_le (three_bytes_lt address) (Nat.pow_le_pow_right (by decide) hle)),
      three_bytes, ← Nat.mod_mod_of_dvd address (Nat.pow_dvd_pow 2 hle)]
    exact Nat.mod_le _ _

/-- A program that stays within its page. -/
theorem programmed_within {page address : Nat} {bytes : List UInt8} (hpage : 0 < page)
    (hwithin : address % page + bytes.length ≤ page) (a : Nat) :
    programmed page address bytes a = if address ≤ a then bytes[a - address]? else none := by
  have haddress := Nat.div_add_mod address page
  have ha := Nat.div_add_mod a page
  have hlt := Nat.mod_lt address hpage
  have hlt' := Nat.mod_lt a hpage
  have hexcess : bytes.length - page = 0 := by omega
  simp only [programmed, hexcess, List.drop_zero, Nat.add_zero]
  by_cases hpages : a / page = address / page
  · rw [if_pos hpages]
    rw [hpages] at ha
    have hslot : (a + (page - address % page)) % page = (a % page + (page - address % page)) % page := by
      rw [Nat.mod_add_mod]
    rw [hslot]
    by_cases hle : address ≤ a
    · have hsum : a % page + (page - address % page) = a - address + page := by omega
      rw [if_pos hle, hsum, Nat.add_mod_right, Nat.mod_eq_of_lt (by omega)]
    · rw [if_neg hle, Nat.mod_eq_of_lt (by omega)]
      exact List.getElem?_eq_none (by omega)
  · rw [if_neg hpages]
    split
    · rename_i hle
      have hnext : address / page + 1 ≤ a / page := by
        have := Nat.div_le_div_right (c := page) hle
        omega
      have hmul := Nat.mul_le_mul_left page hnext
      rw [Nat.mul_add, Nat.mul_one] at hmul
      exact (List.getElem?_eq_none (by omega)).symm
    · rfl

theorem while_busy_poll (chip : Chip) : while_busy.poll chip.busy chip = { chip with busy := 0 } := by
  obtain ⟨mem, write_enabled, busy, commands, takes⟩ := chip
  dsimp only
  induction busy with
  | zero => rfl
  | succ n ih => exact ih

/-- The task polls the chip until it is done. -/
theorem while_busy_eq (chip : Chip) : while_busy chip = { chip with busy := 0 } := while_busy_poll chip

/-- Write enable, a command and the wait for its end, on an idle chip. -/
def Chip.done (ctx : Ctx) (chip : Chip) (c : Command) : Chip :=
  { chip with mem := c.perform ctx chip.mem, write_enabled := false, commands := chip.commands ++ [c] }

theorem take_enabled {ctx : Ctx} {chip : Chip} (h : chip.busy = 0) (c : Command) :
    while_busy ((qspi_flash_write_enable chip).take ctx c) = chip.done ctx c := by
  have hready : (qspi_flash_write_enable chip).Ready := by
    rw [qspi_flash_write_enable, if_pos h]
    exact ⟨rfl, h⟩
  rw [while_busy_eq, Chip.take, if_pos hready, qspi_flash_write_enable, if_pos h, Chip.done, h]

@[simp] theorem Chip.done_busy (ctx : Ctx) (chip : Chip) (c : Command) : (chip.done ctx c).busy = chip.busy := rfl

@[simp] theorem Chip.done_mem (ctx : Ctx) (chip : Chip) (c : Command) :
    (chip.done ctx c).mem = c.perform ctx chip.mem := rfl

@[simp] theorem Chip.done_commands (ctx : Ctx) (chip : Chip) (c : Command) :
    (chip.done ctx c).commands = chip.commands ++ [c] := rfl

end QspiFlash
