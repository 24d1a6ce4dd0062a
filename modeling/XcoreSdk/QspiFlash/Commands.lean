import XcoreSdk.Lib.Bytes
import XcoreSdk.Lib.Port
import XcoreSdk.QspiFlash.Device
import XcoreSdk.QspiFlash.Wire
/-!
# The transactions that write

What `qspi_flash.c` puts on the lines for its commands, and how a flash chip
takes it: the chip knows nothing but the levels of the lines in the cycles in
which it is selected. The port of the chip select has a counter of 16 bits, so
it matters when it is told to deselect the chip: here, after all outputs, of
which the port keeps at most two words. A transaction is as long as what the
port puts out, so the chip gets whole bytes, and it gets the command, the
address and the data that the function was called with: on the wire, the
functions do what `QspiFlash.Device` says they do.
-/

namespace QspiFlash
namespace Wire

/-- After how many cycles the chip is to be deselected, and what the port puts on the lines. -/
structure Transaction where
  cycles : Nat
  out : List Lines

/-- The lines while the chip is selected, when its port is told in cycle `now` to deselect it. The port of the
lines leaves them as they were after its last output. -/
def Transaction.lines (t : Transaction) (now : Nat) : List Lines :=
  (List.range (Port.fires now t.cycles)).map fun k => t.out.getD k (t.out.getLastD 0xF)

/-- The last output is done when at most one word of the port is still to begin, and `qspi_io_end_transaction` follows
it before the transaction is over. -/
def Transaction.Timely (t : Transaction) (now : Nat) : Prop := now ≤ t.cycles ∧ t.out.length ≤ now + 16

/-- `qspi_flash_page_program_cmd_t` -/
inductive PageProgram
  | qspi_flash_page_program_1_1_1 | qspi_flash_page_program_1_1_4 | qspi_flash_page_program_1_4_4
deriving DecidableEq

/-! ## `qspi_flash.c` -/

def command (cmd : UInt8) : Word := BitVec.ofNat 32 (QSPI_IO_BYTE_TO_MOSI cmd)

def WRITE_ENABLE_COMMAND : Word := command 0x06
def ERASE_CHIP_COMMAND : Word := command 0xC7
def PP_1_1_1_COMMAND : Word := command 0x02
def PP_1_1_4_COMMAND : Word := command 0x32
def PP_1_4_4_COMMAND : Word := command 0x38

/-- A transaction of a command alone. -/
def command_only (cmd : Word) : Transaction := ⟨8, qspi_io_start_transaction cmd⟩

/-- `byterev(address << 8)` as bytes in memory. -/
def address_bytes (address : Word) : Nat → UInt8 := byte_of (byterev (address <<< 8))

/-- `none` is a failed assertion: the sector size is not in use. -/
def qspi_flash_erase (ctx : FlashCtx) (address : Word) : EraseLength → Option Transaction
  | .chip => some (command_only ERASE_CHIP_COMMAND)
  | .sector i =>
    if (ctx.erase_info i).size_log2 > 0 then
      some ⟨32, qspi_io_start_transaction (BitVec.ofNat 32 (ctx.erase_info i).cmd) ++
        qspi_io_mosi_out .qspi_io_transfer_normal (address_bytes address) 3⟩
    else none

def qspi_flash_write_i (quad_page_program_cmd : PageProgram) (transfer_mode : TransferMode) (data : Nat → UInt8)
    (address : Word) (len : Nat) : Transaction :=
  let (pp_cmd, cycles) := match quad_page_program_cmd with
    | .qspi_flash_page_program_1_1_4 => (PP_1_1_4_COMMAND, 8 + 24 + 2 * len)
    | .qspi_flash_page_program_1_4_4 => (PP_1_4_4_COMMAND, 8 + 6 + 2 * len)
    | .qspi_flash_page_program_1_1_1 => (PP_1_1_1_COMMAND, 8 + 24 + 8 * len)
  ⟨cycles, qspi_io_start_transaction pp_cmd ++ match quad_page_program_cmd with
    | .qspi_flash_page_program_1_1_4 =>
      qspi_io_mosi_out .qspi_io_transfer_normal (address_bytes address) 3 ++ qspi_io_bytes_out transfer_mode data len
    | .qspi_flash_page_program_1_4_4 =>
      qspi_io_bytes_out .qspi_io_transfer_normal (address_bytes address) 3 ++ qspi_io_bytes_out transfer_mode data len
    | .qspi_flash_page_program_1_1_1 =>
      qspi_io_mosi_out .qspi_io_transfer_normal (address_bytes address) 3 ++ qspi_io_mosi_out transfer_mode data len⟩

def qspi_flash_write (quad_page_program_cmd : PageProgram) : (Nat → UInt8) → Word → Nat → Transaction :=
  qspi_flash_write_i quad_page_program_cmd .qspi_io_transfer_normal

def qspi_flash_write_nibble_swapped (quad_page_program_cmd : PageProgram) : (Nat → UInt8) → Word → Nat → Transaction :=
  qspi_flash_write_i quad_page_program_cmd .qspi_io_transfer_nibble_swap

/-! ## The chip -/

/-- The instructions of the chip that are always the same. -/
def standard : List UInt8 := [0x06, 0x04, 0xC7, 0x02, 0x32, 0x38]

/-- A chip's erase instructions, with the sizes of their blocks. -/
structure EraseTable where
  size_log2 : UInt8 → Option Nat
  not_standard : ∀ cmd ∈ standard, size_log2 cmd = none

inductive Instruction
  | write_enable
  | write_disable
  | write (c : Command)
deriving DecidableEq

/-- The instruction that a chip takes from the lines. It ignores one that does not end with a whole byte. -/
def EraseTable.instruction (erases : EraseTable) (lines : List Lines) : Option Instruction :=
  let body := lines.drop 8
  match of_serial (lines.take 8) with
  | [cmd] =>
    match erases.size_log2 cmd with
    | some size_log2 => if body.length = 24 then some (.write (.erase (Bytes.ofBE (of_serial body)) size_log2)) else none
    | none =>
      if cmd = 0x02 ∧ body.length % 8 = 0 then
        some (.write (.program (Bytes.ofBE (of_serial (body.take 24))) (of_serial (body.drop 24))))
      else if cmd = 0x32 ∧ body.length % 2 = 0 then
        some (.write (.program (Bytes.ofBE (of_serial (body.take 24))) (of_quad (body.drop 24))))
      else if cmd = 0x38 ∧ body.length % 2 = 0 then
        some (.write (.program (Bytes.ofBE (of_quad (body.take 6))) (of_quad (body.drop 6))))
      else if body ≠ [] then none
      else if cmd = 0x06 then some .write_enable
      else if cmd = 0x04 then some .write_disable
      else if cmd = 0xC7 then some (.write .erase_chip)
      else none
  | _ => none

/-- What a chip does with a transaction. -/
def EraseTable.transact (erases : EraseTable) (ctx : Ctx) (chip : Chip) (t : Transaction) (now : Nat) : Chip :=
  match erases.instruction (t.lines now) with
  | some .write_enable => QspiFlash.qspi_flash_write_enable chip
  | some .write_disable => if chip.busy = 0 then { chip with write_enabled := false } else chip
  | some (.write c) => chip.take ctx c
  | none => chip

/-! ## Whole transactions -/

theorem lines_eq {t : Transaction} {now : Nat} (h : t.out.length = t.cycles) (hnow : t.Timely now) : t.lines now = t.out := by
  have hfires : Port.fires now t.cycles = t.cycles := by
    refine Port.fires_eq hnow.1 ?_ rfl
    have := hnow.2
    omega
  unfold Transaction.lines
  rw [hfires, ← h]
  refine List.ext_getElem (by simp) fun k hk hk' => ?_
  simp [hk']

theorem start_command (cmd : UInt8) : qspi_io_start_transaction (command cmd) = serial cmd := start_transaction_mosi cmd

/-- The three bytes of an address, the highest first. -/
def address_list (address : Word) : List UInt8 := [2, 1, 0].map (byte_of address)

theorem address_bytes_eq (address : Word) {j : Nat} (hj : j < 3) : address_bytes address j = byte_of address (2 - j) := by
  rw [address_bytes, byte_of_byterev _ (by omega)]
  unfold byte_of
  congr 1
  refine BitVec.eq_of_getLsbD_eq fun b hb => ?_
  have hin : 8 * (3 - j) + b < 32 := by omega
  have hout : ¬ 8 * (3 - j) + b < 8 := by omega
  have hsub : 8 * (3 - j) + b - 8 = 8 * (2 - j) + b := by omega
  rw [BitVec.getLsbD_extractLsb', BitVec.getLsbD_extractLsb', BitVec.getLsbD_shiftLeft, decide_eq_true hin, decide_eq_false hout,
    hsub, Bool.not_false, Bool.true_and, Bool.true_and]

theorem byte_of_eq (word : Word) (j : Nat) : byte_of word j = UInt8.ofNat (word.toNat / 2 ^ (8 * j)) := by
  refine UInt8.toNat_inj.1 ?_
  rw [byte_of, UInt8.toNat_ofBitVec, BitVec.extractLsb'_toNat, Nat.shiftRight_eq_div_pow, UInt8.toNat_ofNat']

theorem ofBE_address (address : Word) : Bytes.ofBE (address_list address) = address.toNat % 2 ^ 24 := by
  have hlist : (address_list address).reverse = Bytes.toLE 3 address.toNat := by
    simp [address_list, byte_of_eq, Bytes.toLE, Nat.div_div_eq_div_mul]
  exact (congrArg Bytes.ofLE hlist).trans (Bytes.ofLE_toLE_mod 3 _)

theorem flatMap_address {α : Type*} (f : UInt8 → List α) (address : Word) :
    ((List.range 3).flatMap fun j => f (address_bytes address j)) = (address_list address).flatMap f := by
  rw [address_list, List.flatMap_map]
  have hrange : [2, 1, 0] = (List.range 3).map fun j => 2 - j := rfl
  rw [hrange, List.flatMap_map]
  exact List.flatMap_congr fun j hj => by rw [address_bytes_eq address (List.mem_range.1 hj)]

theorem mosi_address (address : Word) : qspi_io_mosi_out .qspi_io_transfer_normal (address_bytes address) 3 =
    (address_list address).flatMap serial :=
  (mosi_out_eq _ _ _).trans (flatMap_address serial address)

theorem bytes_address (address : Word) : qspi_io_bytes_out .qspi_io_transfer_normal (address_bytes address) 3 =
    (address_list address).flatMap nibbles :=
  (bytes_out_eq _ _ _).trans (flatMap_address nibbles address)

theorem length_flatMap_serial (bs : List UInt8) : (bs.flatMap serial).length = 8 * bs.length := by
  induction bs with
  | nil => rfl
  | cons b bs ih => rw [List.flatMap_cons, List.length_append, ih, length_serial, List.length_cons, Nat.mul_succ, Nat.add_comm]

theorem length_flatMap_nibbles (bs : List UInt8) : (bs.flatMap nibbles).length = 2 * bs.length := by
  induction bs with
  | nil => rfl
  | cons b bs ih =>
    rw [List.flatMap_cons, List.length_append, ih, List.length_cons, Nat.mul_succ, Nat.add_comm]
    rfl

variable (erases : EraseTable) {ctx : Ctx} {chip : Chip} {address : Word}

theorem of_serial_command (cmd : UInt8) (body : List Lines) :
    of_serial ((serial cmd ++ body).take 8) = [cmd] ∧ (serial cmd ++ body).drop 8 = body := by
  refine ⟨?_, List.drop_left' (length_serial cmd)⟩
  rw [List.take_left' (length_serial cmd), ← List.append_nil (serial cmd)]
  exact of_serial_serial [cmd]

/-- A chip's instruction comes from its command and the lines behind it. -/
theorem instruction_standard {cmd : UInt8} (hcmd : cmd ∈ standard) (body : List Lines) :
    erases.instruction (serial cmd ++ body) =
      if cmd = 0x02 ∧ body.length % 8 = 0 then
        some (.write (.program (Bytes.ofBE (of_serial (body.take 24))) (of_serial (body.drop 24))))
      else if cmd = 0x32 ∧ body.length % 2 = 0 then
        some (.write (.program (Bytes.ofBE (of_serial (body.take 24))) (of_quad (body.drop 24))))
      else if cmd = 0x38 ∧ body.length % 2 = 0 then
        some (.write (.program (Bytes.ofBE (of_quad (body.take 6))) (of_quad (body.drop 6))))
      else if body ≠ [] then none
      else if cmd = 0x06 then some .write_enable
      else if cmd = 0x04 then some .write_disable
      else if cmd = 0xC7 then some (.write .erase_chip)
      else none := by
  obtain ⟨hserial, hdrop⟩ := of_serial_command cmd body
  simp only [EraseTable.instruction, hserial, hdrop, erases.not_standard cmd hcmd]

theorem lines_of_parts {t : Transaction} {cmd : UInt8} {head body : List Lines} {now : Nat} (hnow : t.Timely now)
    (hout : t.out = serial cmd ++ (head ++ body)) (hcycles : t.cycles = 8 + head.length + body.length) :
    t.lines now = serial cmd ++ (head ++ body) := by
  rw [lines_eq _ hnow, hout]
  rw [hout, hcycles, List.length_append, List.length_append, length_serial, Nat.add_assoc]

/-- The bytes that a page program sends. -/
def sent (transfer_mode : TransferMode) (data : Nat → UInt8) (len : Nat) : List UInt8 :=
  (List.range len).map fun i => transfer_mode.byte (data i)

theorem write_instruction (pp : PageProgram) (mode : TransferMode) (data : Nat → UInt8) (address : Word) (len : Nat)
    {now : Nat} (hnow : (qspi_flash_write_i pp mode data address len).Timely now) :
    erases.instruction ((qspi_flash_write_i pp mode data address len).lines now) =
      some (.write (.program (address.toNat % 2 ^ 24) (sent mode data len))) := by
  have hsent : (sent mode data len).length = len := by simp [sent]
  have hserial : qspi_io_mosi_out mode data len = (sent mode data len).flatMap serial := by
    rw [mosi_out_eq, sent, List.flatMap_map]
  have hquad : qspi_io_bytes_out mode data len = (sent mode data len).flatMap nibbles := by
    rw [bytes_out_eq, sent, List.flatMap_map]
  have hserial_len : ((sent mode data len).flatMap serial).length = 8 * len := by rw [length_flatMap_serial, hsent]
  have hquad_len : ((sent mode data len).flatMap nibbles).length = 2 * len := by rw [length_flatMap_nibbles, hsent]
  have haddr_serial : ((address_list address).flatMap serial).length = 24 := length_flatMap_serial _
  have haddr_quad : ((address_list address).flatMap nibbles).length = 6 := length_flatMap_nibbles _
  cases pp with
  | qspi_flash_page_program_1_1_1 =>
    have hlines : (qspi_flash_write_i .qspi_flash_page_program_1_1_1 mode data address len).lines now =
        serial 0x02 ++ ((address_list address).flatMap serial ++ (sent mode data len).flatMap serial)  := lines_of_parts hnow
      (by simp only [qspi_flash_write_i, PP_1_1_1_COMMAND, start_command, mosi_address, hserial])
      (by rw [haddr_serial, hserial_len]; rfl)
    have hwhole : ((address_list address).flatMap serial ++ (sent mode data len).flatMap serial).length % 8 = 0 := by
      rw [List.length_append, haddr_serial, hserial_len]
      omega
    rw [hlines, instruction_standard erases (by decide), if_pos ⟨rfl, hwhole⟩, List.take_left' haddr_serial,
      List.drop_left' haddr_serial, of_serial_serial, of_serial_serial, ofBE_address]
  | qspi_flash_page_program_1_1_4 =>
    have hlines : (qspi_flash_write_i .qspi_flash_page_program_1_1_4 mode data address len).lines now =
        serial 0x32 ++ ((address_list address).flatMap serial ++ (sent mode data len).flatMap nibbles)  := lines_of_parts hnow
      (by simp only [qspi_flash_write_i, PP_1_1_4_COMMAND, start_command, mosi_address, hquad])
      (by rw [haddr_serial, hquad_len]; rfl)
    have hwhole : ((address_list address).flatMap serial ++ (sent mode data len).flatMap nibbles).length % 2 = 0 := by
      rw [List.length_append, haddr_serial, hquad_len]
      omega
    rw [hlines, instruction_standard erases (by decide), if_neg fun h => absurd h.1 (by decide), if_pos ⟨rfl, hwhole⟩,
      List.take_left' haddr_serial, List.drop_left' haddr_serial, of_serial_serial, of_quad_nibbles, ofBE_address]
  | qspi_flash_page_program_1_4_4 =>
    have hlines : (qspi_flash_write_i .qspi_flash_page_program_1_4_4 mode data address len).lines now =
        serial 0x38 ++ ((address_list address).flatMap nibbles ++ (sent mode data len).flatMap nibbles)  := lines_of_parts hnow
      (by simp only [qspi_flash_write_i, PP_1_4_4_COMMAND, start_command, bytes_address, hquad])
      (by rw [haddr_quad, hquad_len]; rfl)
    have hwhole : ((address_list address).flatMap nibbles ++ (sent mode data len).flatMap nibbles).length % 2 = 0 := by
      rw [List.length_append, haddr_quad, hquad_len]
      omega
    rw [hlines, instruction_standard erases (by decide), if_neg fun h => absurd h.1 (by decide),
      if_neg fun h => absurd h.1 (by decide), if_pos ⟨rfl, hwhole⟩, List.take_left' haddr_quad, List.drop_left' haddr_quad,
      of_quad_nibbles, of_quad_nibbles, ofBE_address]

variable {now : Nat}

theorem command_lines (cmd : UInt8) (hnow : (command_only (command cmd)).Timely now) :
    (command_only (command cmd)).lines now = serial cmd ++ [] := by
  have hout : (command_only (command cmd)).out = serial cmd := start_command cmd
  rw [List.append_nil, lines_eq (by rw [hout, length_serial]; rfl) hnow, hout]

theorem enable_instruction (hnow : (command_only WRITE_ENABLE_COMMAND).Timely now) :
    erases.instruction ((command_only WRITE_ENABLE_COMMAND).lines now) = some .write_enable := by
  unfold WRITE_ENABLE_COMMAND at hnow ⊢
  rw [command_lines _ hnow, instruction_standard erases (by decide)]
  simp

theorem erase_chip_instruction (hnow : (command_only ERASE_CHIP_COMMAND).Timely now) :
    erases.instruction ((command_only ERASE_CHIP_COMMAND).lines now) = some (.write .erase_chip) := by
  unfold ERASE_CHIP_COMMAND at hnow ⊢
  rw [command_lines _ hnow, instruction_standard erases (by decide)]
  simp

/-- The chip has the erase instructions of the table that the driver works with. -/
def EraseTable.Has (flash : FlashCtx) : Prop :=
  ∀ i, (flash.erase_info i).size_log2 > 0 → ∃ cmd, (flash.erase_info i).cmd = QSPI_IO_BYTE_TO_MOSI cmd ∧
    erases.size_log2 cmd = some (flash.erase_info i).size_log2

theorem erase_instruction {flash : FlashCtx} {i : Fin 4} {t : Transaction} (hhas : erases.Has flash)
    (hi : (flash.erase_info i).size_log2 > 0) (ht : qspi_flash_erase flash address (.sector i) = some t) (hnow : t.Timely now) :
    erases.instruction (t.lines now) =
      some (.write (.erase (address.toNat % 2 ^ 24) (flash.erase_info i).size_log2)) := by
  obtain ⟨cmd, hcmd, hsize⟩ := hhas i hi
  have haddr : ((address_list address).flatMap serial).length = 24 := length_flatMap_serial _
  have hstart : qspi_io_start_transaction (BitVec.ofNat 32 (flash.erase_info i).cmd) = serial cmd := by
    rw [hcmd]
    exact start_command cmd
  simp only [qspi_flash_erase, if_pos hi, Option.some.injEq] at ht
  subst ht
  rw [mosi_address, hstart] at hnow ⊢
  rw [lines_eq (by rw [List.length_append, length_serial, haddr]) hnow]
  obtain ⟨hserial, hdrop⟩ := of_serial_command cmd ((address_list address).flatMap serial)
  simp only [EraseTable.instruction, hserial, hdrop, hsize, if_pos haddr, of_serial_serial, ofBE_address]

/-! ## The functions on the wire -/

/-- What a transaction of the functions does to the chip. -/
def EraseTable.Does (ctx : Ctx) (chip : Chip) (t : Transaction) (chip' : Chip) : Prop :=
  ∀ now, t.Timely now → erases.transact ctx chip t now = chip'

/-- What the functions put on the lines does to the chip what `QspiFlash.Device` says. -/
structure OnTheWire (flash : FlashCtx) (ctx : Ctx) (chip : Chip) (address : Nat) : Prop where
  write : ∀ pp data len, erases.Does ctx chip (qspi_flash_write pp data (BitVec.ofNat 32 address) len)
    (QspiFlash.qspi_flash_write ctx chip ((List.range len).map data) address)
  write_nibble_swapped : ∀ pp data len,
    erases.Does ctx chip (qspi_flash_write_nibble_swapped pp data (BitVec.ofNat 32 address) len)
      (QspiFlash.qspi_flash_write ctx chip ((List.range len).map fun i => nibble_swap (data i)) address)
  erase : ∀ erase_length, Option.Rel (erases.Does ctx chip)
    (qspi_flash_erase flash (BitVec.ofNat 32 address) erase_length) (QspiFlash.qspi_flash_erase ctx chip address erase_length)
  write_enable : erases.Does ctx chip (command_only WRITE_ENABLE_COMMAND) (QspiFlash.qspi_flash_write_enable chip)

/-- Whichever page program command is used, whatever the length of the data, and
whatever the state of the chip, it does what it is meant to do, and at the
address that three bytes hold of the one it is meant for. -/
theorem commands_taken (flash : FlashCtx) (ctx : Ctx) (chip : Chip) (address : Nat) (hhas : erases.Has flash)
    (hctx : ∀ i, ctx.size_log2 i = (flash.erase_info i).size_log2) : OnTheWire erases flash ctx chip address := by
  have haddr : (BitVec.ofNat 32 address).toNat % 2 ^ 24 = three_bytes address := by
    rw [BitVec.toNat_ofNat, three_bytes]
    omega
  have hwrite : ∀ pp mode data len, erases.Does ctx chip (qspi_flash_write_i pp mode data (BitVec.ofNat 32 address) len)
      (QspiFlash.qspi_flash_write ctx chip (sent mode data len) address) := by
    intro pp mode data len now hnow
    rw [EraseTable.transact, write_instruction erases _ _ _ _ _ hnow, haddr]
    rfl
  refine ⟨fun pp => hwrite pp .qspi_io_transfer_normal, fun pp => hwrite pp .qspi_io_transfer_nibble_swap, ?_, ?_⟩
  · intro erase_length
    cases erase_length with
    | chip =>
      refine .some fun now hnow => ?_
      rw [EraseTable.transact, erase_chip_instruction erases hnow]
    | sector i =>
      simp only [qspi_flash_erase, QspiFlash.qspi_flash_erase, hctx]
      split
      · rename_i hi
        refine .some fun now hnow => ?_
        rw [EraseTable.transact, erase_instruction erases hhas hi (if_pos hi) hnow, haddr]
      · exact .none
  · intro now hnow
    rw [EraseTable.transact, enable_instruction erases hnow]

/-- A flash with sectors of 4 KiB, erased with the instruction 0x20. -/
def sectorFlash : FlashCtx :=
  { FlashCtx.unset with erase_info := fun i => if i.val = 0 then ⟨12, QSPI_IO_BYTE_TO_MOSI 0x20⟩ else ⟨0, 0⟩ }

theorem sector_not_standard : ∀ cmd ∈ standard, (if cmd = 0x20 then some 12 else none) = none := by
  have hmem : (0x20 : UInt8) ∉ standard := by simp [standard]
  intro cmd hcmd
  exact if_neg fun (h : cmd = 0x20) => hmem (h ▸ hcmd)

def sectorErase : EraseTable := ⟨fun cmd => if cmd = 0x20 then some 12 else none, sector_not_standard⟩

theorem sector_has : sectorErase.Has sectorFlash := by
  intro i hi
  by_cases h0 : i.val = 0
  · have hinfo : sectorFlash.erase_info i = ⟨12, QSPI_IO_BYTE_TO_MOSI 0x20⟩ := if_pos h0
    rw [hinfo]
    exact ⟨0x20, rfl, rfl⟩
  · have hinfo : sectorFlash.erase_info i = ⟨0, 0⟩ := if_neg h0
    rw [hinfo] at hi
    cases hi

theorem sector_size : 0x1000000 < 2 ^ 32 := by decide

theorem sector_page : ∃ k, 256 = 2 ^ k := ⟨8, rfl⟩

def sectorCtx : Ctx := ⟨0x1000000, 256, fun i => (sectorFlash.erase_info i).size_log2, sector_size, sector_page⟩

/-- The last sector of 16 MiB. -/
theorem commands_taken_sector : OnTheWire sectorErase sectorFlash sectorCtx ⟨fun _ => 0, true, 0, [], fun _ => 3⟩ 0xFFF000 :=
  commands_taken sectorErase sectorFlash sectorCtx _ 0xFFF000 sector_has (fun _ => rfl)

end Wire
end QspiFlash
