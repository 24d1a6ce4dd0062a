import XcoreSdk.QspiFlash.Commands
/-!
# The transactions that read

In a read the port is turned round behind its last output, and takes what the
chip answers: bytes over all four lines, or over SIO1 alone. The chip answers
while it is selected, which is at most 65535 cycles, since the port is told to
deselect it before the answer begins. `last` of an input is the cycle of the
last bits of its word.
-/

namespace QspiFlash
namespace Wire

/-! ## `qspi_io.h` -/

/-- `data_words[i] = word` -/
def store (data : Nat → UInt8) (i : Nat) (word : Word) : Nat → UInt8 :=
  fun a => if a / 4 = i then byte_of word (a % 4) else data a

/-- The bytes of `word`, the lowest first. -/
def store_bytes (data : Nat → UInt8) (i : Nat) (word : Word) : Nat → Nat → UInt8
  | 0 => data
  | len + 1 => store_bytes (Function.update data i (byte_of word 0)) (i + 1) (word >>> 8) len

section
variable (lines : Nat → Lines) (stale : Word)

def qspi_io_bytes_in (transfer_mode : TransferMode) (data : Nat → UInt8) (start_time len : Nat) : Nat → UInt8 :=
  let word_len := len / 4
  let data := (List.range word_len).foldl
    (fun data i => store data i (swapped transfer_mode (port_in lines stale (start_time + 8 * i) 8))) data
  if len % 4 ≠ 0 then
    -- without a shift count the port takes a whole word
    let word :=
      if word_len > 0 then port_in lines stale (start_time + 8 * (word_len - 1) + 2 * (len % 4)) (2 * (len % 4))
      else port_in lines stale start_time 8
    store_bytes data (4 * word_len) (swapped transfer_mode (word >>> (8 * (4 - len % 4)))) (len % 4)
  else data

def qspi_io_miso_in (transfer_mode : TransferMode) (data : Nat → UInt8) (start_time len : Nat) : Nat → UInt8 :=
  (List.range len).foldl (fun data i =>
    let word := qspi_io_miso_to_byte (port_in lines stale (start_time + 8 * i) 8)
    let word := if transfer_mode ≠ .qspi_io_transfer_normal then qspi_io_nibble_swap word else word
    Function.update data i (byte_of word 0)) data

end

/-! ## `qspi_flash.c` -/

def QUAD_IO_READ_COMMAND : Word := command 0xEB
def READ_STATUS_REG_COMMAND : Word := command 0x05
def READ_ID_COMMAND : Word := command 0x9F
def FAST_READ_COMMAND : Word := command 0x0B
def QUAD_IO_READ_DUMMY_CYCLES : Nat := 4
def FAST_READ_DUMMY_CYCLES : Nat := 8

/-- The word with the address, the length of the transaction and the cycle of the first input. -/
def qspi_flash_read_calc (xip : Bool) (address : Word) (len : Nat) : Word × Nat × Nat :=
  let first_input_byte := if len > 4 then 4 else len
  let rotated := (address <<< 8) ||| (address >>> 24)
  if xip then
    (rotated, 8 + QUAD_IO_READ_DUMMY_CYCLES + 2 * len, 8 + QUAD_IO_READ_DUMMY_CYCLES + 2 * first_input_byte - 1)
  else
    (rotated, 8 * 2 + QUAD_IO_READ_DUMMY_CYCLES + 2 * len, 8 * 2 + QUAD_IO_READ_DUMMY_CYCLES + 2 * first_input_byte - 1)

/-- What is on the lines in a transaction, cycle by cycle. -/
abbrev Bus := Transaction → Nat → Lines

section
variable (bus : Bus) (stale : Word)

def qspi_flash_read_i (transfer_mode : TransferMode) (xip : Bool) (data : Nat → UInt8) (address : Word) (len : Nat) :
    Nat → UInt8 :=
  let (address, cycles, input_cycle) := qspi_flash_read_calc xip address len
  let t : Transaction := ⟨cycles,
    if xip then qspi_io_start_transaction address
    else qspi_io_start_transaction QUAD_IO_READ_COMMAND ++ qspi_io_words_out .qspi_io_transfer_normal [address]⟩
  qspi_io_bytes_in (bus t) stale transfer_mode data input_cycle len

def qspi_flash_read := qspi_flash_read_i bus stale .qspi_io_transfer_normal false
def qspi_flash_read_nibble_swapped := qspi_flash_read_i bus stale .qspi_io_transfer_nibble_swap false
def qspi_flash_xip_read := qspi_flash_read_i bus stale .qspi_io_transfer_normal true
def qspi_flash_xip_read_nibble_swapped := qspi_flash_read_i bus stale .qspi_io_transfer_nibble_swap true

def qspi_flash_fast_read_i (cmd : Word) (data : Nat → UInt8) (address : Word) (len : Nat) : Nat → UInt8 :=
  let cycles := 8 + 24 + FAST_READ_DUMMY_CYCLES + 8 * len
  let input_cycle := 8 + 24 + FAST_READ_DUMMY_CYCLES + 7
  let t : Transaction := ⟨cycles,
    qspi_io_start_transaction cmd ++ qspi_io_mosi_out .qspi_io_transfer_normal (address_bytes address) 3⟩
  qspi_io_miso_in (bus t) stale .qspi_io_transfer_normal data input_cycle len

/-- Its command is `QSPI_IO_BYTE_TO_MOSI(FAST_READ_COMMAND)`, of which the macro takes the lowest byte. -/
def qspi_flash_fast_read := qspi_flash_fast_read_i bus stale (command (byte_of FAST_READ_COMMAND 0))

def qspi_flash_sfdp_read := qspi_flash_fast_read_i bus stale (command 0x5A)

def qspi_flash_read_register (cmd : Word) (val : Nat → UInt8) (len : Nat) : Nat → UInt8 :=
  qspi_io_miso_in (bus ⟨8 + 8 * len, qspi_io_start_transaction cmd⟩) stale .qspi_io_transfer_normal val (8 + 7) len

def qspi_flash_read_status_register := qspi_flash_read_register bus stale READ_STATUS_REG_COMMAND
def qspi_flash_read_id := qspi_flash_read_register bus stale READ_ID_COMMAND

end

/-! ## The chip -/

/-- What a chip has to answer, and the levels of lines that nobody drives. -/
structure Answers where
  mem : Nat → UInt8
  sfdp : Nat → UInt8
  register : UInt8 → Nat → UInt8
  floating : Nat → Lines

/-- Bytes over all four lines. -/
def quad_out (bytes : Nat → UInt8) (k : Nat) : Lines := (bytes (k / 2)).toBitVec.extractLsb' (4 - 4 * (k % 2)) 4

/-- Bytes over SIO1. -/
def serial_out (bytes : Nat → UInt8) (floating : Lines) (k : Nat) : Lines :=
  Bits.word 4 fun i => if i = 1 then (bytes (k / 8)).toBitVec.getLsbD (7 - k % 8) else floating.getLsbD i

/-- What a chip answers to an instruction, and from which cycle on. -/
def Answers.answer (a : Answers) (xip : Bool) (out : List Lines) : Option (Nat × (Nat → Lines)) :=
  if xip then some (12, quad_out fun i => a.mem (Bytes.ofBE (of_quad (out.take 6)) + i))
  else
    match of_serial (out.take 8) with
    | [cmd] =>
      let body := out.drop 8
      if cmd = 0xEB then some (20, quad_out fun i => a.mem (Bytes.ofBE (of_quad (body.take 6)) + i))
      else if cmd = 0x0B then
        some (40, fun k => serial_out (fun i => a.mem (Bytes.ofBE (of_serial (body.take 24)) + i)) (a.floating k) k)
      else if cmd = 0x5A then
        some (40, fun k => serial_out (fun i => a.sfdp (Bytes.ofBE (of_serial (body.take 24)) + i)) (a.floating k) k)
      else some (8, fun k => serial_out (a.register cmd) (a.floating k) k)
    | _ => none

/-- The lines in a transaction, when the port of the chip select is told in cycle `now` to deselect the chip. -/
def Answers.bus (a : Answers) (xip : Bool) (now : Nat) : Bus := fun t k =>
  match a.answer xip t.out with
  | some (start, lines) => if start ≤ k ∧ k < Port.fires now t.cycles then lines (k - start) else a.floating k
  | none => a.floating k

/-! ## Words from the lines -/

variable {lines : Nat → Lines} {stale : Word} {bytes : Nat → UInt8} {s len i j : Nat}

theorem nibbles_inj {b c : UInt8} (h : nibbles b = nibbles c) : b = c := by
  have hb := of_quad_nibbles [b]
  rw [List.flatMap_singleton, h, ← List.flatMap_singleton nibbles c, of_quad_nibbles] at hb
  exact (List.head_eq_of_cons_eq hb).symm

theorem byte_of_nibble_swap (word : Word) (hj : j < 4) : byte_of (qspi_io_nibble_swap word) j = nibble_swap (byte_of word j) := by
  have hnormal := fun w => nibbles_byte_of .qspi_io_transfer_normal w j
  simp only [TransferMode.byte] at hnormal
  obtain ⟨hlow, hhigh⟩ := nibble_normal word hj
  apply nibbles_inj
  rw [nibbles_nibble_swap, hnormal, hnormal, hlow, hhigh]
  rfl

theorem nibble_swap_nibble_swap (b : UInt8) : nibble_swap (nibble_swap b) = b := by
  apply nibbles_inj
  rw [nibbles_nibble_swap, nibbles_nibble_swap, List.reverse_reverse]

theorem byte_of_shift (word : Word) (d j : Nat) : byte_of (word >>> (8 * d)) j = byte_of word (j + d) := by
  unfold byte_of
  congr 1
  refine BitVec.eq_of_getLsbD_eq fun b hb => ?_
  rw [BitVec.getLsbD_extractLsb', BitVec.getLsbD_extractLsb', BitVec.getLsbD_ushiftRight]
  congr 2
  omega

/-- The levels of the lines in one of the cycles of an input. -/
theorem port_in_lines {last n m : Nat} (hm : 8 ≤ m + n) (hm8 : m < 8) :
    (port_in lines stale last n).extractLsb' (4 * m) 4 = lines (last + 1 + m - 8) := by
  refine BitVec.eq_of_getLsbD_eq fun b hb => ?_
  have hdiv : (4 * m + b) / 4 = m := by omega
  have hmod : (4 * m + b) % 4 = b := by omega
  rw [BitVec.getLsbD_extractLsb', decide_eq_true hb, Bool.true_and, port_in, Bits.getLsbD_word, decide_eq_true (by omega),
    Bool.true_and, if_neg (by omega), hdiv, hmod]

/-- A byte that comes over all four lines is in the port's word with its nibbles swapped. -/
theorem byte_of_port_in {last n k : Nat} (hj : j < 4) (hn : 8 ≤ 2 * j + n)
    (hhigh : lines (last + 1 + 2 * j - 8) = quad_out bytes (2 * k))
    (hlow : lines (last + 1 + (2 * j + 1) - 8) = quad_out bytes (2 * k + 1)) :
    byte_of (port_in lines stale last n) j = nibble_swap (bytes k) := by
  have h1 : (port_in lines stale last n).extractLsb' (8 * j) 4 = quad_out bytes (2 * k) := by
    have h : (port_in lines stale last n).extractLsb' (4 * (2 * j)) 4 = _ := port_in_lines hn (by omega)
    rwa [← Nat.mul_assoc, hhigh] at h
  have h2 : (port_in lines stale last n).extractLsb' (8 * j + 4) 4 = quad_out bytes (2 * k + 1) := by
    have h : (port_in lines stale last n).extractLsb' (4 * (2 * j + 1)) 4 = _ := port_in_lines (by omega) (by omega)
    rwa [Nat.mul_add, ← Nat.mul_assoc, hlow] at h
  have hq1 : quad_out bytes (2 * k) = (bytes k).toBitVec.extractLsb' 4 4 := by
    rw [quad_out, Nat.mul_div_cancel_left k (by omega), Nat.mul_mod_right]
  have hq2 : quad_out bytes (2 * k + 1) = (bytes k).toBitVec.extractLsb' 0 4 := by
    have hdiv : (2 * k + 1) / 2 = k := by omega
    have hmod : (2 * k + 1) % 2 = 1 := by omega
    rw [quad_out, hdiv, hmod]
  apply nibbles_inj
  have hnormal := nibbles_byte_of .qspi_io_transfer_normal (port_in lines stale last n) j
  simp only [TransferMode.byte] at hnormal
  rw [hnormal, nibbles_nibble_swap, h1, h2, hq1, hq2]
  rfl

theorem byte_of_swapped {mode : TransferMode} {word : Word} {b : UInt8} (hj : j < 4) (h : byte_of word j = nibble_swap b) :
    byte_of (swapped mode word) j = mode.byte b := by
  cases mode with
  | qspi_io_transfer_normal =>
    have hswap : swapped .qspi_io_transfer_normal word = qspi_io_nibble_swap word := rfl
    rw [hswap, byte_of_nibble_swap word hj, h, nibble_swap_nibble_swap]
    rfl
  | qspi_io_transfer_nibble_swap => exact h

/-! ## Buffers from the lines -/

theorem foldl_store (data : Nat → UInt8) (words : Nat → Word) (n a : Nat) :
    (List.range n).foldl (fun data i => store data i (words i)) data a =
      if a < 4 * n then byte_of (words (a / 4)) (a % 4) else data a := by
  induction n with
  | zero => rw [if_neg (by omega)]; rfl
  | succ n ih =>
    rw [List.range_succ, List.foldl_append, List.foldl_cons, List.foldl_nil, store, ih]
    by_cases ha : a / 4 = n
    · rw [if_pos ha, if_pos (by omega), ha]
    · rw [if_neg ha]
      by_cases hlt : a < 4 * n
      · rw [if_pos hlt, if_pos (by omega)]
      · rw [if_neg hlt, if_neg (by omega)]

theorem store_bytes_eq (data : Nat → UInt8) (i : Nat) (word : Word) (n a : Nat) :
    store_bytes data i word n a = if i ≤ a ∧ a < i + n then byte_of word (a - i) else data a := by
  induction n generalizing data i word with
  | zero => rw [if_neg (by omega)]; rfl
  | succ n ih =>
    rw [store_bytes, ih]
    by_cases hlater : i + 1 ≤ a ∧ a < i + 1 + n
    · have hshift := byte_of_shift word 1 (a - (i + 1))
      have hindex : a - (i + 1) + 1 = a - i := by omega
      rw [Nat.mul_one, hindex] at hshift
      rw [if_pos hlater, if_pos (by omega), hshift]
    · rw [if_neg hlater]
      by_cases ha : a = i
      · subst ha
        rw [Function.update_self, if_pos (by omega), Nat.sub_self]
      · rw [Function.update_of_ne ha, if_neg (by omega)]

/-- All bytes that the chip sends over all four lines from cycle `s` on are in the buffer, and nothing else is. -/
theorem bytes_in_eq (mode : TransferMode) (data : Nat → UInt8) {start_time : Nat} (hs : 8 ≤ s)
    (hstart : start_time = s + 2 * (if len > 4 then 4 else len) - 1) (hlines : ∀ k < 2 * len, lines (s + k) = quad_out bytes k) :
    qspi_io_bytes_in lines stale mode data start_time len = fun a => if a < len then mode.byte (bytes a) else data a := by
  have hwords : ∀ i < len / 4, ∀ j < 4,
      byte_of (swapped mode (port_in lines stale (start_time + 8 * i) 8)) j = mode.byte (bytes (4 * i + j)) := by
    intro i hi j hj
    have htime : start_time = s + 7 := by
      rw [hstart]
      split <;> omega
    refine byte_of_swapped hj (byte_of_port_in hj (by omega) ?_ ?_)
    · have hcycle : start_time + 8 * i + 1 + 2 * j - 8 = s + 2 * (4 * i + j) := by omega
      rw [hcycle, hlines _ (by omega)]
    · have hcycle : start_time + 8 * i + 1 + (2 * j + 1) - 8 = s + (2 * (4 * i + j) + 1) := by omega
      rw [hcycle, hlines _ (by omega)]
  funext a
  unfold qspi_io_bytes_in
  simp only
  by_cases hrem : len % 4 = 0
  · rw [if_neg (not_not.2 hrem), foldl_store]
    by_cases ha : a < len
    · have hindex : 4 * (a / 4) + a % 4 = a := Nat.div_add_mod a 4
      rw [if_pos (by omega), if_pos ha, hwords _ (by omega) _ (by omega), hindex]
    · rw [if_neg (by omega), if_neg ha]
  · generalize hword : (if len / 4 > 0 then _ else _) = word
    have htail : ∀ j < len % 4, byte_of word (j + (4 - len % 4)) = nibble_swap (bytes (4 * (len / 4) + j)) := by
      intro j hj
      rw [← hword]
      split
      · have htime : start_time = s + 7 := by
          rw [hstart]
          split <;> omega
        refine byte_of_port_in (by omega) (by omega) ?_ ?_
        · have hcycle : start_time + 8 * (len / 4 - 1) + 2 * (len % 4) + 1 + 2 * (j + (4 - len % 4)) - 8 =
            s + 2 * (4 * (len / 4) + j) := by omega
          rw [hcycle, hlines _ (by omega)]
        · have hcycle : start_time + 8 * (len / 4 - 1) + 2 * (len % 4) + 1 + (2 * (j + (4 - len % 4)) + 1) - 8 =
            s + (2 * (4 * (len / 4) + j) + 1) := by omega
          rw [hcycle, hlines _ (by omega)]
      · -- the word ends with the last byte, and what was on the lines before is below
        have htime : start_time = s + 2 * len - 1 := by
          rw [hstart]
          split <;> omega
        refine byte_of_port_in (by omega) (by omega) ?_ ?_
        · have hcycle : start_time + 1 + 2 * (j + (4 - len % 4)) - 8 = s + 2 * (4 * (len / 4) + j) := by omega
          rw [hcycle, hlines _ (by omega)]
        · have hcycle : start_time + 1 + (2 * (j + (4 - len % 4)) + 1) - 8 = s + (2 * (4 * (len / 4) + j) + 1) := by omega
          rw [hcycle, hlines _ (by omega)]
    rw [if_pos hrem, store_bytes_eq, foldl_store]
    by_cases hlast : 4 * (len / 4) ≤ a ∧ a < 4 * (len / 4) + len % 4
    · have hindex : 4 * (len / 4) + (a - 4 * (len / 4)) = a := by omega
      have hbyte : byte_of (word >>> (8 * (4 - len % 4))) (a - 4 * (len / 4)) = nibble_swap (bytes a) := by
        rw [byte_of_shift, htail _ (by omega), hindex]
      rw [if_pos hlast, if_pos (by omega), byte_of_swapped (by omega) hbyte]
    · rw [if_neg hlast]
      by_cases ha : a < len
      · have hindex : 4 * (a / 4) + a % 4 = a := Nat.div_add_mod a 4
        rw [if_pos (by omega), if_pos ha, hwords _ (by omega) _ (by omega), hindex]
      · rw [if_neg (by omega), if_neg ha]

theorem foldl_update (data : Nat → UInt8) (b : Nat → UInt8) (n a : Nat) :
    (List.range n).foldl (fun data i => Function.update data i (b i)) data a = if a < n then b a else data a := by
  induction n with
  | zero => rfl
  | succ n ih =>
    rw [List.range_succ, List.foldl_append, List.foldl_cons, List.foldl_nil]
    by_cases ha : a = n
    · subst ha
      rw [Function.update_self, if_pos (by omega)]
    · rw [Function.update_of_ne ha, ih]
      by_cases hlt : a < n
      · rw [if_pos hlt, if_pos (by omega)]
      · rw [if_neg hlt, if_neg (by omega)]

/-- A byte that comes over SIO1. -/
theorem byte_of_miso {last k : Nat} {f : Nat → Lines} (hlast : 7 ≤ last)
    (h : ∀ m < 8, lines (last - 7 + m) = serial_out bytes (f m) (8 * k + m)) :
    byte_of (qspi_io_miso_to_byte (port_in lines stale last 8)) 0 = bytes k := by
  have hbits : (qspi_io_miso_to_byte (port_in lines stale last 8)).extractLsb' (8 * 0) 8 = (bytes k).toBitVec := by
    refine BitVec.eq_of_getLsbD_eq fun b hb => ?_
    have hcycle : last + 1 + (29 - 4 * (8 * 0 + b)) / 4 - 8 = last - 7 + (7 - b) := by omega
    have hdiv : (8 * k + (7 - b)) / 8 = k := by omega
    have hmod : 7 - (8 * k + (7 - b)) % 8 = b := by omega
    have hline : (29 - 4 * (8 * 0 + b)) % 4 = 1 := by omega
    rw [BitVec.getLsbD_extractLsb', decide_eq_true hb, Bool.true_and, getLsbD_miso_to_byte _ (by omega), port_in,
      Bits.getLsbD_word, decide_eq_true (by omega), Bool.true_and, if_neg (by omega), hcycle, h (7 - b) (by omega), hline,
      serial_out, Bits.getLsbD_word, if_pos rfl, hdiv, hmod]
    rfl
  rw [byte_of, hbits, UInt8.ofBitVec_toBitVec]

theorem miso_in_eq (data : Nat → UInt8) {f : Nat → Lines}
    (hlines : ∀ k < 8 * len, lines (s + k) = serial_out bytes (f k) k) :
    qspi_io_miso_in lines stale .qspi_io_transfer_normal data (s + 7) len = fun a => if a < len then bytes a else data a := by
  funext a
  unfold qspi_io_miso_in
  simp only [ne_eq, not_true_eq_false, if_false]
  rw [foldl_update]
  by_cases ha : a < len
  · rw [if_pos ha, if_pos ha]
    refine byte_of_miso (f := fun m => f (8 * a + m)) (by omega) fun m hm => ?_
    have hcycle : s + 7 + 8 * a - 7 + m = s + (8 * a + m) := by omega
    rw [hcycle, hlines _ (by omega)]
  · rw [if_neg ha, if_neg ha]

/-! ## Whole reads -/

variable (a : Answers) (data : Nat → UInt8) (address : Word)

/-- The lines while the chip answers. -/
theorem bus_answer {xip : Bool} {t : Transaction} {start now k : Nat} {g : Nat → Lines}
    (h : a.answer xip t.out = some (start, g)) (hnow : now ≤ t.cycles) (hcycles : t.cycles < 65536)
    (hk : start + k < t.cycles) : a.bus xip now t (start + k) = g k := by
  have hfires : Port.fires now t.cycles = t.cycles := Port.fires_eq hnow (by omega) rfl
  simp only [Answers.bus, h, hfires]
  rw [if_pos ⟨Nat.le_add_right start k, hk⟩, Nat.add_sub_cancel_left]

/-- The lines of the rotated address: its three bytes, and its highest one in the first two dummy cycles. -/
theorem rotated_lines : port_out (qspi_io_nibble_swap (byterev ((address <<< 8) ||| (address >>> 24)))) 8 =
    (address_list address).flatMap nibbles ++ nibbles (byte_of address 3) := by
  have hbyte : ∀ j < 4, byte_of ((address <<< 8) ||| (address >>> 24)) j = byte_of address ((j + 3) % 4) := by
    intro j hj
    unfold byte_of
    congr 1
    refine BitVec.eq_of_getLsbD_eq fun b hb => ?_
    rw [BitVec.getLsbD_extractLsb', BitVec.getLsbD_extractLsb', decide_eq_true hb, Bool.true_and, Bool.true_and,
      BitVec.getLsbD_or, BitVec.getLsbD_shiftLeft, BitVec.getLsbD_ushiftRight, decide_eq_true (by omega), Bool.true_and]
    by_cases h0 : j = 0
    · subst h0
      have hlow : 8 * 0 + b < 8 := by omega
      have hindex : 24 + (8 * 0 + b) = 8 * ((0 + 3) % 4) + b := by omega
      rw [decide_eq_true hlow, hindex]
      rfl
    · have hhigh : ¬ 8 * j + b < 8 := by omega
      have hindex : 8 * j + b - 8 = 8 * ((j + 3) % 4) + b := by omega
      rw [decide_eq_false hhigh, hindex, BitVec.getLsbD_of_ge address (24 + (8 * j + b)) (by omega)]
      simp
  have h := word_out_eq .qspi_io_transfer_normal ((address <<< 8) ||| (address >>> 24))
  have hswapped : ∀ w, swapped .qspi_io_transfer_normal w = qspi_io_nibble_swap w := fun _ => rfl
  rw [hswapped] at h
  rw [h]
  simp only [TransferMode.byte, List.flatMap_cons, List.flatMap_nil, address_list, List.map_cons, List.map_nil, List.append_nil,
    hbyte 3 (by omega), hbyte 2 (by omega), hbyte 1 (by omega), hbyte 0 (by omega), List.append_assoc]

theorem of_quad_address (rest : List Lines) :
    Bytes.ofBE (of_quad (((address_list address).flatMap nibbles ++ rest).take 6)) = address.toNat % 2 ^ 24 := by
  have hlen : ((address_list address).flatMap nibbles).length = 6 := length_flatMap_nibbles _
  rw [List.take_left' hlen, of_quad_nibbles, ofBE_address]

theorem of_serial_address :
    Bytes.ofBE (of_serial (((address_list address).flatMap serial).take 24)) = address.toNat % 2 ^ 24 := by
  have hlen : ((address_list address).flatMap serial).length = 24 := length_flatMap_serial _
  rw [List.take_of_length_le (Nat.le_of_eq hlen), of_serial_serial, ofBE_address]

theorem read_i_eq (stale : Word) (mode : TransferMode) (xip : Bool) {now : Nat} (hlen : len < 32758)
    (hnow : now ≤ if xip then 12 else 20) :
    qspi_flash_read_i (a.bus xip now) stale mode xip data address len =
      fun i => if i < len then mode.byte (a.mem (address.toNat % 2 ^ 24 + i)) else data i := by
  have hstart : qspi_io_start_transaction ((address <<< 8) ||| (address >>> 24)) = _ := rotated_lines address
  have hwords : qspi_io_words_out .qspi_io_transfer_normal [(address <<< 8) ||| (address >>> 24)] =
      (address_list address).flatMap nibbles ++ nibbles (byte_of address 3) := by
    rw [qspi_io_words_out, List.flatMap_singleton]
    exact rotated_lines address
  cases xip with
  | true =>
    simp only [if_true] at hnow
    simp only [qspi_flash_read_i, qspi_flash_read_calc, if_true, hstart]
    refine bytes_in_eq (s := 12) mode data (by omega) rfl fun k hk => ?_
    refine bus_answer a ?_ (by simp only [QUAD_IO_READ_DUMMY_CYCLES]; omega) (by simp only [QUAD_IO_READ_DUMMY_CYCLES]; omega)
      (by simp only [QUAD_IO_READ_DUMMY_CYCLES]; omega)
    simp only [Answers.answer, if_true, of_quad_address]
  | false =>
    simp only [Bool.false_eq_true, if_false] at hnow
    simp only [qspi_flash_read_i, qspi_flash_read_calc, Bool.false_eq_true, if_false, hwords, QUAD_IO_READ_COMMAND, start_command]
    refine bytes_in_eq (s := 20) mode data (by omega) rfl fun k hk => ?_
    refine bus_answer a ?_ (by simp only [QUAD_IO_READ_DUMMY_CYCLES]; omega) (by simp only [QUAD_IO_READ_DUMMY_CYCLES]; omega)
      (by simp only [QUAD_IO_READ_DUMMY_CYCLES]; omega)
    obtain ⟨hserial, hdrop⟩ := of_serial_command 0xEB ((address_list address).flatMap nibbles ++ nibbles (byte_of address 3))
    simp only [Answers.answer, Bool.false_eq_true, if_false, hserial, hdrop, if_true, of_quad_address]

theorem fast_read_i_eq (stale : Word) {cmd : UInt8} {f : Nat → Lines} {now : Nat} (hlen : len < 8187) (hnow : now ≤ 40)
    (h : ∃ start answer, a.answer false (serial cmd ++ (address_list address).flatMap serial) = some (start, answer) ∧ start ≤ 40 ∧
      ∀ k, answer (40 - start + k) = serial_out bytes (f k) k) :
    qspi_flash_fast_read_i (a.bus false now) stale (command cmd) data address len =
      fun i => if i < len then bytes i else data i := by
  obtain ⟨start, answer, hanswer, hle, hlines⟩ := h
  unfold qspi_flash_fast_read_i
  simp only [start_command, mosi_address, FAST_READ_DUMMY_CYCLES]
  refine miso_in_eq (s := 40) (f := f) data fun k hk => ?_
  have hcycle : 40 + k = start + (40 - start + k) := by omega
  rw [← hlines, hcycle]
  exact bus_answer a hanswer (by simp only; omega) (by simp only; omega) (by simp only; omega)

/-- The instructions that the chip answers with something other than a register. -/
def answered : List UInt8 := [0xEB, 0x0B, 0x5A]

theorem read_register_eq (stale : Word) {cmd : UInt8} (hcmd : cmd ∉ answered) {now : Nat} (hlen : len < 8191) (hnow : now ≤ 8) :
    qspi_flash_read_register (a.bus false now) stale (command cmd) data len =
      fun i => if i < len then a.register cmd i else data i := by
  simp only [answered, List.mem_cons, List.not_mem_nil, or_false, not_or] at hcmd
  unfold qspi_flash_read_register
  rw [start_command]
  refine miso_in_eq (s := 8) (f := a.floating) data fun k hk => ?_
  refine bus_answer (g := fun k => serial_out (a.register cmd) (a.floating k) k) a ?_ (by simp only; omega)
    (by simp only; omega) (by simp only; omega)
  obtain ⟨hserial, -⟩ := of_serial_command cmd []
  rw [List.append_nil] at hserial
  simp only [Answers.answer, Bool.false_eq_true, if_false, hserial, if_neg hcmd.1, if_neg hcmd.2.1, if_neg hcmd.2.2]

/-- What the functions that read put into the buffer, of a chip that answers like this. The chip select's port may be
told to deselect the chip in any cycle before the answer begins. -/
structure ReadFrom (stale : Word) (len : Nat) : Prop where
  read : len < 32758 → ∀ now ≤ 20, qspi_flash_read (a.bus false now) stale data address len =
    fun i => if i < len then a.mem (address.toNat % 2 ^ 24 + i) else data i
  read_nibble_swapped : len < 32758 → ∀ now ≤ 20,
    qspi_flash_read_nibble_swapped (a.bus false now) stale data address len =
      fun i => if i < len then nibble_swap (a.mem (address.toNat % 2 ^ 24 + i)) else data i
  xip_read : len < 32758 → ∀ now ≤ 12, qspi_flash_xip_read (a.bus true now) stale data address len =
    fun i => if i < len then a.mem (address.toNat % 2 ^ 24 + i) else data i
  xip_read_nibble_swapped : len < 32758 → ∀ now ≤ 12,
    qspi_flash_xip_read_nibble_swapped (a.bus true now) stale data address len =
      fun i => if i < len then nibble_swap (a.mem (address.toNat % 2 ^ 24 + i)) else data i
  sfdp_read : len < 8187 → ∀ now ≤ 40, qspi_flash_sfdp_read (a.bus false now) stale data address len =
    fun i => if i < len then a.sfdp (address.toNat % 2 ^ 24 + i) else data i
  read_register : ∀ cmd ∉ answered, len < 8191 → ∀ now ≤ 8,
    qspi_flash_read_register (a.bus false now) stale (command cmd) data len =
      fun i => if i < len then a.register cmd i else data i
  /-- Its command is converted twice and so not 0x0B: the buffer has nothing of the chip's memory. -/
  fast_read : len < 8187 → ∀ now ≤ 40, qspi_flash_fast_read (a.bus false now) stale data address len =
    fun i => if i < len then a.register 0xFF (4 + i) else data i

/-- Over all four lines or over one, with or without a command, and whether or
not the length is one of whole words, the buffer gets what the chip has from the
address on, and the bytes behind the buffer are left alone. -/
theorem reads_answered (stale : Word) (len : Nat) : ReadFrom a data address stale len := by
  have hserial : ∀ cmd, of_serial ((serial cmd ++ (address_list address).flatMap serial).take 8) = [cmd] ∧
      (serial cmd ++ (address_list address).flatMap serial).drop 8 = (address_list address).flatMap serial :=
    fun cmd => of_serial_command cmd _
  refine ⟨fun hlen now hnow => read_i_eq a data address stale _ false hlen hnow,
    fun hlen now hnow => read_i_eq a data address stale _ false hlen hnow,
    fun hlen now hnow => read_i_eq a data address stale _ true hlen hnow,
    fun hlen now hnow => read_i_eq a data address stale _ true hlen hnow, ?_,
    fun cmd hcmd hlen now hnow => read_register_eq a data stale hcmd hlen hnow, ?_⟩
  · intro hlen now hnow
    obtain ⟨h1, h2⟩ := hserial 0x5A
    have hanswer : a.answer false (serial 0x5A ++ (address_list address).flatMap serial) =
        some (40, fun k => serial_out (fun i => a.sfdp (address.toNat % 2 ^ 24 + i)) (a.floating k) k) := by
      simp only [Answers.answer, Bool.false_eq_true, if_false, h1, h2, of_serial_address, if_true]
      rfl
    refine fast_read_i_eq (f := a.floating) a data address stale hlen hnow ⟨40, _, hanswer, Nat.le_refl 40, fun k => ?_⟩
    rw [Nat.sub_self, Nat.zero_add]
  · intro hlen now hnow
    obtain ⟨h1, -⟩ := hserial 0xFF
    have hcmd : byte_of FAST_READ_COMMAND 0 = 0xFF := by decide
    have hanswer : a.answer false (serial 0xFF ++ (address_list address).flatMap serial) =
        some (8, fun k => serial_out (a.register 0xFF) (a.floating k) k) := by
      simp only [Answers.answer, Bool.false_eq_true, if_false, h1]
      rfl
    rw [qspi_flash_fast_read, hcmd]
    refine fast_read_i_eq (f := fun k => a.floating (32 + k)) a data address stale hlen hnow
      ⟨8, _, hanswer, by omega, fun k => ?_⟩
    -- by then four bytes of the answer have gone by
    have hdiv : (32 + k) / 8 = 4 + k / 8 := by omega
    have hmod : (32 + k) % 8 = k % 8 := by omega
    simp only [serial_out, hdiv, hmod]

end Wire
end QspiFlash
