import XcoreSdk.QspiFlash.Sfdp
import XcoreSdk.Spi.Master
import Mathlib.Data.List.Basic
/-!
# The four lines of the QSPI interface

The port moves words, four bits in each cycle of the clock and the lowest ones
first, while the flash takes the bits of a byte with the highest one first:
over SIO0 alone, one bit in each cycle, or over all four lines, a nibble in each
cycle. `serial` and `nibbles` are a byte in these two forms; below, what the
functions of `qspi_io.h` put on the lines comes down to them.
-/

namespace QspiFlash
namespace Wire
open Spi.Master (zip unzip)

abbrev Word := BitVec 32

/-- The levels of the lines in one cycle. Bit 0 is SIO0, which is MOSI, and bit 1 is SIO1, which is MISO. -/
abbrev Lines := BitVec 4

inductive TransferMode
  | qspi_io_transfer_normal | qspi_io_transfer_nibble_swap
deriving DecidableEq

/-! ## `qspi_io.h` -/

/-- What `port_out` puts on the lines, in so many cycles. -/
def port_out (word : Word) (cycles : Nat) : List Lines := (List.range cycles).map fun k => word.extractLsb' (4 * k) 4

/-- What `port_in` takes from the lines in the `n` cycles up to `last`. The bits below are those of an earlier input. -/
def port_in (lines : Nat → Lines) (stale : Word) (last n : Nat) : Word :=
  Bits.word 32 fun k => if k < 32 - 4 * n then stale.getLsbD k else (lines (last + 1 + k / 4 - 8)).getLsbD (k % 4)

def byterev (word : Word) : Word := Bits.word 32 fun k => word.getLsbD (24 - 8 * (k / 8) + k % 8)

def qspi_io_nibble_swap (word : Word) : Word := ((word &&& 0x0F0F0F0F) <<< 4) ||| ((word &&& 0xF0F0F0F0) >>> 4)

def qspi_io_byte_to_mosi (x : Word) : Word :=
  let ones : Word := 0xFFFFFFFF
  let x := x ||| 0xFFFFFF00
  let (x, ones) := zip x ones
  let (_, x) := zip ones x
  x.reverse

def qspi_io_miso_to_byte (x : Word) : Word :=
  let (unzipped, x) := unzip 0 x.reverse
  (unzip unzipped x).1

/-- A word of a buffer. -/
def load (data : Nat → UInt8) (i : Nat) : Word := Bits.word 32 fun k => (data (4 * i + k / 8)).toBitVec.getLsbD (k % 8)

/-- What `qspi_io_start_transaction` puts on the lines. -/
def qspi_io_start_transaction (first_word : Word) : List Lines := port_out (qspi_io_nibble_swap (byterev first_word)) 8

def swapped (transfer_mode : TransferMode) (word : Word) : Word :=
  if transfer_mode = .qspi_io_transfer_normal then qspi_io_nibble_swap word else word

def qspi_io_bytes_out (transfer_mode : TransferMode) (data : Nat → UInt8) (len : Nat) : List Lines :=
  let words := (List.range (len / 4)).flatMap fun i => port_out (swapped transfer_mode (load data i)) 8
  if len % 4 ≠ 0 then words ++ port_out (swapped transfer_mode (load data (len / 4))) (2 * (len % 4)) else words

def qspi_io_words_out (transfer_mode : TransferMode) (data : List Word) : List Lines :=
  data.flatMap fun word => port_out (swapped transfer_mode (byterev word)) 8

def qspi_io_mosi_out (transfer_mode : TransferMode) (data : Nat → UInt8) (len : Nat) : List Lines :=
  (List.range len).flatMap fun i =>
    let word : Word := (data i).toBitVec.setWidth 32
    let word := if transfer_mode ≠ .qspi_io_transfer_normal then qspi_io_nibble_swap word else word
    port_out (qspi_io_byte_to_mosi word) 8

/-! ## Bytes on the lines -/

/-- A byte over SIO0, the other lines high. -/
def serial (b : UInt8) : List Lines := (Bits.toBits 8 b.toNat).map fun bit => if bit then 0xF else 0xE

/-- A byte over all four lines. -/
def nibbles (b : UInt8) : List Lines := [b.toBitVec.extractLsb' 4 4, b.toBitVec.extractLsb' 0 4]

/-- A byte with its nibbles swapped. -/
def nibble_swap (b : UInt8) : UInt8 := b <<< 4 ||| b >>> 4

/-- A byte as it is to be sent, or with its nibbles swapped. -/
def TransferMode.byte : TransferMode → UInt8 → UInt8
  | .qspi_io_transfer_normal, b => b
  | .qspi_io_transfer_nibble_swap, b => nibble_swap b

/-- The bytes that a flash takes over SIO0. -/
def of_serial (lines : List Lines) : List UInt8 := Bits.bytes (lines.map (·.getLsbD 0))

/-- The bytes that a flash takes over all four lines. -/
def of_quad (lines : List Lines) : List UInt8 := Bits.bytes (lines.flatMap fun l => Bits.toBits 4 l.toNat)

theorem length_serial (b : UInt8) : (serial b).length = 8 := by simp [serial]

theorem of_serial_serial (bs : List UInt8) : of_serial (bs.flatMap serial) = bs := by
  have hbits : (bs.flatMap serial).map (·.getLsbD 0) = bs.flatMap fun b => Bits.toBits 8 b.toNat := by
    rw [List.map_flatMap]
    refine List.flatMap_congr fun b _ => ?_
    rw [serial, List.map_map]
    refine (List.map_congr_left fun bit _ => ?_).trans (List.map_id _)
    cases bit <;> rfl
  rw [of_serial, hbits, Bits.bytes_flatMap]

theorem of_quad_nibbles (bs : List UInt8) : of_quad (bs.flatMap nibbles) = bs := by
  have hbits : ((bs.flatMap nibbles).flatMap fun l => Bits.toBits 4 l.toNat) = bs.flatMap fun b => Bits.toBits 8 b.toNat := by
    rw [List.flatMap_assoc]
    refine List.flatMap_congr fun b _ => ?_
    have hbits : ∀ (w n : Nat) (v : BitVec w), Bits.toBits n v.toNat = (List.range n).map fun i => v.getLsbD (n - 1 - i) :=
      fun _ _ _ => rfl
    rw [← UInt8.toNat_toBitVec]
    simp [nibbles, hbits, List.range_succ, -UInt8.toNat_toBitVec]
  rw [of_quad, hbits, Bits.bytes_flatMap]

/-! ## Bit by bit -/

variable {i j k : Nat}

theorem getLsbD_byterev (word : Word) (hk : k < 32) : (byterev word).getLsbD k = word.getLsbD (24 - 8 * (k / 8) + k % 8) := by
  rw [byterev, Bits.getLsbD_word, decide_eq_true hk, Bool.true_and]

theorem getLsbD_nibble_swap (word : Word) (hk : k < 32) :
    (qspi_io_nibble_swap word).getLsbD k = word.getLsbD (if k % 8 < 4 then k + 4 else k - 4) := by
  have hlow : ∀ k < 32, (0x0F0F0F0F : Word).getLsbD k = decide (k % 8 < 4) := by decide
  have hhigh : ∀ k < 32, (0xF0F0F0F0 : Word).getLsbD k = decide (¬ k % 8 < 4) := by decide
  simp only [qspi_io_nibble_swap, BitVec.getLsbD_or, BitVec.getLsbD_shiftLeft, BitVec.getLsbD_and,
    BitVec.getLsbD_ushiftRight, decide_eq_true hk, Bool.true_and]
  by_cases h : k % 8 < 4
  · have hup : ¬ (4 + k) % 8 < 4 := by omega
    rw [if_pos h, hhigh (4 + k) (by omega), decide_eq_true hup, Bool.and_true, Nat.add_comm 4 k]
    by_cases h4 : k < 4
    · simp [h4]
    · have hdown : ¬ (k - 4) % 8 < 4 := by omega
      rw [hlow (k - 4) (by omega), decide_eq_false hdown]
      simp
  · have hdown : (k - 4) % 8 < 4 := by omega
    have h4 : ¬ k < 4 := by omega
    rw [if_neg h, hlow (k - 4) (by omega), decide_eq_true hdown, decide_eq_false h4]
    by_cases hlast : 4 + k < 32
    · rw [hhigh (4 + k) hlast, decide_eq_false (by omega)]
      simp
    · rw [BitVec.getLsbD_of_ge word (4 + k) (by omega)]
      simp

theorem getLsbD_byte_to_mosi (x : Word) (hk : k < 32) :
    (qspi_io_byte_to_mosi x).getLsbD k = if k % 4 = 0 then x.getLsbD (7 - k / 4) else true := by
  have hones : ∀ k < 32, (0xFFFFFFFF : Word).getLsbD k = true := by decide
  have hhigh : ∀ k < 32, (0xFFFFFF00 : Word).getLsbD k = decide (8 ≤ k) := by decide
  simp only [qspi_io_byte_to_mosi, zip, BitVec.getLsbD_reverse, BitVec.getMsbD_eq_getLsbD, decide_eq_true hk, Bool.true_and,
    Bits.getLsbD_word, BitVec.getLsbD_or]
  have hrev : 32 - 1 - k < 32 := by omega
  have hhalf : (32 - 1 - k) / 2 < 32 := by omega
  have hquarter : (32 - 1 - k) / 2 / 2 = 7 - k / 4 := by omega
  have hbyte : ¬ 8 ≤ 7 - k / 4 := by omega
  rw [decide_eq_true hrev, decide_eq_true hhalf, hquarter, hhigh (7 - k / 4) (by omega), hhigh (16 + (7 - k / 4)) (by omega),
    hones (7 - k / 4) (by omega), hones (16 + (7 - k / 4)) (by omega), decide_eq_false hbyte, decide_eq_true (by omega)]
  by_cases h4 : k % 4 = 0
  · rw [if_pos (by omega : (32 - 1 - k) % 2 = 1), if_pos (by omega : (32 - 1 - k) / 2 % 2 = 1), if_pos h4]
    simp
  · rw [if_neg h4]
    -- above SIO0 there are the bits of `ones`, and those that `x` begins with
    by_cases h2 : (32 - 1 - k) % 2 = 1
    · rw [if_pos h2, if_neg (by omega : ¬ (32 - 1 - k) / 2 % 2 = 1)]
      rfl
    · rw [if_neg h2]
      simp

theorem getLsbD_BYTE_TO_MOSI (x : UInt8) (hk : k < 32) :
    (BitVec.ofNat 32 (QSPI_IO_BYTE_TO_MOSI x)).getLsbD k = if k % 4 = 0 then x.toBitVec.getLsbD (k / 4) else true := by
  have hall : ∀ n < 256, ∀ k < 32, (BitVec.ofNat 32 (QSPI_IO_BYTE_TO_MOSI (UInt8.ofNat n))).getLsbD k =
      if k % 4 = 0 then (UInt8.ofNat n).toBitVec.getLsbD (k / 4) else true := by decide +kernel
  have h := hall x.toNat x.toNat_lt k hk
  rwa [UInt8.ofNat_toNat] at h

theorem getLsbD_miso_to_byte (x : Word) (hk : k < 8) : (qspi_io_miso_to_byte x).getLsbD k = x.getLsbD (29 - 4 * k) := by
  have h32 : k < 32 := by omega
  have hodd : 2 * k + 1 < 32 := by omega
  have heven : 2 * (2 * k + 1) < 32 := by omega
  have hrev : 32 - 1 - 2 * (2 * k + 1) = 29 - 4 * k := by omega
  simp only [qspi_io_miso_to_byte, unzip, Bits.getLsbD_word, decide_eq_true h32, Bool.true_and, BitVec.getLsbD_append,
    if_pos hodd, decide_eq_true hodd, if_pos heven, BitVec.getLsbD_reverse, BitVec.getMsbD_eq_getLsbD, decide_eq_true heven, hrev]

/-! ## Words on the lines -/

/-- A word with the bits of a byte on SIO0, and the other lines high. -/
theorem port_out_serial {word : Word} {x : UInt8}
    (h : ∀ k < 32, word.getLsbD k = if k % 4 = 0 then x.toBitVec.getLsbD (7 - k / 4) else true) :
    port_out word 8 = serial x := by
  unfold port_out serial Bits.toBits
  rw [List.map_map]
  refine List.map_congr_left fun i hi => BitVec.eq_of_getLsbD_eq fun b hb => ?_
  have hi := List.mem_range.1 hi
  have hF : ∀ b < 4, (0xF : Lines).getLsbD b = true := by decide
  have hE : ∀ b < 4, (0xE : Lines).getLsbD b = decide (b ≠ 0) := by decide
  have hbit : x.toNat.testBit (8 - 1 - i) = x.toBitVec.getLsbD (7 - i) := rfl
  rw [BitVec.getLsbD_extractLsb', decide_eq_true hb, Bool.true_and, h _ (by omega), Function.comp_apply, hbit]
  by_cases h0 : b = 0
  · subst h0
    rw [if_pos (by omega), Nat.add_zero, Nat.mul_div_cancel_left i (by omega)]
    cases x.toBitVec.getLsbD (7 - i) <;> rfl
  · rw [if_neg (by omega)]
    split
    · rw [hF b hb]
    · rw [hE b hb, decide_eq_true h0]

theorem port_out_mosi (x : UInt8) : port_out (qspi_io_byte_to_mosi (x.toBitVec.setWidth 32)) 8 = serial x := by
  refine port_out_serial fun k hk => ?_
  rw [getLsbD_byte_to_mosi _ hk, BitVec.getLsbD_setWidth, decide_eq_true (by omega), Bool.true_and]

/-- The command that starts a transaction is sent as `qspi_io_mosi_out` sends a byte. -/
theorem start_transaction_mosi (x : UInt8) :
    qspi_io_start_transaction (BitVec.ofNat 32 (QSPI_IO_BYTE_TO_MOSI x)) = serial x := by
  refine port_out_serial fun k hk => ?_
  rw [getLsbD_nibble_swap _ hk]
  generalize hm : (if k % 8 < 4 then k + 4 else k - 4) = m
  have hm32 : m < 32 := by split at hm <;> omega
  rw [getLsbD_byterev _ hm32, getLsbD_BYTE_TO_MOSI _ (by omega)]
  by_cases h4 : k % 4 = 0
  · have hdiv : (24 - 8 * (m / 8) + m % 8) / 4 = 7 - k / 4 := by split at hm <;> omega
    rw [if_pos h4, if_pos (by split at hm <;> omega), hdiv]
  · rw [if_neg h4, if_neg (by split at hm <;> omega)]

/-- The bytes of a word, the lowest first. -/
def byte_of (word : Word) (j : Nat) : UInt8 := UInt8.ofBitVec (word.extractLsb' (8 * j) 8)

theorem nibble_normal (word : Word) {j : Nat} (hj : j < 4) :
    (qspi_io_nibble_swap word).extractLsb' (8 * j) 4 = word.extractLsb' (8 * j + 4) 4 ∧
      (qspi_io_nibble_swap word).extractLsb' (8 * j + 4) 4 = word.extractLsb' (8 * j) 4 := by
  constructor
  · refine BitVec.eq_of_getLsbD_eq fun b hb => ?_
    rw [BitVec.getLsbD_extractLsb', BitVec.getLsbD_extractLsb', getLsbD_nibble_swap _ (by omega), if_pos (by omega)]
    congr 2
    omega
  · refine BitVec.eq_of_getLsbD_eq fun b hb => ?_
    rw [BitVec.getLsbD_extractLsb', BitVec.getLsbD_extractLsb', getLsbD_nibble_swap _ (by omega), if_neg (by omega)]
    congr 2
    omega

theorem nibbles_nibble_swap (b : UInt8) : nibbles (nibble_swap b) = (nibbles b).reverse := by
  have hall : ∀ n < 256, nibbles (nibble_swap (UInt8.ofNat n)) = (nibbles (UInt8.ofNat n)).reverse := by decide +kernel
  have h := hall b.toNat b.toNat_lt
  rwa [UInt8.ofNat_toNat] at h

theorem nibbles_byte_of (mode : TransferMode) (word : Word) (j : Nat) : nibbles (mode.byte (byte_of word j)) =
    match mode with
    | .qspi_io_transfer_normal => [word.extractLsb' (8 * j + 4) 4, word.extractLsb' (8 * j) 4]
    | .qspi_io_transfer_nibble_swap => [word.extractLsb' (8 * j) 4, word.extractLsb' (8 * j + 4) 4] := by
  have hnibbles : nibbles (byte_of word j) = [word.extractLsb' (8 * j + 4) 4, word.extractLsb' (8 * j) 4] := by
    simp only [nibbles, byte_of]
    congr 1
    · refine BitVec.eq_of_getLsbD_eq fun b hb => ?_
      rw [BitVec.getLsbD_extractLsb', BitVec.getLsbD_extractLsb', BitVec.getLsbD_extractLsb', decide_eq_true (by omega : 4 + b < 8),
        Bool.true_and, Nat.add_assoc]
    · congr 1
      refine BitVec.eq_of_getLsbD_eq fun b hb => ?_
      rw [BitVec.getLsbD_extractLsb', BitVec.getLsbD_extractLsb', BitVec.getLsbD_extractLsb', decide_eq_true (by omega : 0 + b < 8),
        Bool.true_and, Nat.zero_add]
  cases mode with
  | qspi_io_transfer_normal => exact hnibbles
  | qspi_io_transfer_nibble_swap => rw [TransferMode.byte, nibbles_nibble_swap, hnibbles]; rfl

/-- The port sends the bytes of a word with their upper nibbles first, when these have been swapped before. -/
theorem port_out_swapped (mode : TransferMode) (word : Word) {n : Nat} (hn : n ≤ 4) :
    port_out (swapped mode word) (2 * n) = (List.range n).flatMap fun j => nibbles (mode.byte (byte_of word j)) := by
  induction n with
  | zero => rfl
  | succ n ih =>
    have hsucc : port_out (swapped mode word) (2 * (n + 1)) = port_out (swapped mode word) (2 * n) ++
        [(swapped mode word).extractLsb' (8 * n) 4, (swapped mode word).extractLsb' (8 * n + 4) 4] := by
      unfold port_out
      rw [Nat.mul_add, List.range_add, List.map_append]
      simp [List.range_succ]
      constructor <;> congr 1 <;> omega
    rw [hsucc, ih (by omega), List.range_succ, List.flatMap_append, List.flatMap_singleton, nibbles_byte_of]
    congr 1
    cases mode with
    | qspi_io_transfer_normal =>
      obtain ⟨hlow, hhigh⟩ := nibble_normal word hn
      simp only [swapped, if_true, hlow, hhigh]
    | qspi_io_transfer_nibble_swap => rfl

/-! ## Buffers on the lines -/

variable (mode : TransferMode) (data : Nat → UInt8) (len : Nat)

theorem byte_of_load (i : Nat) {j : Nat} (hj : j < 4) : byte_of (load data i) j = data (4 * i + j) := by
  have hbits : (load data i).extractLsb' (8 * j) 8 = (data (4 * i + j)).toBitVec := by
    refine BitVec.eq_of_getLsbD_eq fun b hb => ?_
    have hdiv : (8 * j + b) / 8 = j := by omega
    have hmod : (8 * j + b) % 8 = b := by omega
    rw [BitVec.getLsbD_extractLsb', decide_eq_true hb, Bool.true_and, load, Bits.getLsbD_word, decide_eq_true (by omega),
      Bool.true_and, hdiv, hmod]
  rw [byte_of, hbits, UInt8.ofBitVec_toBitVec]

/-- A run through the words of a buffer is one through its bytes. -/
theorem flatMap_words {α : Type*} (f : Nat → List α) (n : Nat) :
    ((List.range n).flatMap fun i => (List.range 4).flatMap fun j => f (4 * i + j)) = (List.range (4 * n)).flatMap f := by
  induction n with
  | zero => rfl
  | succ n ih =>
    rw [List.range_succ (n := n), List.flatMap_append, ih, List.flatMap_singleton, Nat.mul_succ, List.range_add, List.flatMap_append,
      List.flatMap_map]

theorem bytes_out_eq : qspi_io_bytes_out mode data len = (List.range len).flatMap fun i => nibbles (mode.byte (data i)) := by
  have hload : ∀ i, ∀ n ≤ 4, port_out (swapped mode (load data i)) (2 * n) =
      (List.range n).flatMap fun j => nibbles (mode.byte (data (4 * i + j))) := by
    intro i n hn
    rw [port_out_swapped mode _ hn]
    refine List.flatMap_congr fun j hj => ?_
    rw [byte_of_load data i (by have := List.mem_range.1 hj; omega)]
  have hwords : ((List.range (len / 4)).flatMap fun i => port_out (swapped mode (load data i)) 8) =
      (List.range (4 * (len / 4))).flatMap fun i => nibbles (mode.byte (data i)) := by
    rw [← flatMap_words]
    exact List.flatMap_congr fun i _ => hload i 4 (Nat.le_refl 4)
  have hlen : len = 4 * (len / 4) + len % 4 := (Nat.div_add_mod len 4).symm
  unfold qspi_io_bytes_out
  simp only [hwords]
  split
  · conv_rhs => rw [hlen, List.range_add, List.flatMap_append, List.flatMap_map]
    rw [hload _ _ (by omega)]
  · rename_i h0
    conv_rhs => rw [hlen]
    rw [not_not.1 h0, Nat.add_zero]

theorem byte_of_byterev (word : Word) {j : Nat} (hj : j < 4) : byte_of (byterev word) j = byte_of word (3 - j) := by
  unfold byte_of
  congr 1
  refine BitVec.eq_of_getLsbD_eq fun b hb => ?_
  rw [BitVec.getLsbD_extractLsb', BitVec.getLsbD_extractLsb', getLsbD_byterev _ (by omega)]
  congr 2
  omega

/-- A word goes out with its most significant byte first. -/
theorem word_out_eq (word : Word) : port_out (swapped mode (byterev word)) 8 =
    [3, 2, 1, 0].flatMap fun j => nibbles (mode.byte (byte_of word j)) := by
  rw [port_out_swapped mode _ (Nat.le_refl 4)]
  have hmap : [3, 2, 1, 0] = (List.range 4).map fun j => 3 - j := rfl
  rw [hmap, List.flatMap_map]
  refine List.flatMap_congr fun j hj => ?_
  rw [byte_of_byterev _ (List.mem_range.1 hj)]

theorem mosi_out_eq : qspi_io_mosi_out mode data len = (List.range len).flatMap fun i => serial (mode.byte (data i)) := by
  refine List.flatMap_congr fun i _ => ?_
  cases mode with
  | qspi_io_transfer_normal => exact port_out_mosi _
  | qspi_io_transfer_nibble_swap =>
    have hswap : ∀ b : UInt8, qspi_io_nibble_swap (b.toBitVec.setWidth 32) = (nibble_swap b).toBitVec.setWidth 32 := by
      intro b
      have hall : ∀ n < 256, qspi_io_nibble_swap ((UInt8.ofNat n).toBitVec.setWidth 32) =
          (nibble_swap (UInt8.ofNat n)).toBitVec.setWidth 32 := by decide +kernel
      have h := hall b.toNat b.toNat_lt
      rwa [UInt8.ofNat_toNat] at h
    simp only [ne_eq, reduceCtorEq, not_false_eq_true, if_true, hswap]
    exact port_out_mosi _

end Wire
end QspiFlash
