import Mathlib.Logic.Function.Basic
import Mathlib.Algebra.Order.Ring.Nat
import XcoreSdk.Lib.Bytes
import XcoreSdk.Fatfs.Window
/-!
# Entries of a FAT

An entry has 12, 16 or 28 bits. Two entries of 12 bits share the byte between
them, and the four upper bits of a double word are reserved, so what is written
depends on what is there: an entry reads back as it was written, and no other
entry is changed.
-/

namespace Fatfs

/-! ## `ld_word` and the like -/

def ld_word (win : Nat → UInt8) (i : Nat) : Nat := Bytes.ofLE [win i, win (i + 1)]

def ld_dword (win : Nat → UInt8) (i : Nat) : Nat := Bytes.ofLE [win i, win (i + 1), win (i + 2), win (i + 3)]

def st_word (win : Nat → UInt8) (i val : Nat) : Nat → UInt8 :=
  let win := Function.update win i (UInt8.ofNat val)
  Function.update win (i + 1) (UInt8.ofNat (val >>> 8))

def st_dword (win : Nat → UInt8) (i val : Nat) : Nat → UInt8 :=
  let win := Function.update win i (UInt8.ofNat val)
  let win := Function.update win (i + 1) (UInt8.ofNat (val >>> 8))
  let win := Function.update win (i + 2) (UInt8.ofNat (val >>> 16))
  Function.update win (i + 3) (UInt8.ofNat (val >>> 24))

/-! ## Entries of 12 bits -/

/-- The byte offset of an entry. -/
def fat12_byte (clst : Nat) : Nat := clst + clst / 2

/-- Adjusts the bit position. -/
def fat12_value (clst wc : Nat) : Nat := if clst % 2 = 1 then wc >>> 4 else wc &&& 0xFFF

def fat12_first (clst val : Nat) (p : UInt8) : UInt8 :=
  if clst % 2 = 1 then (p &&& (0x0F : UInt8)) ||| (UInt8.ofNat val <<< 4) else UInt8.ofNat val

def fat12_second (clst val : Nat) (p : UInt8) : UInt8 :=
  if clst % 2 = 1 then UInt8.ofNat (val >>> 4) else (p &&& (0xF0 : UInt8)) ||| (UInt8.ofNat (val >>> 8) &&& (0x0F : UInt8))

/-! ## A table of entries -/

/-- The values of an entry are below this one. -/
def FatType.limit : FatType → Nat
  | .FS_FAT12 => 0x1000
  | .FS_FAT16 => 0x10000
  | .FS_FAT32 => 0x10000000

/-- The offset of an entry's last byte. -/
def FatType.last_byte (t : FatType) (clst : Nat) : Nat :=
  match t with
  | .FS_FAT12 => fat12_byte clst + 1
  | .FS_FAT16 => clst * 2 + 1
  | .FS_FAT32 => clst * 4 + 3

/-- What `get_fat` makes of the bytes of a FAT. -/
def FatType.entry (t : FatType) (fat : Nat → UInt8) (clst : Nat) : Nat :=
  match t with
  | .FS_FAT12 => fat12_value clst ((fat (fat12_byte clst)).toNat ||| (fat (fat12_byte clst + 1)).toNat <<< 8)
  | .FS_FAT16 => ld_word fat (clst * 2)
  | .FS_FAT32 => ld_dword fat (clst * 4) &&& 0x0FFFFFFF

/-- What `put_fat` makes of them. -/
def FatType.put (t : FatType) (fat : Nat → UInt8) (clst val : Nat) : Nat → UInt8 :=
  match t with
  | .FS_FAT12 =>
    let fat := Function.update fat (fat12_byte clst) (fat12_first clst val (fat (fat12_byte clst)))
    Function.update fat (fat12_byte clst + 1) (fat12_second clst val (fat (fat12_byte clst + 1)))
  | .FS_FAT16 => st_word fat (clst * 2) val
  | .FS_FAT32 => st_dword fat (clst * 4) ((val &&& 0x0FFFFFFF) ||| (ld_dword fat (clst * 4) &&& 0xF0000000))

variable {fat : Nat → UInt8} {c c' clst val : Nat}

theorem toNat_low (p : UInt8) (val : Nat) : ((p &&& (0x0F : UInt8)) ||| (UInt8.ofNat val <<< 4)).toNat = p.toNat % 16 + 16 * (val % 16) := by
  have hand : p.toNat &&& 0x0F = p.toNat % 16 := Nat.and_two_pow_sub_one_eq_mod p.toNat 4
  have hshift : (UInt8.ofNat val <<< 4).toNat = 2 ^ 4 * (val % 16) := by
    rw [UInt8.toNat_shiftLeft, UInt8.toNat_ofNat', Nat.shiftLeft_eq]
    show val % 2 ^ 8 * 2 ^ 4 % 2 ^ 8 = 2 ^ 4 * (val % 16)
    omega
  rw [UInt8.toNat_or, UInt8.toNat_and, hshift, Nat.or_comm]
  show 2 ^ 4 * (val % 16) ||| (p.toNat &&& 0x0F) = _
  rw [hand, ← Nat.two_pow_add_eq_or_of_lt (Nat.mod_lt _ (by decide))]
  omega

theorem toNat_high (p : UInt8) (val : Nat) :
    ((p &&& (0xF0 : UInt8)) ||| (UInt8.ofNat val &&& (0x0F : UInt8))).toNat = 16 * (p.toNat / 16) + val % 16 := by
  have hlow : (UInt8.ofNat val &&& (0x0F : UInt8)).toNat = val % 16 := by
    rw [UInt8.toNat_and, UInt8.toNat_ofNat']
    show val % 2 ^ 8 &&& 2 ^ 4 - 1 = _
    rw [Nat.and_two_pow_sub_one_eq_mod]
    omega
  have hhigh : p.toNat &&& 0xF0 = 2 ^ 4 * (p.toNat / 2 ^ 4) := by
    have hmask : 0xF0 = 2 ^ 4 * (2 ^ 4 - 1) := rfl
    refine Nat.eq_of_testBit_eq fun i => ?_
    rw [Nat.testBit_and, hmask, Nat.testBit_two_pow_mul, Nat.testBit_two_pow_mul, Nat.testBit_two_pow_sub_one, Nat.testBit_div_two_pow]
    by_cases hi : 4 ≤ i
    · by_cases h8 : i < 8
      · simp [hi, show i - 4 < 4 by omega]
      · have hzero : p.toNat.testBit i = false := Nat.testBit_lt_two_pow (p.toNat_lt.trans_le (Nat.pow_le_pow_right (by omega) (by omega)))
        simp [hi, hzero]
    · simp [hi]
  rw [UInt8.toNat_or, hlow, UInt8.toNat_and]
  show (p.toNat &&& 0xF0) ||| _ = _
  rw [hhigh, ← Nat.two_pow_add_eq_or_of_lt (Nat.mod_lt _ (by decide))]
  rfl

/-- The two bytes of an entry as one number. -/
theorem fat12_value_eq (clst : Nat) (b0 b1 : UInt8) :
    fat12_value clst (b0.toNat ||| b1.toNat <<< 8) =
      if clst % 2 = 1 then b0.toNat / 16 + 16 * b1.toNat else b0.toNat + 256 * (b1.toNat % 16) := by
  have hlt := b0.toNat_lt
  have hor : b0.toNat ||| b1.toNat <<< 8 = b0.toNat + 256 * b1.toNat := by
    rw [Nat.or_comm, Nat.shiftLeft_eq, Nat.mul_comm, ← Nat.two_pow_add_eq_or_of_lt hlt]
    omega
  unfold fat12_value
  rw [hor]
  split
  · rw [Nat.shiftRight_eq_div_pow]
    omega
  · show _ &&& 2 ^ 12 - 1 = _
    rw [Nat.and_two_pow_sub_one_eq_mod]
    omega

theorem fat12_first_toNat (clst val : Nat) (p : UInt8) : (fat12_first clst val p).toNat =
    if clst % 2 = 1 then p.toNat % 16 + 16 * (val % 16) else val % 256 := by
  unfold fat12_first
  split
  · exact toNat_low p val
  · exact UInt8.toNat_ofNat'

theorem fat12_second_toNat (clst val : Nat) (p : UInt8) : (fat12_second clst val p).toNat =
    if clst % 2 = 1 then val / 16 % 256 else 16 * (p.toNat / 16) + val / 256 % 16 := by
  unfold fat12_second
  rw [Nat.shiftRight_eq_div_pow, Nat.shiftRight_eq_div_pow]
  split
  · exact UInt8.toNat_ofNat'
  · exact toNat_high p _

theorem put_fat12_apply (a : Nat) : FatType.FS_FAT12.put fat c val a =
    if a = fat12_byte c then fat12_first c val (fat (fat12_byte c))
    else if a = fat12_byte c + 1 then fat12_second c val (fat (fat12_byte c + 1)) else fat a := by
  simp only [FatType.put, Function.update_apply, if_neg (Nat.succ_ne_self (fat12_byte c))]
  by_cases h : a = fat12_byte c
  · rw [if_pos h, if_neg (h ▸ Nat.ne_of_lt (Nat.lt_succ_self _)), if_pos h]
  · rw [if_neg h, if_neg h]

theorem entry_fat12 (fat : Nat → UInt8) (clst : Nat) : FatType.FS_FAT12.entry fat clst =
    if clst % 2 = 1 then (fat (fat12_byte clst)).toNat / 16 + 16 * (fat (fat12_byte clst + 1)).toNat
    else (fat (fat12_byte clst)).toNat + 256 * ((fat (fat12_byte clst + 1)).toNat % 16) := fat12_value_eq clst _ _

/-- Of the bytes that a neighbour has a part in, that part is left. -/
theorem entry_put_fat12 : FatType.FS_FAT12.entry (FatType.FS_FAT12.put fat c val) c' =
    if c' = c then val % 0x1000 else FatType.FS_FAT12.entry fat c' := by
  rw [entry_fat12, entry_fat12]
  have hother : ∀ a, a ≠ fat12_byte c → a ≠ fat12_byte c + 1 → FatType.FS_FAT12.put fat c val a = fat a := by
    intro a h0 h1
    rw [put_fat12_apply, if_neg h0, if_neg h1]
  have hfirst : FatType.FS_FAT12.put fat c val (fat12_byte c) = fat12_first c val (fat (fat12_byte c)) := by
    rw [put_fat12_apply, if_pos rfl]
  have hsecond : FatType.FS_FAT12.put fat c val (fat12_byte c + 1) = fat12_second c val (fat (fat12_byte c + 1)) := by
    rw [put_fat12_apply, if_neg (Nat.succ_ne_self _), if_pos rfl]
  have hlt0 := (fat (fat12_byte c)).toNat_lt
  have hlt1 := (fat (fat12_byte c + 1)).toNat_lt
  by_cases heq : c' = c
  · rw [if_pos heq, heq, hfirst, hsecond, fat12_first_toNat, fat12_second_toNat]
    split <;> omega
  · rw [if_neg heq]
    by_cases hnext : fat12_byte c' = fat12_byte c + 1
    · -- the odd entry behind an even one
      obtain ⟨hodd, heven⟩ : c' % 2 = 1 ∧ c % 2 ≠ 1 := by
        unfold fat12_byte at hnext
        omega
      rw [if_pos hodd, if_pos hodd, hother (fat12_byte c' + 1) (by omega) (by omega), hnext, hsecond, fat12_second_toNat, if_neg heven]
      omega
    · by_cases hlast : fat12_byte c' + 1 = fat12_byte c
      · -- the even entry in front of an odd one
        obtain ⟨heven, hodd⟩ : c' % 2 ≠ 1 ∧ c % 2 = 1 := by
          unfold fat12_byte at hlast
          omega
        rw [if_neg heven, if_neg heven, hother (fat12_byte c') (by omega) (by omega), hlast, hfirst, fat12_first_toNat, if_pos hodd]
        omega
      · have hsame : fat12_byte c' ≠ fat12_byte c := by
          unfold fat12_byte at *
          omega
        rw [hother _ hsame hnext, hother _ hlast (by omega)]

/-! ## Entries of 16 and 28 bits -/

theorem st_word_apply (fat : Nat → UInt8) (i val a : Nat) : st_word fat i val a =
    if a = i then UInt8.ofNat val else if a = i + 1 then UInt8.ofNat (val >>> 8) else fat a := by
  simp only [st_word, Function.update_apply]
  by_cases h : a = i
  · rw [if_neg (by omega), if_pos h, if_pos h]
  · rw [if_neg h, if_neg h]

theorem st_dword_apply (fat : Nat → UInt8) (i val a : Nat) : st_dword fat i val a =
    if a = i then UInt8.ofNat val else if a = i + 1 then UInt8.ofNat (val >>> 8)
    else if a = i + 2 then UInt8.ofNat (val >>> 16) else if a = i + 3 then UInt8.ofNat (val >>> 24) else fat a := by
  simp only [st_dword, Function.update_apply]
  by_cases h3 : a = i + 3
  · simp [h3]
  · by_cases h2 : a = i + 2
    · simp [h2]
    · by_cases h1 : a = i + 1
      · simp [h1]
      · simp [h1, h2, h3]

theorem st_word_other {i a : Nat} (h : a < i ∨ i + 2 ≤ a) : st_word fat i val a = fat a := by
  rw [st_word_apply, if_neg (by omega), if_neg (by omega)]

theorem st_dword_other {i a : Nat} (h : a < i ∨ i + 4 ≤ a) : st_dword fat i val a = fat a := by
  rw [st_dword_apply, if_neg (by omega), if_neg (by omega), if_neg (by omega), if_neg (by omega)]

theorem ld_st_word (fat : Nat → UInt8) (i val : Nat) : ld_word (st_word fat i val) i = val % 0x10000 := by
  simp only [ld_word, st_word_apply]
  simp [Bytes.ofLE, Nat.shiftRight_eq_div_pow]
  omega

theorem ld_st_dword (fat : Nat → UInt8) (i val : Nat) : ld_dword (st_dword fat i val) i = val % 0x100000000 := by
  simp only [ld_dword, st_dword_apply]
  simp [Bytes.ofLE, Nat.shiftRight_eq_div_pow]
  omega

theorem entry_put_fat16 : FatType.FS_FAT16.entry (FatType.FS_FAT16.put fat c val) c' =
    if c' = c then val % 0x10000 else FatType.FS_FAT16.entry fat c' := by
  simp only [FatType.entry, FatType.put]
  by_cases heq : c' = c
  · rw [if_pos heq, heq, ld_st_word]
  · rw [if_neg heq, ld_word, ld_word, st_word_other (by omega), st_word_other (by omega)]

/-- The reserved bits are those that were there. -/
theorem entry_put_fat32 : FatType.FS_FAT32.entry (FatType.FS_FAT32.put fat c val) c' =
    if c' = c then val % 0x10000000 else FatType.FS_FAT32.entry fat c' := by
  simp only [FatType.entry, FatType.put]
  by_cases heq : c' = c
  · have hreserved : (ld_dword fat (c * 4) &&& 0xF0000000) % 2 ^ 28 = 0 := by
      rw [Nat.and_mod_two_pow]
      exact Nat.and_zero _
    have hvalue : (val &&& 0x0FFFFFFF) % 2 ^ 28 = val % 2 ^ 28 := by
      rw [show 0x0FFFFFFF = 2 ^ 28 - 1 by decide, Nat.and_two_pow_sub_one_eq_mod, Nat.mod_mod]
    rw [if_pos heq, heq, ld_st_dword]
    show _ % 2 ^ 32 &&& 2 ^ 28 - 1 = val % 2 ^ 28
    rw [Nat.and_two_pow_sub_one_eq_mod, Nat.mod_mod_of_dvd _ (Nat.pow_dvd_pow 2 (by decide)), Nat.or_mod_two_pow, hreserved,
      hvalue, Nat.or_zero]
  · rw [if_neg heq, ld_dword, st_dword_other (by omega), st_dword_other (by omega), st_dword_other (by omega),
      st_dword_other (by omega)]
    rfl

/-- An entry reads back as it was written, and no other one is changed. -/
theorem FatType.entry_put (t : FatType) : t.entry (t.put fat c val) c' = if c' = c then val % t.limit else t.entry fat c' := by
  cases t with
  | FS_FAT12 => exact entry_put_fat12
  | FS_FAT16 => exact entry_put_fat16
  | FS_FAT32 => exact entry_put_fat32

theorem FatType.entry_lt (t : FatType) (fat : Nat → UInt8) (clst : Nat) : t.entry fat clst < t.limit := by
  cases t with
  | FS_FAT12 =>
    have h0 := (fat (fat12_byte clst)).toNat_lt
    have h1 := (fat (fat12_byte clst + 1)).toNat_lt
    rw [entry_fat12, FatType.limit]
    split <;> omega
  | FS_FAT16 =>
    have h0 := (fat (clst * 2)).toNat_lt
    have h1 := (fat (clst * 2 + 1)).toNat_lt
    simp only [FatType.entry, ld_word, Bytes.ofLE, FatType.limit]
    omega
  | FS_FAT32 => exact Nat.lt_succ_of_le Nat.and_le_right

/-! ## Only the entry's bytes matter -/

theorem FatType.entry_congr (t : FatType) {fat fat' : Nat → UInt8} (h : ∀ b ≤ t.last_byte clst, fat' b = fat b) :
    t.entry fat' clst = t.entry fat clst := by
  cases t with
  | FS_FAT12 =>
    simp only [FatType.last_byte] at h
    simp only [FatType.entry, h _ (Nat.le_succ _), h _ (Nat.le_refl _)]
  | FS_FAT16 =>
    simp only [FatType.last_byte] at h
    simp only [FatType.entry, ld_word, h _ (Nat.le_succ _), h _ (Nat.le_refl _)]
  | FS_FAT32 =>
    simp only [FatType.last_byte] at h
    simp only [FatType.entry, ld_dword, h (clst * 4) (by omega), h (clst * 4 + 1) (by omega), h (clst * 4 + 2) (by omega),
      h (clst * 4 + 3) (by omega)]

end Fatfs
