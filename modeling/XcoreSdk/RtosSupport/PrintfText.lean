import XcoreSdk.RtosSupport.PrintfScan
import Mathlib.Data.Nat.Digits.Defs
/-!
# The text of a conversion

What `padding`, `outs` and `outnum` add to the text, and the numbers that the
scanner reads in a format.
-/

namespace Printf

variable {par : params_t} {text : List UInt8}

theorem iterate_collect (c : UInt8) (n : Nat) (text : List UInt8) :
    (collect c)^[n] text = text ++ List.replicate n c := by
  induction n generalizing text with
  | zero => simp
  | succ n ih =>
    rw [Function.iterate_succ_apply, ih, collect, List.append_assoc, List.singleton_append, ← List.replicate_succ]

theorem foldl_collect (more text : List UInt8) : more.foldl (fun text c => collect c text) text = text ++ more := by
  induction more generalizing text with
  | nil => simp
  | cons c more ih => rw [List.foldl_cons, ih, collect, List.append_assoc, List.singleton_append]

/-- How many characters are padded to a text of some length. -/
def params_t.room (par : params_t) (len : Nat) : Nat := if par.do_padding then par.num1.toInt.toNat - len else 0

theorem padding_collect (l_flag : Bool) (len : Nat) (hlen : len < 2 ^ 31) (text : List UInt8) :
    padding collect l_flag { par with len := Int32.ofNat len } text =
      text ++ if l_flag then List.replicate (par.room len) par.pad_character else [] := by
  have hint : (Int32.ofNat len).toInt = len := Int32.toInt_ofNat_of_lt hlen
  unfold padding params_t.room
  simp only [iterate_collect, Int32.lt_iff_toInt_lt, hint]
  by_cases hpad : par.do_padding = true ∧ l_flag = true
  · simp only [hpad.1, hpad.2, true_and, if_true]
    split_ifs with hlt
    · congr 2
      omega
    · rw [Nat.sub_eq_zero_of_le (by omega), List.replicate_zero, List.append_nil]
  · rw [if_neg fun h => hpad ⟨h.1, h.2.1⟩]
    split_ifs with hflag hdo
    · exact absurd ⟨hdo, hflag⟩ hpad
    · rw [List.replicate_zero, List.append_nil]
    · rw [List.append_nil]

/-- A text with its padding. -/
def params_t.padded (par : params_t) (len : Nat) (body : List UInt8) : List UInt8 :=
  if par.left_flag then body ++ List.replicate (par.room len) par.pad_character
  else List.replicate (par.room len) par.pad_character ++ body

theorem outs_loop_collect (lp : List UInt8) (num2 : Int32) (text : List UInt8) :
    outs_loop collect lp num2 text = text ++ lp.take num2.toUInt32.toNat := by
  induction lp generalizing num2 text with
  | nil => simp [outs_loop]
  | cons c lp ih =>
    unfold outs_loop
    split_ifs with h
    · have hne : num2.toUInt32 ≠ 0 := fun hzero => h (by rw [← Int32.toInt32_toUInt32 num2, hzero]; rfl)
      have hpos : 1 ≤ num2.toUInt32.toNat := Nat.pos_of_ne_zero fun hzero => hne (UInt32.toNat_inj.1 hzero)
      have hpred : (num2 - 1).toUInt32.toNat = num2.toUInt32.toNat - 1 :=
        UInt32.toNat_sub_of_le _ 1 (UInt32.le_iff_toNat_le.2 hpos)
      obtain ⟨k, hk⟩ := Nat.exists_eq_succ_of_ne_zero (Nat.ne_of_gt hpos)
      rw [ih, hpred, hk, collect, Nat.succ_sub_one, List.take_succ_cons, List.append_assoc, List.singleton_append]
    · rw [not_not.1 h]
      exact (List.append_nil text).symm

/-- What `outs` adds. -/
theorem outs_collect (lp : CString) (par : params_t) (text : List UInt8) :
    outs collect lp par text =
      text ++ par.padded lp.chars.length (lp.chars.take par.num2.toUInt32.toNat) := by
  unfold outs params_t.padded
  simp only [padding_collect _ _ lp.length_lt, outs_loop_collect]
  cases par.left_flag <;> simp

/-! ## Numbers -/

/-- The digits of a number as the code has them. -/
def upper_digits (base n : Nat) : List UInt8 :=
  (if n = 0 then [0] else Nat.digits base n).reverse.map fun d => digits.getD d 0

theorem build_number_eq {base : Nat} (hbase : 1 < base) (room n : Nat) (hroom : 0 < room) (hn : n < base ^ room) :
    build_number base room n = (if n = 0 then [0] else Nat.digits base n).map fun d => digits.getD d 0 := by
  induction room generalizing n with
  | zero => exact absurd hroom (Nat.lt_irrefl 0)
  | succ room ih =>
    have hdiv : n / base < base ^ room := Nat.div_lt_of_lt_mul (by rwa [Nat.pow_succ, Nat.mul_comm] at hn)
    unfold build_number
    by_cases hlast : 0 < n / base
    · have hne : n ≠ 0 := fun h => by simp [h] at hlast
      have hmore : 0 < room := by
        rcases Nat.eq_zero_or_pos room with rfl | h
        · rw [Nat.pow_zero] at hdiv
          omega
        · exact h
      rw [if_pos hlast, ih _ hmore hdiv, if_neg (Nat.ne_of_gt hlast), if_neg hne,
        Nat.digits_eq_cons_digits_div hbase hne, List.map_cons]
    · have hzero : n / base = 0 := Nat.eq_zero_of_not_pos hlast
      have hlt : n < base := (Nat.div_eq_zero_iff.1 hzero).resolve_left (by omega)
      rw [if_neg hlast, Nat.mod_eq_of_lt hlt]
      split_ifs with hn0
      · simp [hn0]
      · rw [Nat.digits_of_lt base n hn0 hlt]
        simp

/-- What `outnum` prints of a number, and whether it has a sign. -/
def magnitude (unsigned_flag : Bool) (base : Nat) (n : Int32) : Nat × Bool :=
  if !unsigned_flag && base == 10 && n < 0 then ((-n).toUInt32.toNat, true) else (n.toUInt32.toNat, false)

def sign (negative : Bool) : List UInt8 := if negative then [ '-'.toUInt8] else []

theorem length_build_number (base room n : Nat) : (build_number base room n).length ≤ room := by
  induction room generalizing n with
  | zero => exact Nat.le_refl 0
  | succ room ih =>
    unfold build_number
    split_ifs
    · exact Nat.succ_le_succ (ih _)
    · exact Nat.succ_le_succ (Nat.zero_le _)

/-- What `outnum` adds. -/
theorem outnum_collect (n : Int32) (base : Nat) (hbase : 1 < base) (hroom : 2 ^ 32 ≤ base ^ 32) (par : params_t)
    (text : List UInt8) :
    outnum collect n base par text = text ++
      let body := sign (magnitude par.unsigned_flag base n).2 ++ upper_digits base (magnitude par.unsigned_flag base n).1
      par.padded body.length body := by
  have hlt : (magnitude par.unsigned_flag base n).1 < base ^ 32 := by
    unfold magnitude
    split_ifs <;> exact Nat.lt_of_lt_of_le (UInt32.toNat_lt _) hroom
  have hsign : (sign (magnitude par.unsigned_flag base n).2).length ≤ 1 := by
    unfold sign
    split_ifs <;> simp
  have hreverse : (build_number base 32 (magnitude par.unsigned_flag base n).1 ++
      sign (magnitude par.unsigned_flag base n).2).reverse =
      sign (magnitude par.unsigned_flag base n).2 ++ upper_digits base (magnitude par.unsigned_flag base n).1 := by
    rw [build_number_eq hbase 32 _ (by omega) hlt, List.reverse_append, upper_digits, List.map_reverse]
    congr 1
    unfold sign
    split_ifs <;> rfl
  have hlen := congrArg List.length hreverse
  rw [List.length_reverse] at hlen
  have hshort := length_build_number base 32 (magnitude par.unsigned_flag base n).1
  have hbound : (build_number base 32 (magnitude par.unsigned_flag base n).1 ++
      sign (magnitude par.unsigned_flag base n).2).length < 2 ^ 31 := by
    rw [List.length_append]
    omega
  have hrun : outnum collect n base par text =
      let outbuf := build_number base 32 (magnitude par.unsigned_flag base n).1 ++
        sign (magnitude par.unsigned_flag base n).2
      padding collect par.left_flag { par with len := Int32.ofNat outbuf.length }
        (outbuf.reverse.foldl (fun text c => collect c text)
          (padding collect (!par.left_flag) { par with len := Int32.ofNat outbuf.length } text)) := by
    unfold outnum magnitude sign
    cases !par.unsigned_flag && base == 10 && decide (n < 0) <;> rfl
  rw [hrun]
  simp only [padding_collect _ _ hbound, foldl_collect, hreverse]
  unfold params_t.padded
  rw [← hlen]
  cases par.left_flag <;> simp

theorem magnitude_unsigned (base : Nat) (n : Int32) : magnitude true base n = (n.toUInt32.toNat, false) := rfl

theorem toInt_eq (n : Int32) : n.toInt = if 2 * n.toUInt32.toNat < 2 ^ 32 then (n.toUInt32.toNat : Int)
    else (n.toUInt32.toNat : Int) - (2 ^ 32 : Nat) := BitVec.toInt_eq_toNat_cond n.toBitVec

/-- `-INT_MIN` wraps to the unsigned number that is meant. -/
theorem toNat_neg {n : Int32} (h : n < 0) : (-n).toUInt32.toNat = n.toInt.natAbs := by
  have hint := toInt_eq n
  have hneg : (-n).toUInt32.toNat = (2 ^ 32 - n.toUInt32.toNat) % 2 ^ 32 := BitVec.toNat_neg n.toBitVec
  have hlt := UInt32.toNat_lt n.toUInt32
  have hzero : (0 : Int32).toInt = 0 := rfl
  have hsign := Int32.lt_iff_toInt_lt.1 h
  split_ifs at hint <;> omega

theorem toNat_nonneg {n : Int32} (h : ¬ n < 0) : n.toUInt32.toNat = n.toInt.natAbs := by
  have hint := toInt_eq n
  have hlt := UInt32.toNat_lt n.toUInt32
  have hzero : (0 : Int32).toInt = 0 := rfl
  have hsign : ¬ n.toInt < (0 : Int32).toInt := fun hlt => h (Int32.lt_iff_toInt_lt.2 hlt)
  split_ifs at hint <;> omega

theorem magnitude_signed (n : Int32) : magnitude false 10 n = (n.toInt.natAbs, decide (n.toInt < 0)) := by
  have hsign : n < 0 ↔ n.toInt < 0 := Int32.lt_iff_toInt_lt
  unfold magnitude
  by_cases h : n < 0
  · rw [if_pos (by simpa using h), toNat_neg h, decide_eq_true (hsign.1 h)]
  · rw [if_neg (by simpa using h), toNat_nonneg h, decide_eq_false fun hneg => h (hsign.2 hneg)]

/-! ## Numbers in the format -/

/-- The value of a string of digits. -/
def decimal (ds : List UInt8) : Nat := ds.foldl (fun n c => n * 10 + (c.toNat - 48)) 0

theorem getnum_eq (ds rest : List UInt8) (hds : ∀ c ∈ ds, isdigit c = true) (hrest : ¬ isdigit (rest.headD 0) = true)
    (n passed : Nat) :
    getnum (ds ++ rest) (Int32.ofNat n) passed =
      (Int32.ofNat (ds.foldl (fun n c => n * 10 + (c.toNat - 48)) n), passed + ds.length) := by
  induction ds generalizing n passed with
  | nil =>
    cases rest with
    | nil => rfl
    | cons c rest => exact if_neg hrest
  | cons c ds ih =>
    have hdigit : isdigit c = true := hds c (List.mem_cons_self ..)
    have hle : 48 ≤ c.toNat := by
      simp only [isdigit, Bool.and_eq_true, decide_eq_true_eq, UInt8.le_iff_toNat_le] at hdigit
      exact hdigit.1
    have hnext : Int32.ofNat n * 10 + (Int32.ofNat c.toNat - 48) = Int32.ofNat (n * 10 + (c.toNat - 48)) := by
      rw [Int32.ofNat_add, Int32.ofNat_mul, Int32.ofNat_sub _ _ hle]
      rfl
    rw [List.cons_append, getnum, if_pos hdigit, hnext, ih fun c hc => hds c (List.mem_cons_of_mem _ hc)]
    rw [List.foldl_cons, List.length_cons, Nat.add_right_comm, Nat.add_assoc]

theorem getnum_succ (ctrl : List UInt8) (n : Int32) (passed : Nat) :
    getnum ctrl n (passed + 1) = ((getnum ctrl n passed).1, (getnum ctrl n passed).2 + 1) := by
  induction ctrl generalizing n passed with
  | nil => rfl
  | cons c ctrl ih =>
    unfold getnum
    split_ifs
    · exact ih _ _
    · rfl

end Printf
