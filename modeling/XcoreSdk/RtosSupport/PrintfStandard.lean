import XcoreSdk.RtosSupport.PrintfConversion
import Mathlib.Data.Nat.Digits.Lemmas
/-!
# What the C standard says about a conversion

The text that the standard prescribes, where it prescribes one, and when the
conversion adds just that: the code's padding is of one kind of character, in
front of the sign, it does not count with a string's precision, and integers
have no precision at all.
-/

namespace Printf

/-! ## The standard -/

def Conversion.minus (conv : Conversion) : Bool := conv.flags.contains .minus

def Conversion.zero (conv : Conversion) : Bool := conv.flags.contains .zero

/-- The field width, which is 0 where there is none. -/
def Conversion.field (conv : Conversion) : Nat := decimal conv.width.digits

/-- A negative argument is taken as if there were no precision. -/
def Conversion.precise (conv : Conversion) (args : Args) (ap : Nat) : Option Nat :=
  match conv.precision with
  | none => none
  | some (.number n) => some (decimal n.digits)
  | some .star => if 0 ≤ (args.int ap).toInt then some (args.int ap).toInt.toNat else none

/-- The digits of a number, none for 0. `letters` is what stands for ten. -/
def c_digits (letters : UInt8) (base n : Nat) : List UInt8 :=
  (Nat.digits base n).reverse.map fun d => if d < 10 then 48 + UInt8.ofNat d else letters + UInt8.ofNat (d - 10)

def justify (minus : Bool) (w : Nat) (text : List UInt8) : List UInt8 :=
  if minus then text ++ List.replicate (w - text.length) ' '.toUInt8
  else List.replicate (w - text.length) ' '.toUInt8 ++ text

/-- An integer has at least as many digits as the precision says, which is 1 by default. -/
def integer (minus zero : Bool) (w : Nat) (precision : Option Nat) (negative : Bool) (ds : List UInt8) : List UInt8 :=
  let body := List.replicate (precision.getD 1 - ds.length) '0'.toUInt8 ++ ds
  if zero ∧ minus = false ∧ precision = none then
    sign negative ++ List.replicate (w - (sign negative ++ body).length) '0'.toUInt8 ++ body
  else justify minus w (sign negative ++ body)

/-- The text that the standard prescribes. For a zero flag or a precision where there is none of it, and for a percent
sign with anything, it says nothing. -/
def Conversion.prescribed (conv : Conversion) (args : Args) (ap : Nat) : Option (List UInt8) :=
  let arg := after_precision ap conv.precision
  let n := args.int arg
  let precision := conv.precise args ap
  match conv.letter with
  | .d | .i => some (integer conv.minus conv.zero conv.field precision (decide (n.toInt < 0))
    (c_digits 'a'.toUInt8 10 n.toInt.natAbs))
  | .u => some (integer conv.minus conv.zero conv.field precision false (c_digits 'a'.toUInt8 10 n.toUInt32.toNat))
  | .x => some (integer conv.minus conv.zero conv.field precision false (c_digits 'a'.toUInt8 16 n.toUInt32.toNat))
  | .X => some (integer conv.minus conv.zero conv.field precision false (c_digits 'A'.toUInt8 16 n.toUInt32.toNat))
  | .s =>
    if conv.zero then none
    else some (justify conv.minus conv.field (precision.elim (args.str arg).chars (args.str arg).chars.take))
  | .c => if conv.zero ∨ conv.precision.isSome then none else some (justify conv.minus conv.field [n.toUInt32.toUInt8])
  | .percent =>
    if conv.flags = [] ∧ conv.width.digits = [] ∧ conv.precision.isNone then some [ '%'.toUInt8] else none

/-! ## When the code agrees -/

/-- `count` is the number of digits. -/
def IntegerAgrees (minus zero : Bool) (w : Nat) (precision : Option Nat) (negative : Bool) (n count : Nat) : Prop :=
  if zero ∧ (sign negative).length + count < w then
    -- it is padded with zeros
    negative = false ∧ (precision = none ∧ minus = false ∨ precision = some w ∧ (minus = true → n = 0))
  else (∀ p, precision = some p → p ≤ count) ∧ ¬ (n = 0 ∧ precision = some 0)

/-- Without a precision, and with a dot alone, up to 32767 characters are printed. -/
def StringAgrees (w : Nat) (precision : Option Precision) (star : Int32) (s : List UInt8) : Prop :=
  match precision with
  | none => s.length ≤ 32767
  | some (.number n) =>
    if n.digits = [] then (∀ c ∈ s.take 32767, c = ' '.toUInt8) ∧ w - s.length + (s.take 32767).length = w
    else s.length ≤ decimal n.digits ∨ w ≤ decimal n.digits
  | some .star => 0 ≤ star.toInt → s.length ≤ star.toInt.toNat ∨ w ≤ star.toInt.toNat

def Conversion.Agrees (conv : Conversion) (args : Args) (ap : Nat) : Prop :=
  let arg := after_precision ap conv.precision
  let n := args.int arg
  let precision := conv.precise args ap
  match conv.letter with
  | .d | .i => IntegerAgrees conv.minus conv.zero conv.field precision (decide (n.toInt < 0)) n.toInt.natAbs
    (upper_digits 10 n.toInt.natAbs).length
  | .u => IntegerAgrees conv.minus conv.zero conv.field precision false n.toUInt32.toNat
    (upper_digits 10 n.toUInt32.toNat).length
  | .x =>
    -- the digits above nine are capital letters always
    IntegerAgrees conv.minus conv.zero conv.field precision false n.toUInt32.toNat
      (upper_digits 16 n.toUInt32.toNat).length ∧ ∀ d ∈ Nat.digits 16 n.toUInt32.toNat, d < 10
  | .X => IntegerAgrees conv.minus conv.zero conv.field precision false n.toUInt32.toNat
    (upper_digits 16 n.toUInt32.toNat).length
  | .s => StringAgrees conv.field conv.precision (args.int ap) (args.str arg).chars
  | .c => conv.field ≤ 1
  | .percent => True

/-! ## The parameters -/

/-- The code's padding. -/
def pad (minus zero : Bool) (w len : Nat) (body : List UInt8) : List UInt8 :=
  if minus then body ++ List.replicate (w - len) (if zero then '0'.toUInt8 else ' '.toUInt8)
  else List.replicate (w - len) (if zero then '0'.toUInt8 else ' '.toUInt8) ++ body

variable {args : Args} {ap : Nat}

theorem mem_pad {minus zero : Bool} {w len : Nat} {body : List UInt8} {c : UInt8} (h : c ∈ body) :
    c ∈ pad minus zero w len body := by
  cases minus with
  | true => exact List.mem_append_left _ h
  | false => exact List.mem_append_right _ h

theorem precise_padded (par : params_t) (precision : Option Precision) (len : Nat) (body : List UInt8) :
    (par.precise args ap precision).padded len body = par.padded len body := by
  rcases precision with _ | ⟨n⟩ | _
  · rfl
  · unfold params_t.precise
    dsimp only
    split_ifs <;> rfl
  · rfl

theorem params_padded (conv : Conversion) (len : Nat) (body : List UInt8) :
    (conv.params args ap).padded len body = pad conv.minus conv.zero conv.field len body := by
  have hroom : (params_init.flagged conv.flags conv.width.digits).room len = conv.field - len := by
    have hint : (Int32.ofNat (decimal conv.width.digits)).toInt = decimal conv.width.digits :=
      Int32.toInt_ofNat_of_lt conv.width.value_lt
    unfold params_t.room params_t.flagged Conversion.field
    dsimp only
    split_ifs with hpad
    · rw [hint, Int.toNat_natCast]
    · have hempty : conv.width.digits = [] := by
        simp only [Bool.or_eq_true, Bool.not_eq_true', not_or, Bool.not_eq_false] at hpad
        exact List.isEmpty_iff.1 hpad.2
      rw [hempty]
      exact (Nat.zero_sub len).symm
  have hchar : (params_init.flagged conv.flags conv.width.digits).pad_character =
      if conv.zero = true then '0'.toUInt8 else ' '.toUInt8 := by
    unfold params_t.flagged Conversion.zero
    simp only [List.contains_iff_mem]
    rfl
  have hleft : (params_init.flagged conv.flags conv.width.digits).left_flag = conv.minus := Bool.false_or _
  rw [Conversion.params, precise_padded, params_t.padded, hroom, hchar, hleft, pad]

/-! ## Integers -/

/-- The digits of an integer, as the standard has them and as the code has them. -/
structure IsInteger (n : Nat) (negative : Bool) (ds code : List UInt8) : Prop where
  zero : n = 0 → code = [ '0'.toUInt8] ∧ ds = [] ∧ negative = false
  pos : n ≠ 0 → ds = code ∧ code.head? ≠ some '0'.toUInt8
  nonempty : code ≠ []
  no_space : ' '.toUInt8 ∉ code

theorem filter_spaceless {text : List UInt8} (h : ' '.toUInt8 ∉ text) : text.filter (· ≠ ' '.toUInt8) = text :=
  List.filter_eq_self.2 fun _ hc => decide_eq_true fun heq => h (heq ▸ hc)

theorem justify_filter (minus : Bool) (w : Nat) {text : List UInt8} (h : ' '.toUInt8 ∉ text) :
    (justify minus w text).filter (· ≠ ' '.toUInt8) = text := by
  have hpad : (List.replicate (w - text.length) ' '.toUInt8).filter (· ≠ ' '.toUInt8) = [] :=
    List.filter_eq_nil_iff.2 fun c hc => by simp [List.eq_of_mem_replicate hc]
  unfold justify
  split_ifs
  · rw [List.filter_append, filter_spaceless h, hpad, List.append_nil]
  · rw [List.filter_append, filter_spaceless h, hpad, List.nil_append]

theorem space_not_mem_sign (negative : Bool) : ' '.toUInt8 ∉ sign negative := by
  cases negative <;> decide

/-- A sign with more digits than there are. -/
theorem IsInteger.body {n : Nat} {negative : Bool} {ds code : List UInt8} (h : IsInteger n negative ds code)
    (precision : Option Nat) (hnot : ¬ (n = 0 ∧ precision = some 0)) :
    List.replicate (precision.getD 1 - ds.length) '0'.toUInt8 ++ ds =
      List.replicate (precision.getD 1 - code.length) '0'.toUInt8 ++ code := by
  by_cases hn : n = 0
  · obtain ⟨rfl, rfl, -⟩ := h.zero hn
    obtain ⟨k, hk⟩ : ∃ k, precision.getD 1 = k + 1 := by
      refine Nat.exists_eq_succ_of_ne_zero fun hzero => hnot ⟨hn, ?_⟩
      cases precision with
      | none => cases hzero
      | some p => exact congrArg some hzero
    rw [hk, List.length_nil, List.length_singleton, Nat.sub_zero, Nat.add_sub_cancel, List.append_nil,
      List.replicate_succ']
  · rw [(h.pos hn).1]

theorem justify_of_le {minus : Bool} {w : Nat} {text : List UInt8} (h : w ≤ text.length) : justify minus w text = text := by
  unfold justify
  rw [Nat.sub_eq_zero_of_le h]
  split_ifs <;> simp

theorem length_justify (minus : Bool) (w : Nat) (text : List UInt8) :
    (justify minus w text).length = text.length + (w - text.length) := by
  unfold justify
  split_ifs
  · simp
  · simp [Nat.add_comm]

theorem justify_inj {minus : Bool} {w : Nat} {text text' : List UInt8} (h : ' '.toUInt8 ∉ text)
    (h' : ' '.toUInt8 ∉ text') : justify minus w text = justify minus w text' ↔ text = text' := by
  refine ⟨fun heq => ?_, fun heq => by rw [heq]⟩
  have hfilter := congrArg (List.filter (· ≠ ' '.toUInt8)) heq
  rwa [justify_filter minus w h, justify_filter minus w h'] at hfilter

/-- A text without spaces is a justified one where there is nothing to justify. -/
theorem eq_justify_iff {minus : Bool} {w : Nat} {text text' : List UInt8} (h : ' '.toUInt8 ∉ text)
    (h' : ' '.toUInt8 ∉ text') : text = justify minus w text' ↔ text = text' ∧ w ≤ text'.length := by
  refine ⟨fun heq => ?_, fun ⟨heq, hle⟩ => by rw [justify_of_le hle, heq]⟩
  have hsame : text = text' := by
    have hfilter := congrArg (List.filter (· ≠ ' '.toUInt8)) heq
    rwa [justify_filter minus w h', filter_spaceless h] at hfilter
  refine ⟨hsame, ?_⟩
  have hlen := congrArg List.length heq
  rw [length_justify, hsame] at hlen
  omega

theorem pad_eq_justify {minus zero : Bool} {w : Nat} {body : List UInt8} (h : ¬ (zero = true ∧ body.length < w)) :
    pad minus zero w body.length body = justify minus w body := by
  cases zero with
  | false => rfl
  | true =>
    have hle : w ≤ body.length := Nat.not_lt.1 fun hlt => h ⟨rfl, hlt⟩
    rw [justify_of_le hle, pad, Nat.sub_eq_zero_of_le hle]
    split_ifs <;> simp

section
variable {minus : Bool} {w n : Nat} {negative : Bool} {ds code : List UInt8}

theorem IsInteger.length_pos (h : IsInteger n negative ds code) : 0 < code.length := List.length_pos_iff.2 h.nonempty

/-- What the code prints has no spaces where it is not justified with them. -/
theorem IsInteger.no_space_body (h : IsInteger n negative ds code) (k : Nat) :
    ' '.toUInt8 ∉ sign negative ++ (List.replicate k '0'.toUInt8 ++ code) := by
  simp only [List.mem_append, List.mem_replicate, not_or]
  exact ⟨space_not_mem_sign negative, fun hzero => absurd hzero.2 (by decide), h.no_space⟩

theorem IsInteger.integer_none (h : IsInteger n negative ds code) (zero : Bool) :
    integer minus zero w none negative ds =
      if zero = true ∧ minus = false then
        sign negative ++ List.replicate (w - (sign negative ++ code).length) '0'.toUInt8 ++ code
      else justify minus w (sign negative ++ code) := by
  have hone : 1 - code.length = 0 := Nat.sub_eq_zero_of_le h.length_pos
  unfold integer
  rw [h.body none (fun hnil => nomatch hnil.2), Option.getD_none, hone, List.replicate_zero, List.nil_append]
  simp only [and_true]

theorem IsInteger.integer_some (h : IsInteger n negative ds code) (zero : Bool) {p : Nat} (hnot : ¬ (n = 0 ∧ p = 0)) :
    integer minus zero w (some p) negative ds =
      justify minus w (sign negative ++ (List.replicate (p - code.length) '0'.toUInt8 ++ code)) := by
  unfold integer
  rw [h.body (some p) fun hnil => hnot ⟨hnil.1, Option.some.inj hnil.2⟩, Option.getD_some]
  exact if_neg fun hzeros => by cases hzeros.2.2

/-- Spaces are padded as the standard says. -/
theorem IsInteger.justified_iff (h : IsInteger n negative ds code) {zero : Bool} {precision : Option Nat}
    (hnot : ¬ (n = 0 ∧ precision = some 0)) (hpad : ¬ (zero = true ∧ (sign negative ++ code).length < w)) :
    pad minus zero w (sign negative ++ code).length (sign negative ++ code) = integer minus zero w precision negative ds ↔
      ∀ p, precision = some p → p ≤ code.length := by
  rw [pad_eq_justify hpad]
  cases precision with
  | none =>
    refine iff_of_true ?_ fun p hp => by cases hp
    rw [h.integer_none]
    split_ifs with hzeros
    · have hle : w ≤ (sign negative ++ code).length := Nat.not_lt.1 fun hlt => hpad ⟨hzeros.1, hlt⟩
      rw [justify_of_le hle, Nat.sub_eq_zero_of_le hle, List.replicate_zero, List.append_nil]
    · rfl
  | some p =>
    have hcode : ' '.toUInt8 ∉ sign negative ++ code := by simpa using h.no_space_body 0
    rw [h.integer_some zero fun hnil => hnot ⟨hnil.1, congrArg some hnil.2⟩, justify_inj hcode (h.no_space_body _),
      List.append_right_inj]
    refine ⟨fun heq q hq => ?_, fun hle => ?_⟩
    · have hlen := congrArg List.length heq
      rw [List.length_append, List.length_replicate] at hlen
      obtain rfl := Option.some.inj hq
      omega
    · rw [Nat.sub_eq_zero_of_le (hle p rfl), List.replicate_zero, List.nil_append]

theorem zero_cons_ne_sign (k : Nat) (l l' : List UInt8) : List.replicate (k + 1) '0'.toUInt8 ++ l ≠ sign true ++ l' := by
  intro heq
  exact absurd (congrArg List.head? heq) (by simp [List.replicate_succ, sign]; decide)

/-- Zeros in front of a sign, or behind the digits, are not what the standard says. -/
theorem IsInteger.zeros_none_iff (h : IsInteger n negative ds code) (hlt : (sign negative ++ code).length < w) :
    pad minus true w (sign negative ++ code).length (sign negative ++ code) = integer minus true w none negative ds ↔
      negative = false ∧ minus = false := by
  obtain ⟨k, hk⟩ := Nat.exists_eq_succ_of_ne_zero (Nat.sub_ne_zero_of_lt hlt)
  rw [h.integer_none, pad, justify, hk]
  cases minus with
  | true =>
    refine iff_of_false ?_ fun hnone => by cases hnone.2
    rw [if_pos rfl, if_pos rfl, if_neg (fun hzeros => nomatch hzeros.2), if_pos rfl, List.append_right_inj,
      List.replicate_inj]
    exact fun heq => heq.2.elim (by simp) (by decide)
  | false =>
    rw [if_neg (by decide), if_pos rfl, if_pos ⟨rfl, rfl⟩, List.append_assoc]
    cases negative with
    | false => exact iff_of_true rfl ⟨rfl, rfl⟩
    | true => exact iff_of_false (zero_cons_ne_sign _ _ _) fun hnone => by cases hnone.1

theorem IsInteger.zeros_some_iff (h : IsInteger n negative ds code) {p : Nat} (hnot : ¬ (n = 0 ∧ p = 0))
    (hlt : (sign negative ++ code).length < w) :
    pad minus true w (sign negative ++ code).length (sign negative ++ code) =
        integer minus true w (some p) negative ds ↔
      negative = false ∧ p = w ∧ (minus = true → n = 0) := by
  have hpos := h.length_pos
  obtain ⟨k, hk⟩ := Nat.exists_eq_succ_of_ne_zero (Nat.sub_ne_zero_of_lt hlt)
  have hspace : ' '.toUInt8 ∉ pad minus true w (sign negative ++ code).length (sign negative ++ code) := by
    have hcode : ' '.toUInt8 ∉ sign negative ++ code := by simpa using h.no_space_body 0
    have hzeros : ' '.toUInt8 ∉ List.replicate (w - (sign negative ++ code).length) '0'.toUInt8 := fun hmem =>
      absurd (List.eq_of_mem_replicate hmem) (by decide)
    unfold pad
    rw [if_pos rfl]
    split_ifs
    · exact fun hmem => (List.mem_append.1 hmem).elim hcode hzeros
    · exact fun hmem => (List.mem_append.1 hmem).elim hzeros hcode
  rw [h.integer_some true hnot, eq_justify_iff hspace (h.no_space_body _), pad, hk, if_pos rfl]
  cases minus with
  | true =>
    rw [if_pos rfl, List.append_assoc, List.append_right_inj]
    by_cases hn : n = 0
    · obtain ⟨rfl, -, rfl⟩ := h.zero hn
      have hp : p ≠ 0 := fun hp => hnot ⟨hn, hp⟩
      simp only [sign, Bool.false_eq_true, if_false, List.nil_append, List.length_append, List.length_replicate,
        List.length_singleton] at hk hlt ⊢
      rw [List.singleton_append, ← List.replicate_succ, ← List.replicate_succ', List.replicate_inj]
      simp only [hn, or_true, and_true, true_and, implies_true]
      omega
    · refine iff_of_false (fun heq => ?_) fun hsome => hn (hsome.2.2 rfl)
      have hlen := congrArg List.length heq.1
      simp only [List.length_append, List.length_replicate] at hlen
      obtain ⟨j, hj⟩ : ∃ j, p - code.length = j + 1 := ⟨k, by omega⟩
      obtain ⟨d, code', rfl⟩ := List.exists_cons_of_ne_nil h.nonempty
      have hhead := congrArg List.head? heq.1
      rw [hj, List.replicate_succ] at hhead
      exact (h.pos hn).2 hhead
  | false =>
    rw [if_neg (by decide)]
    cases negative with
    | true => exact iff_of_false (fun heq => zero_cons_ne_sign _ _ _ heq.1) fun hnone => by cases hnone.1
    | false =>
      simp only [sign, Bool.false_eq_true, if_false, List.nil_append, List.length_append, List.length_replicate,
        List.append_left_inj, List.replicate_inj, or_true, and_true, true_and, false_imp_iff] at hk hlt ⊢
      omega

/-- An integer is what the standard prescribes just where `IntegerAgrees` says so. -/
theorem IsInteger.pad_iff (h : IsInteger n negative ds code) (zero : Bool) (precision : Option Nat) :
    pad minus zero w (sign negative ++ code).length (sign negative ++ code) = integer minus zero w precision negative ds ↔
      IntegerAgrees minus zero w precision negative n code.length := by
  have hlen : (sign negative).length + code.length = (sign negative ++ code).length := List.length_append.symm
  unfold IntegerAgrees
  rw [hlen]
  by_cases hnil : n = 0 ∧ precision = some 0
  · -- nothing is printed, but for the padding
    obtain ⟨hn, rfl⟩ := hnil
    obtain ⟨rfl, rfl, rfl⟩ := h.zero hn
    refine iff_of_false (fun heq => ?_) ?_
    · have hmem : '0'.toUInt8 ∈ integer minus zero w (some 0) false [] := by
        rw [← heq]
        exact mem_pad (List.mem_append_right _ (List.mem_singleton_self _))
      simp only [integer, justify, sign, Option.getD_some, Nat.zero_sub, List.replicate_zero, List.append_nil,
        reduceCtorEq, and_false, if_false, ite_self, Bool.false_eq_true, List.nil_append] at hmem
      exact absurd (List.eq_of_mem_replicate hmem) (by decide)
    · split_ifs with hpad
      · rintro ⟨-, ⟨hnone, -⟩ | ⟨hw, -⟩⟩
        · cases hnone
        · rw [← Option.some.inj hw] at hpad
          exact absurd hpad.2 (Nat.not_lt_zero _)
      · exact fun hall => hall.2 ⟨hn, rfl⟩
  · split_ifs with hpad
    · obtain ⟨rfl, hlt⟩ := hpad
      cases precision with
      | none =>
        rw [h.zeros_none_iff hlt]
        simp
      | some p =>
        rw [h.zeros_some_iff (fun hzero => hnil ⟨hzero.1, congrArg some hzero.2⟩) hlt]
        simp
    · rw [h.justified_iff hnil hpad]
      exact (and_iff_left hnil).symm

end

/-! ## The digits -/

theorem digits_char : ∀ d < 16, digits.getD d 0 = if d < 10 then 48 + UInt8.ofNat d else 'A'.toUInt8 + UInt8.ofNat (d - 10) := by
  decide

theorem digits_not_space : ∀ d < 16, digits.getD d 0 ≠ ' '.toUInt8 := by
  decide

theorem digits_zero_only : ∀ d < 16, digits.getD d 0 = '0'.toUInt8 → d = 0 := by
  decide

/-- The digits of an integer are as the standard says, but for their case. -/
theorem isInteger {base n : Nat} {negative : Bool} {letters : UInt8} (hbase : 1 < base) (hle : base ≤ 16)
    (hnegative : n = 0 → negative = false) (hletters : letters = 'A'.toUInt8 ∨ ∀ d ∈ Nat.digits base n, d < 10) :
    IsInteger n negative (c_digits letters base n) (upper_digits base n) := by
  have hlt : ∀ d ∈ Nat.digits base n, d < 16 := fun d hd => Nat.lt_of_lt_of_le (Nat.digits_lt_base hbase hd) hle
  refine ⟨fun hn => ?_, fun hn => ⟨?_, fun hhead => ?_⟩, ?_, ?_⟩
  · subst hn
    exact ⟨rfl, by simp [c_digits], hnegative rfl⟩
  · unfold c_digits upper_digits
    rw [if_neg hn]
    refine List.map_congr_left fun d hd => ?_
    rw [List.mem_reverse] at hd
    rw [digits_char d (hlt d hd)]
    rcases hletters with rfl | hsmall
    · rfl
    · rw [if_pos (hsmall d hd), if_pos (hsmall d hd)]
  · unfold upper_digits at hhead
    have hne : Nat.digits base n ≠ [] := Nat.digits_ne_nil_iff_ne_zero.2 hn
    rw [if_neg hn, List.head?_map, List.head?_reverse, List.getLast?_eq_some_getLast hne, Option.map_some] at hhead
    exact Nat.getLast_digit_ne_zero base hn
      (digits_zero_only _ (hlt _ (List.getLast_mem hne)) (Option.some.inj hhead))
  · unfold upper_digits
    split_ifs with hn
    · simp
    · simpa using Nat.digits_ne_nil_iff_ne_zero.2 hn
  · unfold upper_digits
    intro hmem
    obtain ⟨d, hd, hspace⟩ := List.mem_map.1 hmem
    rw [List.mem_reverse] at hd
    refine digits_not_space d ?_ hspace
    split_ifs at hd with hn
    · rw [List.mem_singleton.1 hd]
      decide
    · exact hlt d hd

theorem mem_integer {minus zero negative : Bool} {w : Nat} {precision : Option Nat} {ds : List UInt8} {c : UInt8}
    (h : c ∈ integer minus zero w precision negative ds) :
    c = '-'.toUInt8 ∨ c = '0'.toUInt8 ∨ c = ' '.toUInt8 ∨ c ∈ ds := by
  have hsign : c ∈ sign negative → c = '-'.toUInt8 := fun hc => by
    cases negative with
    | false => cases hc
    | true => exact List.mem_singleton.1 hc
  unfold integer justify at h
  split_ifs at h
  all_goals
    simp only [List.mem_append, List.mem_replicate] at h
    tauto

theorem capital_digits : ∀ d < 16, ¬ d < 10 →
    digits.getD d 0 ≠ '-'.toUInt8 ∧ digits.getD d 0 ≠ '0'.toUInt8 ∧ digits.getD d 0 ≠ ' '.toUInt8 ∧
      ∀ d' < 16, (if d' < 10 then 48 + UInt8.ofNat d' else 'a'.toUInt8 + UInt8.ofNat (d' - 10)) ≠ digits.getD d 0 := by
  decide

/-- A number with a capital letter is not what the standard prescribes for small ones. -/
theorem capital_ne {n d : Nat} (minus zero : Bool) (w : Nat) (precision : Option Nat) (hd : d ∈ Nat.digits 16 n)
    (hten : ¬ d < 10) :
    pad minus zero w (sign false ++ upper_digits 16 n).length (sign false ++ upper_digits 16 n) ≠
      integer minus zero w precision false (c_digits 'a'.toUInt8 16 n) := by
  intro heq
  have hn : n ≠ 0 := fun hn => by
    rw [hn] at hd
    simp at hd
  have hmem : digits.getD d 0 ∈ upper_digits 16 n := by
    unfold upper_digits
    rw [if_neg hn]
    exact List.mem_map.2 ⟨d, List.mem_reverse.2 hd, rfl⟩
  have hpad : digits.getD d 0 ∈
      pad minus zero w (sign false ++ upper_digits 16 n).length (sign false ++ upper_digits 16 n) :=
    mem_pad (List.mem_append_right _ hmem)
  rw [heq] at hpad
  obtain ⟨hminus, hzero, hspace, hsmall⟩ := capital_digits d (Nat.digits_lt_base (by decide) hd) hten
  rcases mem_integer hpad with h | h | h | h
  · exact hminus h
  · exact hzero h
  · exact hspace h
  · unfold c_digits at h
    obtain ⟨d', hd', hchar⟩ := List.mem_map.1 h
    exact hsmall d' (Nat.digits_lt_base (by decide) (List.mem_reverse.1 hd')) hchar

/-! ## Strings -/

theorem length_pad (minus zero : Bool) (w len : Nat) (body : List UInt8) :
    (pad minus zero w len body).length = body.length + (w - len) := by
  unfold pad
  split_ifs <;> simp [Nat.add_comm]

/-- A string that is cut off behind some characters, where the standard cuts it off there, too. -/
theorem string_cut_iff (minus : Bool) (w p : Nat) (s : List UInt8) :
    pad minus false w s.length (s.take p) = justify minus w (s.take p) ↔ s.length ≤ p ∨ w ≤ p := by
  constructor
  · intro heq
    have hlen := congrArg List.length heq
    rw [length_pad, length_justify, List.length_take] at hlen
    omega
  · intro h
    have hroom : w - s.length = w - (s.take p).length := by
      rw [List.length_take]
      omega
    unfold pad justify
    rw [hroom]
    rfl

/-- A string that is cut off where the standard does not. -/
theorem string_whole_iff (minus : Bool) (w p : Nat) (s : List UInt8) :
    pad minus false w s.length (s.take p) = justify minus w s ↔ s.length ≤ p := by
  refine ⟨fun heq => ?_, fun h => by rw [List.take_of_length_le h]; rfl⟩
  have hlen := congrArg List.length heq
  rw [length_pad, length_justify, List.length_take] at hlen
  omega

/-- A string of which the standard prints nothing. -/
theorem string_none_iff (minus : Bool) (w p : Nat) (s : List UInt8) :
    pad minus false w s.length (s.take p) = justify minus w [] ↔
      (∀ c ∈ s.take p, c = ' '.toUInt8) ∧ w - s.length + (s.take p).length = w := by
  have hspaces : justify minus w [] = List.replicate w ' '.toUInt8 := by
    unfold justify
    split_ifs <;> simp
  rw [hspaces, List.eq_replicate_iff, length_pad, and_comm, Nat.add_comm]
  refine and_congr_left fun _ => ⟨fun h c hc => h c (mem_pad hc), fun h c hc => ?_⟩
  cases minus with
  | true =>
    have happend : c ∈ s.take p ++ List.replicate (w - s.length) ' '.toUInt8 := hc
    exact (List.mem_append.1 happend).elim (h c) List.eq_of_mem_replicate
  | false =>
    have happend : c ∈ List.replicate (w - s.length) ' '.toUInt8 ++ s.take p := hc
    exact (List.mem_append.1 happend).elim List.eq_of_mem_replicate (h c)

/-! ## Every conversion -/

variable {conv : Conversion} {text : List UInt8}

/-- How many characters of a string are printed. -/
theorem params_num2 (conv : Conversion) : (conv.params args ap).num2.toUInt32.toNat =
    match conv.precision with
    | none => 32767
    | some (.number n) => if n.digits = [] then 32767 else decimal n.digits
    | some .star => (args.int ap).toUInt32.toNat := by
  unfold Conversion.params
  rcases conv.precision with _ | ⟨n⟩ | _
  · rfl
  · unfold params_t.precise
    dsimp only
    split_ifs
    · rfl
    · exact UInt32.toNat_ofNat_of_lt' (Nat.lt_trans n.value_lt (by decide))
  · rfl

theorem string_iff (conv : Conversion) (s : CString) :
    pad conv.minus false conv.field s.chars.length (s.chars.take (conv.params args ap).num2.toUInt32.toNat) =
        justify conv.minus conv.field ((conv.precise args ap).elim s.chars s.chars.take) ↔
      StringAgrees conv.field conv.precision (args.int ap) s.chars := by
  rw [params_num2]
  unfold Conversion.precise StringAgrees
  rcases conv.precision with _ | ⟨n⟩ | _
  · exact string_whole_iff ..
  · dsimp only
    split_ifs with hnil
    · rw [hnil]
      exact string_none_iff ..
    · exact string_cut_iff ..
  · dsimp only
    have hint := toInt_eq (args.int ap)
    have hlt := UInt32.toNat_lt (args.int ap).toUInt32
    split_ifs with hstar
    · rw [iff_true_intro hstar, true_imp_iff]
      have hnat : (args.int ap).toUInt32.toNat = (args.int ap).toInt.toNat := by
        split_ifs at hint <;> omega
      rw [hnat]
      exact string_cut_iff ..
    · have hlen := s.length_lt
      have hle : s.chars.length ≤ (args.int ap).toUInt32.toNat := by
        split_ifs at hint <;> omega
      exact iff_of_true ((string_whole_iff ..).2 hle) fun h => absurd h hstar

theorem signed_zero {n : Int32} (h : n.toInt.natAbs = 0) : decide (n.toInt < 0) = false :=
  decide_eq_false (by omega)

theorem added_agrees_iff (h : conv.prescribed args ap = some text) :
    conv.added args ap = text ↔ conv.Agrees args ap := by
  unfold Conversion.prescribed at h
  unfold Conversion.added Letter.added Conversion.Agrees
  simp only [params_padded]
  cases hletter : conv.letter with
  | d | i =>
    rw [hletter] at h
    obtain rfl := Option.some.inj h
    dsimp only
    rw [Bool.not_true, magnitude_signed]
    exact (isInteger (by decide) (by decide) signed_zero (.inr fun d hd => Nat.digits_lt_base (by decide) hd)).pad_iff ..
  | u =>
    rw [hletter] at h
    obtain rfl := Option.some.inj h
    exact (isInteger (by decide) (by decide) (fun _ => rfl)
      (.inr fun d hd => Nat.digits_lt_base (by decide) hd)).pad_iff ..
  | x =>
    rw [hletter] at h
    obtain rfl := Option.some.inj h
    by_cases hsmall : ∀ d ∈ Nat.digits 16 (args.int (after_precision ap conv.precision)).toUInt32.toNat, d < 10
    · exact ((isInteger (by decide) (by decide) (fun _ => rfl) (.inr hsmall)).pad_iff ..).trans
        (and_iff_left hsmall).symm
    · refine iff_of_false ?_ fun hagrees => hsmall hagrees.2
      simp only [not_forall] at hsmall
      obtain ⟨d, hd, hten⟩ := hsmall
      exact capital_ne _ _ _ _ hd hten
  | X =>
    rw [hletter] at h
    obtain rfl := Option.some.inj h
    exact (isInteger (by decide) (by decide) (fun _ => rfl) (.inl rfl)).pad_iff ..
  | s =>
    rw [hletter] at h
    dsimp only at h
    split_ifs at h with hzero
    obtain rfl := Option.some.inj h
    rw [Bool.eq_false_of_not_eq_true hzero]
    exact string_iff ..
  | c =>
    rw [hletter] at h
    dsimp only at h
    split_ifs at h
    obtain rfl := Option.some.inj h
    refine ⟨fun heq => ?_, fun hle => (justify_of_le hle).symm⟩
    have hlen := congrArg List.length heq
    rw [length_justify, List.length_singleton] at hlen
    omega
  | percent =>
    rw [hletter] at h
    dsimp only at h
    split_ifs at h
    exact iff_of_true (Option.some.inj h) trivial

/-- In whatever format a conversion stands, it adds the text that the standard prescribes just where `Agrees` says so. -/
theorem conversion_agrees_iff (conv : Conversion) (args : Args) (ap : Nat) (text : List UInt8)
    (h : conv.prescribed args ap = some text) :
    (∀ rest, printed args ap (conv.chars ++ rest) = (printed args (conv.next ap) rest).map (text ++ ·)) ↔
      conv.Agrees args ap := by
  rw [← added_agrees_iff h]
  refine ⟨fun hall => ?_, fun heq rest => by rw [printed_conversion, heq]⟩
  have hend := hall []
  rw [printed_conversion] at hend
  simpa [printed, scan, Scan.init, Loop.run, scan_round] using hend

/-- The conversion `%05d`. -/
def zeros_and_five : Conversion :=
  ⟨[.zero], ⟨[ '5'.toUInt8], List.forall_mem_singleton.2 (by decide), by decide⟩, by decide, none, .d⟩

theorem nil_no_nul : (0 : UInt8) ∉ [] := List.not_mem_nil

theorem nil_length_lt : ([] : List UInt8).length < 2 ^ 31 := by decide

def minus_five : Args := ⟨fun _ => -5, fun _ => ⟨[], nil_no_nul, nil_length_lt⟩⟩

theorem prescribed_minus_five : zeros_and_five.prescribed minus_five 0 =
    some [ '-'.toUInt8, '0'.toUInt8, '0'.toUInt8, '0'.toUInt8, '5'.toUInt8] := by
  rfl

def plus_five : Args := ⟨fun _ => 5, fun _ => ⟨[], nil_no_nul, nil_length_lt⟩⟩

theorem prescribed_plus_five : zeros_and_five.prescribed plus_five 0 =
    some [ '0'.toUInt8, '0'.toUInt8, '0'.toUInt8, '0'.toUInt8, '5'.toUInt8] := by
  rfl

/-- It prints 5 as the standard says, and -5 not. -/
theorem conversion_agrees_iff_five :
    (∀ rest, printed plus_five 0 (zeros_and_five.chars ++ rest) = (printed plus_five (zeros_and_five.next 0) rest).map
      ([ '0'.toUInt8, '0'.toUInt8, '0'.toUInt8, '0'.toUInt8, '5'.toUInt8] ++ ·)) ∧
    ¬ zeros_and_five.Agrees minus_five 0 ∧
    ¬ ∀ rest, printed minus_five 0 (zeros_and_five.chars ++ rest) = (printed minus_five (zeros_and_five.next 0) rest).map
      ([ '-'.toUInt8, '0'.toUInt8, '0'.toUInt8, '0'.toUInt8, '5'.toUInt8] ++ ·) := by
  have hplus : zeros_and_five.Agrees plus_five 0 := by
    show IntegerAgrees false true 5 none false 5 1
    exact ⟨rfl, .inl ⟨rfl, rfl⟩⟩
  have hminus : ¬ zeros_and_five.Agrees minus_five 0 := fun hagrees => by
    have hsign : IntegerAgrees false true 5 none true 5 1 := hagrees
    cases hsign.1
  exact ⟨(conversion_agrees_iff zeros_and_five plus_five 0 _ prescribed_plus_five).2 hplus, hminus,
    fun hall => hminus ((conversion_agrees_iff zeros_and_five minus_five 0 _ prescribed_minus_five).1 hall)⟩

/-- The zeros come in front of the sign. -/
theorem zeros_before_sign : printed minus_five 0 zeros_and_five.chars =
      some [ '0'.toUInt8, '0'.toUInt8, '0'.toUInt8, '-'.toUInt8, '5'.toUInt8] ∧
    zeros_and_five.prescribed minus_five 0 ≠
      some [ '0'.toUInt8, '0'.toUInt8, '0'.toUInt8, '-'.toUInt8, '5'.toUInt8] :=
  ⟨rfl, by rw [prescribed_minus_five]; decide⟩

end Printf
