import XcoreSdk.RtosSupport.PrintfText
import Mathlib.Data.List.TakeDrop
/-!
# A conversion in a format

Flags, a width, a precision and the conversion's letter, as they stand in a
format, and what the scanner makes of them: a text that depends on nothing else
in the format.
-/

namespace Printf

inductive Flag
  | minus
  | zero
  deriving DecidableEq

def Flag.char : Flag → UInt8
  | .minus => '-'.toUInt8
  | .zero => '0'.toUInt8

/-- The digits of a number that fits into an `int32_t`; none are 0, too. -/
structure Number where
  digits : List UInt8
  all_digits : ∀ c ∈ digits, isdigit c = true
  value_lt : decimal digits < 2 ^ 31

inductive Precision
  | number (n : Number)
  | star

def Precision.chars : Precision → List UInt8
  | .number n => '.'.toUInt8 :: n.digits
  | .star => [ '.'.toUInt8, '*'.toUInt8]

inductive Letter
  | d | i | u | x | X | s | c | percent
  deriving DecidableEq

def Letter.char : Letter → UInt8
  | .d => 'd'.toUInt8
  | .i => 'i'.toUInt8
  | .u => 'u'.toUInt8
  | .x => 'x'.toUInt8
  | .X => 'X'.toUInt8
  | .s => 's'.toUInt8
  | .c => 'c'.toUInt8
  | .percent => '%'.toUInt8

/-- A conversion. A width does not start with a zero, which is a flag. -/
structure Conversion where
  flags : List Flag
  width : Number
  width_head : width.digits.head? ≠ some '0'.toUInt8
  precision : Option Precision
  letter : Letter

def Conversion.chars (conv : Conversion) : List UInt8 :=
  '%'.toUInt8 :: (conv.flags.map Flag.char ++ (conv.width.digits ++
    ((conv.precision.elim [] Precision.chars) ++ [conv.letter.char])))

/-! ## The scanner in a conversion -/

variable {args : Args} {text : List UInt8} {ap : Nat} {c : UInt8} {tail : List UInt8} {dot_flag : Bool} {par : params_t}

open Loop

/-- A number in the format is read in one round. -/
theorem leads_number {ds : List UInt8} (hds : ∀ c ∈ ds, isdigit c = true) (hne : ds ≠ [])
    (htail : ¬ isdigit (tail.headD 0) = true) :
    ∃ c', Leads (scan_round collect args) ⟨.try_next, text, ap, c :: (ds ++ tail), dot_flag, par⟩
      ⟨.try_next, text, ap, c' :: tail, dot_flag, par.number dot_flag (ds.headD 0) (Int32.ofNat (decimal ds))⟩ := by
  have hgetnum : getnum (ds ++ tail) 0 0 = (Int32.ofNat (decimal ds), ds.length) :=
    (getnum_eq ds tail hds htail 0 0).trans (by rw [Nat.zero_add]; rfl)
  have hhead : (ds ++ tail).headD 0 = ds.headD 0 := by
    cases ds with
    | nil => exact absurd rfl hne
    | cons d ds => rfl
  have hdigit : isdigit ((ds ++ tail).headD 0) = true := by
    rw [hhead]
    cases ds with
    | nil => exact absurd rfl hne
    | cons d ds => exact hds d (List.mem_cons_self ..)
  have hlast : (ds ++ tail).drop (ds.length - 1) = ds.getLast hne :: tail := by
    rw [List.drop_append_of_le_length (Nat.sub_le ..), List.drop_length_sub_one hne, List.singleton_append]
  refine ⟨ds.getLast hne, leads_inl ((round_digit hdigit).trans ?_)⟩
  rw [hgetnum, hhead, hlast]

/-- A zero in front of a number changes what is padded with and nothing else. -/
theorem leads_zero :
    Leads (scan_round collect args) ⟨.try_next, text, ap, c :: '0'.toUInt8 :: tail, false, par⟩
      ⟨.try_next, text, ap, '0'.toUInt8 :: tail, false,
        { par with pad_character := '0'.toUInt8, num1 := 0, do_padding := true }⟩ := by
  have hzero : isdigit (('0'.toUInt8 :: tail).headD 0) = true := rfl
  have hgetnum : getnum ('0'.toUInt8 :: tail) 0 0 = ((getnum tail 0 0).1, (getnum tail 0 0).2 + 1) :=
    getnum_succ tail 0 0
  by_cases hdigit : isdigit (tail.headD 0) = true
  · -- the zero is the first digit of a longer number
    refine leads_of_eq ?_
    obtain ⟨k, hk⟩ : ∃ k, (getnum tail 0 0).2 = k + 1 := by
      cases tail with
      | nil => cases hdigit
      | cons d tail =>
        refine ⟨(tail.takeWhile isdigit).length, ?_⟩
        rw [getnum_passed, List.takeWhile_cons_of_pos (show isdigit d = true from hdigit), Nat.zero_add, List.length_cons]
    rw [round_digit hzero, round_digit hdigit, hgetnum, hk, Nat.add_sub_cancel, Nat.add_sub_cancel, List.drop_succ_cons]
    simp [params_t.number]
  · have hnone : getnum tail 0 0 = (0, 0) := by
      cases tail with
      | nil => rfl
      | cons d tail => exact if_neg hdigit
    refine leads_inl ((round_digit hzero).trans ?_)
    rw [hgetnum, hnone]
    rfl

theorem leads_minus : Leads (scan_round collect args) ⟨.try_next, text, ap, c :: '-'.toUInt8 :: tail, dot_flag, par⟩
    ⟨.try_next, text, ap, '-'.toUInt8 :: tail, dot_flag, { par with left_flag := true }⟩ :=
  leads_inl (round_switch (show ¬ isdigit '-'.toUInt8 = true by decide) fun h =>
    absurd (show '-'.toUInt8 = '*'.toUInt8 from h.2) (by decide))

/-- What the flags and the width make of the parameters. -/
def params_t.flagged (par : params_t) (flags : List Flag) (width : List UInt8) : params_t :=
  { par with
    left_flag := par.left_flag || flags.contains .minus
    pad_character := if .zero ∈ flags then '0'.toUInt8 else par.pad_character
    num1 := Int32.ofNat (decimal width)
    do_padding := par.do_padding || flags.contains .zero || !width.isEmpty }

/-- The scanner behind the flags and the width. -/
theorem leads_flags (flags : List Flag) {width : List UInt8} (hwidth : ∀ c ∈ width, isdigit c = true)
    (hhead : width.head? ≠ some '0'.toUInt8) (htail : ¬ isdigit (tail.headD 0) = true) (par : params_t)
    (hnum1 : par.num1 = 0) (c : UInt8) :
    ∃ c', Leads (scan_round collect args)
      ⟨.try_next, text, ap, c :: (flags.map Flag.char ++ (width ++ tail)), false, par⟩
      ⟨.try_next, text, ap, c' :: tail, false, par.flagged flags width⟩ := by
  induction flags generalizing par c with
  | nil =>
    by_cases hne : width = []
    · subst hne
      have hsame : par.flagged [] [] = par := by
        obtain ⟨len, num1, num2, do_padding, left_flag, unsigned_flag, pad_character⟩ := par
        obtain rfl : num1 = 0 := hnum1
        simp [params_t.flagged, decimal]
      rw [hsame]
      exact ⟨c, Leads.refl⟩
    · have hflagged : par.flagged [] width = par.number false (width.headD 0) (Int32.ofNat (decimal width)) := by
        have hzero : width.headD 0 ≠ '0'.toUInt8 := by
          cases width with
          | nil => exact absurd rfl hne
          | cons d width => exact fun h => hhead (congrArg some h)
        have hempty : width.isEmpty = false := by simpa using hne
        simp only [params_t.flagged, params_t.number, hzero, hempty, List.contains_nil, Bool.or_false, Bool.not_false,
          Bool.or_true, List.not_mem_nil, Bool.false_eq_true, if_false]
      rw [hflagged]
      exact leads_number hwidth hne htail
  | cons flag flags ih =>
    cases flag with
    | minus =>
      obtain ⟨c', hleads⟩ := ih { par with left_flag := true } hnum1 '-'.toUInt8
      have hflagged : ({ par with left_flag := true } : params_t).flagged flags width =
          par.flagged (.minus :: flags) width := by
        simp [params_t.flagged]
      rw [hflagged] at hleads
      exact ⟨c', leads_minus.trans hleads⟩
    | zero =>
      obtain ⟨c', hleads⟩ := ih { par with pad_character := '0'.toUInt8, num1 := 0, do_padding := true } rfl
        '0'.toUInt8
      have hflagged : ({ par with pad_character := '0'.toUInt8, num1 := 0, do_padding := true } : params_t).flagged flags
          width = par.flagged (.zero :: flags) width := by
        simp [params_t.flagged]
      rw [hflagged] at hleads
      exact ⟨c', leads_zero.trans hleads⟩

theorem leads_dot : Leads (scan_round collect args) ⟨.try_next, text, ap, c :: '.'.toUInt8 :: tail, dot_flag, par⟩
    ⟨.try_next, text, ap, '.'.toUInt8 :: tail, true, par⟩ :=
  leads_inl (round_switch (show ¬ isdigit '.'.toUInt8 = true by decide) fun h =>
    absurd (show '.'.toUInt8 = '*'.toUInt8 from h.2) (by decide))

/-- What the precision makes of the parameters. -/
def params_t.precise (par : params_t) (args : Args) (ap : Nat) : Option Precision → params_t
  | none => par
  | some (.number n) => if n.digits = [] then par else { par with num2 := Int32.ofNat (decimal n.digits) }
  | some .star => { par with num2 := args.int ap }

/-- The argument that comes behind the precision's. -/
def after_precision (ap : Nat) : Option Precision → Nat
  | some .star => ap + 1
  | _ => ap

/-- The scanner behind the precision. -/
theorem leads_precision (precision : Option Precision) (htail : ¬ isdigit (tail.headD 0) = true) (c : UInt8) :
    ∃ c', Leads (scan_round collect args)
      ⟨.try_next, text, ap, c :: (precision.elim [] Precision.chars ++ tail), false, par⟩
      ⟨.try_next, text, after_precision ap precision, c' :: tail, precision.isSome, par.precise args ap precision⟩ := by
  cases precision with
  | none => exact ⟨c, Leads.refl⟩
  | some precision =>
    cases precision with
    | number n =>
      by_cases hne : n.digits = []
      · refine ⟨'.'.toUInt8, ?_⟩
        simp only [params_t.precise, Option.elim_some, Precision.chars, hne, List.cons_append, List.nil_append]
        exact leads_dot
      · obtain ⟨c', hleads⟩ : ∃ c', Leads (scan_round collect args)
            ⟨.try_next, text, ap, '.'.toUInt8 :: (n.digits ++ tail), true, par⟩
            ⟨.try_next, text, ap, c' :: tail, true, par.number true (n.digits.headD 0) (Int32.ofNat (decimal n.digits))⟩ :=
          leads_number n.all_digits hne htail
        refine ⟨c', leads_dot.trans ?_⟩
        simp only [params_t.precise, if_neg hne]
        exact hleads
    | star => exact ⟨'*'.toUInt8, leads_dot.trans (leads_inl (round_star (by simp; decide) (by simp)))⟩

/-- What the conversion's letter adds. -/
def Letter.added (letter : Letter) (args : Args) (ap : Nat) (par : params_t) : List UInt8 :=
  let number := fun (signed : Bool) (base : Nat) =>
    let m := magnitude (!signed) base (args.int ap)
    let body := sign m.2 ++ upper_digits base m.1
    par.padded body.length body
  match letter with
  | .d | .i => number true 10
  | .u => number false 10
  | .x | .X => number false 16
  | .s => par.padded (args.str ap).chars.length ((args.str ap).chars.take par.num2.toUInt32.toNat)
  | .c => [(args.int ap).toUInt32.toUInt8]
  | .percent => [ '%'.toUInt8]

/-- The argument that comes behind the letter's. -/
def after_letter (ap : Nat) (letter : Letter) : Nat := if letter = .percent then ap else ap + 1

/-- The scanner behind the letter. -/
theorem leads_letter (letter : Letter) (hunsigned : par.unsigned_flag = false) :
    Leads (scan_round collect args) ⟨.try_next, text, ap, c :: letter.char :: tail, dot_flag, par⟩
      ⟨.while_test, text ++ letter.added args ap par, after_letter ap letter, tail, dot_flag, par⟩ := by
  have hdigit : ¬ isdigit ((letter.char :: tail).headD 0) = true := by
    rw [List.headD_cons]
    cases letter <;> decide
  have hstar : (letter.char :: tail).headD 0 ≠ '*'.toUInt8 := by
    rw [List.headD_cons]
    cases letter <;> decide
  have hdone : ∀ {out out' : List UInt8}, out = out' →
      (Sum.inl ⟨.while_test, out, ap + 1, tail, dot_flag, par⟩ : Scan (List UInt8) ⊕ Option (List UInt8)) =
        .inl ⟨.while_test, out', ap + 1, tail, dot_flag, par⟩ := fun h => by rw [h]
  refine leads_inl ((round_switch hdigit fun h => hstar h.2).trans ?_)
  have hdecimal := outnum_collect (args.int ap) 10 (by decide) (by decide) par text
  have hunsigned10 := outnum_collect (args.int ap) 10 (by decide) (by decide) { par with unsigned_flag := true } text
  have hhex := outnum_collect (args.int ap) 16 (by decide) (by decide) { par with unsigned_flag := true } text
  rw [hunsigned] at hdecimal
  cases letter with
  | d => exact hdone hdecimal
  | i => exact hdone hdecimal
  | u => exact hdone hunsigned10
  | x => exact hdone hhex
  | X => exact hdone hhex
  | s => exact hdone (outs_collect (args.str ap) par text)
  | c => rfl
  | percent => rfl

/-! ## The text of a conversion -/

/-- Between conversions the scanner has forgotten the last one. -/
theorem leads_forgotten (ctrl text : List UInt8) (dot_flag dot_flag' : Bool) (par par' : params_t) :
    Leads (scan_round collect args) ⟨.while_test, text, ap, ctrl, dot_flag, par⟩
      ⟨.while_test, text, ap, ctrl, dot_flag', par'⟩ := by
  induction ctrl generalizing text with
  | nil => exact leads_of_eq rfl
  | cons c ctrl ih =>
    by_cases hpercent : c = '%'.toUInt8
    · subst hpercent
      exact leads_of_eq rfl
    · intro r hr
      rcases hr.cases with ⟨s, hround, hends⟩ | hround
      · rw [round_text hpercent] at hround
        obtain rfl := Sum.inl.inj hround
        exact ends_inl (round_text hpercent) (ih (collect c text) r hends)
      · rw [round_text hpercent] at hround
        cases hround

/-- The parameters when the letter is reached. -/
def Conversion.params (conv : Conversion) (args : Args) (ap : Nat) : params_t :=
  (params_init.flagged conv.flags conv.width.digits).precise args ap conv.precision

/-- What a conversion adds to the text. -/
def Conversion.added (conv : Conversion) (args : Args) (ap : Nat) : List UInt8 :=
  conv.letter.added args (after_precision ap conv.precision) (conv.params args ap)

/-- The argument behind those of a conversion. -/
def Conversion.next (conv : Conversion) (ap : Nat) : Nat := after_letter (after_precision ap conv.precision) conv.letter

theorem leads_conversion (conv : Conversion) (rest text : List UInt8) :
    Leads (scan_round collect args) (Scan.init text ap (conv.chars ++ rest))
      (Scan.init (text ++ conv.added args ap) (conv.next ap) rest) := by
  have hletter : ¬ isdigit ((conv.letter.char :: rest).headD 0) = true := by
    rw [List.headD_cons]
    cases conv.letter <;> decide
  have hhead : ¬ isdigit ((conv.precision.elim [] Precision.chars ++ conv.letter.char :: rest).headD 0) = true := by
    rcases conv.precision with _ | ⟨n⟩ | _
    · exact hletter
    · exact show ¬ isdigit '.'.toUInt8 = true by decide
    · exact show ¬ isdigit '.'.toUInt8 = true by decide
  have hchars : conv.chars ++ rest = '%'.toUInt8 :: (conv.flags.map Flag.char ++ (conv.width.digits ++
      (conv.precision.elim [] Precision.chars ++ conv.letter.char :: rest))) := by
    simp [Conversion.chars]
  have hunsigned : (conv.params args ap).unsigned_flag = false := by
    rcases hp : conv.precision with _ | ⟨n⟩ | _
    all_goals simp only [Conversion.params, hp, params_t.precise]
    · rfl
    · split_ifs <;> rfl
    · rfl
  obtain ⟨c, hflags⟩ : ∃ c, Leads (scan_round collect args)
      ⟨.try_next, text, ap, '%'.toUInt8 :: (conv.flags.map Flag.char ++ (conv.width.digits ++
        (conv.precision.elim [] Precision.chars ++ conv.letter.char :: rest))), false, params_init⟩
      ⟨.try_next, text, ap, c :: (conv.precision.elim [] Precision.chars ++ conv.letter.char :: rest), false,
        params_init.flagged conv.flags conv.width.digits⟩ :=
    leads_flags conv.flags conv.width.all_digits conv.width_head hhead params_init rfl _
  obtain ⟨c', hprecision⟩ : ∃ c', Leads (scan_round collect args)
      ⟨.try_next, text, ap, c :: (conv.precision.elim [] Precision.chars ++ conv.letter.char :: rest), false,
        params_init.flagged conv.flags conv.width.digits⟩
      ⟨.try_next, text, after_precision ap conv.precision, c' :: conv.letter.char :: rest, conv.precision.isSome,
        conv.params args ap⟩ :=
    leads_precision conv.precision hletter c
  rw [hchars]
  exact (leads_inl round_percent).trans (hflags.trans (hprecision.trans ((leads_letter conv.letter hunsigned).trans
    (leads_forgotten rest _ _ _ _ _))))

/-- In whatever format a conversion stands, it adds this text. -/
theorem printed_conversion (conv : Conversion) (args : Args) (ap : Nat) (rest : List UInt8) :
    printed args ap (conv.chars ++ rest) = (printed args (conv.next ap) rest).map (conv.added args ap ++ ·) := by
  have hleads := @leads_conversion args ap conv rest []
  have hrest := scan_ends collect args ([] ++ conv.added args ap) (conv.next ap) rest
  have hwhole := (scan_ends collect args [] ap (conv.chars ++ rest)).unique (hleads _ hrest)
  rw [printed, hwhole, scan_eq]
  congr 1
  funext text
  rw [foldl_collect, List.nil_append]

end Printf
