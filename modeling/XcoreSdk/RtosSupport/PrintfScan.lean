import XcoreSdk.RtosSupport.Printf
import Mathlib.Tactic.SplitIfs
/-!
# What the scanner reads and what it writes

The scanner always ends. It reads behind the format just where a conversion is
cut off by the NUL. Its text, the bytes that it gives to `outbyte` one after
another, does not depend on what becomes of them.
-/

namespace Printf

/-! ## The rounds -/

section
variable {σ : Type*} {outbyte : UInt8 → σ → σ} {args : Args} {out : σ} {ap : Nat} {c : UInt8} {ctrl : List UInt8}
  {dot_flag : Bool} {par : params_t}

theorem round_percent : scan_round outbyte args ⟨.while_test, out, ap, '%'.toUInt8 :: ctrl, dot_flag, par⟩ =
    .inl ⟨.try_next, out, ap, '%'.toUInt8 :: ctrl, false, params_init⟩ := rfl

theorem round_text (h : c ≠ '%'.toUInt8) : scan_round outbyte args ⟨.while_test, out, ap, c :: ctrl, dot_flag, par⟩ =
    .inl ⟨.while_test, outbyte c out, ap, ctrl, dot_flag, par⟩ := if_neg h

theorem round_digit (h : isdigit (ctrl.headD 0) = true) :
    scan_round outbyte args ⟨.try_next, out, ap, c :: ctrl, dot_flag, par⟩ =
      .inl ⟨.try_next, out, ap, ctrl.drop ((getnum ctrl 0 0).2 - 1), dot_flag,
        par.number dot_flag (ctrl.headD 0) (getnum ctrl 0 0).1⟩ := if_pos h

theorem round_star (h : ¬ isdigit (ctrl.headD 0) = true) (hstar : dot_flag = true ∧ ctrl.headD 0 = '*'.toUInt8) :
    scan_round outbyte args ⟨.try_next, out, ap, c :: ctrl, dot_flag, par⟩ =
      .inl ⟨.try_next, out, ap + 1, ctrl, dot_flag, { par with num2 := args.int ap }⟩ :=
  (if_neg h).trans (if_pos hstar)

theorem round_switch (h : ¬ isdigit (ctrl.headD 0) = true) (hstar : ¬ (dot_flag = true ∧ ctrl.headD 0 = '*'.toUInt8)) :
    scan_round outbyte args ⟨.try_next, out, ap, c :: ctrl, dot_flag, par⟩ =
      after_switch (switch outbyte args (ctrl.headD 0) ⟨.try_next, out, ap, ctrl, dot_flag, par⟩) :=
  (if_neg h).trans (if_neg hstar)

end

/-! ## The text -/

section
variable {σ τ : Type*} {outbyte : UInt8 → σ → σ} {outbyte' : UInt8 → τ → τ} {f : σ → τ}

def Scan.map (f : σ → τ) (s : Scan σ) : Scan τ := ⟨s.label, f s.out, s.ap, s.ctrl, s.dot_flag, s.par⟩

theorem after_switch_map (check : Bool) (s : Scan σ) :
    after_switch (check, s.map f) = Sum.map (Scan.map f) (Option.map f) (after_switch (check, s)) := by
  obtain ⟨label, out, ap, ctrl, dot_flag, par⟩ := s
  cases check with
  | false => rfl
  | true =>
    cases ctrl with
    | nil => rfl
    | cons c ctrl => rfl

variable (hf : ∀ c out, f (outbyte c out) = outbyte' c (f out))
include hf

theorem padding_map (l_flag : Bool) (par : params_t) (out : σ) :
    f (padding outbyte l_flag par out) = padding outbyte' l_flag par (f out) := by
  have hstep : Function.Semiconj f (outbyte par.pad_character) (outbyte' par.pad_character) := hf par.pad_character
  unfold padding
  split_ifs
  · exact hstep.iterate_right _ out
  · rfl

theorem outs_loop_map (lp : List UInt8) (num2 : Int32) (out : σ) :
    f (outs_loop outbyte lp num2 out) = outs_loop outbyte' lp num2 (f out) := by
  induction lp generalizing num2 out with
  | nil => rfl
  | cons c lp ih =>
    unfold outs_loop
    split_ifs
    · rw [ih, hf]
    · rfl

theorem foldl_map (l : List UInt8) (out : σ) :
    f (l.foldl (fun out c => outbyte c out) out) = l.foldl (fun out c => outbyte' c out) (f out) := by
  induction l generalizing out with
  | nil => rfl
  | cons c l ih => rw [List.foldl_cons, ih, hf, List.foldl_cons]

theorem outs_map (lp : CString) (par : params_t) (out : σ) : f (outs outbyte lp par out) = outs outbyte' lp par (f out) := by
  simp only [outs, padding_map hf, outs_loop_map hf]

theorem outnum_map (n : Int32) (base : Nat) (par : params_t) (out : σ) :
    f (outnum outbyte n base par out) = outnum outbyte' n base par (f out) := by
  simp only [outnum, padding_map hf, foldl_map hf]

theorem escape_map (ch : UInt8) (out : σ) : f (escape outbyte ch out) = escape outbyte' ch (f out) := by
  unfold escape
  split_ifs <;> simp only [hf]

theorem switch_map (args : Args) (ch : UInt8) (s : Scan σ) :
    switch outbyte' args ch (s.map f) = ((switch outbyte args ch s).1, (switch outbyte args ch s).2.map f) := by
  unfold switch
  cases case_of (tolower ch) <;> simp only [Scan.map, outnum_map hf, outs_map hf, escape_map hf, hf]

theorem scan_round_map (args : Args) (s : Scan σ) :
    scan_round outbyte' args (s.map f) = Sum.map (Scan.map f) (Option.map f) (scan_round outbyte args s) := by
  obtain ⟨label, out, ap, ctrl, dot_flag, par⟩ := s
  cases label with
  | while_test =>
    cases ctrl with
    | nil => rfl
    | cons c ctrl =>
      by_cases hpercent : c = '%'.toUInt8
      · subst hpercent
        rfl
      · simp only [Scan.map]
        rw [round_text hpercent, round_text hpercent, ← hf]
        rfl
  | try_next =>
    cases ctrl with
    | nil => rfl
    | cons c ctrl =>
      simp only [Scan.map]
      by_cases hdigit : isdigit (ctrl.headD 0) = true
      · rw [round_digit hdigit, round_digit hdigit]
        rfl
      · by_cases hstar : dot_flag = true ∧ ctrl.headD 0 = '*'.toUInt8
        · rw [round_star hdigit hstar, round_star hdigit hstar]
          rfl
        · rw [round_switch hdigit hstar, round_switch hdigit hstar]
          exact (congrArg after_switch (switch_map hf args _ ⟨.try_next, out, ap, ctrl, dot_flag, par⟩)).trans
            (after_switch_map ..)

theorem scan_map (args : Args) (out : σ) (ap : Nat) (fmt : List UInt8) :
    scan outbyte' args (f out) ap fmt = (scan outbyte args out ap fmt).map f := by
  unfold scan
  rw [show Scan.init (f out) ap fmt = (Scan.init out ap fmt).map f from rfl, Loop.run_map (scan_round_map hf args)]
  cases Loop.run (scan_round outbyte args) (2 * fmt.length + 2) (Scan.init out ap fmt) with
  | none => rfl
  | some r => rfl

end

def collect (c : UInt8) (text : List UInt8) : List UInt8 := text ++ [c]

/-- The text for a format, from an argument on. -/
def printed (args : Args) (ap : Nat) (fmt : List UInt8) : Option (List UInt8) := scan collect args [] ap fmt

/-- Whatever becomes of the bytes, they are the text. -/
theorem scan_eq {σ : Type*} (outbyte : UInt8 → σ → σ) (args : Args) (out : σ) (ap : Nat) (fmt : List UInt8) :
    scan outbyte args out ap fmt =
      (printed args ap fmt).map fun text => text.foldl (fun out c => outbyte c out) out := by
  refine scan_map (f := fun text : List UInt8 => text.foldl (fun out c => outbyte c out) out) (fun c text => ?_) args []
    ap fmt
  simp [collect]

/-! ## The end of the format -/

/-- Where in a format one is: between conversions, inside of one, or behind a backslash inside of one. -/
inductive Mode
  | text
  | conversion (dot_flag : Bool)
  | escape (dot_flag : Bool)

/-- No conversion is cut off by the end of the format. -/
def complete : Mode → List UInt8 → Bool
  | .text, [] => true
  | .text, c :: fmt => complete (if c = '%'.toUInt8 then .conversion false else .text) fmt
  | .conversion _, [] => false
  | .conversion dot_flag, c :: fmt =>
    if isdigit c ∨ dot_flag ∧ c = '*'.toUInt8 then complete (.conversion dot_flag) fmt
    else match case_of (tolower c) with
      | .minus | .l => complete (.conversion dot_flag) fmt
      | .dot => complete (.conversion true) fmt
      | .backslash => complete (.escape dot_flag) fmt
      | _ => complete .text fmt
  | .escape _, [] => false
  | .escape dot_flag, _ :: fmt => complete (.conversion dot_flag) fmt

theorem getnum_passed (ctrl : List UInt8) (n : Int32) (passed : Nat) :
    (getnum ctrl n passed).2 = passed + (ctrl.takeWhile isdigit).length := by
  induction ctrl generalizing n passed with
  | nil => rfl
  | cons c ctrl ih =>
    unfold getnum
    split_ifs with h
    · rw [ih, List.takeWhile_cons_of_pos h, List.length_cons]
      omega
    · rw [List.takeWhile_cons_of_neg h]
      rfl

theorem complete_digits (dot_flag : Bool) (ctrl : List UInt8) :
    complete (.conversion dot_flag) (ctrl.drop (ctrl.takeWhile isdigit).length) = complete (.conversion dot_flag) ctrl := by
  induction ctrl with
  | nil => rfl
  | cons c ctrl ih =>
    by_cases h : isdigit c = true
    · rw [List.takeWhile_cons_of_pos h, List.length_cons, List.drop_succ_cons, ih]
      exact (if_pos (.inl h)).symm
    · rw [List.takeWhile_cons_of_neg h]
      rfl

variable {σ : Type*} {outbyte : UInt8 → σ → σ} {args : Args} {s s' : Scan σ}

/-- The format from here on is read no further than to its end. -/
def Scan.Inside (s : Scan σ) : Prop :=
  match s.label with
  | .while_test => complete .text s.ctrl = true
  | .try_next => s.ctrl ≠ [] ∧ complete (.conversion s.dot_flag) s.ctrl.tail = true

/-- What is left of the format. -/
def Scan.left (s : Scan σ) : Nat := 2 * s.ctrl.length + if s.label = .while_test then 1 else 0

/-- A round comes further in the format, and it leaves or goes on inside just where the format allows for it. -/
def Scan.Advances (s : Scan σ) : Scan σ ⊕ Option σ → Prop
  | .inl s' => s'.left < s.left ∧ (s'.Inside ↔ s.Inside)
  | .inr r => r.isSome = true ↔ s.Inside

theorem switch_advances {out : σ} {ap : Nat} {c ch : UInt8} {ctrl : List UInt8} {dot_flag : Bool} {par : params_t}
    (hdigit : ¬ isdigit ch = true) (hstar : ¬ (dot_flag = true ∧ ch = '*'.toUInt8)) :
    Scan.Advances ⟨.try_next, out, ap, c :: ch :: ctrl, dot_flag, par⟩
      (after_switch (switch outbyte args ch ⟨.try_next, out, ap, ch :: ctrl, dot_flag, par⟩)) := by
  have hneither : ¬ (isdigit ch = true ∨ dot_flag = true ∧ ch = '*'.toUInt8) := fun h => h.elim hdigit hstar
  unfold switch
  cases hcase : case_of (tolower ch) with
  | backslash =>
    cases ctrl <;> simp [after_switch, Scan.Advances, Scan.left, Scan.Inside, complete, hneither, hcase]
  | minus | dot | l => simp [after_switch, Scan.Advances, Scan.left, Scan.Inside, complete, hneither, hcase]
  | percent | u | d | x | s | c | other =>
    refine ⟨?_, ?_⟩
    · simp only [Scan.left, List.length_cons, if_true]
      omega
    · simp [Scan.Inside, complete, hneither, hcase]

/-- The rounds over a number are one. -/
theorem digits_advances {out : σ} {ap : Nat} {c ch : UInt8} {ctrl : List UInt8} {dot_flag : Bool} {par par' : params_t}
    (hdigit : isdigit ch = true) :
    Scan.Advances ⟨.try_next, out, ap, c :: ch :: ctrl, dot_flag, par⟩
      (.inl ⟨.try_next, out, ap, (ch :: ctrl).drop ((getnum (ch :: ctrl) 0 0).2 - 1), dot_flag, par'⟩) := by
  have hpassed : (getnum (ch :: ctrl) 0 0).2 = (ctrl.takeWhile isdigit).length + 1 := by
    rw [getnum_passed, List.takeWhile_cons_of_pos hdigit, List.length_cons, Nat.zero_add]
  have hle : (ctrl.takeWhile isdigit).length ≤ ctrl.length := (List.takeWhile_prefix isdigit).length_le
  have hrest := complete_digits dot_flag (ch :: ctrl)
  rw [List.takeWhile_cons_of_pos hdigit, List.length_cons] at hrest
  rw [hpassed, Nat.add_sub_cancel]
  refine ⟨?_, ?_⟩
  · simp only [Scan.left, List.length_drop, List.length_cons]
    omega
  · simp only [Scan.Inside, List.tail_drop, hrest, List.tail_cons]
    simp
    omega

theorem scan_round_advances (s : Scan σ) : s.Advances (scan_round outbyte args s) := by
  obtain ⟨label, out, ap, ctrl, dot_flag, par⟩ := s
  cases label with
  | while_test =>
    cases ctrl with
    | nil => simp [scan_round, Scan.Advances, Scan.Inside, complete]
    | cons c ctrl =>
      by_cases hpercent : c = '%'.toUInt8
      · subst hpercent
        rw [round_percent]
        simp [Scan.Advances, Scan.left, Scan.Inside, complete]
      · rw [round_text hpercent]
        simp [Scan.Advances, Scan.left, Scan.Inside, complete, hpercent]
  | try_next =>
    cases ctrl with
    | nil => simp [scan_round, Scan.Advances, Scan.Inside]
    | cons c ctrl =>
      cases ctrl with
      | nil =>
        -- the character that is read is the NUL
        have hother : case_of (tolower 0) = .other := by decide
        have hdigit : ¬ isdigit (([] : List UInt8).headD 0) = true := by decide
        have hstar : ([] : List UInt8).headD 0 ≠ '*'.toUInt8 := by decide
        rw [round_switch hdigit fun h => hstar h.2]
        simp [switch, hother, after_switch, Scan.Advances, Scan.Inside, complete]
      | cons ch ctrl =>
        by_cases hdigit : isdigit ((ch :: ctrl).headD 0) = true
        · rw [round_digit hdigit]
          exact digits_advances hdigit
        · by_cases hstar : dot_flag = true ∧ (ch :: ctrl).headD 0 = '*'.toUInt8
          · rw [round_star hdigit hstar]
            rw [List.headD_cons] at hstar
            simp [Scan.Advances, Scan.left, Scan.Inside, complete, hstar]
          · rw [round_switch hdigit hstar]
            exact switch_advances hdigit hstar

/-- The rounds are enough, and the format is complete if they do not read behind it. -/
theorem run_init (outbyte : UInt8 → σ → σ) (args : Args) (out : σ) (ap : Nat) (fmt : List UInt8) :
    ∃ r, Loop.run (scan_round outbyte args) (2 * fmt.length + 2) (Scan.init out ap fmt) = some r ∧
      (r.isSome = true ↔ complete .text fmt = true) := by
  have hround : ∀ s s' : Scan σ, scan_round outbyte args s = .inl s' → s'.left < s.left ∧ (s'.Inside ↔ s.Inside) := by
    intro s s' h
    have hs : s.Advances (scan_round outbyte args s) := scan_round_advances s
    rwa [h] at hs
  have hleave : ∀ (s : Scan σ) (r : Option σ), scan_round outbyte args s = .inr r → (r.isSome = true ↔ s.Inside) := by
    intro s r h
    have hs : s.Advances (scan_round outbyte args s) := scan_round_advances s
    rwa [h] at hs
  obtain ⟨r, hr⟩ := Loop.run_of_variant Scan.left (fun s s' h => (hround s s' h).1)
    (show (Scan.init out ap fmt).left < 2 * fmt.length + 2 from Nat.lt_succ_self _)
  refine ⟨r, hr, Loop.run_post (I := fun s : Scan σ => s.Inside ↔ complete .text fmt = true)
    (Q := fun r : Option σ => r.isSome = true ↔ complete .text fmt = true)
    (fun s s' hs h => (hround s s' h).2.trans hs) (fun s r hs h => (hleave s r h).trans hs) Iff.rfl hr⟩

theorem scan_isSome (outbyte : UInt8 → σ → σ) (args : Args) (out : σ) (ap : Nat) (fmt : List UInt8) :
    (scan outbyte args out ap fmt).isSome = true ↔ complete .text fmt = true := by
  obtain ⟨r, hrun, hr⟩ := run_init outbyte args out ap fmt
  rw [scan, hrun]
  exact hr

/-- `scan` is what the scanner ends with. -/
theorem scan_ends (outbyte : UInt8 → σ → σ) (args : Args) (out : σ) (ap : Nat) (fmt : List UInt8) :
    Loop.Ends (scan_round outbyte args) (Scan.init out ap fmt) (scan outbyte args out ap fmt) := by
  obtain ⟨r, hrun, -⟩ := run_init outbyte args out ap fmt
  refine ⟨_, hrun.trans ?_⟩
  rw [scan, hrun]
  rfl

/-- `rtos_vsnwprintf` ends inside the format just where no conversion is cut off by the format's end. -/
theorem vsnwprintf_inside_iff (fmt : CString) (args : Args) (str : Nat → UInt8) (size : UInt32) (writeout : Bool) :
    (∃ par, Loop.Ends (scan_round Printf.outbyte args) (Scan.init ⟨size, 0, str, writeout, []⟩ 0 fmt.chars) (some par)) ↔
      complete .text fmt.chars = true := by
  have hends := scan_ends Printf.outbyte args ⟨size, 0, str, writeout, []⟩ 0 fmt.chars
  rw [← scan_isSome Printf.outbyte args ⟨size, 0, str, writeout, []⟩ 0 fmt.chars, Option.isSome_iff_exists]
  refine ⟨fun ⟨par, h⟩ => ⟨par, hends.unique h⟩, fun ⟨par, h⟩ => ⟨par, ?_⟩⟩
  rwa [h] at hends

def percent : CString := ⟨[ '%'.toUInt8], by decide, by decide⟩

def no_args : Args := ⟨fun _ => 0, fun _ => ⟨[], by decide, by decide⟩⟩

/-- A lone percent sign is read past. -/
theorem percent_reads_past : ¬ ∃ par, Loop.Ends (scan_round Printf.outbyte no_args)
    (Scan.init ⟨16, 0, fun _ => 0, true, []⟩ 0 percent.chars) (some par) := by
  rintro ⟨par, h⟩
  have hnone : Loop.Ends (scan_round Printf.outbyte no_args)
      (Scan.init ⟨16, 0, fun _ => 0, true, []⟩ 0 percent.chars) none := ⟨3, rfl⟩
  cases hnone.unique h

end Printf
