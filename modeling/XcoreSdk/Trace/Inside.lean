import XcoreSdk.Trace.Ascii
import XcoreSdk.RtosSupport.PrintfText
import Mathlib.Data.Nat.Digits.Lemmas
import Mathlib.Tactic.SplitIfs
/-!
# The trace formatter and its buffer

One comparison at the top of the loop leaves room for a number, whatever follows.
A string is compared with the whole buffer and not with what is left of it.
-/

namespace Trace
open Printf (Args CString)

/-! ## What is required -/

/-- Every place that was written to is in the buffer. -/
def Buf.Inside (b : Buf) (size : Nat) : Prop := ∀ i ∈ b.written, i < size

/-- How many characters a number has. -/
def number_length (base n : Nat) : Nat := max 1 (Nat.digits base n).length

/-- How many characters a conversion stands for. -/
def added (cfg : Config) (args : Args) (ap : Nat) : Case → Nat
  | .d => if cfg.raw_bytes then 4 else
      (if args.int ap < 0 then 1 else 0) + number_length 10 (args.int ap).toInt.natAbs
  | .u => if cfg.raw_bytes then 4 else number_length 10 (args.int ap).toUInt32.toNat
  | .p | .x => if cfg.raw_bytes then 4 else number_length 16 (args.int ap).toUInt32.toNat
  | .c => 1
  | .s => (args.str ap).chars.length
  | .default => 0

def Case.takes : Case → Nat
  | .default => 0
  | _ => 1

/-- After a text of `n` characters the format does not end in the middle of a conversion, and no string that the buffer
is long enough for finds less room than it needs. Behind the limit nothing more is looked at. -/
def Fits (cfg : Config) (args : Args) : Nat → Nat → List UInt8 → Prop
  | _, _, [] => True
  | n, ap, c :: fmt =>
    if limit cfg.size < n then True
    else if c = '%'.toUInt8 then
      match fmt with
      | [] => False
      | ch :: fmt =>
        if case_of ch = .s then
          if limit cfg.size < (args.str ap).chars.length then Fits cfg args 0 (ap + 1) fmt
          else n + (args.str ap).chars.length ≤ cfg.size ∧ Fits cfg args (n + (args.str ap).chars.length) (ap + 1) fmt
        else Fits cfg args (n + added cfg args ap (case_of ch)) (ap + (case_of ch).takes) fmt
    else Fits cfg args (if c = 0x20 then n else n + 1) ap fmt

/-! ## Numbers -/

theorem number_length_le {base n k : Nat} (hbase : 1 < base) (hk : 0 < k) (h : n < base ^ k) : number_length base n ≤ k :=
  Nat.max_le.2 ⟨hk, (Nat.digits_length_le_iff hbase n).2 h⟩

theorem natAbs_le (n : Int32) : n.toInt.natAbs ≤ 2 ^ 31 := by
  have hint := Printf.toInt_eq n
  have hlt := UInt32.toNat_lt n.toUInt32
  split_ifs at hint <;> omega

/-! ## What is written -/

/-- What was written since then is all before this place. -/
def Buf.Below (b b' : Buf) (hi : Nat) : Prop := ∃ ws, b'.written = b.written ++ ws ∧ ∀ i ∈ ws, i < hi

variable {b b' b'' : Buf} {hi size p : Nat}

theorem Buf.Below.refl (b : Buf) (hi : Nat) : b.Below b hi := ⟨[], (List.append_nil _).symm, nofun⟩

theorem Buf.Below.trans (h : b.Below b' hi) (h' : b'.Below b'' hi) : b.Below b'' hi := by
  obtain ⟨ws, hws, hall⟩ := h
  obtain ⟨ws', hws', hall'⟩ := h'
  refine ⟨ws ++ ws', by rw [hws', hws, List.append_assoc], fun i hi => ?_⟩
  rcases List.mem_append.1 hi with hi | hi
  · exact hall i hi
  · exact hall' i hi

theorem Buf.Below.mono {hi' : Nat} (h : b.Below b' hi) (hle : hi ≤ hi') : b.Below b' hi' := by
  obtain ⟨ws, hws, hall⟩ := h
  exact ⟨ws, hws, fun i hi => Nat.lt_of_lt_of_le (hall i hi) hle⟩

theorem Buf.Below.inside_iff (h : b.Below b' hi) (hle : hi ≤ size) : b'.Inside size ↔ b.Inside size := by
  obtain ⟨ws, hws, hall⟩ := h
  unfold Buf.Inside
  rw [hws]
  refine ⟨fun hin i hi => hin i (List.mem_append_left _ hi), fun hin i hi => ?_⟩
  rcases List.mem_append.1 hi with hi | hi
  · exact hin i hi
  · exact Nat.lt_of_lt_of_le (hall i hi) hle

theorem below_set (b : Buf) {i : Nat} (c : UInt8) (h : i < hi) : b.Below (b.set i c) hi :=
  ⟨[i], rfl, fun j hj => by rwa [List.mem_singleton.1 hj]⟩

theorem inside_set (b : Buf) (i : Nat) (c : UInt8) : (b.set i c).Inside size ↔ b.Inside size ∧ i < size := by
  unfold Buf.Inside Buf.set
  simp [or_imp, forall_and]

theorem below_reverse_array (b : Buf) (first last : Nat) (h : p + last < hi) : b.Below (reverse_array p b first last) hi := by
  induction hn : last - first using Nat.strongRecOn generalizing b first last with
  | ind n ih =>
    unfold reverse_array
    split_ifs with hlt
    · have hswap : b.Below ((b.set (p + first) (b.mem (p + last))).set (p + last) (b.mem (p + first))) hi :=
        (below_set b _ (by omega)).trans (below_set _ _ h)
      exact hswap.trans (ih (last - 1 - (first + 1)) (by omega) _ (first + 1) (last - 1) (by omega) rfl)
    · exact .refl b hi

theorem itoa_digits_eq {base : Nat} (hbase : 1 < base) (n i : Nat) (fill : Int) (b : Buf) :
    (itoa_digits base hbase p n i fill b).1 = i + (Nat.digits base n).length ∧
      (itoa_digits base hbase p n i fill b).2.1 = fill - (Nat.digits base n).length ∧
      b.Below (itoa_digits base hbase p n i fill b).2.2 (p + (i + (Nat.digits base n).length)) := by
  induction n using Nat.strongRecOn generalizing i fill b with
  | ind n ih =>
    unfold itoa_digits
    split_ifs with hpos
    · have hlen : (Nat.digits base n).length = (Nat.digits base (n / base)).length + 1 := by
        rw [Nat.digits_def' hbase hpos, List.length_cons]
      obtain ⟨hi, hfill, hbelow⟩ := ih (n / base) (Nat.div_lt_self hpos hbase) (i + 1) (fill - 1)
        (b.set (p + i) (digits.toList.getD (n % base) '0').toUInt8)
      rw [hlen]
      refine ⟨by omega, by omega, ?_⟩
      refine (below_set b _ (by omega)).trans (hbelow.mono (by omega))
    · obtain rfl : n = 0 := by omega
      rw [Nat.digits_zero]
      exact ⟨rfl, (Int.sub_zero fill).symm, .refl b _⟩

theorem itoa_fill_eq (k i : Nat) (b : Buf) :
    (itoa_fill p k i b).1 = i + k ∧ b.Below (itoa_fill p k i b).2 (p + (i + k)) := by
  induction k generalizing i b with
  | zero => exact ⟨rfl, .refl b _⟩
  | succ k ih =>
    obtain ⟨hi, hbelow⟩ := ih (i + 1) (b.set (p + i) '0'.toUInt8)
    refine ⟨hi.trans (by omega), (below_set b _ (by omega)).trans (hbelow.mono (by omega))⟩

theorem itoa_eq {base : Nat} (hbase : 1 < base) (n : UInt32) (p : Nat) (b : Buf) :
    (itoa n p base hbase 0 b).1 = number_length base n.toNat ∧
      b.Below (itoa n p base hbase 0 b).2 (p + number_length base n.toNat) := by
  obtain ⟨i, fill, b₁, hdigits⟩ : ∃ i fill b₁,
      itoa_digits base hbase p n.toNat 0 (if n = 0 then 0 + 1 else 0) b = (i, fill, b₁) := ⟨_, _, _, rfl⟩
  obtain ⟨hi, hfill, hbelow⟩ := @itoa_digits_eq p base hbase n.toNat 0 (if n = 0 then 0 + 1 else 0) b
  rw [hdigits] at hi hfill hbelow
  dsimp only at hi hfill hbelow
  obtain ⟨hcount, hbelow'⟩ := @itoa_fill_eq p fill.toNat i b₁
  have hlength : i + fill.toNat = number_length base n.toNat := by
    unfold number_length
    by_cases hzero : n = 0
    · subst hzero
      rw [if_pos rfl] at hfill
      have hnone : Nat.digits base (0 : UInt32).toNat = [] := Nat.digits_zero base
      rw [hnone] at hi hfill ⊢
      simp only [List.length_nil] at hi hfill ⊢
      omega
    · rw [if_neg hzero] at hfill
      have hsome : Nat.digits base n.toNat ≠ [] := by
        intro hnil
        exact hzero (UInt32.toNat_inj.1 (Nat.digits_eq_nil_iff_eq_zero.1 hnil))
      have hpos := List.length_pos_iff.2 hsome
      omega
  have hpos : 1 ≤ number_length base n.toNat := Nat.le_max_left ..
  unfold itoa
  simp only [hdigits]
  rw [hcount, hlength]
  refine ⟨rfl, (hbelow.mono (by omega)).trans ?_⟩
  rw [hlength] at hbelow'
  exact hbelow'.trans (below_reverse_array _ 0 _ (by omega))

theorem inside_memcpy (b : Buf) (p : Nat) (cs : List UInt8) :
    (memcpy b p cs).Inside size ↔ b.Inside size ∧ (cs = [] ∨ p + cs.length ≤ size) := by
  induction cs generalizing b p with
  | nil => exact (and_iff_left (.inl rfl)).symm
  | cons c cs ih =>
    unfold memcpy
    rw [ih, inside_set, and_assoc]
    refine and_congr_right fun _ => ?_
    rw [List.length_cons]
    cases cs with
    | nil => simp
    | cons d cs =>
      simp only [reduceCtorEq, false_or, List.length_cons]
      omega

/-! ## A round -/

variable {cfg : Config} {args : Args} {s : Ctx} {case : Case}

theorem Ctx.number_eq (s : Ctx) (n : UInt32) {base : Nat} (hbase : 1 < base) :
    (s.number n base hbase).p = s.p + number_length base n.toNat ∧
      s.buf.Below (s.number n base hbase).buf (s.p + number_length base n.toNat) := by
  obtain ⟨hi, hbelow⟩ := itoa_eq hbase n s.p s.buf
  exact ⟨congrArg (s.p + ·) hi, hbelow⟩

/-- What a conversion other than a string adds. -/
structure Adds (s s' : Ctx) (ap n : Nat) : Prop where
  fmt : s'.fmt = s.fmt
  ap : s'.ap = ap
  p : s'.p = s.p + n
  below : s.buf.Below s'.buf (s.p + n)

theorem Ctx.put_adds (s : Ctx) (c : UInt8) : Adds s (s.put c) s.ap 1 :=
  ⟨rfl, rfl, rfl, below_set s.buf c (Nat.lt_succ_self _)⟩

theorem Ctx.number_adds (s : Ctx) (n : UInt32) {base : Nat} (hbase : 1 < base) :
    Adds s (s.number n base hbase) s.ap (number_length base n.toNat) := by
  obtain ⟨hp, hbelow⟩ := s.number_eq n hbase
  exact ⟨rfl, rfl, hp, hbelow⟩

theorem Adds.trans {s' s'' : Ctx} {ap ap' n n' : Nat} (h : Adds s s' ap n) (h' : Adds s' s'' ap' n') :
    Adds s s'' ap' (n + n') := by
  have hp := h.p
  refine ⟨h'.fmt.trans h.fmt, h'.ap, by rw [h'.p, hp, Nat.add_assoc], (h.below.mono (by omega)).trans ?_⟩
  have hbelow := h'.below
  rwa [hp, Nat.add_assoc] at hbelow

/-- The argument is taken first. -/
theorem Adds.take {s' : Ctx} {n : Nat} (h : Adds { s with ap := s.ap + 1 } s' (s.ap + 1) n) : Adds s s' (s.ap + 1) n :=
  ⟨h.fmt, h.ap, h.p, h.below⟩

theorem Ctx.ascii_adds (s : Ctx) (hcase : case ≠ .s) (hraw : cfg.raw_bytes = false) :
    Adds s (s.ascii cfg args case) (s.ap + case.takes) (added cfg args s.ap case) := by
  have hraw : ¬ cfg.raw_bytes = true := Bool.eq_false_iff.1 hraw
  cases case with
  | d =>
    unfold Ctx.ascii added
    dsimp only
    rw [if_neg hraw]
    by_cases hsign : args.int s.ap < 0
    · rw [if_pos hsign, if_pos hsign, ← Printf.toNat_neg hsign]
      exact ((Ctx.put_adds _ _).trans (Ctx.number_adds _ _ _)).take
    · rw [if_neg hsign, if_neg hsign, ← Printf.toNat_nonneg hsign, Nat.zero_add]
      exact (Ctx.number_adds _ _ _).take
  | u =>
    unfold Ctx.ascii added
    dsimp only
    rw [if_neg hraw]
    exact (Ctx.number_adds _ _ _).take
  | p | x =>
    unfold Ctx.ascii added
    dsimp only
    rw [if_neg hraw]
    exact (Ctx.number_adds _ _ _).take
  | c => exact (Ctx.put_adds _ _).take
  | s => exact absurd rfl hcase
  | default => exact ⟨rfl, rfl, rfl, .refl _ _⟩

theorem Ctx.raw_adds (s : Ctx) (hcase : case ≠ .s) (hraw : cfg.raw_bytes = true) :
    Adds s (s.raw cfg args case) (s.ap + case.takes) (added cfg args s.ap case) := by
  cases case with
  | d | u | p | x =>
    unfold Ctx.raw added
    dsimp only
    rw [if_pos hraw]
    exact ((((Ctx.put_adds _ _).trans (Ctx.put_adds _ _)).trans (Ctx.put_adds _ _)).trans (Ctx.put_adds _ _)).take
  | c => exact (Ctx.put_adds _ _).take
  | s => exact absurd rfl hcase
  | default => exact ⟨rfl, rfl, rfl, .refl _ _⟩

/-- A number and its sign have eleven characters at most. -/
theorem added_le (hcase : case ≠ .s) (ap : Nat) : added cfg args ap case ≤ 1 + MAX_XSCOPE_INT_STRING_SIZE := by
  have hlt := UInt32.toNat_lt (args.int ap).toUInt32
  have hunsigned : number_length 10 (args.int ap).toUInt32.toNat ≤ 10 := number_length_le (by decide) (by decide) (by omega)
  have hhex : number_length 16 (args.int ap).toUInt32.toNat ≤ 8 := number_length_le (by decide) (by decide) (by omega)
  have hsigned : number_length 10 (args.int ap).toInt.natAbs ≤ 10 :=
    number_length_le (by decide) (by decide) (Nat.lt_of_le_of_lt (natAbs_le _) (by decide))
  unfold MAX_XSCOPE_INT_STRING_SIZE
  cases case with
  | s => exact absurd rfl hcase
  | d | u | p | x =>
    unfold added
    dsimp only
    split_ifs <;> omega
  | c => exact Nat.le_add_right 1 10
  | default => exact Nat.zero_le _

theorem Ctx.convert_adds (s : Ctx) (hcase : case ≠ .s) :
    Adds s (s.convert cfg args case) (s.ap + case.takes) (added cfg args s.ap case) := by
  unfold Ctx.convert
  by_cases hraw : cfg.raw_bytes = true
  · rw [if_pos hraw]
    exact s.raw_adds hcase hraw
  · rw [if_neg hraw]
    exact s.ascii_adds hcase (Bool.eq_false_iff.2 hraw)

theorem Ctx.convert_str (s : Ctx) : s.convert cfg args .s = s.str cfg args := by
  unfold Ctx.convert
  split_ifs <;> rfl

theorem limit_add (hsize : 1 + MAX_XSCOPE_INT_STRING_SIZE ≤ cfg.size) :
    limit cfg.size + (1 + MAX_XSCOPE_INT_STRING_SIZE) = cfg.size := by
  unfold limit
  omega

/-- Nothing was written outside, and nothing will be. -/
def Ctx.Kept (cfg : Config) (args : Args) (s : Ctx) : Prop := s.buf.Inside cfg.size ∧ Fits cfg args s.p s.ap s.fmt

theorem Ctx.str_fmt (s : Ctx) : (s.str cfg args).fmt = s.fmt := by
  unfold Ctx.str
  dsimp only
  split_ifs <;> rfl

/-- A string: it is left out, or copied where there may be less room than it needs. -/
theorem Ctx.str_kept (s : Ctx) (hsize : 1 + MAX_XSCOPE_INT_STRING_SIZE ≤ cfg.size) (hp : s.p ≤ limit cfg.size) :
    (s.str cfg args).Kept cfg args ↔ s.buf.Inside cfg.size ∧
      if limit cfg.size < (args.str s.ap).chars.length then Fits cfg args 0 (s.ap + 1) s.fmt
      else s.p + (args.str s.ap).chars.length ≤ cfg.size ∧
        Fits cfg args (s.p + (args.str s.ap).chars.length) (s.ap + 1) s.fmt := by
  have hlimit := limit_add hsize
  unfold Ctx.str Ctx.Kept
  dsimp only
  by_cases hlong : limit cfg.size < (args.str s.ap).chars.length
  · rw [if_pos hlong, if_pos hlong]
  · rw [if_neg hlong, if_neg hlong, if_neg hlong]
    dsimp only
    rw [List.take_length, inside_memcpy, and_assoc]
    refine and_congr_right fun _ => and_congr_left fun _ => ⟨fun h => ?_, .inr⟩
    rcases h with hnil | h
    · rw [hnil, List.length_nil]
      omega
    · exact h

/-- The fill level is compared before a conversion, and leaves room for one that is not a string. -/
theorem Adds.kept {s' : Ctx} {ap n : Nat} (h : Adds s s' ap n) (hsize : 1 + MAX_XSCOPE_INT_STRING_SIZE ≤ cfg.size)
    (hp : s.p ≤ limit cfg.size) (hn : n ≤ 1 + MAX_XSCOPE_INT_STRING_SIZE) :
    s'.Kept cfg args ↔ s.buf.Inside cfg.size ∧ Fits cfg args (s.p + n) ap s.fmt := by
  have hlimit := limit_add hsize
  unfold Ctx.Kept
  rw [h.fmt, h.ap, h.p, h.below.inside_iff (by omega)]

/-- The result of a round: where the loop goes round nothing changes, and where it ends all is said. -/
theorem trace_round_kept (s : Ctx) (hsize : 1 + MAX_XSCOPE_INT_STRING_SIZE ≤ cfg.size) :
    (∀ s', trace_round cfg args s = .inl s' → s'.fmt.length < s.fmt.length ∧ (s'.Kept cfg args ↔ s.Kept cfg args)) ∧
      ∀ r, trace_round cfg args s = .inr r → ((∃ t, r = some t ∧ t.buf.Inside cfg.size) ↔ s.Kept cfg args) := by
  have hstop : (∃ t, some s = some t ∧ t.buf.Inside cfg.size) ↔ s.buf.Inside cfg.size := by simp
  obtain ⟨fmt, ap, p, b⟩ := s
  unfold trace_round Ctx.Kept
  dsimp only at hstop ⊢
  cases fmt with
  | nil =>
    refine ⟨nofun, fun r hr => ?_⟩
    cases hr
    rw [hstop]
    exact (and_iff_left trivial).symm
  | cons c fmt =>
    rw [Fits.eq_def]
    dsimp only
    by_cases hfull : limit cfg.size < p
    · rw [if_pos hfull, if_pos hfull]
      refine ⟨nofun, fun r hr => ?_⟩
      cases hr
      rw [hstop]
      exact (and_iff_left trivial).symm
    rw [if_neg hfull, if_neg hfull]
    have hp : p ≤ limit cfg.size := Nat.not_lt.1 hfull
    by_cases hpercent : c = '%'.toUInt8
    · rw [if_pos hpercent, if_pos hpercent]
      cases fmt with
      | nil =>
        refine ⟨nofun, fun r hr => ?_⟩
        cases hr
        simp
      | cons ch fmt =>
        refine ⟨fun s' hs' => ?_, nofun⟩
        obtain rfl := Sum.inl.inj hs'
        dsimp only
        by_cases hcase : case_of ch = .s
        · rw [hcase, if_pos rfl, Ctx.convert_str]
          refine ⟨?_, Ctx.str_kept ⟨fmt, ap, p, b⟩ hsize hp⟩
          rw [Ctx.str_fmt]
          exact Nat.lt_succ_of_lt (Nat.lt_succ_self _)
        · rw [if_neg hcase]
          have hadds := @Ctx.convert_adds cfg args (case_of ch) ⟨fmt, ap, p, b⟩ hcase
          refine ⟨?_, hadds.kept hsize hp (added_le hcase ap)⟩
          rw [hadds.fmt]
          exact Nat.lt_succ_of_lt (Nat.lt_succ_self _)
    · rw [if_neg hpercent, if_neg hpercent]
      refine ⟨fun s' hs' => ?_, ?_⟩
      · by_cases hspace : c = 0x20
        · rw [if_neg (not_not_intro hspace)] at hs'
          obtain rfl := Sum.inl.inj hs'
          rw [if_pos hspace]
          exact ⟨Nat.lt_succ_self _, Iff.rfl⟩
        · rw [if_pos hspace] at hs'
          obtain rfl := Sum.inl.inj hs'
          rw [if_neg hspace]
          exact ⟨Nat.lt_succ_self _, (Ctx.put_adds ⟨fmt, ap, p, b⟩ c).kept hsize hp (by decide)⟩
      · intro r hr
        split_ifs at hr

/-- All that is written lies in the buffer and nothing is read behind the format just where the text fits. -/
theorem trace_inside_iff (cfg : Config) (args : Args) (fmt : CString) (mem : Nat → UInt8)
    (hsize : 1 + MAX_XSCOPE_INT_STRING_SIZE ≤ cfg.size) :
    (∃ s, Loop.Ends (trace_round cfg args) (Ctx.init fmt mem) (some s) ∧ s.buf.Inside cfg.size) ↔
      Fits cfg args 0 0 fmt.chars := by
  have hinit : (Ctx.init fmt mem).Kept cfg args ↔ Fits cfg args 0 0 fmt.chars := and_iff_right (fun _ h => nomatch h)
  obtain ⟨r, hr, hpost⟩ : ∃ r, Loop.Ends (trace_round cfg args) (Ctx.init fmt mem) r ∧
      ((∃ t, r = some t ∧ t.buf.Inside cfg.size) ↔ Fits cfg args 0 0 fmt.chars) := Loop.ends_of_variant
    (I := fun s => s.Kept cfg args ↔ Fits cfg args 0 0 fmt.chars)
    (Q := fun r => (∃ t, r = some t ∧ t.buf.Inside cfg.size) ↔ Fits cfg args 0 0 fmt.chars) (fun s => s.fmt.length)
    (fun s s' hs h => ⟨((trace_round_kept s hsize).1 s' h).2.trans hs, ((trace_round_kept s hsize).1 s' h).1⟩)
    (fun s r hs h => ((trace_round_kept s hsize).2 r h).trans hs) hinit
  rw [← hpost]
  refine ⟨fun ⟨s, hends, hin⟩ => ⟨s, hr.unique hends, hin⟩, fun ⟨s, hsome, hin⟩ => ⟨s, ?_, hin⟩⟩
  rwa [hsome] at hr

/-- A name of twenty characters, whichever it is. -/
def long_name : Args := ⟨fun _ => 7, fun _ => ⟨List.replicate 20 'n'.toUInt8, by decide, by decide⟩⟩

/-- The format `%d: %s`. -/
def number_and_name : CString :=
  ⟨[ '%'.toUInt8, 'd'.toUInt8, ':'.toUInt8, ' '.toUInt8, '%'.toUInt8, 's'.toUInt8], by decide, by decide⟩

theorem trace_inside_number_and_name : ∃ s,
    Loop.Ends (trace_round ⟨32, false⟩ long_name) (Ctx.init number_and_name fun _ => 0) (some s) ∧ s.buf.Inside 32 := by
  refine (trace_inside_iff ⟨32, false⟩ long_name number_and_name (fun _ => 0) (by decide)).2 ?_
  exact ⟨by decide, trivial⟩

/-- The format `%s%s`. -/
def two_names : CString := ⟨[ '%'.toUInt8, 's'.toUInt8, '%'.toUInt8, 's'.toUInt8], by decide, by decide⟩

/-- The second name is put after the first one and ends behind the buffer. -/
theorem two_names_outside : ¬ ∃ s,
    Loop.Ends (trace_round ⟨32, false⟩ long_name) (Ctx.init two_names fun _ => 0) (some s) ∧ s.buf.Inside 32 := by
  rintro ⟨s, hends, hin⟩
  obtain ⟨t, ht, hwritten⟩ : ∃ t, Loop.Ends (trace_round ⟨32, false⟩ long_name) (Ctx.init two_names fun _ => 0) (some t) ∧
      39 ∈ t.buf.written := ⟨_, ⟨3, rfl⟩, by decide⟩
  obtain rfl := Option.some.inj (ht.unique hends)
  exact absurd (hin 39 hwritten) (by decide)

end Trace
