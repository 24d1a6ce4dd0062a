import Mathlib.Algebra.BigOperators.Group.List.Basic
import Mathlib.Algebra.Order.Ring.Nat
import Mathlib.Data.List.Induction
import Mathlib.Data.List.Infix
import Mathlib.Data.PNat.Defs
/-!
# The system time

Microseconds are kept with 12 fractional bits in 32 bits, which hold little
more than a second.
-/

namespace Time

/-- `rtos_time_t` -/
@[ext] structure RtosTime where
  seconds : UInt64
  microseconds : UInt32
deriving DecidableEq

def US_FRACTIONAL_BITS : UInt32 := 12
def ONE_SECOND_US : UInt32 := 1000000 <<< US_FRACTIONAL_BITS

/-- The rate is not zero, the macro divides by it. -/
def RTOS_TICK_PERIOD (hz : ℕ+) : UInt32 := UInt32.ofNat (1000000 * 2 ^ 12 / hz)

def rtos_time_increment (current_time : RtosTime) (tick_period : UInt32) : RtosTime :=
  let microseconds := current_time.microseconds + tick_period
  if ONE_SECOND_US ≤ microseconds then ⟨current_time.seconds + 1, microseconds - ONE_SECOND_US⟩
  else { current_time with microseconds }

def rtos_time_set (new_time : RtosTime) : RtosTime :=
  { new_time with microseconds := new_time.microseconds <<< US_FRACTIONAL_BITS }

def rtos_time_get (current_time : RtosTime) : RtosTime :=
  { current_time with microseconds := current_time.microseconds >>> US_FRACTIONAL_BITS }

/-- The time after it was set and incremented at these rates. -/
def after (start : RtosTime) (rates : List ℕ+) : RtosTime :=
  rates.foldl (fun t hz => rtos_time_increment t (RTOS_TICK_PERIOD hz)) (rtos_time_set start)

/-! ## The exact time -/

/-- A second in fractions of a microsecond. -/
def second : Nat := 1000000 * 2 ^ 12

def RtosTime.total (t : RtosTime) : Nat := t.seconds.toNat * second + t.microseconds.toNat

/-- The sum of the start and the periods. -/
def due (start : RtosTime) (rates : List ℕ+) : Nat :=
  start.seconds.toNat * second + start.microseconds.toNat * 2 ^ 12 + (rates.map fun hz : ℕ+ => second / hz).sum

def RtosTime.Le (t u : RtosTime) : Prop :=
  t.seconds < u.seconds ∨ (t.seconds = u.seconds ∧ t.microseconds ≤ u.microseconds)

/-- What is stored is the exact sum. -/
structure Exact (start : RtosTime) (rates : List ℕ+) : Prop where
  total : (after start rates).total = due start rates
  carried : (after start rates).microseconds.toNat < second

/-- The time is exact after every increment, and none takes it backwards. -/
structure Keeps (start : RtosTime) (rates : List ℕ+) : Prop where
  exact : ∀ done, done <+: rates → Exact start done
  forwards : ∀ done hz, done ++ [hz] <+: rates →
    (rtos_time_get (after start done)).Le (rtos_time_get (after start (done ++ [hz])))

/-- Each increment starts where it fits into the word, and the seconds do not run out. -/
def Fits (start : RtosTime) (rates : List ℕ+) : Prop :=
  ∀ (done : List ℕ+) (hz : ℕ+), done ++ [hz] <+: rates →
    due start done % second + second / hz < 2 ^ 32 ∧ due start (done ++ [hz]) < 2 ^ 64 * second

/-! ## One increment -/

section
variable {start t u : RtosTime} {rates done : List ℕ+} {hz : ℕ+} {p : UInt32}

theorem toNat_one_second : ONE_SECOND_US.toNat = second := by decide

theorem toNat_tick_period (hz : ℕ+) : (RTOS_TICK_PERIOD hz).toNat = second / hz := by
  have hle : second / hz ≤ second := Nat.div_le_self _ _
  have hlt : second < 2 ^ 32 := by decide
  exact UInt32.toNat_ofNat_of_lt' (hle.trans_lt hlt)

theorem toNat_sub_second {m : UInt32} (h : ONE_SECOND_US ≤ m) : (m - ONE_SECOND_US).toNat = m.toNat - second := by
  rw [UInt32.toNat_sub_of_le _ _ h, toNat_one_second]

/-- The increment fits into the word: the sum, with at most one carry. -/
theorem increment_fits (ht : t.microseconds.toNat < second) (hp : p.toNat ≤ second)
    (hfit : t.microseconds.toNat + p.toNat < 2 ^ 32) (hmax : t.total + p.toNat < 2 ^ 64 * second) :
    (rtos_time_increment t p).total = t.total + p.toNat ∧
      (rtos_time_increment t p).microseconds.toNat < second := by
  have hsum : (t.microseconds + p).toNat = t.microseconds.toNat + p.toNat := by
    rw [UInt32.toNat_add, Nat.mod_eq_of_lt hfit]
  unfold RtosTime.total at hmax ⊢
  unfold rtos_time_increment
  by_cases hcarry : ONE_SECOND_US ≤ t.microseconds + p
  · have hge : second ≤ t.microseconds.toNat + p.toNat := by
      rw [← hsum, ← toNat_one_second]
      exact UInt32.le_iff_toNat_le.1 hcarry
    have hsec : (t.seconds + 1).toNat = t.seconds.toNat + 1 := by
      rw [UInt64.toNat_add]
      refine Nat.mod_eq_of_lt ?_
      show t.seconds.toNat + 1 < 2 ^ 64
      by_contra hover
      have := Nat.mul_le_mul_right second (show 2 ^ 64 ≤ t.seconds.toNat + 1 by omega)
      rw [Nat.add_mul] at this
      omega
    rw [if_pos hcarry]
    dsimp only
    rw [toNat_sub_second hcarry, hsum, hsec, Nat.add_mul]
    omega
  · have hlt : t.microseconds.toNat + p.toNat < second := by
      rw [← hsum, ← toNat_one_second]
      exact UInt32.lt_iff_toNat_lt.1 (UInt32.not_le.1 hcarry)
    rw [if_neg hcarry]
    dsimp only
    rw [hsum]
    omega

/-- It does not fit: less than the sum. -/
theorem increment_wraps (ht : t.microseconds.toNat < second) (hp : p.toNat ≤ second)
    (hover : 2 ^ 32 ≤ t.microseconds.toNat + p.toNat) : (rtos_time_increment t p).total < t.total + p.toNat := by
  have hsum : (t.microseconds + p).toNat = t.microseconds.toNat + p.toNat - 2 ^ 32 := by
    have hword := t.microseconds.toNat_lt
    have hword' := p.toNat_lt
    rw [UInt32.toNat_add, Nat.mod_eq_sub_mod hover, Nat.mod_eq_of_lt (by omega)]
  have hsecond : 2 * second < 2 ^ 32 + second := by decide
  have hcarry : ¬ ONE_SECOND_US ≤ t.microseconds + p := by
    rw [UInt32.le_iff_toNat_le, toNat_one_second, hsum]
    omega
  unfold rtos_time_increment RtosTime.total
  rw [if_neg hcarry]
  dsimp only
  rw [hsum]
  omega

/-! ## All increments -/

theorem due_concat (start : RtosTime) (done : List ℕ+) (hz : ℕ+) :
    due start (done ++ [hz]) = due start done + second / hz := by
  simp [due, Nat.add_assoc]

theorem after_concat (start : RtosTime) (done : List ℕ+) (hz : ℕ+) :
    after start (done ++ [hz]) = rtos_time_increment (after start done) (RTOS_TICK_PERIOD hz) := by
  simp [after]

/-- The microseconds are what is left of the sum. -/
theorem Exact.phase (h : Exact start done) : (after start done).microseconds.toNat = due start done % second := by
  rw [← h.total, RtosTime.total, Nat.mul_comm, Nat.mul_add_mod, Nat.mod_eq_of_lt h.carried]

theorem exact_start (h : start.microseconds.toNat < 1000000) : Exact start [] := by
  have hset : (after start []).microseconds.toNat = start.microseconds.toNat * 2 ^ 12 := by
    show (start.microseconds <<< US_FRACTIONAL_BITS).toNat = _
    rw [UInt32.toNat_shiftLeft, Nat.shiftLeft_eq]
    refine Nat.mod_eq_of_lt ?_
    show start.microseconds.toNat * 2 ^ 12 < 2 ^ 32
    omega
  refine ⟨?_, ?_⟩
  · have hsec : (after start []).seconds = start.seconds := rfl
    rw [RtosTime.total, hset, hsec, due, List.map_nil, List.sum_nil, Nat.add_zero]
  · rw [hset]
    unfold second
    omega

theorem exact_step (h : Exact start done) (hfit : due start done % second + second / hz < 2 ^ 32)
    (hmax : due start (done ++ [hz]) < 2 ^ 64 * second) : Exact start (done ++ [hz]) := by
  have hp := toNat_tick_period hz
  have hle : second / hz ≤ second := Nat.div_le_self _ _
  rw [due_concat] at hmax
  obtain ⟨htotal, hcarried⟩ := increment_fits (p := RTOS_TICK_PERIOD hz) h.carried (by rw [hp]; exact hle)
    (by rw [h.phase, hp]; exact hfit) (by rw [h.total, hp]; exact hmax)
  refine ⟨?_, ?_⟩
  · rw [after_concat, htotal, due_concat, h.total, hp]
  · rw [after_concat]
    exact hcarried

theorem exact_fits (h : Exact start done) (h' : Exact start (done ++ [hz])) :
    due start done % second + second / hz < 2 ^ 32 ∧ due start (done ++ [hz]) < 2 ^ 64 * second := by
  have hp := toNat_tick_period hz
  have hle : second / hz ≤ second := Nat.div_le_self _ _
  refine ⟨?_, ?_⟩
  · by_contra hover
    have hless := increment_wraps (p := RTOS_TICK_PERIOD hz) h.carried (by rw [hp]; exact hle)
      (by rw [h.phase, hp]; omega)
    rw [← after_concat, h'.total, h.total, hp, due_concat] at hless
    exact lt_irrefl _ hless
  · have hsec := (after start (done ++ [hz])).seconds.toNat_lt
    have hmul := Nat.mul_le_mul_right second (Nat.succ_le_of_lt hsec)
    have hcarried := h'.carried
    rw [Nat.succ_mul] at hmul
    rw [← h'.total, RtosTime.total]
    omega

/-- Times in order are read in order. -/
theorem get_le (h : t.total ≤ u.total) (hu : u.microseconds.toNat < second) :
    (rtos_time_get t).Le (rtos_time_get u) := by
  unfold RtosTime.total at h
  rcases lt_trichotomy t.seconds.toNat u.seconds.toNat with hlt | heq | hgt
  · exact .inl (UInt64.lt_iff_toNat_lt.2 hlt)
  · refine .inr ⟨UInt64.toNat_inj.1 heq, ?_⟩
    rw [heq] at h
    rw [UInt32.le_iff_toNat_le]
    show (t.microseconds >>> US_FRACTIONAL_BITS).toNat ≤ (u.microseconds >>> US_FRACTIONAL_BITS).toNat
    rw [UInt32.toNat_shiftRight, UInt32.toNat_shiftRight, Nat.shiftRight_eq_div_pow, Nat.shiftRight_eq_div_pow]
    exact Nat.div_le_div_right (by omega)
  · have hmul := Nat.mul_le_mul_right second (Nat.succ_le_of_lt hgt)
    rw [Nat.succ_mul] at hmul
    omega

/-- The time is exact after each increment if and only if each one fits. -/
theorem time_exact_iff (h : start.microseconds.toNat < 1000000) : Keeps start rates ↔ Fits start rates := by
  refine ⟨fun hk done hz hpre => ?_, fun hfits => ?_⟩
  · exact exact_fits (hk.exact done ((List.prefix_append _ _).trans hpre)) (hk.exact _ hpre)
  · have hall : ∀ done, done <+: rates → Exact start done := by
      intro done
      induction done using List.reverseRecOn with
      | nil => exact fun _ => exact_start h
      | append_singleton done hz ih =>
        intro hpre
        obtain ⟨hfit, hmax⟩ := hfits done hz hpre
        exact exact_step (ih ((List.prefix_append _ _).trans hpre)) hfit hmax
    refine ⟨hall, fun done hz hpre => ?_⟩
    have hdone := hall done ((List.prefix_append _ _).trans hpre)
    have hnext := hall _ hpre
    refine get_le ?_ hnext.carried
    rw [hdone.total, hnext.total, due_concat]
    exact Nat.le_add_right _ _

theorem fits_two_ticks : Fits ⟨0, 999999⟩ [1000, 1000] := by
  intro done hz hpre
  rcases done with _ | ⟨first, _ | ⟨second, rest⟩⟩
  · obtain ⟨hhz, -⟩ := List.cons_prefix_cons.1 hpre
    rw [hhz]
    decide
  · obtain ⟨hfirst, hlast⟩ := List.cons_prefix_cons.1 hpre
    obtain ⟨hhz, -⟩ := List.cons_prefix_cons.1 hlast
    rw [hfirst, hhz]
    decide
  · have hlen := hpre.length_le
    simp at hlen

theorem not_fits_ten_hertz : ¬ Fits ⟨0, 950000⟩ [10] := fun hfits =>
  absurd (hfits [] 10 (List.prefix_refl _)).1 (by decide)

/-- Two milliseconds are exact across a second, and a tenth of a second is not. -/
theorem time_exact_iff_ticks : Keeps ⟨0, 999999⟩ [1000, 1000] ∧ ¬ Keeps ⟨0, 950000⟩ [10] :=
  ⟨(time_exact_iff (by decide)).2 fits_two_ticks, fun hkeeps =>
    not_fits_ten_hertz ((time_exact_iff (by decide)).1 hkeeps)⟩

/-- A tenth of a second is lost with its carry. -/
theorem ten_hertz_loses_second : ¬ Keeps ⟨0, 950000⟩ [10] := by
  intro hk
  have hnext : Exact ⟨0, 950000⟩ ([] ++ [10]) := hk.exact [10] (List.prefix_refl _)
  have hfit := (exact_fits (hk.exact [] List.nil_prefix) hnext).1
  exact absurd hfit (by decide)

end

end Time
