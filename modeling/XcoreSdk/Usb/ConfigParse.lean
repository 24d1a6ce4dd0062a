import XcoreSdk.Usb.Descriptor
import Mathlib.Data.List.Induction
/-!
# When a configuration is parsed

The loop gets on by the length bytes, and it ends unless one of them is zero.
-/

namespace Usb
variable {EpType : Type*} (lib : Libs EpType) (desc_buf : Nat → UInt8)

/-- The places of the descriptors, up to so many. -/
def positions : Nat → Nat → List Nat
  | 0, _ => []
  | n + 1, p => if p < wTotalLength desc_buf then p :: positions n (p + bLength desc_buf p) else []

/-- The descriptors behind the header. -/
def descriptors : List Nat := positions desc_buf (wTotalLength desc_buf) (bLength desc_buf 0)

def endpoints : List Nat := (descriptors desc_buf).filter fun p => IsEndpoint lib desc_buf p

/-- The type of an endpoint in the last descriptor there is of it. -/
def last_type (is_in : Bool) (n : Nat) (ps : List Nat) : Option EpType :=
  (ps.filter fun p => dir_in lib desc_buf p = is_in ∧ epnum lib desc_buf p = n).getLast?.map (ep_type lib desc_buf)

/-- What the parser is to do. -/
structure Parsed (epTypeTableOut epTypeTableIn : Nat → EpType) (count : Nat) (s : Parse EpType) : Prop where
  reads : ∀ i ∈ s.reads, i < wTotalLength desc_buf
  tableIn : ∀ n, s.epTypeTableIn n = (last_type lib desc_buf true n (endpoints lib desc_buf)).getD (epTypeTableIn n)
  tableOut : ∀ n,
    s.epTypeTableOut n = (last_type lib desc_buf false n (endpoints lib desc_buf)).getD (epTypeTableOut n)
  largest : ∀ p ∈ endpoints lib desc_buf, epnum lib desc_buf p < count
  reached : count = 1 ∨ ∃ p ∈ endpoints lib desc_buf, count = epnum lib desc_buf p + 1

/-- The header is inside the configuration, no descriptor has length zero, and none in the last byte has length one. -/
def Sane : Prop := 8 ≤ wTotalLength desc_buf ∧ ∀ p ∈ descriptors desc_buf,
  0 < bLength desc_buf p ∧ (p + 1 = wTotalLength desc_buf → 1 < bLength desc_buf p)

instance : Decidable (Sane desc_buf) := inferInstanceAs (Decidable (_ ∧ _))

section
variable {lib desc_buf} {s s' : Parse EpType} {p n : Nat} {ps : List Nat}

/-! ## A round -/

/-- What a round does with the descriptor at `p`, unless the assertion fails. -/
def visit (lib : Libs EpType) (desc_buf : Nat → UInt8) (s : Parse EpType) (p : Nat) : Parse EpType :=
  let s := { s with reads := s.reads ++ reads_at lib desc_buf p, cur_index := p + bLength desc_buf p }
  if IsEndpoint lib desc_buf p then enter lib desc_buf s p else s

@[simp] theorem visit_cur : (visit lib desc_buf s p).cur_index = p + bLength desc_buf p := by
  unfold visit
  split_ifs <;> rfl

@[simp] theorem visit_reads : (visit lib desc_buf s p).reads = s.reads ++ reads_at lib desc_buf p := by
  unfold visit
  split_ifs <;> rfl

theorem round_inl (hp : s.cur_index < wTotalLength desc_buf)
    (hep : IsEndpoint lib desc_buf s.cur_index → epnum lib desc_buf s.cur_index < RTOS_USB_ENDPOINT_COUNT_MAX) :
    cfg_desc_round lib desc_buf s = .inl (visit lib desc_buf s s.cur_index) := by
  unfold cfg_desc_round visit
  dsimp only
  rw [if_pos hp]
  by_cases hend : IsEndpoint lib desc_buf s.cur_index
  · rw [if_pos hend, if_pos hend, if_pos (hep hend)]
  · rw [if_neg hend, if_neg hend]

theorem round_inr (hp : ¬ s.cur_index < wTotalLength desc_buf) : cfg_desc_round lib desc_buf s = .inr (some s) :=
  if_neg hp

/-! ## The loop -/

/-- The descriptors are visited one after another, as long as each has a length. -/
theorem ends_of_lengths (hlen : ∀ p ∈ positions desc_buf n s.cur_index, 0 < bLength desc_buf p)
    (hep : ∀ p ∈ positions desc_buf n s.cur_index,
      IsEndpoint lib desc_buf p → epnum lib desc_buf p < RTOS_USB_ENDPOINT_COUNT_MAX)
    (hn : wTotalLength desc_buf ≤ s.cur_index + n) :
    Loop.Ends (cfg_desc_round lib desc_buf) s
      (some ((positions desc_buf n s.cur_index).foldl (visit lib desc_buf) s)) := by
  induction n generalizing s with
  | zero => exact Loop.ends_inr (round_inr (by omega))
  | succ n ih =>
    unfold positions at hlen hep ⊢
    by_cases hp : s.cur_index < wTotalLength desc_buf
    · rw [if_pos hp] at hlen hep ⊢
      have hpos := hlen _ List.mem_cons_self
      rw [List.foldl_cons]
      refine Loop.ends_inl (round_inl hp (hep _ List.mem_cons_self)) ?_
      have hrest := ih (s := visit lib desc_buf s s.cur_index)
        (by rw [visit_cur]; exact fun p hp => hlen p (List.mem_cons_of_mem _ hp))
        (by rw [visit_cur]; exact fun p hp => hep p (List.mem_cons_of_mem _ hp)) (by rw [visit_cur]; omega)
      rwa [visit_cur] at hrest
    · rw [if_neg hp]
      exact Loop.ends_inr (round_inr hp)

/-- The loop stays where the length is zero. -/
theorem stuck_at_zero (hp : s.cur_index < wTotalLength desc_buf) (hzero : bLength desc_buf s.cur_index = 0)
    (rounds : Nat) : Loop.run (cfg_desc_round lib desc_buf) rounds s = none := by
  refine Loop.run_none (I := fun t => t.cur_index = s.cur_index) (fun t ht => ?_) rfl rounds
  have hend : ¬ IsEndpoint lib desc_buf s.cur_index := fun h => by
    have := h.2.2
    rw [hzero] at this
    exact absurd this (by decide)
  refine ⟨visit lib desc_buf t t.cur_index, round_inl (ht ▸ hp) fun h => absurd (ht ▸ h) hend, ?_⟩
  rw [visit_cur, ht, hzero, Nat.add_zero]

/-- A loop that leaves without the assertion failing meets no length of zero. -/
theorem lengths_of_ends (hends : Loop.Ends (cfg_desc_round lib desc_buf) s (some s')) :
    ∀ p ∈ positions desc_buf n s.cur_index, 0 < bLength desc_buf p := by
  induction n generalizing s with
  | zero => exact fun p hp => absurd hp List.not_mem_nil
  | succ n ih =>
    intro p hmem
    unfold positions at hmem
    by_cases hp : s.cur_index < wTotalLength desc_buf
    · rw [if_pos hp] at hmem
      rcases List.mem_cons.1 hmem with rfl | hmem
      · by_contra hzero
        obtain ⟨rounds, hrun⟩ := hends
        rw [stuck_at_zero hp (by omega)] at hrun
        cases hrun
      · rcases hends.cases with ⟨t, hround, ht⟩ | hround
        · have hcur : t.cur_index = s.cur_index + bLength desc_buf s.cur_index := by
            unfold cfg_desc_round at hround
            dsimp only at hround
            rw [if_pos hp] at hround
            split_ifs at hround
            · obtain rfl := Sum.inl.inj hround
              rfl
            · obtain rfl := Sum.inl.inj hround
              rfl
          exact ih ht p (by rwa [hcur])
        · unfold cfg_desc_round at hround
          dsimp only at hround
          rw [if_pos hp] at hround
          split_ifs at hround
          cases Sum.inr.inj hround
    · rw [if_neg hp] at hmem
      exact absurd hmem List.not_mem_nil

/-! ## What the visits do -/

theorem foldl_reads (ps : List Nat) :
    (ps.foldl (visit lib desc_buf) s).reads = s.reads ++ ps.flatMap (reads_at lib desc_buf) := by
  induction ps generalizing s with
  | nil => simp
  | cons p ps ih => rw [List.foldl_cons, ih, visit_reads, List.flatMap_cons, List.append_assoc]

/-- A descriptor's reads stay inside unless it is of length one in the last byte, or of length zero there. -/
theorem reads_at_inside (hp : p < wTotalLength desc_buf) :
    (∀ i ∈ reads_at lib desc_buf p, i < wTotalLength desc_buf) ↔
      (p + 1 = wTotalLength desc_buf → 1 < bLength desc_buf p) := by
  unfold reads_at
  split_ifs with hlen hend
  · have h7 : 7 ≤ bLength desc_buf p := hend.2.2
    simp only [List.forall_mem_cons, List.not_mem_nil, false_imp_iff, implies_true, and_true]
    omega
  · simp only [List.forall_mem_cons, List.not_mem_nil, false_imp_iff, implies_true, and_true]
    omega
  · simp only [List.forall_mem_cons, List.not_mem_nil, false_imp_iff, implies_true, and_true]
    omega

theorem last_type_concat (is_in : Bool) (p : Nat) :
    last_type lib desc_buf is_in n (ps ++ [p]) =
      if dir_in lib desc_buf p = is_in ∧ epnum lib desc_buf p = n then some (ep_type lib desc_buf p)
      else last_type lib desc_buf is_in n ps := by
  unfold last_type
  split_ifs with h
  · rw [List.filter_append, List.filter_cons_of_pos (by simpa using h)]
    simp
  · rw [List.filter_append, List.filter_cons_of_neg (by simpa using h)]
    simp

def greater (m n : Nat) : Nat := if m < n then n else m

/-- The tables and the greatest number after the visits. -/
theorem foldl_entered (lib : Libs EpType) (desc_buf : Nat → UInt8) (s : Parse EpType) (ps : List Nat) :
    (∀ n, (ps.foldl (visit lib desc_buf) s).epTypeTableIn n =
        (last_type lib desc_buf true n (ps.filter fun p => IsEndpoint lib desc_buf p)).getD (s.epTypeTableIn n)) ∧
      (∀ n, (ps.foldl (visit lib desc_buf) s).epTypeTableOut n =
        (last_type lib desc_buf false n (ps.filter fun p => IsEndpoint lib desc_buf p)).getD (s.epTypeTableOut n)) ∧
      (ps.foldl (visit lib desc_buf) s).max_epnum =
        ((ps.filter fun p => IsEndpoint lib desc_buf p).map (epnum lib desc_buf)).foldl greater s.max_epnum := by
  induction ps using List.reverseRecOn with
  | nil => exact ⟨fun _ => rfl, fun _ => rfl, rfl⟩
  | append_singleton ps p ih =>
    obtain ⟨hin, hout, hmax⟩ := ih
    rw [List.foldl_append, List.foldl_cons, List.foldl_nil, List.filter_append]
    generalize ps.foldl (visit lib desc_buf) s = t at hin hout hmax ⊢
    by_cases hend : IsEndpoint lib desc_buf p
    · rw [List.filter_cons_of_pos (by simpa using hend), List.filter_nil, List.map_append, List.foldl_append, ← hmax]
      unfold visit
      rw [if_pos hend]
      refine ⟨fun n => ?_, fun n => ?_, ?_⟩
      · rw [last_type_concat]
        unfold enter
        by_cases hdir : dir_in lib desc_buf p = true
        · by_cases hn : n = epnum lib desc_buf p
          · simp [hdir, hn]
          · simp [hdir, hn, Ne.symm hn, hin n]
        · simp [hdir, hin n]
      · rw [last_type_concat]
        unfold enter
        by_cases hdir : dir_in lib desc_buf p = true
        · simp [hdir, hout n]
        · by_cases hn : n = epnum lib desc_buf p
          · simp [hdir, hn]
          · simp [hdir, hn, Ne.symm hn, hout n]
      · rfl
    · rw [List.filter_cons_of_neg (by simpa using hend), List.filter_nil, List.append_nil]
      unfold visit
      rw [if_neg hend]
      exact ⟨hin, hout, hmax⟩

/-! ## The parser -/

theorem foldl_greater (ns : List Nat) (m : Nat) :
    (∀ n ∈ ns, n ≤ ns.foldl greater m) ∧ m ≤ ns.foldl greater m ∧ (ns.foldl greater m = m ∨ ns.foldl greater m ∈ ns) := by
  induction ns using List.reverseRecOn with
  | nil => simp
  | append_singleton ns n ih =>
    obtain ⟨hle, hm, hmem⟩ := ih
    rw [List.foldl_append, List.foldl_cons, List.foldl_nil]
    generalize ns.foldl greater m = top at hle hm hmem ⊢
    unfold greater
    split_ifs with hlt
    · refine ⟨fun k hk => ?_, by omega, .inr (List.mem_append_right _ (List.mem_singleton_self n))⟩
      rcases List.mem_append.1 hk with hk | hk
      · have := hle k hk
        omega
      · exact Nat.le_of_eq (List.mem_singleton.1 hk)
    · refine ⟨fun k hk => ?_, hm, hmem.imp id fun h => List.mem_append_left _ h⟩
      rcases List.mem_append.1 hk with hk | hk
      · exact hle k hk
      · rw [List.mem_singleton.1 hk]
        omega

theorem mem_positions_lt {p q : Nat} (h : p ∈ positions desc_buf n q) : p < wTotalLength desc_buf := by
  induction n generalizing q with
  | zero => exact absurd h List.not_mem_nil
  | succ n ih =>
    unfold positions at h
    split_ifs at h with hq
    · rcases List.mem_cons.1 h with rfl | h
      · exact hq
      · exact ih h
    · exact absurd h List.not_mem_nil

variable {epTypeTableOut epTypeTableIn : Nat → EpType}

theorem parse_ends (hheader : HeaderOk lib desc_buf) {count : Nat} {pwr : Bool} :
    (∃ rounds, cfg_desc_parse lib desc_buf epTypeTableOut epTypeTableIn rounds = some (count, pwr, s)) ↔
      Loop.Ends (cfg_desc_round lib desc_buf) (cfg_desc_start desc_buf epTypeTableOut epTypeTableIn) (some s) ∧
        count = s.max_epnum + 1 ∧ pwr = decide (desc_buf 7 &&& lib.TUSB_DESC_CONFIG_ATT_SELF_POWERED ≠ 0) := by
  unfold cfg_desc_parse Loop.Ends
  simp only [if_pos hheader, Option.map_eq_some_iff, Option.join_eq_some_iff, Prod.mk.injEq]
  constructor
  · rintro ⟨rounds, s', hrun, rfl, rfl, rfl⟩
    exact ⟨⟨rounds, hrun⟩, rfl, rfl⟩
  · rintro ⟨⟨rounds, hrun⟩, rfl, rfl⟩
    exact ⟨rounds, s, hrun, rfl, rfl, rfl⟩

/-- What the loop ends with, as long as each descriptor has a length. -/
def parsed_end (lib : Libs EpType) (desc_buf : Nat → UInt8) (epTypeTableOut epTypeTableIn : Nat → EpType) :
    Parse EpType :=
  (descriptors desc_buf).foldl (visit lib desc_buf) (cfg_desc_start desc_buf epTypeTableOut epTypeTableIn)

theorem parsed_end_reads :
    (∀ i ∈ (parsed_end lib desc_buf epTypeTableOut epTypeTableIn).reads, i < wTotalLength desc_buf) ↔
      8 ≤ wTotalLength desc_buf ∧
        ∀ p ∈ descriptors desc_buf, p + 1 = wTotalLength desc_buf → 1 < bLength desc_buf p := by
  have hat : ∀ p ∈ descriptors desc_buf, ((∀ i ∈ reads_at lib desc_buf p, i < wTotalLength desc_buf) ↔
      (p + 1 = wTotalLength desc_buf → 1 < bLength desc_buf p)) := fun p hp => reads_at_inside (mem_positions_lt hp)
  unfold parsed_end
  rw [foldl_reads, List.forall_mem_append, List.forall_mem_flatMap]
  refine and_congr ?_ (forall₂_congr hat)
  simp only [cfg_desc_start, List.forall_mem_cons, List.not_mem_nil, false_imp_iff, implies_true, and_true]
  omega

/-- A configuration is parsed if and only if it is sane. -/
theorem cfg_desc_parse_iff (epTypeTableOut epTypeTableIn : Nat → EpType) (hheader : HeaderOk lib desc_buf)
    (hep : ∀ p ∈ endpoints lib desc_buf, epnum lib desc_buf p < RTOS_USB_ENDPOINT_COUNT_MAX) :
    (∃ rounds count pwr s,
      cfg_desc_parse lib desc_buf epTypeTableOut epTypeTableIn rounds = some (count, pwr, s) ∧
      Parsed lib desc_buf epTypeTableOut epTypeTableIn count s) ↔ Sane desc_buf := by
  have hends : (∀ p ∈ descriptors desc_buf, 0 < bLength desc_buf p) →
      Loop.Ends (cfg_desc_round lib desc_buf) (cfg_desc_start desc_buf epTypeTableOut epTypeTableIn)
        (some (parsed_end lib desc_buf epTypeTableOut epTypeTableIn)) :=
    fun hlen => ends_of_lengths hlen (fun p hp hend => hep p (List.mem_filter.2 ⟨hp, decide_eq_true hend⟩))
      (Nat.le_add_left _ _)
  constructor
  · rintro ⟨rounds, count, pwr, s, hrun, hparsed⟩
    have hend := ((parse_ends hheader).1 ⟨rounds, hrun⟩).1
    have hlen : ∀ p ∈ descriptors desc_buf, 0 < bLength desc_buf p := lengths_of_ends hend
    obtain rfl := Option.some.inj (hend.unique (hends hlen))
    obtain ⟨h8, hlast⟩ := parsed_end_reads.1 hparsed.reads
    exact ⟨h8, fun p hp => ⟨hlen p hp, hlast p hp⟩⟩
  · rintro ⟨h8, hall⟩
    obtain ⟨rounds, hrun⟩ := (parse_ends hheader).2 ⟨hends fun p hp => (hall p hp).1, rfl, rfl⟩
    obtain ⟨hin, hout, hmax⟩ := foldl_entered lib desc_buf (cfg_desc_start desc_buf epTypeTableOut epTypeTableIn)
      (descriptors desc_buf)
    obtain ⟨hle, -, hreached⟩ := foldl_greater ((endpoints lib desc_buf).map (epnum lib desc_buf)) 0
    have hcount : (parsed_end lib desc_buf epTypeTableOut epTypeTableIn).max_epnum =
        ((endpoints lib desc_buf).map (epnum lib desc_buf)).foldl greater 0 := hmax
    refine ⟨rounds, _, _, _, hrun, parsed_end_reads.2 ⟨h8, fun p hp => (hall p hp).2⟩, hin, hout, fun p hp => ?_, ?_⟩
    · rw [hcount]
      exact Nat.lt_succ_of_le (hle _ (List.mem_map_of_mem hp))
    · rw [hcount]
      rcases hreached with hzero | hmem
      · exact .inl (congrArg (· + 1) hzero)
      · obtain ⟨p, hp, heq⟩ := List.mem_map.1 hmem
        exact .inr ⟨p, hp, congrArg (· + 1) heq.symm⟩

/-! ## Two configurations -/

def usb_libs : Libs Nat :=
  ⟨2, 5, 0x40, (· &&& 0x7f), (0x80 ≤ ·),
    fun attributes => match attributes &&& 3 with
      | 0 => .TUSB_XFER_CONTROL
      | 1 => .TUSB_XFER_ISOCHRONOUS
      | 2 => .TUSB_XFER_BULK
      | _ => .TUSB_XFER_INTERRUPT, 0, 1, 2, 3⟩

/-- An interface with a bulk endpoint in each direction. -/
def two_endpoints (i : Nat) : UInt8 :=
  [9, 2, 32, 0, 1, 1, 0, 0x80, 50, 9, 4, 0, 0, 2, 0xff, 0, 0, 0, 7, 5, 0x81, 2, 0, 2, 0, 7, 5, 1, 2, 0, 2, 0].getD i 0

/-- Two bytes are left, with a length of zero. -/
def zero_length (i : Nat) : UInt8 := [9, 2, 11, 0, 1, 1, 0, 0x80, 50, 0, 0].getD i 0

/-- The two endpoints are found; the descriptor without a length has no parse. -/
theorem cfg_desc_parse_two_endpoints :
    (∃ rounds count pwr s, cfg_desc_parse usb_libs two_endpoints (fun _ => 4) (fun _ => 4) rounds = some (count, pwr, s) ∧
      Parsed usb_libs two_endpoints (fun _ => 4) (fun _ => 4) count s) ∧
      ¬ ∃ rounds count pwr s,
        cfg_desc_parse usb_libs zero_length (fun _ => 4) (fun _ => 4) rounds = some (count, pwr, s) ∧
        Parsed usb_libs zero_length (fun _ => 4) (fun _ => 4) count s := by
  constructor
  · exact (cfg_desc_parse_iff (fun _ => 4) (fun _ => 4) (by decide) (by decide)).2 (by decide)
  · intro hparsed
    exact absurd ((cfg_desc_parse_iff (fun _ => 4) (fun _ => 4) (by decide) (by decide)).1 hparsed) (by decide)

/-- The parser does not come back. -/
theorem zero_length_not_parsed : HeaderOk usb_libs zero_length ∧
    (∀ p ∈ endpoints usb_libs zero_length, epnum usb_libs zero_length p < RTOS_USB_ENDPOINT_COUNT_MAX) ∧
    ∀ rounds, cfg_desc_parse usb_libs zero_length (fun _ => 4) (fun _ => 4) rounds = none := by
  refine ⟨by decide, by decide, fun rounds => ?_⟩
  have hrun : Loop.run (cfg_desc_round usb_libs zero_length) rounds
      (cfg_desc_start zero_length (fun _ => 4) (fun _ => 4)) = none := stuck_at_zero (by decide) rfl rounds
  unfold cfg_desc_parse
  rw [hrun]
  split_ifs <;> rfl

end

end Usb
