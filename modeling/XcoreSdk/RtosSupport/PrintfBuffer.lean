import XcoreSdk.RtosSupport.PrintfScan
import Mathlib.Data.List.Induction
/-!
# What the buffer gets

`rtos_snprintf` and `rtos_sprintf` keep the first bytes of the text, as many as
the buffer has; the NUL is written only where there is room left for it. With a
buffer that is written out whenever it is full, the blocks are the text.
-/

namespace Printf

variable {args : Args} {size : UInt32} {str : Nat → UInt8} {text : List UInt8}

/-! ## A buffer that is cut off -/

/-- The buffer after the text. -/
def filled (size : UInt32) (str : Nat → UInt8) (text : List UInt8) (i : Nat) : UInt8 :=
  if i < size.toNat then text[i]?.getD (str i) else str i

theorem toNat_pos (h : text.length < 2 ^ 32) : (UInt32.ofNat text.length).toNat = text.length :=
  UInt32.toNat_ofNat_of_lt' h

theorem outbyte_filled (c : UInt8) (h : (text ++ [c]).length < 2 ^ 32) :
    outbyte c ⟨size, UInt32.ofNat text.length, filled size str text, false, []⟩ =
      ⟨size, UInt32.ofNat (text ++ [c]).length, filled size str (text ++ [c]), false, []⟩ := by
  have hlen : text.length < 2 ^ 32 := by
    rw [List.length_append] at h
    omega
  have hpos := toNat_pos hlen
  have hstr : (if UInt32.ofNat text.length < size then
      Function.update (filled size str text) (UInt32.ofNat text.length).toNat c else filled size str text) =
        filled size str (text ++ [c]) := by
    funext i
    simp only [UInt32.lt_iff_toNat_lt, hpos]
    split_ifs with hroom
    · rcases Nat.lt_trichotomy i text.length with hlt | rfl | hgt
      · rw [Function.update_of_ne (Nat.ne_of_lt hlt), filled, filled, List.getElem?_append_left hlt]
      · rw [Function.update_self, filled, if_pos hroom, List.getElem?_concat_length, Option.getD_some]
      · rw [Function.update_of_ne (Nat.ne_of_gt hgt), filled, filled, List.getElem?_eq_none (Nat.le_of_lt hgt),
          List.getElem?_eq_none (by rw [List.length_append, List.length_singleton]; exact hgt)]
    · unfold filled
      split_ifs with hi
      · rw [List.getElem?_append_left (by omega)]
      · rfl
  have hnext : UInt32.ofNat text.length + 1 = UInt32.ofNat (text ++ [c]).length := by
    rw [List.length_append, List.length_singleton, UInt32.ofNat_add]
    rfl
  simp only [outbyte, hstr, hnext, Bool.false_eq_true, false_and, if_false]

theorem foldl_filled (h : text.length < 2 ^ 32) :
    text.foldl (fun par c => outbyte c par) ⟨size, 0, str, false, []⟩ =
      ⟨size, UInt32.ofNat text.length, filled size str text, false, []⟩ := by
  induction text using List.reverseRecOn with
  | nil =>
    have hnil : filled size str [] = str := by
      funext i
      simp [filled]
    rw [hnil]
    rfl
  | append_singleton text c ih =>
    have hlen : text.length < 2 ^ 32 := by
      rw [List.length_append] at h
      omega
    rw [List.foldl_append, ih hlen]
    exact outbyte_filled c h

/-- What `rtos_snprintf` returns and leaves in the buffer, where the length does not overflow. -/
theorem snprintf_eq (fmt : CString) (htext : printed args 0 fmt.chars = some text) (h : text.length < 2 ^ 32) :
    rtos_snprintf str size fmt args = some (Int32.ofNat text.length,
      if text.length < size.toNat then Function.update (filled size str text) text.length 0
      else filled size str text) := by
  have hpos := toNat_pos h
  simp only [rtos_snprintf, rtos_vsnwprintf, scan_eq, htext, Option.map_some, foldl_filled h, UInt32.lt_iff_toNat_lt,
    hpos]
  split_ifs <;> rfl

/-- What callers of `rtos_snprintf` rely on. -/
structure Contract (size : UInt32) (str : Nat → UInt8) (text : List UInt8) (r : Int32 × (Nat → UInt8)) : Prop where
  outside : ∀ i, size.toNat ≤ i → r.2 i = str i
  longest : ∀ i, i < min text.length (size.toNat - 1) → text[i]? = some (r.2 i)
  terminated : r.2 (min text.length (size.toNat - 1)) = 0
  length : r.1.toInt = text.length

theorem filled_outside (i : Nat) (h : size.toNat ≤ i) : filled size str text i = str i := if_neg (Nat.not_lt.2 h)

theorem filled_inside (i : Nat) (h : i < size.toNat) (htext : i < text.length) :
    text[i]? = some (filled size str text i) := by
  rw [filled, if_pos h, List.getElem?_eq_getElem htext, Option.getD_some]

theorem contract_fits (hfits : text.length < size.toNat) (hlen : text.length < 2 ^ 31) :
    Contract size str text (Int32.ofNat text.length, Function.update (filled size str text) text.length 0) := by
  have hmin : min text.length (size.toNat - 1) = text.length := Nat.min_eq_left (by omega)
  refine ⟨fun i hi => ?_, fun i hi => ?_, ?_, Int32.toInt_ofNat_of_lt hlen⟩
  · exact (Function.update_of_ne (by omega) ..).trans (filled_outside i hi)
  · rw [hmin] at hi
    exact (filled_inside i (by omega) hi).trans (congrArg some (Function.update_of_ne (Nat.ne_of_lt hi) ..).symm)
  · rw [hmin]
    exact Function.update_self ..

theorem contract_cut_iff (hsize : 0 < size.toNat) (hcut : size.toNat ≤ text.length) (hlen : text.length < 2 ^ 31) :
    Contract size str text (Int32.ofNat text.length, filled size str text) ↔ text[size.toNat - 1]? = some 0 := by
  have hmin : min text.length (size.toNat - 1) = size.toNat - 1 := Nat.min_eq_right (by omega)
  have hlast : text[size.toNat - 1]? = some (filled size str text (size.toNat - 1)) :=
    filled_inside _ (by omega) (by omega)
  refine ⟨fun h => ?_, fun h => ⟨filled_outside, fun i hi => ?_, ?_, Int32.toInt_ofNat_of_lt hlen⟩⟩
  · have hnul := h.terminated
    rw [hmin] at hnul
    exact hlast.trans (congrArg some hnul)
  · exact filled_inside i (by omega) (by omega)
  · rw [hmin]
    exact Option.some.inj (hlast.symm.trans h)

/-- `rtos_snprintf` keeps its contract just where the text is shorter than the buffer, or has a NUL of its own in the
place of the buffer's last byte. -/
theorem snprintf_contract_iff (str : Nat → UInt8) (size : UInt32) (fmt : CString) (args : Args) (hsize : 0 < size) :
    (∃ text r, printed args 0 fmt.chars = some text ∧ rtos_snprintf str size fmt args = some r ∧
      Contract size str text r) ↔
      ∃ text, printed args 0 fmt.chars = some text ∧ text.length < 2 ^ 31 ∧
        (text.length < size.toNat ∨ text[size.toNat - 1]? = some 0) := by
  have hpos : 0 < size.toNat := UInt32.lt_iff_toNat_lt.1 hsize
  refine exists_congr fun text => ⟨?_, ?_⟩
  · rintro ⟨r, htext, hr, hcontract⟩
    have hlen : text.length < 2 ^ 31 := by
      have hlt := r.1.toInt_lt
      rw [hcontract.length] at hlt
      exact Int.ofNat_lt.1 hlt
    rw [snprintf_eq fmt htext (by omega)] at hr
    obtain rfl := Option.some.inj hr
    refine ⟨htext, hlen, (Nat.lt_or_ge text.length size.toNat).imp_right fun hcut => ?_⟩
    rw [if_neg (Nat.not_lt.2 hcut)] at hcontract
    exact (contract_cut_iff hpos hcut hlen).1 hcontract
  · rintro ⟨htext, hlen, hroom⟩
    refine ⟨_, htext, snprintf_eq fmt htext (by omega), ?_⟩
    split_ifs with hfits
    · exact contract_fits hfits hlen
    · exact (contract_cut_iff hpos (Nat.not_lt.1 hfits) hlen).2 (hroom.resolve_left hfits)

theorem printed_two : printed no_args 0 [97, 98] = some [97, 98] := rfl

/-- Two characters fit into three bytes, and not into two. -/
theorem snprintf_contract_two : (∃ text r, printed no_args 0 [97, 98] = some text ∧
    rtos_snprintf (fun _ => 255) 3 ⟨[97, 98], by decide, by decide⟩ no_args = some r ∧
      Contract 3 (fun _ => 255) text r) ∧
    ¬ ∃ text r, printed no_args 0 [97, 98] = some text ∧
      rtos_snprintf (fun _ => 255) 2 ⟨[97, 98], by decide, by decide⟩ no_args = some r ∧
        Contract 2 (fun _ => 255) text r := by
  have hthree := snprintf_contract_iff (fun _ => 255) 3 ⟨[97, 98], by decide, by decide⟩ no_args (by decide)
  have htwo := snprintf_contract_iff (fun _ => 255) 2 ⟨[97, 98], by decide, by decide⟩ no_args (by decide)
  refine ⟨hthree.2 ⟨[97, 98], printed_two, by decide, .inl (by decide)⟩, fun hcontract => ?_⟩
  obtain ⟨text, htext, -, hroom⟩ := htwo.1 hcontract
  obtain rfl : [97, 98] = text := Option.some.inj (printed_two.symm.trans htext)
  exact absurd hroom (by decide)

/-- Into two bytes they are put without a NUL. -/
theorem snprintf_unterminated : ¬ ∃ text r, printed no_args 0 [97, 98] = some text ∧
    rtos_snprintf (fun _ => 255) 2 ⟨[97, 98], by decide, by decide⟩ no_args = some r ∧
      Contract 2 (fun _ => 255) text r := by
  rintro ⟨text, r, htext, hr, hcontract⟩
  obtain rfl : [97, 98] = text := Option.some.inj (printed_two.symm.trans htext)
  rw [snprintf_eq _ printed_two (by decide)] at hr
  obtain rfl := Option.some.inj hr
  exact absurd hcontract.terminated (by decide)

/-! ## A buffer that is written out -/

/-- The blocks and what is in the buffer are the text so far. -/
structure Streamed (size : UInt32) (text : List UInt8) (par : Stream) : Prop where
  size_eq : par.size = size
  writeout : par.writeout = true
  room : par.pos < size
  text_eq : par.written.flatten ++ block par.str par.pos.toNat = text

theorem block_update_succ (pos : Nat) (c : UInt8) : block (Function.update str pos c) (pos + 1) = block str pos ++ [c] := by
  unfold block
  rw [List.range_succ, List.map_append, List.map_singleton, Function.update_self]
  congr 1
  refine List.map_congr_left fun i hi => Function.update_of_ne ?_ ..
  exact Nat.ne_of_lt (List.mem_range.1 hi)

theorem Streamed.outbyte {par : Stream} (h : Streamed size text par) (c : UInt8) :
    Streamed size (text ++ [c]) (outbyte c par) := by
  obtain ⟨_, pos, str, _, written⟩ := par
  obtain ⟨rfl, rfl, hroom, rfl⟩ := h
  have hlt := UInt32.lt_iff_toNat_lt.1 hroom
  have hsucc : (pos + 1).toNat = pos.toNat + 1 := by
    rw [UInt32.toNat_add]
    exact Nat.mod_eq_of_lt (Nat.lt_of_le_of_lt hlt (UInt32.toNat_lt _))
  simp only [Printf.outbyte, if_pos hroom, true_and]
  split_ifs with hfull
  · -- the buffer is full and is written out
    rw [UInt32.le_iff_toNat_le, hsucc] at hfull
    have hsize := Nat.le_antisymm hlt hfull
    refine ⟨rfl, rfl, UInt32.lt_iff_toNat_lt.2 (Nat.lt_of_le_of_lt (Nat.zero_le _) hlt), ?_⟩
    rw [← hsize, Nat.succ_eq_add_one, block_update_succ]
    simp [block]
  · refine ⟨rfl, rfl, UInt32.not_le.1 hfull, ?_⟩
    simp only [hsucc, block_update_succ, List.append_assoc]

theorem Streamed.foldl {par : Stream} (h : Streamed size text par) (more : List UInt8) :
    Streamed size (text ++ more) (more.foldl (fun par c => Printf.outbyte c par) par) := by
  induction more generalizing text par with
  | nil => rwa [List.append_nil]
  | cons c more ih =>
    have hmore := ih (h.outbyte c)
    rwa [List.append_assoc, List.singleton_append] at hmore

theorem block_update_self (pos : Nat) (c : UInt8) : block (Function.update str pos c) pos = block str pos :=
  List.map_congr_left fun _ hi => Function.update_of_ne (Nat.ne_of_lt (List.mem_range.1 hi)) ..

theorem vprintf_flatten (size : UInt32) (buf : Nat → UInt8) (fmt : CString) (args : Args) (hsize : 0 < size) :
    (rtos_vprintf size buf fmt args).map (fun r => r.2.flatten) = printed args 0 fmt.chars := by
  have hstart : Streamed size [] ⟨size, 0, buf, true, []⟩ := ⟨rfl, rfl, hsize, rfl⟩
  rw [rtos_vprintf, rtos_vsnwprintf, scan_eq]
  cases printed args 0 fmt.chars with
  | none => rfl
  | some text =>
    obtain ⟨hsize_eq, -, hroom, htext⟩ := hstart.foldl text
    rw [List.nil_append] at htext
    simp only [Option.map_some, hsize_eq, if_pos hroom, UInt32.toUInt32_toInt32, block_update_self, List.flatten_append,
      List.flatten_cons, List.flatten_nil, List.append_nil, htext]

theorem sprintf_block (str : Nat → UInt8) (fmt : CString) (htext : printed args 0 fmt.chars = some text)
    (h : text.length < SIZE_MAX.toNat) :
    (rtos_sprintf str fmt args).map (fun r => block r.2 r.1.toUInt32.toNat) = some text := by
  have hmax : SIZE_MAX.toNat < 2 ^ 32 := by decide
  have hsnprintf : rtos_sprintf str fmt args = rtos_snprintf str SIZE_MAX fmt args := rfl
  rw [hsnprintf, snprintf_eq fmt htext (Nat.lt_trans h hmax), if_pos h, Option.map_some]
  have hlen : (Int32.ofNat text.length).toUInt32.toNat = text.length := toNat_pos (Nat.lt_trans h hmax)
  rw [hlen, block_update_self]
  refine congrArg some (List.ext_getElem (by simp [block]) fun i hi hi' => ?_)
  have hinside : text[i]? = some (filled SIZE_MAX str text i) := filled_inside i (Nat.lt_trans hi' h) hi'
  rw [List.getElem?_eq_getElem hi'] at hinside
  rw [Option.some.inj hinside]
  simp [block]

/-- The blocks that `rtos_vprintf` writes are together the text that `rtos_sprintf` leaves in a buffer with room for it
and its NUL. -/
theorem streaming_eq (RTOS_PRINTF_BUFSIZE : UInt32) (hsize : 0 < RTOS_PRINTF_BUFSIZE) (buf str : Nat → UInt8)
    (room : UInt32) (fmt : CString) (args : Args)
    (hroom : ∀ text, printed args 0 fmt.chars = some text → text.length < room.toNat) :
    (rtos_vprintf RTOS_PRINTF_BUFSIZE buf fmt args).map (fun r => r.2.flatten) =
      (rtos_sprintf str fmt args).map fun r => block r.2 r.1.toUInt32.toNat := by
  rw [vprintf_flatten _ _ _ _ hsize]
  cases htext : printed args 0 fmt.chars with
  | none => simp [rtos_sprintf, rtos_vsnwprintf, scan_eq, htext]
  | some text =>
    have hmax : room.toNat ≤ SIZE_MAX.toNat := Nat.le_of_lt_succ room.toNat_lt
    exact (sprintf_block str fmt htext (Nat.lt_of_lt_of_le (hroom text htext) hmax)).symm

theorem streaming_two : (rtos_vprintf 1 (fun _ => 255) ⟨[97, 98], by decide, by decide⟩ no_args).map
      (fun r => r.2.flatten) =
    (rtos_sprintf (fun _ => 255) ⟨[97, 98], by decide, by decide⟩ no_args).map fun r =>
      block r.2 r.1.toUInt32.toNat :=
  streaming_eq 1 (by decide) (fun _ => 255) (fun _ => 255) 3 ⟨[97, 98], by decide, by decide⟩ no_args
    fun text htext => by
      have hprinted : printed no_args 0 [97, 98] = some [97, 98] := rfl
      obtain rfl : [97, 98] = text := Option.some.inj (hprinted.symm.trans htext)
      decide

end Printf
