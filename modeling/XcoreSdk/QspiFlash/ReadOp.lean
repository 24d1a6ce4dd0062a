import XcoreSdk.QspiFlash.Device
import XcoreSdk.QspiFlash.Locking
/-!
# `read_op`

The operation thread reads in chunks. A chunk that reaches past the end of the
flash is cut there and the rest of its part of the buffer is set to `0xFF`, but
the loop goes on by what is left of the chunk. So once the end is reached with
bytes left to be read, nothing more is read, and the loop does not end. Of each
chunk's address three bytes are sent, so the bytes of a larger flash behind them
are not those that are read.
-/

namespace QspiFlash
open Locking (RTOS_QSPI_FLASH_READ_CHUNK_SIZE)

/-! ## The code -/

/-- `memset(&data[pos], value, len)`. -/
def memset (data : Nat → UInt8) (pos : Nat) (value : UInt8) (len : Nat) : Nat → UInt8 :=
  fun i => if pos ≤ i ∧ i < pos + len then value else data i

/-- The variables of `read_op`; `pos` is where `data` points in the buffer. -/
structure Read where
  data : Nat → UInt8
  pos : Nat
  address : Nat
  len : Nat

/-- One round of the loop. The result `none` is that of a read from beyond the end. -/
def read_op_round (ctx : Ctx) (chip : Chip) (s : Read) : Read ⊕ Option (Nat → UInt8) :=
  if s.len > 0 then
    let original_len := min s.len RTOS_QSPI_FLASH_READ_CHUNK_SIZE
    let address := if s.address ≥ ctx.flash_size then ctx.flash_size else s.address
    -- the sum is an `unsigned`
    let past := (address + original_len) % 2 ^ 32 > ctx.flash_size
    let read_len := if past then ctx.flash_size - address else original_len
    let data := if past then memset s.data (s.pos + read_len) 0xFF (original_len - read_len) else s.data
    match qspi_flash_read ctx chip data s.pos address read_len with
    | none => .inr none
    | some data => .inl ⟨data, s.pos + read_len, (address + read_len) % 2 ^ 32, s.len - read_len⟩
  else .inr (some s.data)

/-- The buffer that a `read_op` of so many rounds leaves. -/
def read_op (rounds : Nat) (ctx : Ctx) (chip : Chip) (data : Nat → UInt8) (address len : Nat) : Option (Nat → UInt8) :=
  (Loop.run (read_op_round ctx chip) rounds ⟨data, 0, address, len⟩).join

/-- What a read is to leave at index `i`. -/
def read_byte (ctx : Ctx) (chip : Chip) (address i : Nat) : UInt8 :=
  if address + i < ctx.flash_size then chip.mem (address + i) else 0xFF

variable {ctx : Ctx} {chip : Chip} {s s' : Read} {data : Nat → UInt8} {address len : Nat}

/-! ## A round -/

/-- The chunk is within the flash, and the addresses of its bytes do not go past three bytes. -/
theorem read_op_within (hlen : 0 < s.len) (hwithin : s.address + min s.len RTOS_QSPI_FLASH_READ_CHUNK_SIZE ≤ ctx.flash_size)
    (hbytes : three_bytes s.address + min s.len RTOS_QSPI_FLASH_READ_CHUNK_SIZE ≤ 2 ^ 24) :
    read_op_round ctx chip s = .inl ⟨fun i =>
        if s.pos ≤ i ∧ i < s.pos + min s.len RTOS_QSPI_FLASH_READ_CHUNK_SIZE then
          chip.mem (three_bytes s.address + (i - s.pos))
        else s.data i,
      s.pos + min s.len RTOS_QSPI_FLASH_READ_CHUNK_SIZE, s.address + min s.len RTOS_QSPI_FLASH_READ_CHUNK_SIZE,
      s.len - min s.len RTOS_QSPI_FLASH_READ_CHUNK_SIZE⟩ := by
  have hpos : 0 < min s.len RTOS_QSPI_FLASH_READ_CHUNK_SIZE := Nat.lt_min.2 ⟨hlen, by decide⟩
  have hsize := ctx.flash_size_lt
  unfold read_op_round
  generalize min s.len RTOS_QSPI_FLASH_READ_CHUNK_SIZE = n at *
  have haddress : ¬ s.address ≥ ctx.flash_size := by omega
  have hmod : (s.address + n) % 2 ^ 32 = s.address + n := Nat.mod_eq_of_lt (by omega)
  have hpast : ¬ s.address + n > ctx.flash_size := by omega
  simp only [if_pos hlen, if_neg haddress, hmod, if_neg hpast, qspi_flash_read, if_pos (And.intro hwithin hbytes)]

/-- The addresses of a chunk within the flash do go past three bytes. -/
theorem read_op_across (hlen : 0 < s.len) (hwithin : s.address + min s.len RTOS_QSPI_FLASH_READ_CHUNK_SIZE ≤ ctx.flash_size)
    (hbytes : 2 ^ 24 < three_bytes s.address + min s.len RTOS_QSPI_FLASH_READ_CHUNK_SIZE) :
    read_op_round ctx chip s = .inr none := by
  have hpos : 0 < min s.len RTOS_QSPI_FLASH_READ_CHUNK_SIZE := Nat.lt_min.2 ⟨hlen, by decide⟩
  have hsize := ctx.flash_size_lt
  unfold read_op_round
  generalize min s.len RTOS_QSPI_FLASH_READ_CHUNK_SIZE = n at *
  have haddress : ¬ s.address ≥ ctx.flash_size := by omega
  have hmod : (s.address + n) % 2 ^ 32 = s.address + n := Nat.mod_eq_of_lt (by omega)
  have hpast : ¬ s.address + n > ctx.flash_size := by omega
  simp only [if_pos hlen, if_neg haddress, hmod, if_neg hpast, qspi_flash_read,
    if_neg fun h : s.address + n ≤ ctx.flash_size ∧ three_bytes s.address + n ≤ 2 ^ 24 => Nat.not_le.2 hbytes h.2]

/-- Where the range reaches past the end of the flash, it still does after a round, and bytes are left. -/
theorem read_op_past (hlen : 0 < s.len) (hpast : s.address + s.len > ctx.flash_size)
    (hr : read_op_round ctx chip s = .inl s') : 0 < s'.len ∧ s'.address + s'.len > ctx.flash_size := by
  have hsize := ctx.flash_size_lt
  have hchunk : min s.len RTOS_QSPI_FLASH_READ_CHUNK_SIZE ≤ s.len := Nat.min_le_left ..
  unfold read_op_round at hr
  simp only [if_pos hlen] at hr
  generalize min s.len RTOS_QSPI_FLASH_READ_CHUNK_SIZE = n at *
  obtain ⟨address, haddress⟩ : ∃ address, address = if s.address ≥ ctx.flash_size then ctx.flash_size else s.address :=
    ⟨_, rfl⟩
  have hle : address ≤ ctx.flash_size ∧ address ≤ s.address ∧ address + s.len > ctx.flash_size := by
    split at haddress <;> omega
  simp only [← haddress] at hr
  unfold qspi_flash_read at hr
  by_cases hover : (address + n) % 2 ^ 32 > ctx.flash_size
  · simp only [if_pos hover, Nat.add_sub_cancel' hle.1] at hr
    by_cases hin : ctx.flash_size ≤ ctx.flash_size ∧ three_bytes address + (ctx.flash_size - address) ≤ 2 ^ 24
    · simp only [if_pos hin] at hr
      obtain rfl := Sum.inl.inj hr
      dsimp only
      rw [Nat.mod_eq_of_lt hsize]
      omega
    · simp only [if_neg hin] at hr
      cases hr
  · simp only [if_neg hover] at hr
    by_cases hin : address + n ≤ ctx.flash_size ∧ three_bytes address + n ≤ 2 ^ 24
    · simp only [if_pos hin] at hr
      obtain rfl := Sum.inl.inj hr
      dsimp only
      rw [Nat.mod_eq_of_lt (Nat.lt_of_le_of_lt hin.1 hsize)]
      omega
    · simp only [if_neg hin] at hr
      cases hr

/-! ## The loop -/

/-- What has been read up to now. -/
structure ReadInv (ctx : Ctx) (chip : Chip) (address len : Nat) (s : Read) : Prop where
  reached : s.address = address + s.pos
  left : s.pos + s.len = len
  copied : ∀ i < s.pos, s.data i = chip.mem (three_bytes address + i)

theorem ReadInv.round (h : ReadInv ctx chip address len s) (hwithin : address + len ≤ ctx.flash_size)
    (hbytes : three_bytes address + len ≤ 2 ^ 24) (hlen : 0 < s.len) :
    ∃ s', read_op_round ctx chip s = .inl s' ∧ ReadInv ctx chip address len s' ∧ s'.len < s.len := by
  have hpos : 0 < min s.len RTOS_QSPI_FLASH_READ_CHUNK_SIZE := Nat.lt_min.2 ⟨hlen, by decide⟩
  have hchunk : min s.len RTOS_QSPI_FLASH_READ_CHUNK_SIZE ≤ s.len := Nat.min_le_left ..
  have ha := h.reached
  have hl := h.left
  have hsent : three_bytes s.address = three_bytes address + s.pos := by
    rw [ha]
    exact three_bytes_add (by omega)
  refine ⟨_, read_op_within hlen (by omega) (by omega), ⟨?_, ?_, fun i hi => ?_⟩, ?_⟩
  · dsimp only
    omega
  · dsimp only
    omega
  · dsimp only at hi ⊢
    split
    · rw [hsent]
      congr 1
      omega
    · exact h.copied i (by omega)
  · dsimp only
    omega

variable (chip data) in
theorem read_op_ends (hwithin : address + len ≤ ctx.flash_size) (hbytes : three_bytes address + len ≤ 2 ^ 24) :
    ∃ r, Loop.Ends (read_op_round ctx chip) ⟨data, 0, address, len⟩ r ∧
      ∃ data', r = some data' ∧ ∀ i < len, data' i = chip.mem (three_bytes address + i) := by
  apply Loop.ends_of_variant (I := ReadInv ctx chip address len) Read.len
  · intro s s' h hr
    by_cases hlen : 0 < s.len
    · obtain ⟨t, ht, hinv, hlt⟩ := h.round hwithin hbytes hlen
      obtain rfl := Sum.inl.inj (ht.symm.trans hr)
      exact ⟨hinv, hlt⟩
    · rw [read_op_round, if_neg hlen] at hr
      cases hr
  · intro s r h hr
    by_cases hlen : 0 < s.len
    · obtain ⟨t, ht, -⟩ := h.round hwithin hbytes hlen
      cases ht.symm.trans hr
    · rw [read_op_round, if_neg hlen] at hr
      obtain rfl := Sum.inr.inj hr
      exact ⟨s.data, rfl, fun i hi => h.copied i (by have := h.left; omega)⟩
  · exact ⟨rfl, Nat.zero_add _, fun i hi => absurd hi (Nat.not_lt_zero i)⟩

theorem read_op_mono {rounds : Nat} {out : Nat → UInt8} (h : read_op rounds ctx chip data address len = some out) (more : Nat) :
    read_op (rounds + more) ctx chip data address len = some out := by
  rw [read_op, Loop.run_mono (Option.join_eq_some_iff.1 h) more]
  rfl

variable (chip data) in
theorem read_op_copies (hwithin : address + len ≤ ctx.flash_size) (hbytes : three_bytes address + len ≤ 2 ^ 24) :
    ∃ rounds out, read_op rounds ctx chip data address len = some out ∧
      ∀ i < len, out i = chip.mem (three_bytes address + i) := by
  obtain ⟨r, ⟨rounds, hrun⟩, out, rfl, hout⟩ := read_op_ends chip data hwithin hbytes
  exact ⟨rounds, out, by rw [read_op, hrun]; rfl, hout⟩

/-- Past the end, a read leaves no buffer, however many rounds it is given. -/
theorem read_op_none (hlen : 0 < len) (hpast : address + len > ctx.flash_size) (rounds : Nat) :
    read_op rounds ctx chip data address len = none := by
  unfold read_op
  rcases hr : Loop.run (read_op_round ctx chip) rounds ⟨data, 0, address, len⟩ with _ | r
  · rfl
  · have hnone : r = none := by
      refine Loop.run_post (I := fun s => 0 < s.len ∧ s.address + s.len > ctx.flash_size) (Q := fun r => r = none)
        (fun s s' h hr => read_op_past h.1 h.2 hr) (fun s r h hr => ?_) ⟨hlen, hpast⟩ hr
      simp only [read_op_round, if_pos h.1] at hr
      split at hr
      · exact (Sum.inr.inj hr).symm
      · cases hr
    rw [hnone]
    rfl

/-- Nor does a read of one chunk that goes past the last address of three bytes. -/
theorem read_op_none_across (hlen : 0 < len) (hchunk : len ≤ RTOS_QSPI_FLASH_READ_CHUNK_SIZE)
    (hwithin : address + len ≤ ctx.flash_size) (hbytes : 2 ^ 24 < three_bytes address + len) (rounds : Nat) :
    read_op rounds ctx chip data address len = none := by
  have hmin : min len RTOS_QSPI_FLASH_READ_CHUNK_SIZE = len := Nat.min_eq_left hchunk
  have hround : read_op_round ctx chip ⟨data, 0, address, len⟩ = .inr none :=
    read_op_across hlen (hmin.symm ▸ hwithin) (hmin.symm ▸ hbytes)
  cases rounds with
  | zero => rfl
  | succ rounds =>
    rw [read_op, Loop.run, hround]
    rfl

/-- The loop goes round for ever. -/
theorem read_op_hangs (hlen : 0 < len) (hpast : address + len > ctx.flash_size) (hsize : ctx.flash_size ≤ 2 ^ 24)
    (rounds : Nat) : Loop.run (read_op_round ctx chip) rounds ⟨data, 0, address, len⟩ = none := by
  refine Loop.run_none (I := fun s => 0 < s.len ∧ s.address + s.len > ctx.flash_size) (fun s h => ?_) ⟨hlen, hpast⟩ rounds
  rcases hr : read_op_round ctx chip s with s' | r
  · exact ⟨s', rfl, read_op_past h.1 h.2 hr⟩
  · exfalso
    have hchunk : min s.len RTOS_QSPI_FLASH_READ_CHUNK_SIZE ≤ RTOS_QSPI_FLASH_READ_CHUNK_SIZE := Nat.min_le_right ..
    have hsmall : RTOS_QSPI_FLASH_READ_CHUNK_SIZE < 2 ^ 24 := by decide
    simp only [read_op_round, if_pos h.1] at hr
    generalize min s.len RTOS_QSPI_FLASH_READ_CHUNK_SIZE = n at *
    obtain ⟨address, haddress⟩ : ∃ address, address = if s.address ≥ ctx.flash_size then ctx.flash_size else s.address :=
      ⟨_, rfl⟩
    have hle : address ≤ ctx.flash_size := by split at haddress <;> omega
    have hsent := three_bytes_le address
    simp only [← haddress, qspi_flash_read, Nat.mod_eq_of_lt (show address + n < 2 ^ 32 by omega)] at hr
    by_cases hover : address + n > ctx.flash_size
    · have hin : address + (ctx.flash_size - address) ≤ ctx.flash_size ∧
          three_bytes address + (ctx.flash_size - address) ≤ 2 ^ 24 := ⟨by omega, by omega⟩
      simp only [if_pos hover, if_pos hin] at hr
      cases hr
    · have hin : address + n ≤ ctx.flash_size ∧ three_bytes address + n ≤ 2 ^ 24 := ⟨by omega, by omega⟩
      simp only [if_neg hover, if_pos hin] at hr
      cases hr

/-! ## What a read leaves -/

/-- A read that ends at 2 ^ 24 at the latest. -/
theorem read_op_reached (chip : Chip) (data : Nat → UInt8) (hwithin : address + len ≤ ctx.flash_size)
    (hbytes : address + len ≤ 2 ^ 24) : ∃ rounds out, read_op rounds ctx chip data address len = some out ∧
      ∀ i < len, out i = chip.mem (address + i) := by
  have hsent := three_bytes_le address
  obtain ⟨rounds, out, hr, hout⟩ := read_op_copies chip data hwithin (by omega)
  refine ⟨rounds, out, hr, fun i hi => ?_⟩
  rw [hout i hi, three_bytes_eq (by omega)]

/-- Where the range lies in the flash, the bytes that are read are of addresses that three bytes hold. -/
theorem read_op_low {P : UInt8 → Prop} (hP : ∀ a < 2 ^ 24, P (chip.mem a)) (hwithin : address + len ≤ ctx.flash_size)
    {rounds : Nat} {out : Nat → UInt8} (h : read_op rounds ctx chip data address len = some out) : ∀ i < len, P (out i) := by
  have hrun := Option.join_eq_some_iff.1 h
  refine Loop.run_post (I := fun s : Read => s.address = address + s.pos ∧ s.pos + s.len = len ∧ ∀ i < s.pos, P (s.data i))
    (Q := fun r => ∀ out, r = some out → ∀ i < len, P (out i)) ?_ ?_
    ⟨rfl, Nat.zero_add _, fun i hi => absurd hi (Nat.not_lt_zero i)⟩ hrun out rfl
  · rintro s s' ⟨haddress, hleft, hdata⟩ hr
    have hchunk : min s.len RTOS_QSPI_FLASH_READ_CHUNK_SIZE ≤ s.len := Nat.min_le_left ..
    by_cases hlen : 0 < s.len
    · by_cases hbytes : three_bytes s.address + min s.len RTOS_QSPI_FLASH_READ_CHUNK_SIZE ≤ 2 ^ 24
      · rw [read_op_within hlen (by omega) hbytes] at hr
        obtain rfl := Sum.inl.inj hr
        refine ⟨by dsimp only; omega, by dsimp only; omega, fun i hi => ?_⟩
        dsimp only at hi ⊢
        split
        · exact hP _ (by omega)
        · exact hdata i (by omega)
      · rw [read_op_across hlen (by omega) (Nat.lt_of_not_le hbytes)] at hr
        cases hr
    · rw [read_op_round, if_neg hlen] at hr
      cases hr
  · rintro s r ⟨haddress, hleft, hdata⟩ hr
    have hchunk : min s.len RTOS_QSPI_FLASH_READ_CHUNK_SIZE ≤ s.len := Nat.min_le_left ..
    by_cases hlen : 0 < s.len
    · by_cases hbytes : three_bytes s.address + min s.len RTOS_QSPI_FLASH_READ_CHUNK_SIZE ≤ 2 ^ 24
      · rw [read_op_within hlen (by omega) hbytes] at hr
        cases hr
      · rw [read_op_across hlen (by omega) (Nat.lt_of_not_le hbytes)] at hr
        obtain rfl := Sum.inr.inj hr
        intro out hout
        cases hout
    · rw [read_op_round, if_neg hlen] at hr
      obtain rfl := Sum.inr.inj hr
      rintro out hout i hi
      obtain rfl := Option.some.inj hout
      exact hdata i (by omega)

/-- A flash that has other bytes from 2 ^ 24 on than before. -/
def two_halves : Chip := ⟨fun a => if a < 2 ^ 24 then 0 else 1, false, 0, [], fun _ => 0⟩

/-- A read ends with the flash's bytes, and `0xFF` past them, exactly where it ends in the flash, and where the
address of each of its bytes is one of three bytes. -/
theorem read_op_reads (ctx : Ctx) (address len : Nat) :
    (∀ chip data, ∃ rounds out, read_op rounds ctx chip data address len = some out ∧
      ∀ i < len, out i = read_byte ctx chip address i) ↔
      len = 0 ∨ address + len ≤ ctx.flash_size ∧ address + len ≤ 2 ^ 24 := by
  constructor
  · intro h
    by_contra hcond
    obtain ⟨rounds, out, hr, hout⟩ := h two_halves fun _ => 0
    by_cases hpast : address + len > ctx.flash_size
    · rw [read_op_none (by omega) hpast] at hr
      cases hr
    · have hzero : out (len - 1) = 0 :=
        read_op_low (P := fun b => b = 0) (fun a ha => if_pos ha) (by omega) hr (len - 1) (by omega)
      have hone : out (len - 1) = 1 := by
        rw [hout (len - 1) (by omega), read_byte, if_pos (by omega)]
        exact if_neg (by omega)
      rw [hzero] at hone
      cases hone
  · rintro (rfl | ⟨hwithin, hbytes⟩) chip data
    · exact ⟨1, data, rfl, fun i hi => absurd hi (Nat.not_lt_zero i)⟩
    · obtain ⟨rounds, out, hr, hout⟩ := read_op_reached chip data hwithin hbytes
      refine ⟨rounds, out, hr, fun i hi => ?_⟩
      rw [hout i hi, read_byte, if_pos (by omega)]

/-- The byte behind the last one of a flash of 8 bytes. -/
theorem read_op_reads_behind : ¬ ∃ rounds out, read_op rounds ⟨8, 8, fun _ => 0, by decide, 3, rfl⟩
    ⟨fun _ => 0, false, 0, [], fun _ => 0⟩ (fun _ => 0) 8 1 = some out ∧
      ∀ i < 1, out i = read_byte ⟨8, 8, fun _ => 0, by decide, 3, rfl⟩ ⟨fun _ => 0, false, 0, [], fun _ => 0⟩ 8 i := by
  rintro ⟨rounds, out, hr, -⟩
  rw [read_op_none (by decide) (by decide)] at hr
  cases hr

end QspiFlash
