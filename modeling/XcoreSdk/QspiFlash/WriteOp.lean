import XcoreSdk.QspiFlash.Device
/-!
# `write_op`

The operation thread writes page by page. Every round but the last one ends with
its page, so no program wraps, and where the flash has a whole number of pages
none reaches past its end. Three bytes of each page's address are sent, so data
for the addresses of a larger flash behind them are programmed in front.
-/

namespace QspiFlash

/-! ## The code -/

/-- The variables of `write_op`, and the chip. -/
structure Write where
  chip : Chip
  bytes_left_to_write : Nat
  address_to_write : Nat
  write_buf : List UInt8

/-- One round of the loop. -/
def write_op_round (ctx : Ctx) (s : Write) : Write ⊕ Chip :=
  if s.bytes_left_to_write > 0 then
    let max_bytes_to_write := ctx.page_size_bytes - (s.address_to_write &&& (ctx.page_size_bytes - 1))
    let bytes_to_write := if s.bytes_left_to_write ≤ max_bytes_to_write then s.bytes_left_to_write else max_bytes_to_write
    if s.address_to_write ≥ ctx.flash_size then .inr s.chip
    else
      let chip := qspi_flash_write_enable s.chip
      let chip := while_busy (qspi_flash_write ctx chip (s.write_buf.take bytes_to_write) s.address_to_write)
      .inl ⟨chip, s.bytes_left_to_write - bytes_to_write, (s.address_to_write + bytes_to_write) % 2 ^ 32,
        s.write_buf.drop bytes_to_write⟩
  else .inr s.chip

/-- The chip after a `write_op` of so many rounds. -/
def write_op (rounds : Nat) (ctx : Ctx) (chip : Chip) (data : List UInt8) (address : Nat) : Option Chip :=
  Loop.run (write_op_round ctx) rounds ⟨chip, data.length, address, data⟩

/-! ## What a write is to do -/

/-- The byte that `data`, written from `address` on, has for the byte at `a` of the flash. -/
def write_byte (ctx : Ctx) (address : Nat) (data : List UInt8) (a : Nat) : Option UInt8 :=
  if address ≤ a ∧ a < ctx.flash_size then data[a - address]? else none

/-- Page programs, each its address and its bytes, that write `data` from `address` on. -/
structure Programs (ctx : Ctx) (address : Nat) (data : List UInt8) (programs : List (Nat × List UInt8)) : Prop where
  within_page : ∀ p ∈ programs, 0 < p.2.length ∧ p.1 % ctx.page_size_bytes + p.2.length ≤ ctx.page_size_bytes
  /-- One begins where the ones before have ended, or later. -/
  in_order : programs.Pairwise fun p q => p.1 + p.2.length ≤ q.1
  matching : ∀ p ∈ programs, ∀ i (hi : i < p.2.length), write_byte ctx address data (p.1 + i) = some p.2[i]
  covered : ∀ a, (write_byte ctx address data a).isSome → ∃ p ∈ programs, p.1 ≤ a ∧ a < p.1 + p.2.length

/-- A page program as it is sent. -/
def Command.ofProgram (p : Nat × List UInt8) : Command := .program (three_bytes p.1) p.2

variable {ctx : Ctx} {chip : Chip} {s s' : Write} {data : List UInt8} {address a : Nat}

/-! ## A round -/

/-- What a round writes: up to the end of the page. -/
def chunk (ctx : Ctx) (s : Write) : Nat :=
  min s.bytes_left_to_write (ctx.page_size_bytes - s.address_to_write % ctx.page_size_bytes)

theorem write_op_round_eq (hleft : 0 < s.bytes_left_to_write) (hlt : s.address_to_write < ctx.flash_size)
    (hidle : s.chip.busy = 0) (hend : s.address_to_write + chunk ctx s ≤ ctx.flash_size) :
    write_op_round ctx s = .inl ⟨s.chip.done ctx (.ofProgram (s.address_to_write, s.write_buf.take (chunk ctx s))),
      s.bytes_left_to_write - chunk ctx s, s.address_to_write + chunk ctx s, s.write_buf.drop (chunk ctx s)⟩ := by
  have hsize := ctx.flash_size_lt
  have hpage : s.address_to_write &&& (ctx.page_size_bytes - 1) = s.address_to_write % ctx.page_size_bytes := by
    obtain ⟨k, hk⟩ := ctx.page_size_two_pow
    rw [hk, Nat.and_two_pow_sub_one_eq_mod]
  have hchunk : (if s.bytes_left_to_write ≤ ctx.page_size_bytes - s.address_to_write % ctx.page_size_bytes then
      s.bytes_left_to_write else ctx.page_size_bytes - s.address_to_write % ctx.page_size_bytes) = chunk ctx s := rfl
  unfold write_op_round
  rw [if_pos hleft, if_neg (Nat.not_le.2 hlt)]
  simp only [hpage, hchunk, qspi_flash_write, take_enabled hidle, Nat.mod_eq_of_lt (Nat.lt_of_le_of_lt hend hsize),
    Command.ofProgram]

/-- With whole pages, a page that begins in the flash ends in it. -/
theorem page_within (hpages : ctx.page_size_bytes ∣ ctx.flash_size) (hlt : s.address_to_write < ctx.flash_size) :
    s.address_to_write + chunk ctx s ≤ ctx.flash_size := by
  obtain ⟨n, hn⟩ := hpages
  have hpos := ctx.page_size_pos
  have hdiv := Nat.div_add_mod s.address_to_write ctx.page_size_bytes
  have hmod := Nat.mod_lt s.address_to_write hpos
  have hle : chunk ctx s ≤ ctx.page_size_bytes - s.address_to_write % ctx.page_size_bytes := Nat.min_le_right ..
  have hpage : s.address_to_write / ctx.page_size_bytes < n := by
    rw [Nat.div_lt_iff_lt_mul hpos, Nat.mul_comm]
    exact hn ▸ hlt
  have hmul := Nat.mul_le_mul_left ctx.page_size_bytes hpage
  rw [Nat.mul_succ] at hmul
  omega

/-- No chunk reaches past the end of the flash. -/
def Fits (ctx : Ctx) (address len : Nat) : Prop :=
  ctx.page_size_bytes ∣ ctx.flash_size ∨ address + len ≤ ctx.flash_size

theorem Fits.chunk {k len : Nat} (h : Fits ctx address len) (hlt : s.address_to_write < ctx.flash_size)
    (hreached : s.address_to_write = address + k) (hleft : s.bytes_left_to_write + k = len) :
    s.address_to_write + chunk ctx s ≤ ctx.flash_size := by
  rcases h with hpages | hend
  · exact page_within hpages hlt
  · have hle : QspiFlash.chunk ctx s ≤ s.bytes_left_to_write := Nat.min_le_left ..
    omega

variable (ctx) in
theorem chunk_pos (hleft : 0 < s.bytes_left_to_write) : 0 < chunk ctx s := by
  have hmod := Nat.mod_lt s.address_to_write ctx.page_size_pos
  unfold chunk
  omega

variable (ctx s) in
theorem chunk_in_page : s.address_to_write % ctx.page_size_bytes + chunk ctx s ≤ ctx.page_size_bytes := by
  have hmod := Nat.mod_lt s.address_to_write ctx.page_size_pos
  unfold chunk
  omega

/-! ## The data written so far -/

theorem write_byte_take (k : Nat) : write_byte ctx address (data.take k) a =
    if a < address + k then write_byte ctx address data a else none := by
  unfold write_byte
  rw [List.getElem?_take]
  by_cases hle : address ≤ a
  · by_cases hk : a < address + k
    · rw [if_pos (show a - address < k by omega), if_pos hk]
    · rw [if_neg (show ¬ a - address < k by omega), if_neg hk, ite_self]
  · have hnot : ¬ (address ≤ a ∧ a < ctx.flash_size) := fun h => hle h.1
    rw [if_neg hnot, if_neg hnot, ite_self]

theorem write_byte_zero : write_byte ctx address (data.take 0) a = none := by
  rw [write_byte_take]
  split
  · exact if_neg (by omega)
  · rfl

/-- The next `n` bytes, which lie in the flash. -/
theorem write_byte_chunk {k n : Nat} (hend : address + k + n ≤ ctx.flash_size) (ha : address + k ≤ a) (hn : a < address + k + n) :
    write_byte ctx address data a = ((data.drop k).take n)[a - (address + k)]? := by
  rw [write_byte, if_pos ⟨by omega, by omega⟩, List.getElem?_take, if_pos (by omega), List.getElem?_drop]
  congr 1
  omega

/-- Nothing is to be written past the end, or once all the data is. -/
theorem write_byte_all {k : Nat} (h : data.length ≤ k ∨ ctx.flash_size ≤ address + k) :
    write_byte ctx address (data.take k) = write_byte ctx address data := by
  funext a
  rw [write_byte_take]
  split
  · rfl
  · rename_i hk
    unfold write_byte
    split
    · exact (List.getElem?_eq_none (by omega)).symm
    · rfl

/-- A further program goes behind the others. -/
theorem Programs.snoc {programs : List (Nat × List UInt8)} {k n : Nat} (h : Programs ctx address (data.take k) programs)
    (hend : address + k + n ≤ ctx.flash_size) (hk : k + n ≤ data.length)
    (hn : 0 < n) (hpage : (address + k) % ctx.page_size_bytes + n ≤ ctx.page_size_bytes) :
    Programs ctx address (data.take (k + n)) (programs ++ [(address + k, (data.drop k).take n)]) := by
  have hlen : ((data.drop k).take n).length = n := by
    rw [List.length_take, List.length_drop]
    omega
  refine ⟨fun p hp => ?_, ?_, fun p hp i hi => ?_, fun a ha => ?_⟩
  · rcases List.mem_append.1 hp with hp | hp
    · exact h.within_page p hp
    · obtain rfl := List.mem_singleton.1 hp
      exact hlen.symm ▸ ⟨hn, hpage⟩
  · refine List.pairwise_append.2 ⟨h.in_order, List.pairwise_singleton .., fun p hp q hq => ?_⟩
    obtain rfl := List.mem_singleton.1 hq
    -- the last byte of a program that was made is among the first `k`
    by_contra hbehind
    have hpos := (h.within_page p hp).1
    have hmatch := h.matching p hp (p.2.length - 1) (by omega)
    rw [write_byte_take, if_neg (by omega)] at hmatch
    cases hmatch
  · rcases List.mem_append.1 hp with hp | hp
    · have hmatch := h.matching p hp i hi
      rw [write_byte_take] at hmatch ⊢
      split at hmatch
      · rw [if_pos (by omega)]
        exact hmatch
      · cases hmatch
    · obtain rfl := List.mem_singleton.1 hp
      dsimp only at hi ⊢
      rw [write_byte_take, if_pos (by omega), write_byte_chunk hend (by omega) (by omega), Nat.add_sub_cancel_left]
      exact List.getElem?_eq_getElem hi
  · rw [write_byte_take] at ha
    split at ha
    · rename_i hlt
      by_cases hk : a < address + k
      · obtain ⟨p, hp, hpa⟩ := h.covered a (by rw [write_byte_take, if_pos hk]; exact ha)
        exact ⟨p, List.mem_append_left _ hp, hpa⟩
      · exact ⟨_, List.mem_append_right _ (List.mem_singleton_self _), by dsimp only; omega, by dsimp only; omega⟩
    · cases ha

/-- What a chunk's program does to the memory that is written up to it. -/
theorem perform_chunk {mem : Nat → UInt8} {k n : Nat} (hend : address + k + n ≤ ctx.flash_size) (hk : k + n ≤ data.length)
    (hn : 0 < n) (hpage : (address + k) % ctx.page_size_bytes + n ≤ ctx.page_size_bytes)
    (hbytes : three_bytes address + (k + n) ≤ 2 ^ 24) :
    (Command.ofProgram (address + k, (data.drop k).take n)).perform ctx
        (fun a => clear (mem a) (write_byte ctx address (data.take k) (a + above address))) =
      fun a => clear (mem a) (write_byte ctx address (data.take (k + n)) (a + above address)) := by
  funext a
  have hlen : ((data.drop k).take n).length = n := by
    rw [List.length_take, List.length_drop]
    omega
  have hsent : three_bytes (address + k) = three_bytes address + k := three_bytes_add (by omega)
  have hsent_page := ctx.three_bytes_page (address + k)
  have habove := three_bytes_above address
  rw [hsent] at hsent_page
  have hprogrammed := programmed_within ctx.page_size_pos
    (show (three_bytes address + k) % ctx.page_size_bytes + ((data.drop k).take n).length ≤ _ by omega) a
  rw [Command.ofProgram, Command.perform, hsent, hprogrammed, write_byte_take, write_byte_take]
  by_cases hlt : a < three_bytes address + k
  · rw [if_pos (show a + above address < address + k by omega), if_neg (show ¬ three_bytes address + k ≤ a by omega),
      if_pos (show a + above address < address + (k + n) by omega)]
    rfl
  · rw [if_neg (show ¬ a + above address < address + k by omega), if_pos (show three_bytes address + k ≤ a by omega)]
    by_cases hless : a < three_bytes address + (k + n)
    · have hindex : a + above address - (address + k) = a - (three_bytes address + k) := by omega
      rw [if_pos (show a + above address < address + (k + n) by omega), write_byte_chunk hend (by omega) (by omega), hindex]
      rfl
    · rw [if_neg (show ¬ a + above address < address + (k + n) by omega), List.getElem?_eq_none (by omega)]
      rfl

/-! ## The loop -/

/-- After the first `k` bytes. -/
structure WriteInv (ctx : Ctx) (chip : Chip) (address : Nat) (data : List UInt8) (s : Write) (k : Nat) : Prop where
  left : s.bytes_left_to_write + k = data.length
  buf : s.write_buf = data.drop k
  reached : s.address_to_write = address + k
  idle : s.chip.busy = 0
  in_flash : k = 0 ∨ address + k ≤ ctx.flash_size
  /-- Up to the last address of three bytes. -/
  mem : three_bytes address + k ≤ 2 ^ 24 →
    s.chip.mem = fun a => clear (chip.mem a) (write_byte ctx address (data.take k) (a + above address))
  commands : ∃ programs, s.chip.commands = chip.commands ++ programs.map Command.ofProgram ∧
    Programs ctx address (data.take k) programs

theorem WriteInv.round {k : Nat} (h : WriteInv ctx chip address data s k) (hfits : Fits ctx address data.length)
    (hleft : 0 < s.bytes_left_to_write) (hlt : s.address_to_write < ctx.flash_size) :
    ∃ s' n, write_op_round ctx s = .inl s' ∧ WriteInv ctx chip address data s' (k + n) ∧
      s'.bytes_left_to_write < s.bytes_left_to_write := by
  have hend := hfits.chunk hlt h.reached h.left
  have hpos := chunk_pos ctx hleft
  have hpage := chunk_in_page ctx s
  have hle : chunk ctx s ≤ s.bytes_left_to_write := Nat.min_le_left ..
  have hl := h.left
  have hr := h.reached
  refine ⟨_, chunk ctx s, write_op_round_eq hleft hlt h.idle hend, ⟨?_, ?_, ?_, h.idle, ?_, fun hbytes => ?_, ?_⟩, ?_⟩
  · dsimp only
    omega
  · dsimp only
    rw [h.buf, List.drop_drop]
  · dsimp only
    omega
  · omega
  · dsimp only
    rw [Chip.done_mem, h.mem (by omega), h.buf, hr]
    rw [hr] at hend hpage
    exact perform_chunk hend (by omega) hpos hpage hbytes
  · obtain ⟨programs, hcommands, hprograms⟩ := h.commands
    rw [hr] at hend hpage
    refine ⟨_, ?_, hprograms.snoc hend (by omega) hpos hpage⟩
    dsimp only
    rw [Chip.done_commands, hcommands, List.map_append, ← List.append_assoc, h.buf, hr]
    rfl
  · dsimp only
    omega

/-- A round that leaves has written all of the data, or all of it that lies in the flash. -/
theorem WriteInv.leaves {k : Nat} (h : WriteInv ctx chip address data s k) (hfits : Fits ctx address data.length)
    {r : Chip} (hr : write_op_round ctx s = .inr r) :
    r = s.chip ∧ write_byte ctx address (data.take k) = write_byte ctx address data := by
  have hl := h.left
  have hreached := h.reached
  by_cases hleft : 0 < s.bytes_left_to_write
  · by_cases hlt : s.address_to_write < ctx.flash_size
    · obtain ⟨s', n, hs', -⟩ := h.round hfits hleft hlt
      cases hs'.symm.trans hr
    · simp only [write_op_round, if_pos hleft, if_pos (Nat.not_lt.1 hlt)] at hr
      exact ⟨(Sum.inr.inj hr).symm, write_byte_all (.inr (by omega))⟩
  · rw [write_op_round, if_neg hleft] at hr
    exact ⟨(Sum.inr.inj hr).symm, write_byte_all (.inl (by omega))⟩

variable (data address) in
theorem write_op_spec (hfits : Fits ctx address data.length) (hidle : chip.busy = 0) :
    ∃ rounds chip', write_op rounds ctx chip data address = some chip' ∧
      (∃ programs, chip'.commands = chip.commands ++ programs.map Command.ofProgram ∧
        Programs ctx address data programs) ∧
      (three_bytes address + data.length ≤ 2 ^ 24 ∨ ctx.flash_size ≤ 2 ^ 24 → ∀ a,
        chip'.mem a = clear (chip.mem a) (write_byte ctx address data (a + above address))) ∧ chip'.busy = 0 := by
  have hends : ∃ r, Loop.Ends (write_op_round ctx) ⟨chip, data.length, address, data⟩ r ∧
      ∃ s k, WriteInv ctx chip address data s k ∧ r = s.chip ∧
        write_byte ctx address (data.take k) = write_byte ctx address data := by
    apply Loop.ends_of_variant (I := fun s => ∃ k, WriteInv ctx chip address data s k) Write.bytes_left_to_write
    · rintro s s' ⟨k, h⟩ hr
      by_cases hleft : 0 < s.bytes_left_to_write
      · by_cases hlt : s.address_to_write < ctx.flash_size
        · obtain ⟨t, n, ht, hinv, hless⟩ := h.round hfits hleft hlt
          obtain rfl := Sum.inl.inj (ht.symm.trans hr)
          exact ⟨⟨_, hinv⟩, hless⟩
        · simp only [write_op_round, if_pos hleft, if_pos (Nat.not_lt.1 hlt)] at hr
          cases hr
      · rw [write_op_round, if_neg hleft] at hr
        cases hr
    · rintro s r ⟨k, h⟩ hr
      exact ⟨s, k, h, h.leaves hfits hr⟩
    · refine ⟨0, rfl, rfl, rfl, hidle, .inl rfl, fun _ => ?_, [], (List.append_nil _).symm, ?_⟩
      · funext a
        rw [write_byte_zero]
        rfl
      · exact ⟨fun p hp => (List.not_mem_nil hp).elim, List.Pairwise.nil, fun p hp => (List.not_mem_nil hp).elim,
          fun a ha => by rw [write_byte_zero] at ha; cases ha⟩
  obtain ⟨r, ⟨rounds, hrun⟩, s, k, h, rfl, hall⟩ := hends
  obtain ⟨programs, hcommands, hprograms⟩ := h.commands
  refine ⟨rounds, s.chip, hrun, ⟨programs, hcommands, ?_⟩, fun hbytes a => ?_, h.idle⟩
  · exact ⟨hprograms.within_page, hprograms.in_order, hall ▸ hprograms.matching, hall ▸ hprograms.covered⟩
  · have hl := h.left
    have hlow := three_bytes_lt address
    have hsent := three_bytes_le address
    have hin := h.in_flash
    rw [h.mem (by omega), hall]

theorem write_op_mono {rounds : Nat} {chip' : Chip} (h : write_op rounds ctx chip data address = some chip') (more : Nat) :
    write_op (rounds + more) ctx chip data address = some chip' := Loop.run_mono h more

theorem and_erased (b : UInt8) : 0xFF &&& b = b := by
  apply UInt8.eq_of_toBitVec_eq
  rw [UInt8.toBitVec_and]
  exact BitVec.allOnes_and

/-- After an erase a write leaves its data, from the address on that is sent. -/
theorem write_op_erased (buff : Nat → UInt8) {len : Nat} (hidle : chip.busy = 0) (hend : address + len ≤ ctx.flash_size)
    (hbytes : three_bytes address + len ≤ 2 ^ 24)
    (herased : ∀ a, three_bytes address ≤ a → a < three_bytes address + len → chip.mem a = 0xFF) :
    ∃ rounds chip', write_op rounds ctx chip ((List.range len).map buff) address = some chip' ∧ chip'.busy = 0 ∧
      ∀ a < ctx.flash_size, chip'.mem a =
        if three_bytes address ≤ a ∧ a < three_bytes address + len then buff (a - three_bytes address) else chip.mem a := by
  have hlength : ((List.range len).map buff).length = len := by rw [List.length_map, List.length_range]
  have habove := three_bytes_above address
  obtain ⟨rounds, chip', hrun, -, hmem, hidle'⟩ :=
    write_op_spec ((List.range len).map buff) address (.inr (hlength.symm ▸ hend)) hidle
  refine ⟨rounds, chip', hrun, hidle', fun a ha => ?_⟩
  rw [hmem (.inl (hlength.symm ▸ hbytes)), write_byte]
  by_cases hin : three_bytes address ≤ a ∧ a < three_bytes address + len
  · have hindex : a + above address - address = a - three_bytes address := by omega
    have hget : ((List.range len).map buff)[a - three_bytes address]? = some (buff (a - three_bytes address)) := by
      rw [List.getElem?_map, List.getElem?_range (by omega)]
      rfl
    rw [if_pos ⟨by omega, by omega⟩, if_pos hin, hindex, hget, clear, herased a hin.1 hin.2, and_erased]
  · rw [if_neg hin]
    split
    · rw [List.getElem?_eq_none (by omega)]
      rfl
    · rfl

/-- The same where the data end at 2 ^ 24 at the latest. -/
theorem write_op_reached (buff : Nat → UInt8) {len : Nat} (hidle : chip.busy = 0) (hend : address + len ≤ ctx.flash_size)
    (hbytes : address + len ≤ 2 ^ 24) (herased : ∀ a, address ≤ a → a < address + len → chip.mem a = 0xFF) :
    ∃ rounds chip', write_op rounds ctx chip ((List.range len).map buff) address = some chip' ∧ chip'.busy = 0 ∧
      ∀ a < ctx.flash_size, chip'.mem a = if address ≤ a ∧ a < address + len then buff (a - address) else chip.mem a := by
  have hsent : 0 < len → three_bytes address = address := fun hlen => three_bytes_eq (by omega)
  have hle := three_bytes_le address
  obtain ⟨rounds, chip', hrun, hidle', hmem⟩ := write_op_erased buff hidle hend (by omega)
    fun a ha hlt => herased a (by omega) (by omega)
  refine ⟨rounds, chip', hrun, hidle', fun a ha => ?_⟩
  rw [hmem a ha]
  by_cases hlen : 0 < len
  · rw [hsent hlen]
  · rw [if_neg (by omega), if_neg (by omega)]

/-- A write is page programs that lie in the flash, each sent with three bytes of its address. Where these hold every
address that is to be written, it clears in the flash the bits that are clear in the data. -/
theorem write_op_writes (ctx : Ctx) (hpages : ctx.page_size_bytes ∣ ctx.flash_size) (chip : Chip) (hidle : chip.busy = 0)
    (data : List UInt8) (address : Nat) :
    ∃ rounds chip', write_op rounds ctx chip data address = some chip' ∧
      (∃ programs, chip'.commands = chip.commands ++ programs.map Command.ofProgram ∧
        Programs ctx address data programs) ∧
      (address + data.length ≤ 2 ^ 24 ∨ ctx.flash_size ≤ 2 ^ 24 →
        (∀ a, chip'.mem a = clear (chip.mem a) (write_byte ctx address data a))) ∧ chip'.busy = 0 := by
  obtain ⟨rounds, chip', hrun, hprograms, hmem, hidle'⟩ := write_op_spec data address (.inl hpages) hidle
  refine ⟨rounds, chip', hrun, hprograms, fun hbytes a => ?_, hidle'⟩
  have hsent := three_bytes_le address
  rw [hmem (by omega)]
  by_cases hlow : address < 2 ^ 24
  · rw [above, three_bytes_eq hlow, Nat.sub_self, Nat.add_zero]
  · -- nothing is written: there is no data, or the address is past the end
    have hnone : ∀ x, write_byte ctx address data x = none := by
      intro x
      unfold write_byte
      split
      · exact List.getElem?_eq_none (by omega)
      · rfl
    rw [hnone, hnone]

/-- Six bytes from the last one of a page on, on a flash of 8 bytes in pages of 4: the last byte is past its end. -/
theorem write_op_writes_two_pages : 4 ∣ 8 ∧ ∃ rounds chip', write_op rounds ⟨8, 4, fun _ => 0, by decide, 2, rfl⟩
      ⟨fun _ => 0xFF, false, 0, [], fun n => n⟩ [1, 2, 3, 4, 5, 6] 3 = some chip' ∧
      (∃ programs, chip'.commands = [] ++ programs.map Command.ofProgram ∧
        Programs ⟨8, 4, fun _ => 0, by decide, 2, rfl⟩ 3 [1, 2, 3, 4, 5, 6] programs) ∧
      (∀ a, chip'.mem a = clear 0xFF (write_byte ⟨8, 4, fun _ => 0, by decide, 2, rfl⟩ 3 [1, 2, 3, 4, 5, 6] a)) ∧
      chip'.busy = 0 := by
  obtain ⟨rounds, chip', hrun, hprograms, hmem, hidle⟩ := write_op_writes ⟨8, 4, fun _ => 0, by decide, 2, rfl⟩ (by decide)
    ⟨fun _ => 0xFF, false, 0, [], fun n => n⟩ rfl [1, 2, 3, 4, 5, 6] 3
  exact ⟨by decide, rounds, chip', hrun, hprograms, hmem (.inl (by decide)), hidle⟩

example : (write_op 3 ⟨8, 4, fun _ => 0, by decide, 2, rfl⟩ ⟨fun _ => 0xFF, false, 0, [], fun n => n⟩
    [1, 2, 3, 4, 5, 6] 3).map Chip.commands = some [.program 3 [1], .program 4 [2, 3, 4, 5]] := by decide

theorem double_size : 0x2000000 < 2 ^ 32 := by decide

theorem double_page : ∃ k, 256 = 2 ^ k := ⟨8, rfl⟩

/-- A flash of twice the size that three bytes address. -/
def double_flash : Ctx := ⟨0x2000000, 256, fun _ => 12, double_size, double_page⟩

def blank_flash : Chip := ⟨fun _ => 0xFF, false, 0, [], fun _ => 0⟩

/-- A byte for its second half is programmed at its start. -/
theorem write_op_writes_high : ¬ ∃ rounds chip', write_op rounds double_flash blank_flash [0] 0x1000000 = some chip' ∧
    ∀ a, chip'.mem a = clear (blank_flash.mem a) (write_byte double_flash 0x1000000 [0] a) := by
  rintro ⟨rounds, chip', hrun, hmem⟩
  obtain ⟨rounds', chip'', hrun', -, hsent, -⟩ := write_op_spec [0] 0x1000000
    (show Fits double_flash 0x1000000 1 from .inr (by decide)) (show blank_flash.busy = 0 from rfl)
  obtain rfl : chip' = chip'' := by
    have h := write_op_mono hrun rounds'
    rw [Nat.add_comm, write_op_mono hrun' rounds] at h
    exact (Option.some.inj h).symm
  have hfirst := (hmem 0x1000000).symm.trans (hsent (.inl (by decide)) 0x1000000)
  have hzero : clear (blank_flash.mem 0x1000000) (write_byte double_flash 0x1000000 [0] 0x1000000) = 0 := by decide
  have hkept : clear (blank_flash.mem 0x1000000)
      (write_byte double_flash 0x1000000 [0] (0x1000000 + above 0x1000000)) = 0xFF := by decide
  rw [hzero, hkept] at hfirst
  cases hfirst

end QspiFlash
