import XcoreSdk.Wifi.ProfileFaults
/-!
# Profiles that are moved on a disk that fails

`WIFI_NetworkDelete` moves the profiles behind the one that goes inside the file,
one in each round. What a round has moved is in the file object first, and in the
file's sectors when the sector buffer is written back. A call that fails leaves
what has got there.
-/

namespace Wifi

open Fatfs Records

variable {file : Option (List UInt8)} {profiles : List WIFINetworkProfile_t}

/-! ## What a round does -/

/-- A round ends with the first call that fails. -/
def MoveFaults.result (faults : MoveFaults) : FRESULT :=
  if faults.seek_src.result = .FR_OK then
    if faults.read.result = .FR_OK then
      if faults.seek_dest.result = .FR_OK then faults.write.result else faults.seek_dest.result
    else faults.read.result
  else faults.seek_src.result

/-- The round comes to its write. -/
def MoveFaults.Writes (faults : MoveFaults) : Prop :=
  faults.seek_src.result = .FR_OK ∧ faults.read.result = .FR_OK ∧ faults.seek_dest.result = .FR_OK

instance (faults : MoveFaults) : Decidable faults.Writes := inferInstanceAs (Decidable (_ ∧ _))

/-- What is written then: a short read leaves the end of the buffer. -/
def MoveFaults.buffer (faults : MoveFaults) (next tmp : List UInt8) : List UInt8 :=
  next.take faults.read.count ++ tmp.drop faults.read.count

/-- How many bytes of the buffer are in the file object after the round. -/
def MoveFaults.written (faults : MoveFaults) : Nat :=
  if faults.Writes then faults.write.written sizeof_WIFINetworkProfile_t else 0

/-- How many of them are in the file's sectors. -/
def MoveFaults.landed (faults : MoveFaults) : Nat :=
  if faults.Writes then faults.write.landed sizeof_WIFINetworkProfile_t else 0

/-- The round puts what earlier rounds have written into the file's sectors. -/
def MoveFaults.writes_back (faults : MoveFaults) : Bool :=
  faults.seek_src.written_back.isSome || decide (faults.seek_src.result = .FR_OK) &&
    (faults.read.written_back.isSome || decide (faults.read.result = .FR_OK) &&
      (faults.seek_dest.written_back.isSome || decide (faults.seek_dest.result = .FR_OK) &&
        faults.write.written_back.isSome))

/-! ## What the loop does -/

/-- How so many rounds end, from the `i`th on. -/
def rounds_result (faults : Nat → MoveFaults) : Nat → Nat → FRESULT
  | 0, _ => .FR_OK
  | rounds + 1, i =>
    if (faults i).result = .FR_OK then rounds_result faults rounds (i + 1) else (faults i).result

/-- One of these rounds puts what was written before them into the file's sectors. -/
def rounds_write_back (faults : Nat → MoveFaults) : Nat → Nat → Bool
  | 0, _ => false
  | rounds + 1, i => (faults i).writes_back ||
    decide ((faults i).result = .FR_OK) && rounds_write_back faults rounds (i + 1)

/-- How many bytes of the `i`th round reach the file's sectors, with so many rounds behind it. What is in the sector
buffer after the last round may reach them (`closed`) or not. -/
def reaching (faults : Nat → MoveFaults) (closed : Bool) (rounds i : Nat) : Nat :=
  if closed || decide ((faults i).result = .FR_OK) && rounds_write_back faults rounds (i + 1) then (faults i).written
  else (faults i).landed

/-- What the rounds from the `i`th on make of the records. -/
def after_moves (faults : Nat → MoveFaults) (closed : Bool) :
    List (List UInt8) → Nat → List UInt8 → List (List UInt8)
  | old :: next :: more, i, tmp =>
    let tmp := (faults i).buffer next tmp
    let reached := reaching faults closed more.length i
    (tmp.take reached ++ old.drop reached) ::
      if (faults i).result = .FR_OK then after_moves faults closed (next :: more) (i + 1) tmp else next :: more
  | rest, _, _ => rest

/-- Of the rounds from the `i`th on only bytes that are at their place already reach the file's sectors. -/
def Harmless (faults : Nat → MoveFaults) (closed : Bool) : List (List UInt8) → Nat → List UInt8 → Prop
  | old :: next :: more, i, tmp =>
    let tmp := (faults i).buffer next tmp
    let reached := reaching faults closed more.length i
    tmp.take reached = old.take reached ∧
      ((faults i).result = .FR_OK → Harmless faults closed (next :: more) (i + 1) tmp)
  | _, _, _ => True

variable {l m pre pre' rest : List (List UInt8)} {old next : List UInt8} {networks : FaultyFIL} {tmp : List UInt8}

/-- The file object has the records `l`, and the file's sectors have `m`. -/
structure OnDisk (l m : List (List UInt8)) (networks : FaultyFIL) : Prop where
  sized : Sized sizeof_WIFINetworkProfile_t l
  sectors : Sized sizeof_WIFINetworkProfile_t m
  same : m.length = l.length
  bytes : networks.bytes = l.flatten
  disk : networks.disk = m.flatten
  size : networks.size = l.length * sizeof_WIFINetworkProfile_t

theorem OnDisk.length (h : OnDisk l m networks) : networks.bytes.length = l.length * sizeof_WIFINetworkProfile_t := by
  rw [h.bytes, h.sized.length_flatten]

theorem OnDisk.disk_length (h : OnDisk l m networks) : networks.disk.length = networks.size := by
  rw [h.disk, h.sectors.length_flatten, h.same, h.size]

theorem OnDisk.write_back (h : OnDisk l m networks) : OnDisk l l networks.write_back := by
  refine ⟨h.sized, h.sized, rfl, h.bytes, ?_, h.size⟩
  have hlen : networks.disk.length ≤ networks.bytes.length := by
    rw [h.disk_length, h.size, h.length]
  dsimp only [FaultyFIL.write_back]
  rw [List.drop_of_length_le hlen, List.append_nil, h.bytes]

/-- A call that moves no bytes may still have the sector buffer written back. -/
theorem OnDisk.maybe_back (h : OnDisk l m networks) (back : Bool) :
    OnDisk l (if back then l else m) (if back then networks.write_back else networks) := by
  cases back with
  | false => exact h
  | true => exact h.write_back

theorem OnDisk.fault_lseek (h : OnDisk l m networks) (outcome : Outcome) (ofs : Nat) :
    OnDisk l (if outcome.written_back.isSome then l else m) (fault_lseek outcome networks ofs).2 := by
  obtain ⟨fptr, heq⟩ := lseek_eq outcome networks ofs
  have hback := h.maybe_back outcome.written_back.isSome
  rw [heq]
  exact ⟨hback.sized, hback.sectors, hback.same, hback.bytes, hback.disk, hback.size⟩

theorem OnDisk.fault_read (h : OnDisk l m networks) (outcome : Outcome) (btr : Nat) :
    OnDisk l (if outcome.written_back.isSome then l else m) (fault_read outcome networks btr).2.2 := by
  have hback := h.maybe_back outcome.written_back.isSome
  exact ⟨hback.sized, hback.sectors, hback.same, hback.bytes, hback.disk, hback.size⟩

theorem written_le (outcome : Outcome) (btw : Nat) : outcome.written btw ≤ btw := by
  unfold Outcome.written
  split
  · exact Nat.min_le_left ..
  · exact Nat.le_trans (Nat.min_le_left ..) (Nat.sub_le ..)

theorem landed_le (outcome : Outcome) (btw : Nat) : outcome.landed btw ≤ btw := by
  unfold Outcome.landed
  split
  · exact Nat.le_trans (Nat.min_le_right ..) (written_le outcome btw)
  · exact Nat.zero_le _

theorem OnDisk.put (h : OnDisk (pre ++ old :: rest) (pre' ++ old :: rest) networks)
    (hfptr : networks.fptr = pre.length * sizeof_WIFINetworkProfile_t) {buf : List UInt8}
    (hbuf : buf.length = sizeof_WIFINetworkProfile_t) {n : Nat} (hn : n ≤ sizeof_WIFINetworkProfile_t) :
    OnDisk (pre ++ (buf.take n ++ old.drop n) :: rest) (pre' ++ old :: rest) (networks.put buf n) := by
  have hlen : (pre ++ (buf.take n ++ old.drop n) :: rest).length = (pre ++ old :: rest).length := by simp
  refine ⟨h.sized.overwrite hbuf n, h.sectors, by rw [hlen]; exact h.same, ?_, h.disk, by rw [hlen]; exact h.size⟩
  dsimp only [FaultyFIL.put]
  rw [hfptr, h.bytes, h.sized.flatten_overwrite hn]

theorem OnDisk.fault_write (h : OnDisk (pre ++ old :: rest) (pre' ++ old :: rest) networks)
    (hfptr : networks.fptr = pre.length * sizeof_WIFINetworkProfile_t) (outcome : Outcome) {buf : List UInt8}
    (hbuf : buf.length = sizeof_WIFINetworkProfile_t) :
    OnDisk (pre ++ (buf.take (outcome.written sizeof_WIFINetworkProfile_t) ++
          old.drop (outcome.written sizeof_WIFINetworkProfile_t)) :: rest)
      ((if outcome.written_back.isSome then pre else pre') ++ (buf.take (outcome.landed sizeof_WIFINetworkProfile_t) ++
        old.drop (outcome.landed sizeof_WIFINetworkProfile_t)) :: rest) (fault_write outcome networks buf).2.2 := by
  have hall := h.put hfptr hbuf (written_le outcome sizeof_WIFINetworkProfile_t)
  have hput := (h.put hfptr hbuf (landed_le outcome sizeof_WIFINetworkProfile_t)).write_back
  cases hback : outcome.written_back with
  | none =>
    have hzero : outcome.landed sizeof_WIFINetworkProfile_t = 0 := by
      rw [Outcome.landed, hback]
    rw [hzero, List.take_zero, List.drop_zero, List.nil_append, if_neg (by simp)]
    refine ⟨hall.sized, h.sectors, hall.same, ?_, ?_, hall.size⟩
    · rw [← hall.bytes, ← hbuf]
      rfl
    · rw [← h.disk]
      exact if_neg (by rw [hback]; simp)
  | some n =>
    rw [if_pos (by simp)]
    refine ⟨hall.sized, hput.sectors, by simp, ?_, ?_, hall.size⟩
    · rw [← hall.bytes, ← hbuf]
      rfl
    · rw [← hput.disk, ← hbuf]
      exact if_pos (by rw [hback]; simp)

theorem length_buffer (faults : MoveFaults) (hnext : next.length = sizeof_WIFINetworkProfile_t)
    (htmp : tmp.length = sizeof_WIFINetworkProfile_t) : (faults.buffer next tmp).length = sizeof_WIFINetworkProfile_t := by
  unfold MoveFaults.buffer
  rw [List.length_append, List.length_take, List.length_drop]
  omega

/-- Seeking to a record, with what it leaves of the records before this one. -/
theorem OnDisk.seek (h : OnDisk (pre ++ rest) (pre' ++ rest) networks) (outcome : Outcome) {i : Nat}
    (hi : i ≤ (pre ++ rest).length) :
    ∃ networks', Fatfs.fault_lseek outcome networks (i * sizeof_WIFINetworkProfile_t) = (outcome.result, networks') ∧
      OnDisk (pre ++ rest) ((if outcome.written_back.isSome then pre else pre') ++ rest) networks' ∧
      networks'.FA_MODIFIED = networks.FA_MODIFIED ∧
      (outcome.result = .FR_OK → networks'.fptr = i * sizeof_WIFINetworkProfile_t) := by
  have hofs : i * sizeof_WIFINetworkProfile_t ≤ networks.bytes.length := by
    rw [h.length]
    exact Nat.mul_le_mul_right _ hi
  have hresult := lseek_result outcome hofs
  refine ⟨(Fatfs.fault_lseek outcome networks (i * sizeof_WIFINetworkProfile_t)).2, ?_, ?_, lseek_modified, fun hok =>
    lseek_fptr (hresult.trans hok)⟩
  · rw [← hresult]
  · have hseek := h.fault_lseek outcome (i * sizeof_WIFINetworkProfile_t)
    rwa [← apply_ite (· ++ rest)] at hseek

/-- Reading the record at `fptr`. -/
theorem OnDisk.read (h : OnDisk (pre ++ rest) (pre' ++ rest) networks) (outcome : Outcome) {i : Nat}
    (hi : i < (pre ++ rest).length) (hfptr : networks.fptr = i * sizeof_WIFINetworkProfile_t) :
    ∃ networks', Fatfs.fault_read outcome networks sizeof_WIFINetworkProfile_t =
        (outcome.result, (pre ++ rest)[i].take outcome.count, networks') ∧
      OnDisk (pre ++ rest) ((if outcome.written_back.isSome then pre else pre') ++ rest) networks' ∧
      networks'.FA_MODIFIED = networks.FA_MODIFIED := by
  have hfound : (networks.bytes.drop networks.fptr).take sizeof_WIFINetworkProfile_t = (pre ++ rest)[i] := by
    rw [h.bytes, hfptr, h.sized.read hi]
  refine ⟨(Fatfs.fault_read outcome networks sizeof_WIFINetworkProfile_t).2.2, ?_, ?_, ?_⟩
  · rw [← hfound]
    rfl
  · have hread := h.fault_read outcome sizeof_WIFINetworkProfile_t
    rwa [← apply_ite (· ++ rest)] at hread
  · unfold Fatfs.fault_read
    dsimp only
    split <;> rfl

/-- Nothing is moved by a round that does not come to its write. -/
theorem OnDisk.unmoved {l₁ l₂ : List (List UInt8)} (h : OnDisk (pre ++ old :: rest) (l₁ ++ old :: rest) networks)
    {faults : MoveFaults} (hnot : ¬ faults.Writes) (heq : l₁ = l₂) (buf : List UInt8) :
    OnDisk (pre ++ (buf.take faults.written ++ old.drop faults.written) :: rest)
      (l₂ ++ (buf.take faults.landed ++ old.drop faults.landed) :: rest) networks := by
  subst heq
  rw [MoveFaults.written, MoveFaults.landed, if_neg hnot, if_neg hnot, List.take_zero, List.drop_zero, List.nil_append]
  exact h

theorem ite_back (a b : Bool) : (if a then pre else if b then pre else pre') = if b || a then pre else pre' := by
  cases a <;> cases b <;> rfl

theorem OnDisk.fault_move (faults : MoveFaults)
    (h : OnDisk (pre ++ old :: next :: rest) (pre' ++ old :: next :: rest) networks)
    (htmp : tmp.length = sizeof_WIFINetworkProfile_t) :
    ∃ tmp' networks', fault_move faults networks tmp ((pre.length + 1) * sizeof_WIFINetworkProfile_t)
        (pre.length * sizeof_WIFINetworkProfile_t) = (faults.result, tmp', networks') ∧
      (faults.result = .FR_OK → tmp' = faults.buffer next tmp) ∧
      OnDisk (pre ++ ((faults.buffer next tmp).take faults.written ++ old.drop faults.written) :: next :: rest)
        ((if faults.writes_back then pre else pre') ++
          ((faults.buffer next tmp).take faults.landed ++ old.drop faults.landed) :: next :: rest) networks' ∧
      networks'.FA_MODIFIED = (networks.FA_MODIFIED || decide (faults.result = .FR_OK)) := by
  have hnext : next.length = sizeof_WIFINetworkProfile_t := h.sized _ (by simp)
  have hbuf := length_buffer faults hnext htmp
  have hlast : pre.length + 1 < (pre ++ old :: next :: rest).length := by simp
  have hfound : (pre ++ old :: next :: rest)[pre.length + 1] = next := by simp
  unfold Wifi.fault_move
  obtain ⟨fp₁, hrun₁, h₁, hset₁, hfptr₁⟩ := h.seek faults.seek_src (Nat.le_of_lt hlast)
  rw [hrun₁]
  dsimp only
  by_cases hok₁ : faults.seek_src.result = .FR_OK
  · rw [if_pos hok₁]
    obtain ⟨fp₂, hrun₂, h₂, hset₂⟩ := h₁.read faults.read hlast (hfptr₁ hok₁)
    rw [hrun₂, hfound]
    have htail : tmp.drop (next.take faults.read.count).length = tmp.drop faults.read.count := by
      rw [List.length_take, hnext, ← htmp, ← List.drop_eq_drop_min]
    dsimp only
    rw [htail]
    by_cases hok₂ : faults.read.result = .FR_OK
    · rw [if_pos hok₂]
      obtain ⟨fp₃, hrun₃, h₃, hset₃, hfptr₃⟩ := h₂.seek faults.seek_dest (i := pre.length) (by simp)
      rw [hrun₃]
      dsimp only
      by_cases hok₃ : faults.seek_dest.result = .FR_OK
      · rw [if_pos hok₃]
        have hwrites : faults.Writes := ⟨hok₁, hok₂, hok₃⟩
        have h₄ := h₃.fault_write (hfptr₃ hok₃) faults.write hbuf
        have hset₄ : (Fatfs.fault_write faults.write fp₃ (faults.buffer next tmp)).2.2.FA_MODIFIED =
            (fp₃.FA_MODIFIED || decide (faults.write.result = .FR_OK)) := rfl
        have hresult : faults.result = faults.write.result := by
          rw [MoveFaults.result, if_pos hok₁, if_pos hok₂, if_pos hok₃]
        have hwritten : faults.written = faults.write.written sizeof_WIFINetworkProfile_t := if_pos hwrites
        have hlanded : faults.landed = faults.write.landed sizeof_WIFINetworkProfile_t := if_pos hwrites
        have hback : (if faults.write.written_back.isSome then pre else if faults.seek_dest.written_back.isSome then pre
            else if faults.read.written_back.isSome then pre
            else if faults.seek_src.written_back.isSome then pre else pre') =
            if faults.writes_back then pre else pre' := by
          simp only [MoveFaults.writes_back, hok₁, hok₂, hok₃, decide_true, Bool.true_and, ite_back, Bool.or_assoc]
        rw [hback, ← hwritten, ← hlanded] at h₄
        refine ⟨_, _, ?_, fun _ => rfl, h₄, ?_⟩
        · rw [hresult]
          rfl
        · rw [hset₄, hset₃, hset₂, hset₁, hresult]
      · rw [if_neg hok₃]
        have hresult : faults.result = faults.seek_dest.result := by
          rw [MoveFaults.result, if_pos hok₁, if_pos hok₂, if_neg hok₃]
        refine ⟨_, fp₃, by rw [hresult]; rfl, fun _ => rfl, h₃.unmoved (fun hwrites => hok₃ hwrites.2.2) ?_ _, ?_⟩
        · simp only [MoveFaults.writes_back, hok₁, hok₂, hok₃, decide_true, decide_false, Bool.true_and,
            Bool.false_and, Bool.or_false, ite_back, Bool.or_assoc]
        · rw [hset₃, hset₂, hset₁, hresult, decide_eq_false hok₃, Bool.or_false]
    · rw [if_neg hok₂]
      have hresult : faults.result = faults.read.result := by
        rw [MoveFaults.result, if_pos hok₁, if_neg hok₂]
      refine ⟨_, fp₂, by rw [hresult]; rfl, fun _ => rfl, h₂.unmoved (fun hwrites => hok₂ hwrites.2.1) ?_ _, ?_⟩
      · simp only [MoveFaults.writes_back, hok₁, hok₂, decide_true, decide_false, Bool.true_and, Bool.false_and,
          Bool.or_false, ite_back]
      · rw [hset₂, hset₁, hresult, decide_eq_false hok₂, Bool.or_false]
  · rw [if_neg hok₁]
    have hresult : faults.result = faults.seek_src.result := by
      rw [MoveFaults.result, if_neg hok₁]
    refine ⟨_, fp₁, by rw [hresult], fun hok => absurd (hresult.symm.trans hok) hok₁,
      h₁.unmoved (fun hwrites => hok₁ hwrites.1) ?_ _, ?_⟩
    · simp only [MoveFaults.writes_back, hok₁, decide_false, Bool.false_and, Bool.or_false]
    · rw [hset₁, hresult, decide_eq_false hok₁, Bool.or_false]

/-- The loop from its `i`th round on. -/
theorem OnDisk.fault_delete_loop (faults : Nat → MoveFaults) (h : OnDisk (pre ++ rest) (pre' ++ rest) networks)
    (hrest : rest ≠ []) (i : Nat) (htmp : tmp.length = sizeof_WIFINetworkProfile_t) :
    ∃ dest networks', fault_delete_loop faults ((pre ++ rest).length * sizeof_WIFINetworkProfile_t) i networks tmp
        ((pre.length + 1) * sizeof_WIFINetworkProfile_t) (pre.length * sizeof_WIFINetworkProfile_t) =
          (rounds_result faults (rest.length - 1) i, dest, networks') ∧
      OnDisk (pre ++ after_moves faults true rest i tmp)
        ((if rounds_write_back faults (rest.length - 1) i then pre else pre') ++ after_moves faults false rest i tmp)
        networks' ∧
      networks'.FA_MODIFIED =
        (networks.FA_MODIFIED || decide (0 < rest.length - 1 ∧ (faults i).result = .FR_OK)) ∧
      (rounds_result faults (rest.length - 1) i = .FR_OK →
        dest = ((pre ++ rest).length - 1) * sizeof_WIFINetworkProfile_t) := by
  induction rest generalizing pre pre' networks i tmp with
  | nil => exact absurd rfl hrest
  | cons old rest ih =>
    rw [Wifi.fault_delete_loop]
    cases rest with
    | nil =>
      have hsrc : ¬ (pre.length + 1) * sizeof_WIFINetworkProfile_t <
          (pre ++ [old]).length * sizeof_WIFINetworkProfile_t := by
        simp
      refine ⟨_, networks, if_neg hsrc, h, by simp, fun _ => by simp⟩
    | cons next more =>
      have hsrc : (pre.length + 1) * sizeof_WIFINetworkProfile_t <
          (pre ++ old :: next :: more).length * sizeof_WIFINetworkProfile_t :=
        Nat.mul_lt_mul_of_pos_right (by simp) (by decide)
      obtain ⟨tmp', networks', hmove, hbuf, hmoved, hset⟩ := h.fault_move (faults i) htmp
      rw [if_pos hsrc, hmove]
      simp only [List.length_cons, Nat.add_sub_cancel, rounds_result, rounds_write_back, after_moves, reaching,
        Bool.true_or, Bool.false_or, if_true]
      by_cases hok : (faults i).result = .FR_OK
      · rw [hbuf hok] at hmove ⊢
        have happend : ∀ (l : List (List UInt8)) r, l ++ r :: next :: more = (l ++ [r]) ++ next :: more := by
          simp
        rw [happend, happend] at hmoved
        obtain ⟨dest, networks'', hloop, hmoved', hset', hlast⟩ := ih hmoved (by simp) (i + 1)
          (length_buffer (faults i) (h.sized next (by simp)) htmp)
        simp only [hok, if_true, decide_true, Bool.true_and]
        refine ⟨dest, networks'', ?_, ?_, ?_, fun hall => ?_⟩
        · simpa [Nat.succ_mul] using hloop
        · simp only [List.length_cons, Nat.add_sub_cancel] at hmoved'
          cases hback : rounds_write_back faults more.length (i + 1) with
          | false =>
            rw [hback] at hmoved'
            simpa using hmoved'
          | true =>
            rw [hback] at hmoved'
            simpa using hmoved'
        · simp [hset', hset, hok]
        · rw [hlast (by simpa using hall)]
          simp
      · simp only [hok, if_false, decide_false, Bool.false_and, Bool.or_false]
        refine ⟨_, networks', rfl, by simpa using hmoved, ?_, False.elim⟩
        simp [hset, hok]

theorem length_after_moves (faults : Nat → MoveFaults) (closed : Bool) (rest : List (List UInt8)) (i : Nat)
    (tmp : List UInt8) : (after_moves faults closed rest i tmp).length = rest.length := by
  induction rest generalizing i tmp with
  | nil => rfl
  | cons old rest ih =>
    cases rest with
    | nil => rfl
    | cons next more =>
      unfold after_moves
      dsimp only
      split
      · rw [List.length_cons, ih]
        rfl
      · rfl

/-- The deletion comes to its truncation, with so many rounds before. -/
def DeleteFaults.Completes (faults : DeleteFaults) (rounds : Nat) : Prop :=
  rounds_result faults.move rounds 0 = .FR_OK ∧ faults.seek.result = .FR_OK

instance (faults : DeleteFaults) (rounds : Nat) : Decidable (faults.Completes rounds) :=
  inferInstanceAs (Decidable (_ ∧ _))

/-- What the last rounds have in the sector buffer reaches the file's sectors when the new end is sought, or when the
file is closed after a change. -/
def DeleteFaults.closed (faults : DeleteFaults) (rounds : Nat) : Bool :=
  decide (rounds_result faults.move rounds 0 = .FR_OK) && faults.seek.written_back.isSome ||
    decide (faults.closes ≠ .unwritten) && (decide (0 < rounds ∧ (faults.move 0).result = .FR_OK) ||
      decide (faults.Completes rounds) && faults.truncate.sized)

theorem FaultyNetworkDelete_run (faults : DeleteFaults) (hopen : faults.opens.result = .FR_OK)
    (tmp : WIFINetworkProfile_t) (usIndex : UInt16) (hlt : usIndex.toNat < profiles.length) :
    let records := profiles.map (·.1)
    let rounds := profiles.length - usIndex.toNat - 1
    ∃ networks, OnDisk (records.take usIndex.toNat ++ after_moves faults.move true (records.drop usIndex.toNat) 0 tmp.1)
        (records.take usIndex.toNat ++ after_moves faults.move false (records.drop usIndex.toNat) 0 tmp.1) networks ∧
      networks.FA_MODIFIED = decide (0 < rounds ∧ (faults.move 0).result = .FR_OK) ∧
      FaultyNetworkDelete faults (some (stored profiles)) tmp.1 usIndex =
        let seek := fault_lseek faults.seek networks ((profiles.length - 1) * sizeof_WIFINetworkProfile_t)
        let cut := fault_truncate faults.truncate seek.2
        if rounds_result faults.move rounds 0 = .FR_OK then
          if seek.1 = .FR_OK then
            (if cut.1 = .FR_OK then .eWiFiSuccess else .eWiFiFailure, fault_close faults.closes cut.2)
          else (.eWiFiFailure, fault_close faults.closes seek.2)
        else (.eWiFiFailure, fault_close faults.closes networks) := by
  intro records rounds
  have hpos := pos_lt.2 hlt
  have hpre : (records.take usIndex.toNat).length = usIndex.toNat :=
    List.length_take_of_le (by simpa [records] using Nat.le_of_lt hlt)
  have hopened : OnDisk (records.take usIndex.toNat ++ records.drop usIndex.toNat)
      (records.take usIndex.toNat ++ records.drop usIndex.toNat)
      ⟨⟨stored profiles, 0, ⟨true, true, false, false⟩⟩, false, stored profiles, (stored profiles).length⟩ := by
    rw [List.take_append_drop]
    exact ⟨sized profiles, sized profiles, rfl, rfl, rfl, (sized profiles).length_flatten⟩
  have hne : records.drop usIndex.toNat ≠ [] := by simpa [records] using hlt
  have hlen : records.length = profiles.length := List.length_map ..
  have hrounds : (records.drop usIndex.toNat).length - 1 = rounds := by
    rw [List.length_drop, hlen]
  obtain ⟨dest, networks, hloop, hmoved, hset, hlast⟩ := hopened.fault_delete_loop faults.move hne 0 tmp.2
  rw [ite_self] at hmoved
  rw [List.take_append_drop, hlen, hpre, Nat.succ_mul, hrounds, length_stored] at hloop
  rw [List.take_append_drop, hlen, hrounds] at hlast
  rw [hrounds, Bool.false_or] at hset
  refine ⟨networks, hmoved, hset, ?_⟩
  simp only [FaultyNetworkDelete, fault_open, hopen, f_open, f_size, length_stored, hpos, if_true, Nat.mul_mod_left,
    and_self, Bool.false_eq_true, if_false, Option.isNone_some, hloop]
  by_cases hok : rounds_result faults.move rounds 0 = .FR_OK
  · rw [if_pos hok, if_pos hok, hlast hok]
  · rw [if_neg hok, if_neg hok]

theorem holds_stored_of_lt (h : Holds file profiles) {i : Nat} (hlt : i < profiles.length) :
    file = some (stored profiles) := by
  cases file with
  | none =>
    rw [h.none] at hlt
    exact absurd hlt (Nat.not_lt_zero _)
  | some bytes =>
    rcases h.some with rfl | ⟨-, rfl⟩
    · rfl
    · exact absurd hlt (Nat.not_lt_zero _)

theorem FaultyNetworkDelete_outside (h : Holds file profiles) (faults : DeleteFaults) (tmp : WIFINetworkProfile_t)
    (usIndex : UInt16) (hout : ¬ (faults.opens.result = .FR_OK ∧ usIndex.toNat < profiles.length)) :
    FaultyNetworkDelete faults file tmp.1 usIndex = (.eWiFiFailure, file) := by
  by_cases hopen : faults.opens.result = .FR_OK
  · cases file with
    | none => simp [FaultyNetworkDelete, fault_open, hopen, f_open, fault_unopened]
    | some bytes =>
      rcases h.some with rfl | ⟨hmod, rfl⟩
      · have hpos := mt pos_lt.1 fun hlt => hout ⟨hopen, hlt⟩
        have htake : (stored profiles).take (profiles.length * sizeof_WIFINetworkProfile_t) = stored profiles :=
          List.take_of_length_le (Nat.le_of_eq (length_stored profiles))
        simp [FaultyNetworkDelete, fault_open, hopen, f_open, f_size, fault_close, length_stored, hpos, htake]
      · simp [FaultyNetworkDelete, fault_open, hopen, f_open, f_size, fault_close, hmod]
  · simp [FaultyNetworkDelete, fault_open, hopen, fault_unopened]

/-- A truncation that fails once it has set the size takes nothing away: the directory entry keeps the old size, and
what has come behind the end is the last profile's. -/
def DeleteFaults.Uncut (faults : DeleteFaults) (profiles : List WIFINetworkProfile_t) : Prop :=
  faults.closes ≠ .synced ∧
    ∀ last ∈ profiles.getLast?, faults.truncate.behind.take sizeof_WIFINetworkProfile_t <+: last.1

/-- No call of the round fails or falls short. -/
structure MoveFaults.Faultless (faults : MoveFaults) : Prop where
  result : faults.result = .FR_OK
  read : sizeof_WIFINetworkProfile_t ≤ faults.read.count
  write : sizeof_WIFINetworkProfile_t ≤ faults.write.count

theorem MoveFaults.Faultless.written {faults : MoveFaults} (h : faults.Faultless) :
    faults.written = sizeof_WIFINetworkProfile_t := by
  have hresult := h.result
  unfold MoveFaults.result at hresult
  split_ifs at hresult with hsrc hread hdest
  · rw [MoveFaults.written, if_pos ⟨hsrc, hread, hdest⟩, Outcome.written, if_pos hresult, Nat.min_eq_left h.write]
  · exact absurd hresult hdest
  · exact absurd hresult hread
  · exact absurd hresult hsrc

theorem rounds_faultless {faults : Nat → MoveFaults} (hall : ∀ i, (faults i).Faultless) (rounds i : Nat) :
    rounds_result faults rounds i = .FR_OK := by
  induction rounds generalizing i with
  | zero => rfl
  | succ rounds ih => rw [rounds_result, if_pos (hall i).result, ih]

/-- Such rounds move every record up. -/
theorem after_moves_faultless {faults : Nat → MoveFaults} (hall : ∀ i, (faults i).Faultless)
    (hsized : Sized sizeof_WIFINetworkProfile_t rest) (i : Nat) (htmp : tmp.length = sizeof_WIFINetworkProfile_t) :
    (after_moves faults true rest i tmp).take (rest.length - 1) = rest.tail := by
  induction rest generalizing i tmp with
  | nil => rfl
  | cons old rest ih =>
    cases rest with
    | nil => rfl
    | cons next more =>
      have hold : old.length = sizeof_WIFINetworkProfile_t := hsized old (by simp)
      have hnext : next.length = sizeof_WIFINetworkProfile_t := hsized.tail next (by simp)
      have hbuf : (faults i).buffer next tmp = next := by
        rw [MoveFaults.buffer, List.take_of_length_le (hnext.trans_le (hall i).read),
          List.drop_of_length_le (htmp.trans_le (hall i).read), List.append_nil]
      have hrecord : next.take sizeof_WIFINetworkProfile_t ++ old.drop sizeof_WIFINetworkProfile_t = next := by
        rw [List.take_of_length_le (Nat.le_of_eq hnext), List.drop_of_length_le (Nat.le_of_eq hold), List.append_nil]
      unfold after_moves reaching
      simp only [hbuf, (hall i).result, (hall i).written, hrecord, Bool.true_or, if_true]
      exact congrArg (next :: ·) (ih hsized.tail (i + 1) hnext)

/-- Where nothing fails or falls short, that is the driver's call of before. -/
theorem FaultyNetworkDelete_faultless (h : Holds file profiles) (faults : DeleteFaults)
    (hopen : faults.opens.result = .FR_OK) (hmove : ∀ i, (faults.move i).Faultless) (hseek : faults.seek.result = .FR_OK)
    (hcut : faults.truncate.result = .FR_OK) (hsynced : faults.closes = .synced) (room : Nat → Nat)
    (tmp : WIFINetworkProfile_t) (usIndex : UInt16) :
    FaultyNetworkDelete faults file tmp.1 usIndex = WIFI_NetworkDelete file room tmp.1 usIndex := by
  rw [WIFI_NetworkDelete_spec h]
  by_cases hlt : usIndex.toNat < profiles.length
  · obtain ⟨networks, hmoved, -, hrun⟩ := FaultyNetworkDelete_run faults hopen tmp usIndex hlt
    have hlen : networks.bytes.length = profiles.length * sizeof_WIFINetworkProfile_t := by
      rw [hmoved.length, List.length_append, length_after_moves, ← List.length_append, List.take_append_drop,
        List.length_map]
    have hlt' : (profiles.length - 1) * sizeof_WIFINetworkProfile_t < networks.bytes.length := by
      rw [hlen]
      exact Nat.mul_lt_mul_of_pos_right (by omega) (by decide)
    have hresult := (lseek_result faults.seek (Nat.le_of_lt hlt')).trans hseek
    have hfptr := lseek_fptr hresult
    rw [if_pos hlt, holds_stored_of_lt h hlt, hrun, if_pos (rounds_faultless hmove _ _), if_pos hresult,
      if_pos (truncate_result.trans hcut), hsynced]
    have hsized : Sized sizeof_WIFINetworkProfile_t ((profiles.map (·.1)).drop usIndex.toNat) :=
      fun r hr => sized profiles r (List.mem_of_mem_drop hr)
    have hpre : ((profiles.map (·.1)).take usIndex.toNat).length = usIndex.toNat :=
      List.length_take_of_le (by simpa using Nat.le_of_lt hlt)
    have hrest : profiles.length - 1 - usIndex.toNat = ((profiles.map (·.1)).drop usIndex.toNat).length - 1 := by
      rw [List.length_drop, List.length_map]
      omega
    rw [close_synced (truncate_sets (by rw [hfptr, lseek_bytes]; exact hlt') (.inl hcut)), truncate_bytes (.inl hcut),
      hfptr, lseek_bytes, hmoved.bytes, hmoved.sized.take_flatten, List.take_append, hpre, hrest,
      after_moves_faultless hmove hsized 0 tmp.2, List.tail_drop, stored, List.eraseIdx_eq_take_drop_succ,
      List.take_of_length_le (by rw [hpre]; omega), List.map_append, List.map_take, List.map_drop]
  · rw [if_neg hlt, FaultyNetworkDelete_outside h faults tmp usIndex fun hboth => hlt hboth.2]

end Wifi
