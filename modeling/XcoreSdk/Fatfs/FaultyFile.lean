import XcoreSdk.Fatfs.File
/-!
# A file of a FAT volume whose calls fail

What the calls of `ff.c` do to an open file where accesses to the volume may fail. The file
object has the sector buffer over what is in the file's sectors. `f_close` writes the buffer
back and puts the size into the directory entry, but only where `FA_MODIFIED` is set, and a
write that fails does not set it. When else the buffer is written back depends on where the
sectors end: that comes with the outcome of a call. An access that fails leaves the volume as
it is. After a call that has failed there is none but `f_close`, so that neither `err` nor
where `fptr` is left matters.
-/

namespace Fatfs

/-- How opening ends, and whether a new file is in the directory though it fails. -/
structure Opening where
  result : FRESULT
  registered : Bool

/-- How a call ends, how much a read or a write transfers at most, and after how many of these bytes the sector buffer
is written back for the last time, if it is. -/
structure Outcome where
  result : FRESULT
  count : Nat
  written_back : Option Nat

/-- How a truncation ends, whether it has set the size though it fails, and what has come behind the end by then:
clusters that have been freed are not the file's any more. -/
structure Truncation where
  result : FRESULT
  sized : Bool
  behind : List UInt8

/-- How far closing gets: not past the sector buffer, not past the directory entry, or to its end. -/
inductive Closing
  | unwritten
  | unsized
  | synced
  deriving DecidableEq

/-- `bytes` is what the file object has, `disk` what is in the file's sectors, and `size` what the directory entry says. -/
structure FaultyFIL extends FIL where
  FA_MODIFIED : Bool
  disk : List UInt8
  size : Nat

/-- The sector buffer is written to its sector. -/
def FaultyFIL.write_back (fp : FaultyFIL) : FaultyFIL := { fp with disk := fp.bytes ++ fp.disk.drop fp.bytes.length }

/-- A file that is created is written to the directory entry when it is closed. -/
def fault_open (opening : Opening) (file : Option (List UInt8)) (mode : Mode) : FRESULT × FaultyFIL :=
  let (result, fp) := if opening.result = .FR_OK then f_open file mode else (opening.result, ⟨[], 0, mode⟩)
  (result, { fp with FA_MODIFIED := file.isNone, disk := fp.bytes, size := fp.bytes.length })

/-- What there is under the path if the file could not be opened. -/
def fault_unopened (opening : Opening) (file : Option (List UInt8)) (mode : Mode) : Option (List UInt8) :=
  if file = none ∧ mode.FA_OPEN_ALWAYS ∧ opening.registered then some [] else file

def fault_lseek (outcome : Outcome) (fp : FaultyFIL) (ofs : Nat) : FRESULT × FaultyFIL :=
  let fp := if outcome.written_back.isSome then fp.write_back else fp
  if outcome.result = .FR_OK then
    if ofs ≤ fp.bytes.length then (.FR_OK, { fp with fptr := ofs }) else (.FR_INVALID_PARAMETER, fp)
  else (outcome.result, fp)

def fault_read (outcome : Outcome) (fp : FaultyFIL) (btr : Nat) : FRESULT × List UInt8 × FaultyFIL :=
  let read := ((fp.bytes.drop fp.fptr).take btr).take outcome.count
  let fp := if outcome.written_back.isSome then fp.write_back else fp
  (outcome.result, read, { fp with fptr := fp.fptr + read.length })

/-- The first `n` bytes of a write are in the file object. -/
def FaultyFIL.put (fp : FaultyFIL) (buff : List UInt8) (n : Nat) : FaultyFIL := { fp with
  bytes := fp.bytes.take fp.fptr ++ buff.take n ++ fp.bytes.drop (fp.fptr + n)
  fptr := fp.fptr + n }

/-- A write fails before its last byte. -/
def Outcome.written (outcome : Outcome) (btw : Nat) : Nat :=
  min (if outcome.result = .FR_OK then btw else btw - 1) outcome.count

/-- How many of the bytes that are written are in their sectors, too. -/
def Outcome.landed (outcome : Outcome) (btw : Nat) : Nat :=
  match outcome.written_back with
  | some n => min n (outcome.written btw)
  | none => 0

def fault_write (outcome : Outcome) (fp : FaultyFIL) (buff : List UInt8) : FRESULT × Nat × FaultyFIL :=
  let written := outcome.written buff.length
  let disk :=
    if outcome.written_back.isSome then (fp.put buff (outcome.landed buff.length)).write_back.disk else fp.disk
  (outcome.result, written, { fp.put buff written with
    disk, FA_MODIFIED := fp.FA_MODIFIED || decide (outcome.result = .FR_OK) })

/-- A truncation that succeeds writes the sector buffer back, too. -/
def fault_truncate (truncation : Truncation) (fp : FaultyFIL) : FRESULT × FaultyFIL :=
  if fp.fptr < fp.bytes.length ∧ (truncation.result = .FR_OK ∨ truncation.sized) then
    let fp := { fp with
      bytes := fp.bytes.take fp.fptr
      FA_MODIFIED := true
      disk := fp.disk.take fp.fptr ++ truncation.behind ++ fp.disk.drop (fp.fptr + truncation.behind.length) }
    (truncation.result, if truncation.result = .FR_OK then fp.write_back else fp)
  else (truncation.result, fp)

/-- What the volume has then. -/
def fault_close (closing : Closing) (fp : FaultyFIL) : Option (List UInt8) :=
  if fp.FA_MODIFIED then
    match closing with
    | .unwritten => some (fp.disk.take fp.size)
    | .unsized => some (fp.write_back.disk.take fp.size)
    | .synced => some fp.bytes
  else some (fp.disk.take fp.size)

/-! ## What the calls leave of the file object -/

variable {outcome : Outcome} {truncation : Truncation} {fp : FaultyFIL} {ofs : Nat}

/-- Seeking moves `fptr` at most, and the sector buffer may be written back. -/
theorem lseek_eq (outcome : Outcome) (fp : FaultyFIL) (ofs : Nat) : ∃ fptr, (fault_lseek outcome fp ofs).2 =
    { (if outcome.written_back.isSome then fp.write_back else fp) with fptr } := by
  unfold fault_lseek
  generalize (if outcome.written_back.isSome then fp.write_back else fp) = fp
  dsimp only
  split
  · split
    · exact ⟨ofs, rfl⟩
    · exact ⟨fp.fptr, rfl⟩
  · exact ⟨fp.fptr, rfl⟩

@[simp] theorem lseek_bytes : (fault_lseek outcome fp ofs).2.bytes = fp.bytes := by
  obtain ⟨fptr, heq⟩ := lseek_eq outcome fp ofs
  rw [heq]
  dsimp only
  split <;> rfl

@[simp] theorem lseek_modified : (fault_lseek outcome fp ofs).2.FA_MODIFIED = fp.FA_MODIFIED := by
  obtain ⟨fptr, heq⟩ := lseek_eq outcome fp ofs
  rw [heq]
  dsimp only
  split <;> rfl

theorem lseek_result (outcome : Outcome) (hofs : ofs ≤ fp.bytes.length) : (fault_lseek outcome fp ofs).1 = outcome.result := by
  have hle : ofs ≤ (if outcome.written_back.isSome then fp.write_back else fp).bytes.length := by
    split <;> exact hofs
  unfold fault_lseek
  dsimp only
  rw [if_pos hle]
  split
  · rename_i hok
    exact hok.symm
  · rfl

theorem lseek_fptr (hok : (fault_lseek outcome fp ofs).1 = .FR_OK) : (fault_lseek outcome fp ofs).2.fptr = ofs := by
  unfold fault_lseek at hok ⊢
  generalize (if outcome.written_back.isSome then fp.write_back else fp) = fp at hok ⊢
  dsimp only at hok ⊢
  split at hok
  · rename_i hresult
    rw [if_pos hresult]
    split at hok
    · rename_i hofs
      rw [if_pos hofs]
    · cases hok
  · rename_i hresult
    exact absurd hok hresult

@[simp] theorem truncate_result : (fault_truncate truncation fp).1 = truncation.result := by
  unfold fault_truncate
  split <;> rfl

@[simp] theorem truncate_fptr : (fault_truncate truncation fp).2.fptr = fp.fptr := by
  unfold fault_truncate FaultyFIL.write_back
  dsimp only
  split_ifs <;> rfl

/-- The file object has the new size also where the truncation fails after that. -/
theorem truncate_bytes (hsized : truncation.result = .FR_OK ∨ truncation.sized = true) :
    (fault_truncate truncation fp).2.bytes = fp.bytes.take fp.fptr := by
  unfold fault_truncate
  split
  · dsimp only
    split <;> rfl
  · rename_i hnot
    have hge : fp.bytes.length ≤ fp.fptr := Nat.not_lt.1 fun hlt => hnot ⟨hlt, hsized⟩
    exact (List.take_of_length_le hge).symm

theorem truncate_fails (hsized : ¬ (truncation.result = .FR_OK ∨ truncation.sized = true)) :
    (fault_truncate truncation fp).2 = fp := by
  unfold fault_truncate
  rw [if_neg fun hboth => hsized hboth.2]

theorem truncate_modified (hset : fp.FA_MODIFIED = true) : (fault_truncate truncation fp).2.FA_MODIFIED = true := by
  unfold fault_truncate FaultyFIL.write_back
  dsimp only
  split_ifs
  · rfl
  · rfl
  · exact hset

theorem truncate_sets (hlt : fp.fptr < fp.bytes.length)
    (hsized : truncation.result = .FR_OK ∨ truncation.sized = true) :
    (fault_truncate truncation fp).2.FA_MODIFIED = true := by
  unfold fault_truncate FaultyFIL.write_back
  dsimp only
  rw [if_pos ⟨hlt, hsized⟩]
  dsimp only
  split <;> rfl

theorem close_synced (hset : fp.FA_MODIFIED = true) : fault_close .synced fp = some fp.bytes := if_pos hset

end Fatfs
