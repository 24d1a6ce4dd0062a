import Mathlib.Data.List.Basic
/-!
# A file of a FAT volume

What the calls of `ff.c` do to an open file, for calls that have no trouble with
the disk. A write puts as many bytes into the file as the file has already there
and as it may grow by. Nobody here seeks beyond the end of a file, and such a
call is taken to fail.
-/

namespace Fatfs

inductive FRESULT
  | FR_OK
  | FR_DISK_ERR
  | FR_INT_ERR
  | FR_NO_FILE
  | FR_DENIED
  | FR_TIMEOUT
  | FR_INVALID_PARAMETER
  deriving DecidableEq

/-- `FA_OPEN_APPEND` is `FA_OPEN_ALWAYS` and `FA_SEEKEND`. -/
structure Mode where
  FA_READ : Bool
  FA_WRITE : Bool
  FA_OPEN_ALWAYS : Bool
  FA_SEEKEND : Bool

/-- An open file: what is in it, where the next byte is read or written, and what it was opened for. -/
structure FIL where
  bytes : List UInt8
  fptr : Nat
  flag : Mode

def f_tell (fp : FIL) : Nat := fp.fptr

def f_size (fp : FIL) : Nat := fp.bytes.length

/-- `file` is what the volume has under the path. A file object that could not be opened is of no use. -/
def f_open (file : Option (List UInt8)) (mode : Mode) : FRESULT × FIL :=
  match file with
  | some bytes => (.FR_OK, ⟨bytes, if mode.FA_SEEKEND then bytes.length else 0, mode⟩)
  | none => if mode.FA_OPEN_ALWAYS then (.FR_OK, ⟨[], 0, mode⟩) else (.FR_NO_FILE, ⟨[], 0, mode⟩)

def f_lseek (fp : FIL) (ofs : Nat) : FRESULT × FIL :=
  if ofs ≤ fp.bytes.length then (.FR_OK, { fp with fptr := ofs }) else (.FR_INVALID_PARAMETER, fp)

/-- The bytes that were read come with the result. -/
def f_read (fp : FIL) (btr : Nat) : FRESULT × List UInt8 × FIL :=
  if fp.flag.FA_READ then
    let read := (fp.bytes.drop fp.fptr).take btr
    (.FR_OK, read, { fp with fptr := fp.fptr + read.length })
  else (.FR_DENIED, [], fp)

/-- At each place the file may grow by `room` bytes. -/
def f_write (room : Nat → Nat) (fp : FIL) (buff : List UInt8) : FRESULT × Nat × FIL :=
  if fp.flag.FA_WRITE then
    let written := min buff.length (fp.bytes.length - fp.fptr + room fp.fptr)
    (.FR_OK, written, { fp with
      bytes := fp.bytes.take fp.fptr ++ buff.take written ++ fp.bytes.drop (fp.fptr + written)
      fptr := fp.fptr + written })
  else (.FR_DENIED, 0, fp)

def f_truncate (fp : FIL) : FRESULT × FIL :=
  if fp.flag.FA_WRITE then (.FR_OK, { fp with bytes := fp.bytes.take fp.fptr }) else (.FR_DENIED, fp)

/-- The volume has the file's bytes. -/
def f_close (fp : FIL) : Option (List UInt8) := some fp.bytes

end Fatfs
