import Mathlib.Algebra.Order.Ring.Nat
import Mathlib.Logic.Function.Basic
/-!
# The records of USB endpoints

The USB device library keeps a record of ten words for each endpoint, the OUT
endpoints' first and then those of the IN endpoints. The functions below are
those that the driver has in their place of the library's own ones: they start
a transfer on an endpoint, and end one. What they look at is the data PID,
which alternates from packet to packet, in the fourth word of a record, and the
endpoint's type, in the fifth.
-/

namespace Usb

abbrev Word := BitVec 32

/-- The library's memory, by words. -/
abbrev Mem := Nat → Word

/-- `XUD_Result_t` -/
inductive XudResult
  | XUD_RES_RST | XUD_RES_OKAY | XUD_RES_CTL | XUD_RES_ERR
deriving DecidableEq

/-- The PIDs of data packets, as the library keeps them. -/
structure Pids where
  USB_PIDn_DATA0 : Word
  USB_PIDn_DATA1 : Word
  toggles : USB_PIDn_DATA0 ^^^ 0x88 = USB_PIDn_DATA1
  /-- They are bytes. -/
  byte0 : USB_PIDn_DATA0.toNat < 2 ^ 8
  byte1 : USB_PIDn_DATA1.toNat < 2 ^ 8

/-! ## `xud_xfer_data.S` -/

/-- Of an OUT endpoint that has received a data packet, the PID of which is in the upper byte of word 6. -/
def xud_data_get_finish (mem : Mem) (ep : Nat) : XudResult × Mem :=
  -- an isochronous endpoint
  if mem (ep + 5) = 0 then (.XUD_RES_OKAY, mem)
  else if mem (ep + 4) ^^^ (mem (ep + 6) >>> 24) ≠ 0 then (.XUD_RES_ERR, mem)
  else (.XUD_RES_OKAY, Function.update mem (ep + 4) (mem (ep + 4) ^^^ 0x88))

/-- The record of the IN endpoint of the same number is 640 bytes behind. -/
def xud_setup_data_get_finish (pids : Pids) (mem : Mem) (ep : Nat) : XudResult × Mem :=
  let mem := Function.update mem (ep + 4) pids.USB_PIDn_DATA1
  (.XUD_RES_OKAY, Function.update mem (ep + 160 + 4) pids.USB_PIDn_DATA1)

/-- Of an IN endpoint whose packet has been sent, or that has seen a reset. -/
def xud_data_set_finish (mem : Mem) (ep : Nat) (reset : Bool) : XudResult × Mem :=
  if reset then (.XUD_RES_RST, mem)
  else if mem (ep + 5) = 0 then (.XUD_RES_OKAY, mem)
  else (.XUD_RES_OKAY, Function.update mem (ep + 4) (mem (ep + 4) ^^^ 0x88))

/-- Of an OUT endpoint, for a packet to be received into a buffer. A reset that was missed is in word 9. -/
def xud_data_get_start (mem : Mem) (ep : Nat) (buffer : Word) : XudResult × Mem :=
  if mem (ep + 9) ≠ 0 then (.XUD_RES_RST, mem)
  else
    let chan_array_ptr := mem ep
    let mem := Function.update mem (ep + 3) buffer
    -- the library sees that the endpoint is ready
    (.XUD_RES_OKAY, Function.update mem (chan_array_ptr.toNat / 4) (BitVec.ofNat 32 (4 * ep)))

/-- The words of a packet but for the last one, and the bits of that. -/
def split_length (len : Word) : Word × Word :=
  let tailLength := (8 * len) &&& 0x1F
  let wordLength := len / 4
  if tailLength = 0 ∧ wordLength ≠ 0 then (wordLength - 1, 32) else (wordLength, tailLength)

/-- Of an IN endpoint, for a packet to be sent. -/
def xud_data_set_start (mem : Mem) (ep : Nat) (buffer len : Word) : XudResult × Mem :=
  if mem (ep + 9) ≠ 0 then (.XUD_RES_RST, mem)
  else
    let (wordLength, tailLength) := split_length len
    let mem := Function.update mem (ep + 6) (-wordLength)
    let mem := Function.update mem (ep + 3) (buffer + (wordLength <<< 2))
    let mem := Function.update mem (ep + 7) tailLength
    let chan_array_ptr := mem ep
    (.XUD_RES_OKAY, Function.update mem (chan_array_ptr.toNat / 4) (BitVec.ofNat 32 (4 * ep)))

variable {mem : Mem} {ep a : Nat}

theorem xud_data_get_finish_expected (htype : mem (ep + 5) ≠ 0) (h : mem (ep + 6) >>> 24 = mem (ep + 4)) :
    xud_data_get_finish mem ep = (.XUD_RES_OKAY, Function.update mem (ep + 4) (mem (ep + 4) ^^^ 0x88)) := by
  unfold xud_data_get_finish
  rw [if_neg htype, h, if_neg]
  simp

theorem xud_data_get_finish_other (htype : mem (ep + 5) ≠ 0) (h : mem (ep + 6) >>> 24 ≠ mem (ep + 4)) :
    xud_data_get_finish mem ep = (.XUD_RES_ERR, mem) := by
  unfold xud_data_get_finish
  rw [if_neg htype, if_pos]
  intro hzero
  exact h (BitVec.xor_eq_zero_iff.1 hzero).symm

/-! ## What they write -/

theorem xud_data_get_finish_frame (h : a ≠ ep + 4) : (xud_data_get_finish mem ep).2 a = mem a := by
  unfold xud_data_get_finish
  split
  · rfl
  · split
    · rfl
    · exact Function.update_of_ne h _ _

theorem xud_setup_data_get_finish_frame {pids : Pids} (h : a ≠ ep + 4) (hin : a ≠ ep + 160 + 4) :
    (xud_setup_data_get_finish pids mem ep).2 a = mem a := by
  simp only [xud_setup_data_get_finish]
  rw [Function.update_of_ne hin, Function.update_of_ne h]

theorem xud_data_set_finish_frame {reset : Bool} (h : a ≠ ep + 4) : (xud_data_set_finish mem ep reset).2 a = mem a := by
  unfold xud_data_set_finish
  split
  · rfl
  · split
    · rfl
    · exact Function.update_of_ne h _ _

theorem xud_data_get_start_frame {buffer : Word} (h : a ≠ ep + 3) (htable : a ≠ (mem ep).toNat / 4) :
    (xud_data_get_start mem ep buffer).2 a = mem a := by
  unfold xud_data_get_start
  split
  · rfl
  · exact (Function.update_of_ne htable _ _).trans (Function.update_of_ne h _ _)

theorem xud_data_set_start_frame {buffer len : Word} (h3 : a ≠ ep + 3) (h6 : a ≠ ep + 6) (h7 : a ≠ ep + 7)
    (htable : a ≠ (mem ep).toNat / 4) : (xud_data_set_start mem ep buffer len).2 a = mem a := by
  unfold xud_data_set_start
  split
  · rfl
  · have hptr : ∀ f, f ≠ 0 → ep ≠ ep + f := fun f hf => by omega
    simp only [Function.update_of_ne (hptr 7 (by omega)), Function.update_of_ne (hptr 3 (by omega)),
      Function.update_of_ne (hptr 6 (by omega))]
    rw [Function.update_of_ne htable, Function.update_of_ne h7, Function.update_of_ne h3, Function.update_of_ne h6]

/-! ## The records -/

/-- The records of the endpoints of a number, which is below 16. -/
def out_ep (base n : Nat) : Nat := base + 10 * n
def in_ep (base n : Nat) : Nat := base + 160 + 10 * n

/-- The words of all records. -/
def InRecords (base a : Nat) : Prop := base ≤ a ∧ a < base + 320

end Usb
