import XcoreSdk.Lib.Loop
import Mathlib.Logic.Function.Basic
/-!
# The USB configuration descriptor

`cfg_desc_parse` goes through the descriptors of a configuration, each of them
behind the one before by that one's length byte, and enters the endpoints into
the tables for the USB device library.
-/

namespace Usb

def RTOS_USB_ENDPOINT_COUNT_MAX : Nat := 12

/-- `tusb_xfer_type_t` -/
inductive TusbXferType
  | TUSB_XFER_CONTROL | TUSB_XFER_ISOCHRONOUS | TUSB_XFER_BULK | TUSB_XFER_INTERRUPT
deriving DecidableEq

/-- What comes from the USB stack and the USB device library. -/
structure Libs (EpType : Type*) where
  TUSB_DESC_CONFIGURATION : UInt8
  TUSB_DESC_ENDPOINT : UInt8
  TUSB_DESC_CONFIG_ATT_SELF_POWERED : UInt8
  tu_edpt_number : UInt8 → UInt8
  /-- Whether it is `TUSB_DIR_IN`. -/
  tu_edpt_dir : UInt8 → Bool
  /-- The field `xfer` of an endpoint's `bmAttributes`. -/
  xfer : UInt8 → TusbXferType
  XUD_EPTYPE_CTL : EpType
  XUD_EPTYPE_ISO : EpType
  XUD_EPTYPE_BUL : EpType
  XUD_EPTYPE_INT : EpType

/-- The sizes of the two descriptors, whose fields are packed. -/
def sizeof_tusb_desc_configuration_t : Nat := 9
def sizeof_tusb_desc_endpoint_t : Nat := 7

variable {EpType : Type*} (lib : Libs EpType) (desc_buf : Nat → UInt8)

def xud_type : TusbXferType → EpType
  | .TUSB_XFER_CONTROL => lib.XUD_EPTYPE_CTL
  | .TUSB_XFER_ISOCHRONOUS => lib.XUD_EPTYPE_ISO
  | .TUSB_XFER_BULK => lib.XUD_EPTYPE_BUL
  | .TUSB_XFER_INTERRUPT => lib.XUD_EPTYPE_INT

/-! ## Fields, by their place in the buffer -/

def bLength (p : Nat) : Nat := (desc_buf p).toNat
def bDescriptorType (p : Nat) : UInt8 := desc_buf (p + 1)
def wTotalLength : Nat := (desc_buf 2).toNat + 256 * (desc_buf 3).toNat
def epnum (p : Nat) : Nat := (lib.tu_edpt_number (desc_buf (p + 2))).toNat
def dir_in (p : Nat) : Bool := lib.tu_edpt_dir (desc_buf (p + 2))
def ep_type (p : Nat) : EpType := xud_type lib (lib.xfer (desc_buf (p + 3)))

/-! ## Parsing -/

/-- The variables, and the places that have been read. -/
structure Parse (EpType : Type*) where
  cur_index : Nat
  max_epnum : Nat
  epTypeTableOut : Nat → EpType
  epTypeTableIn : Nat → EpType
  reads : List Nat

/-- The two assertions about the header. -/
def HeaderOk : Prop :=
  sizeof_tusb_desc_configuration_t ≤ bLength desc_buf 0 ∧ bDescriptorType desc_buf 0 = lib.TUSB_DESC_CONFIGURATION

instance : Decidable (HeaderOk lib desc_buf) := inferInstanceAs (Decidable (_ ∧ _))

/-- Whether there is an endpoint's descriptor, all of it, at `p`. -/
def IsEndpoint (p : Nat) : Prop :=
  p + bLength desc_buf p ≤ wTotalLength desc_buf ∧ bDescriptorType desc_buf p = lib.TUSB_DESC_ENDPOINT ∧
    sizeof_tusb_desc_endpoint_t ≤ bLength desc_buf p

instance (p : Nat) : Decidable (IsEndpoint lib desc_buf p) := inferInstanceAs (Decidable (_ ∧ _))

/-- The places that are read of the descriptor at `p`. -/
def reads_at (p : Nat) : List Nat :=
  if p + bLength desc_buf p ≤ wTotalLength desc_buf then
    if IsEndpoint lib desc_buf p then [p, p + 1, p + 2, p + 3] else [p, p + 1]
  else [p]

/-- An endpoint is entered. -/
def enter (s : Parse EpType) (p : Nat) : Parse EpType :=
  { s with
    max_epnum := if s.max_epnum < epnum lib desc_buf p then epnum lib desc_buf p else s.max_epnum
    epTypeTableIn := if dir_in lib desc_buf p then
        Function.update s.epTypeTableIn (epnum lib desc_buf p) (ep_type lib desc_buf p)
      else s.epTypeTableIn
    epTypeTableOut := if dir_in lib desc_buf p then s.epTypeTableOut
      else Function.update s.epTypeTableOut (epnum lib desc_buf p) (ep_type lib desc_buf p) }

/-- A round of the loop. It leaves with `none` when the assertion fails. -/
def cfg_desc_round (s : Parse EpType) : Parse EpType ⊕ Option (Parse EpType) :=
  let p := s.cur_index
  if p < wTotalLength desc_buf then
    let s' := { s with reads := s.reads ++ reads_at lib desc_buf p, cur_index := p + bLength desc_buf p }
    if IsEndpoint lib desc_buf p then
      if epnum lib desc_buf p < RTOS_USB_ENDPOINT_COUNT_MAX then .inl (enter lib desc_buf s' p) else .inr none
    else .inl s'
  else .inr (some s)

/-- The header's fields are read. -/
def cfg_desc_start (epTypeTableOut epTypeTableIn : Nat → EpType) : Parse EpType :=
  ⟨bLength desc_buf 0, 0, epTypeTableOut, epTypeTableIn, [0, 2, 3, 1, 7]⟩

/-- The value returned, whether the device is self powered, and what has been done. -/
def cfg_desc_parse (epTypeTableOut epTypeTableIn : Nat → EpType) (rounds : Nat) : Option (Nat × Bool × Parse EpType) :=
  if HeaderOk lib desc_buf then
    (Loop.run (cfg_desc_round lib desc_buf) rounds (cfg_desc_start desc_buf epTypeTableOut epTypeTableIn)).join.map
      fun s => (s.max_epnum + 1, desc_buf 7 &&& lib.TUSB_DESC_CONFIG_ATT_SELF_POWERED ≠ 0, s)
  else none

end Usb
