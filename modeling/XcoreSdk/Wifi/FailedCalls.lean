import XcoreSdk.Wifi.MoveFaults
/-!
# Calls that fail

What a call of the driver that does not succeed leaves of the profiles. Adding
keeps them unless the directory entry gets the size of a torn file. Deleting moves
them inside the file, so that they are kept only as long as nothing that has been
moved reaches the volume.
-/

namespace Wifi

open Fatfs

variable {file : Option (List UInt8)} {profiles kept : List WIFINetworkProfile_t}

/-! ## What is to be kept -/

/-- A call on a disk that fails. -/
inductive FaultyCall
  | NetworkAdd (faults : AddFaults) (pxNetworkProfile : WIFINetworkProfile_t) (pusIndex : Option UInt16)
  | NetworkDelete (faults : DeleteFaults) (tmp : WIFINetworkProfile_t) (usIndex : UInt16)

def FaultyCall.run (file : Option (List UInt8)) : FaultyCall → WIFIReturnCode_t × Option (List UInt8)
  | .NetworkAdd faults profile pusIndex =>
    let (ret, _, file) := FaultyNetworkAdd faults file profile.1 pusIndex
    (ret, file)
  | .NetworkDelete faults tmp usIndex => FaultyNetworkDelete faults file tmp.1 usIndex

/-! ## Every call -/

/-- Whether a call that fails keeps the profiles. -/
def FaultyCall.Safe (profiles : List WIFINetworkProfile_t) : FaultyCall → Prop
  | .NetworkAdd faults _ _ => faults.opens.result = .FR_OK → profiles ≠ [] → ¬ faults.Torn
  | .NetworkDelete faults tmp usIndex => faults.opens.result = .FR_OK → usIndex.toNat < profiles.length →
    Harmless faults.move (faults.closed (profiles.length - usIndex.toNat - 1))
        ((profiles.map (·.1)).drop usIndex.toNat) 0 tmp.1 ∧
      (faults.Completes (profiles.length - usIndex.toNat - 1) → faults.truncate.sized = true → faults.Uncut profiles)

@[irreducible] def profile (b : UInt8) : WIFINetworkProfile_t :=
  ⟨List.replicate sizeof_WIFINetworkProfile_t b, List.length_replicate ..⟩

/-- A call that comes back with `result` and transfers so many bytes if it is asked to. -/
def outcome (result : FRESULT) (count : Nat) : Outcome := ⟨result, count, none⟩

/-- In the second round of a deletion the volume is not to be had in time. -/
def late (closes : Closing) : DeleteFaults where
  opens := ⟨.FR_OK, false⟩
  move i := ⟨outcome (if i = 0 then .FR_OK else .FR_TIMEOUT) 0, outcome .FR_OK 80, outcome .FR_OK 0, outcome .FR_OK 80⟩
  seek := outcome .FR_OK 0
  truncate := ⟨.FR_OK, false, []⟩
  closes := closes

/-- The volume is full in the midst of a new profile. -/
def full (undo : FRESULT) : AddFaults where
  opens := ⟨.FR_OK, false⟩
  reset_seek := outcome .FR_OK 0
  reset_truncate := ⟨.FR_OK, false, []⟩
  write := outcome .FR_OK 32
  undo_seek := outcome undo 0
  undo_truncate := ⟨.FR_OK, false, []⟩
  closes := .synced

end Wifi
