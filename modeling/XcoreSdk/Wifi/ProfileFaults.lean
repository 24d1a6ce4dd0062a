import XcoreSdk.Fatfs.FaultyFile
import XcoreSdk.Wifi.Profiles
/-!
# Network profiles on a disk that fails

The driver's calls once more, with calls of the file system that may fail or
transfer less than they are asked to. A call that fails is the last one, but for
`f_close`, whose result nobody looks at; only a short write at the end of the
file is undone.
-/

namespace Wifi

open Fatfs

/-- What the calls in `WIFI_NetworkAdd` come back with, in the order in which they stand there. -/
structure AddFaults where
  opens : Opening
  reset_seek : Outcome
  reset_truncate : Truncation
  write : Outcome
  undo_seek : Outcome
  undo_truncate : Truncation
  closes : Closing

/-- What the calls in a round of the loop of `WIFI_NetworkDelete` come back with. -/
structure MoveFaults where
  seek_src : Outcome
  read : Outcome
  seek_dest : Outcome
  write : Outcome

structure DeleteFaults where
  opens : Opening
  move : Nat → MoveFaults
  seek : Outcome
  truncate : Truncation
  closes : Closing

/-! ## The driver -/

def fault_append (faults : AddFaults) (networks : FaultyFIL) (pos : Nat) (pxNetworkProfile : List UInt8)
    (pusIndex : Option UInt16) : WIFIReturnCode_t × Option UInt16 × FaultyFIL :=
  let (result, bytes_written, networks) := fault_write faults.write networks pxNetworkProfile
  if result = .FR_OK then
    if bytes_written = sizeof_WIFINetworkProfile_t then
      (.eWiFiSuccess, pusIndex.map fun _ => UInt16.ofNat (pos / sizeof_WIFINetworkProfile_t), networks)
    else
      -- not the entire profile: undo
      let (result, networks) := fault_lseek faults.undo_seek networks pos
      if result = .FR_OK then (.eWiFiFailure, pusIndex, (fault_truncate faults.undo_truncate networks).2)
      else (.eWiFiFailure, pusIndex, networks)
  else (.eWiFiFailure, pusIndex, networks)

/-- The mode in which `WIFI_NetworkAdd` opens the file. -/
def append_mode : Mode := { FA_READ := false, FA_WRITE := true, FA_OPEN_ALWAYS := true, FA_SEEKEND := true }

/-- `WIFI_NetworkAdd`: what becomes of the file and of `*pusIndex`. -/
def FaultyNetworkAdd (faults : AddFaults) (file : Option (List UInt8)) (pxNetworkProfile : List UInt8)
    (pusIndex : Option UInt16) : WIFIReturnCode_t × Option UInt16 × Option (List UInt8) :=
  let (result, networks) := fault_open faults.opens file append_mode
  if result = .FR_OK then
    let pos := f_tell networks.toFIL
    let (result, pos, networks) :=
      if pos % sizeof_WIFINetworkProfile_t ≠ 0 then
        -- no whole number of profiles: reset the file
        let (result, networks) := fault_lseek faults.reset_seek networks 0
        if result = .FR_OK then
          let (result, networks) := fault_truncate faults.reset_truncate networks
          (result, 0, networks)
        else (result, pos, networks)
      else (result, pos, networks)
    let (ret, pusIndex, networks) :=
      if result = .FR_OK then fault_append faults networks pos pxNetworkProfile pusIndex
      else (.eWiFiFailure, pusIndex, networks)
    (ret, pusIndex, fault_close faults.closes networks)
  else (.eWiFiFailure, pusIndex, fault_unopened faults.opens file append_mode)

/-- Moves the profile at `src` to `dest`, by way of the buffer `tmp`. -/
def fault_move (faults : MoveFaults) (networks : FaultyFIL) (tmp : List UInt8) (src dest : Nat) :
    FRESULT × List UInt8 × FaultyFIL :=
  let (result, networks) := fault_lseek faults.seek_src networks src
  if result = .FR_OK then
    let (result, read, networks) := fault_read faults.read networks sizeof_WIFINetworkProfile_t
    let tmp := read ++ tmp.drop read.length
    if result = .FR_OK then
      let (result, networks) := fault_lseek faults.seek_dest networks dest
      if result = .FR_OK then
        let (result, _, networks) := fault_write faults.write networks tmp
        (result, tmp, networks)
      else (result, tmp, networks)
    else (result, tmp, networks)
  else (result, tmp, networks)

/-- The loop of `WIFI_NetworkDelete` from its `i`th round on. -/
def fault_delete_loop (faults : Nat → MoveFaults) (size : Nat) (i : Nat) (networks : FaultyFIL) (tmp : List UInt8)
    (src dest : Nat) : FRESULT × Nat × FaultyFIL :=
  if src < size then
    let (result, tmp, networks) := fault_move (faults i) networks tmp src dest
    if result = .FR_OK then
      fault_delete_loop faults size (i + 1) networks tmp (src + sizeof_WIFINetworkProfile_t)
        (dest + sizeof_WIFINetworkProfile_t)
    else (result, dest, networks)
  else (.FR_OK, dest, networks)
termination_by size - src
decreasing_by simp only [sizeof_WIFINetworkProfile_t]; omega

/-- `WIFI_NetworkDelete`: what becomes of the file. -/
def FaultyNetworkDelete (faults : DeleteFaults) (file : Option (List UInt8)) (tmp : List UInt8) (usIndex : UInt16) :
    WIFIReturnCode_t × Option (List UInt8) :=
  let mode := { FA_READ := true, FA_WRITE := true, FA_OPEN_ALWAYS := false, FA_SEEKEND := false }
  let (result, networks) := fault_open faults.opens file mode
  if result = .FR_OK then
    let size := f_size networks.toFIL
    let dest := usIndex.toNat * sizeof_WIFINetworkProfile_t
    let src := dest + sizeof_WIFINetworkProfile_t
    if size % sizeof_WIFINetworkProfile_t = 0 ∧ dest < size then
      let (result, dest, networks) := fault_delete_loop faults.move size 0 networks tmp src dest
      if result = .FR_OK then
        let (result, networks) := fault_lseek faults.seek networks dest
        if result = .FR_OK then
          let (result, networks) := fault_truncate faults.truncate networks
          (if result = .FR_OK then .eWiFiSuccess else .eWiFiFailure, fault_close faults.closes networks)
        else (.eWiFiFailure, fault_close faults.closes networks)
      else (.eWiFiFailure, fault_close faults.closes networks)
    else (.eWiFiFailure, fault_close faults.closes networks)
  else (.eWiFiFailure, fault_unopened faults.opens file mode)

/-! ## Adding -/

variable {file : Option (List UInt8)} {profiles : List WIFINetworkProfile_t} {networks : FaultyFIL}

theorem stored_injective {a b : List WIFINetworkProfile_t} (h : stored a = stored b) : a = b :=
  List.map_injective_iff.2 Subtype.val_injective ((sized a).flatten_injective (sized b) (by decide) h)

theorem Holds.unique {a b : List WIFINetworkProfile_t} (ha : Holds file a) (hb : Holds file b) : a = b := by
  unfold Holds at ha hb
  split at ha
  · rename_i hmod
    rw [if_pos hmod] at hb
    exact stored_injective (ha.symm.trans hb)
  · rename_i hmod
    rw [if_neg hmod] at hb
    rw [ha, hb]

/-- As long as the directory entry is not written, the volume has these profiles. -/
structure Kept (profiles : List WIFINetworkProfile_t) (networks : FaultyFIL) : Prop where
  size_le : networks.size ≤ networks.disk.length
  volume : networks.disk.take networks.size = stored profiles ∨
    profiles = [] ∧ networks.size % sizeof_WIFINetworkProfile_t ≠ 0
  front : stored profiles <+: networks.bytes

theorem Kept.holds (h : Kept profiles networks) : Holds (some (networks.disk.take networks.size)) profiles := by
  rcases h.volume with hstored | ⟨rfl, hmod⟩
  · rw [hstored]
    exact holds_stored profiles
  · rw [Holds, Option.getD_some, List.length_take_of_le h.size_le, if_neg hmod]

theorem Kept.size (h : Kept profiles networks) (hstored : networks.disk.take networks.size = stored profiles) :
    networks.size = (stored profiles).length := by
  rw [← hstored, List.length_take_of_le h.size_le]

theorem Kept.write_back (h : Kept profiles networks) : Kept profiles networks.write_back := by
  refine ⟨?_, ?_, h.front⟩
  · have hsize := h.size_le
    simp only [FaultyFIL.write_back, List.length_append, List.length_drop]
    omega
  · refine h.volume.imp (fun hstored => ?_) id
    obtain ⟨rest, hrest⟩ := h.front
    have hsize : networks.write_back.size = (stored profiles).length := h.size hstored
    rw [hsize]
    dsimp only [FaultyFIL.write_back]
    rw [← hrest, List.append_assoc, List.take_left]

theorem Kept.put (h : Kept profiles networks) (hfptr : (stored profiles).length ≤ networks.fptr) (buff : List UInt8)
    (n : Nat) : Kept profiles (networks.put buff n) := by
  refine ⟨h.size_le, h.volume, ?_⟩
  obtain ⟨rest, hrest⟩ := h.front
  dsimp only [FaultyFIL.put]
  rw [← hrest, List.take_append, List.take_of_length_le hfptr, List.append_assoc, List.append_assoc]
  exact List.prefix_append ..

/-- A file object as another one, with what the volume has of a third one. -/
theorem Kept.frame {networks' front : FaultyFIL} (h : Kept profiles networks) (hfront : Kept profiles front)
    (hsize : networks'.size = networks.size) (hdisk : networks'.disk = networks.disk)
    (hbytes : networks'.bytes = front.bytes) : Kept profiles networks' := by
  refine ⟨?_, ?_, ?_⟩
  · rw [hsize, hdisk]
    exact h.size_le
  · rw [hsize, hdisk]
    exact h.volume
  · rw [hbytes]
    exact hfront.front

theorem Kept.fault_write (h : Kept profiles networks) (hfptr : (stored profiles).length ≤ networks.fptr)
    (outcome : Outcome) (buff : List UInt8) : Kept profiles (fault_write outcome networks buff).2.2 := by
  have hput := h.put hfptr buff (outcome.written buff.length)
  by_cases hback : outcome.written_back.isSome
  · exact (h.put hfptr buff (outcome.landed buff.length)).write_back.frame hput rfl (if_pos hback) rfl
  · exact h.frame hput rfl (if_neg hback) rfl

theorem Kept.fault_lseek (h : Kept profiles networks) (outcome : Outcome) (ofs : Nat) :
    Kept profiles (fault_lseek outcome networks ofs).2 := by
  have hback : Kept profiles (if outcome.written_back.isSome then networks.write_back else networks) := by
    split
    · exact h.write_back
    · exact h
  unfold Fatfs.fault_lseek
  generalize (if outcome.written_back.isSome then networks.write_back else networks) = fp at hback ⊢
  dsimp only
  split
  · split
    · exact ⟨hback.size_le, hback.volume, hback.front⟩
    · exact hback
  · exact hback

theorem Kept.fault_truncate (h : Kept profiles networks) (hfptr : (stored profiles).length ≤ networks.fptr)
    (truncation : Truncation) : Kept profiles (fault_truncate truncation networks).2 := by
  unfold Fatfs.fault_truncate
  split
  case isFalse => exact h
  have hcut : Kept profiles { networks with
      bytes := networks.bytes.take networks.fptr
      FA_MODIFIED := true
      disk := networks.disk.take networks.fptr ++ truncation.behind ++
        networks.disk.drop (networks.fptr + truncation.behind.length) } := by
    refine ⟨?_, ?_, ?_⟩
    · have hsize := h.size_le
      simp only [List.length_append, List.length_take, List.length_drop]
      omega
    · refine h.volume.imp (fun hstored => ?_) id
      have hsize := h.size hstored
      have hle := h.size_le
      dsimp only
      rw [List.append_assoc, List.take_append_of_le_length (by rw [List.length_take]; omega), List.take_take,
        Nat.min_eq_left (by omega)]
      exact hstored
    · obtain ⟨rest, hrest⟩ := h.front
      dsimp only
      rw [← hrest, List.take_append, List.take_of_length_le hfptr]
      exact List.prefix_append ..
  dsimp only
  split
  · exact hcut.write_back
  · exact hcut

theorem Kept.fault_close (h : Kept profiles networks) (closing : Closing)
    (hsynced : networks.FA_MODIFIED = true → closing = .synced → Holds (some networks.bytes) profiles) :
    Holds (fault_close closing networks) profiles := by
  unfold Fatfs.fault_close
  split
  · rename_i hmodified
    cases closing with
    | unwritten => exact h.holds
    | unsized => exact h.write_back.holds
    | synced => exact hsynced hmodified rfl
  · exact h.holds

/-- A whole profile is written. -/
def AddFaults.Full (faults : AddFaults) : Prop :=
  faults.write.result = .FR_OK ∧ sizeof_WIFINetworkProfile_t ≤ faults.write.count

/-- A short write is undone: the file has the size of before, even where `f_truncate` fails after that. -/
def AddFaults.Undone (faults : AddFaults) : Prop :=
  faults.undo_seek.result = .FR_OK ∧ (faults.undo_truncate.result = .FR_OK ∨ faults.undo_truncate.sized = true)

instance (faults : AddFaults) : Decidable faults.Full := inferInstanceAs (Decidable (_ ∧ _))
instance (faults : AddFaults) : Decidable faults.Undone := inferInstanceAs (Decidable (_ ∧ _))

/-- How much of the profile stays behind the others. -/
def AddFaults.left (faults : AddFaults) : Nat :=
  if faults.write.result = .FR_OK ∧ faults.Undone then 0 else faults.write.written sizeof_WIFINetworkProfile_t

theorem put_end (hbytes : networks.bytes = stored profiles)
    (hfptr : networks.fptr = profiles.length * sizeof_WIFINetworkProfile_t) (buff : List UInt8) (n : Nat) :
    (networks.put buff n).bytes = stored profiles ++ buff.take n := by
  have hlen := length_stored profiles
  dsimp only [FaultyFIL.put]
  rw [hbytes, hfptr, List.take_of_length_le (Nat.le_of_eq hlen), List.drop_of_length_le (by omega), List.append_nil]

theorem fault_write_end (h : Kept profiles networks) (hbytes : networks.bytes = stored profiles)
    (hfptr : networks.fptr = profiles.length * sizeof_WIFINetworkProfile_t) (outcome : Outcome) {buff : List UInt8}
    (hbuff : buff.length = sizeof_WIFINetworkProfile_t) :
    ∃ fp, fault_write outcome networks buff = (outcome.result, outcome.written sizeof_WIFINetworkProfile_t, fp) ∧
      Kept profiles fp ∧ fp.bytes = stored profiles ++ buff.take (outcome.written sizeof_WIFINetworkProfile_t) ∧
      fp.FA_MODIFIED = (networks.FA_MODIFIED || decide (outcome.result = .FR_OK)) := by
  have hend : (stored profiles).length = networks.fptr := (length_stored profiles).trans hfptr.symm
  refine ⟨(fault_write outcome networks buff).2.2, ?_, h.fault_write (Nat.le_of_eq hend) outcome buff, ?_, rfl⟩
  · rw [← hbuff]
    rfl
  · rw [← hbuff, ← put_end hbytes hfptr]
    rfl

/-- A short write is taken back as far as the calls for it go. -/
theorem fault_undo (faults : AddFaults) {k : Nat} (profile : WIFINetworkProfile_t) (h : Kept profiles networks)
    (hbytes : networks.bytes = stored profiles ++ profile.1.take k) (hmodified : networks.FA_MODIFIED = true) :
    let pos := profiles.length * sizeof_WIFINetworkProfile_t
    let seek := fault_lseek faults.undo_seek networks pos
    let fp := if seek.1 = .FR_OK then (fault_truncate faults.undo_truncate seek.2).2 else seek.2
    Kept profiles fp ∧ fp.FA_MODIFIED = true ∧
      fp.bytes = stored profiles ++ if faults.Undone then [] else profile.1.take k := by
  intro pos seek fp
  have hlen := length_stored profiles
  have hpos : pos ≤ networks.bytes.length := by
    rw [hbytes, List.length_append, hlen]
    exact Nat.le_add_right ..
  have hresult : seek.1 = faults.undo_seek.result := lseek_result _ hpos
  have hkept : Kept profiles seek.2 := h.fault_lseek faults.undo_seek pos
  have hset : seek.2.FA_MODIFIED = true := lseek_modified.trans hmodified
  have hfront : seek.2.bytes = stored profiles ++ profile.1.take k := lseek_bytes.trans hbytes
  by_cases hseek : seek.1 = .FR_OK
  · have hfp : fp = (fault_truncate faults.undo_truncate seek.2).2 := if_pos hseek
    have hfptr : seek.2.fptr = pos := lseek_fptr hseek
    rw [hfp]
    refine ⟨hkept.fault_truncate (by rw [hfptr, hlen]) _, truncate_modified hset, ?_⟩
    by_cases hdone : faults.undo_truncate.result = .FR_OK ∨ faults.undo_truncate.sized = true
    · rw [truncate_bytes hdone, hfptr, hfront, List.take_left' hlen,
        if_pos (show faults.Undone from ⟨hresult ▸ hseek, hdone⟩), List.append_nil]
    · rw [truncate_fails hdone, hfront, if_neg (show ¬ faults.Undone from fun hboth => hdone hboth.2)]
  · have hfp : fp = seek.2 := if_neg hseek
    rw [hfp, if_neg (show ¬ faults.Undone from fun hboth => hseek (hresult.trans hboth.1))]
    exact ⟨hkept, hset, hfront⟩

/-- What a call that appends a profile leaves in the file object. -/
theorem fault_append_spec (faults : AddFaults) (h : Kept profiles networks) (hbytes : networks.bytes = stored profiles)
    (hfptr : networks.fptr = profiles.length * sizeof_WIFINetworkProfile_t) (profile : WIFINetworkProfile_t)
    (pusIndex : Option UInt16) :
    let r := fault_append faults networks (profiles.length * sizeof_WIFINetworkProfile_t) profile.1 pusIndex
    Kept profiles r.2.2 ∧ r.2.2.FA_MODIFIED = (networks.FA_MODIFIED || decide (faults.write.result = .FR_OK)) ∧
      if faults.Full then
        (r.1, r.2.1) = (.eWiFiSuccess, pusIndex.map fun _ => UInt16.ofNat profiles.length) ∧
          r.2.2.bytes = stored (profiles ++ [profile])
      else (r.1, r.2.1) = (.eWiFiFailure, pusIndex) ∧ r.2.2.bytes = stored profiles ++ profile.1.take faults.left := by
  obtain ⟨fp, hrun, hkept, hfront, hmodified⟩ := fault_write_end h hbytes hfptr faults.write profile.2
  unfold fault_append
  rw [hrun]
  dsimp only
  by_cases hwrite : faults.write.result = .FR_OK
  · have hmin : faults.write.written sizeof_WIFINetworkProfile_t = min sizeof_WIFINetworkProfile_t faults.write.count := by
      rw [Outcome.written, if_pos hwrite]
    rw [if_pos hwrite]
    by_cases hfull : sizeof_WIFINetworkProfile_t ≤ faults.write.count
    · rw [hmin, Nat.min_eq_left hfull, if_pos rfl, if_pos (show faults.Full from ⟨hwrite, hfull⟩),
        Nat.mul_div_cancel _ (show 0 < sizeof_WIFINetworkProfile_t by decide)]
      refine ⟨hkept, hmodified, rfl, ?_⟩
      rw [hfront, hmin, Nat.min_eq_left hfull, List.take_of_length_le (Nat.le_of_eq profile.2)]
      simp [stored]
    · rw [hmin, if_neg (by omega), if_neg (show ¬ faults.Full from fun hboth => hfull hboth.2)]
      rw [decide_eq_true hwrite, Bool.or_true] at hmodified ⊢
      obtain ⟨hundone, hset, hleft⟩ := fault_undo faults profile hkept hfront hmodified
      have hleft' : profile.1.take faults.left =
          if faults.Undone then [] else profile.1.take (faults.write.written sizeof_WIFINetworkProfile_t) := by
        by_cases hdone : faults.Undone
        · rw [AddFaults.left, if_pos ⟨hwrite, hdone⟩, if_pos hdone, List.take_zero]
        · rw [AddFaults.left, if_neg fun hboth => hdone hboth.2, if_neg hdone]
      rw [hleft']
      by_cases hseek : (fault_lseek faults.undo_seek fp (profiles.length * sizeof_WIFINetworkProfile_t)).1 = .FR_OK
      · rw [if_pos hseek] at hundone hset hleft ⊢
        exact ⟨hundone, hset, rfl, hleft⟩
      · rw [if_neg hseek] at hundone hset hleft ⊢
        exact ⟨hundone, hset, rfl, hleft⟩
  · rw [if_neg hwrite, if_neg (show ¬ faults.Full from fun hboth => hwrite hboth.1)]
    refine ⟨hkept, hmodified, rfl, ?_⟩
    rw [AddFaults.left, if_neg fun hboth => hwrite hboth.1]
    exact hfront

/-- The end of the file, where a profile is to be appended. -/
structure AtEnd (profiles : List WIFINetworkProfile_t) (networks : FaultyFIL) : Prop where
  kept : Kept profiles networks
  bytes : networks.bytes = stored profiles
  fptr : networks.fptr = profiles.length * sizeof_WIFINetworkProfile_t
  unmodified : profiles ≠ [] → networks.FA_MODIFIED = false

/-- A file that is no whole number of profiles is reset, or counts as empty as before. -/
theorem reset_spec (faults : AddFaults) (closing : Closing) (h : Kept [] networks)
    (hset : networks.FA_MODIFIED = false) :
    let seek := fault_lseek faults.reset_seek networks 0
    let cut := fault_truncate faults.reset_truncate seek.2
    (seek.1 ≠ .FR_OK → Holds (fault_close closing seek.2) []) ∧ (seek.1 = .FR_OK → AtEnd [] cut.2 ∨
      cut.1 ≠ .FR_OK ∧ Holds (fault_close closing cut.2) []) := by
  intro seek cut
  have hkept : Kept [] seek.2 := h.fault_lseek faults.reset_seek 0
  have hunset : seek.2.FA_MODIFIED = false := lseek_modified.trans hset
  have hholds : Holds (fault_close closing seek.2) [] :=
    hkept.fault_close closing fun hmodified => absurd (hunset.symm.trans hmodified) nofun
  refine ⟨fun _ => hholds, fun hseek => ?_⟩
  have hfptr : seek.2.fptr = 0 := lseek_fptr hseek
  by_cases hcut : faults.reset_truncate.result = .FR_OK ∨ faults.reset_truncate.sized = true
  · left
    refine ⟨hkept.fault_truncate (Nat.zero_le _) _, ?_, ?_, fun hne => absurd rfl hne⟩
    · rw [truncate_bytes hcut, hfptr]
      rfl
    · rw [truncate_fptr, hfptr]
      rfl
  · right
    refine ⟨fun hresult => hcut (.inl (truncate_result.symm.trans hresult)), ?_⟩
    change Holds (fault_close closing (fault_truncate faults.reset_truncate seek.2).2) []
    rw [truncate_fails hcut]
    exact hholds

theorem AtEnd.holds (h : AtEnd profiles networks) (closing : Closing) : Holds (fault_close closing networks) profiles :=
  h.kept.fault_close closing fun _ _ => by
    rw [h.bytes]
    exact holds_stored profiles

/-- The calls that come to nothing leave the profiles, the others append one. -/
theorem FaultyNetworkAdd_cases (h : Holds file profiles) (faults : AddFaults) (profile : WIFINetworkProfile_t)
    (pusIndex : Option UInt16) :
    let r := FaultyNetworkAdd faults file profile.1 pusIndex
    (r.1 = .eWiFiFailure ∧ Holds r.2.2 profiles ∧ (faults.opens.result ≠ .FR_OK ∨
        profiles = [] ∧ (faults.reset_seek.result ≠ .FR_OK ∨ faults.reset_truncate.result ≠ .FR_OK))) ∨
      faults.opens.result = .FR_OK ∧ ∃ networks, AtEnd profiles networks ∧ r =
        let q := fault_append faults networks (profiles.length * sizeof_WIFINetworkProfile_t) profile.1 pusIndex
        (q.1, q.2.1, fault_close faults.closes q.2.2) := by
  by_cases hopen : faults.opens.result = .FR_OK
  · cases file with
    | none =>
      obtain rfl := h.none
      refine .inr ⟨hopen, ⟨⟨[], 0, append_mode⟩, true, [], 0⟩,
        ⟨⟨Nat.le_refl 0, .inl rfl, List.nil_prefix⟩, rfl, rfl, fun hne => absurd rfl hne⟩, ?_⟩
      simp [FaultyNetworkAdd, fault_open, hopen, f_open, f_tell, append_mode]
    | some bytes =>
      rcases h.some with rfl | ⟨hmod, rfl⟩
      · refine .inr ⟨hopen, ⟨⟨stored profiles, (stored profiles).length, append_mode⟩, false, stored profiles,
            (stored profiles).length⟩,
          ⟨⟨Nat.le_refl _, .inl (List.take_length ..), List.prefix_rfl⟩, rfl, length_stored profiles, fun _ => rfl⟩,
          ?_⟩
        simp [FaultyNetworkAdd, fault_open, hopen, f_open, f_tell, append_mode, length_stored]
      · obtain ⟨networks, hnetworks⟩ : ∃ networks : FaultyFIL,
            networks = ⟨⟨bytes, bytes.length, append_mode⟩, false, bytes, bytes.length⟩ := ⟨_, rfl⟩
        have hkept : Kept [] networks := by
          rw [hnetworks]
          exact ⟨Nat.le_refl _, .inr ⟨rfl, hmod⟩, List.nil_prefix⟩
        obtain ⟨hfails, hresets⟩ := reset_spec faults faults.closes hkept (by rw [hnetworks])
        have hopened : fault_open faults.opens (some bytes) append_mode = (.FR_OK, networks) := by
          rw [hnetworks]
          simp [fault_open, hopen, f_open, append_mode]
        have hpos : f_tell networks.toFIL % sizeof_WIFINetworkProfile_t ≠ 0 := by
          rw [hnetworks]
          exact hmod
        unfold FaultyNetworkAdd
        rw [hopened]
        dsimp only
        rw [if_pos rfl, if_pos hpos]
        by_cases hseek : (fault_lseek faults.reset_seek networks 0).1 = .FR_OK
        · rw [if_pos hseek]
          dsimp only
          by_cases hcut : (fault_truncate faults.reset_truncate (fault_lseek faults.reset_seek networks 0).2).1 = .FR_OK
          · rw [if_pos hcut]
            rcases hresets hseek with hend | ⟨hnot, -⟩
            · exact .inr ⟨hopen, _, hend, rfl⟩
            · exact absurd hcut hnot
          · rw [if_neg hcut]
            have hfault := mt truncate_result.trans hcut
            rcases hresets hseek with hend | ⟨-, hholds⟩
            · exact .inl ⟨rfl, hend.holds _, .inr ⟨rfl, .inr hfault⟩⟩
            · exact .inl ⟨rfl, hholds, .inr ⟨rfl, .inr hfault⟩⟩
        · rw [if_neg hseek]
          dsimp only
          rw [if_neg hseek]
          exact .inl ⟨rfl, hfails hseek, .inr ⟨rfl, .inl (mt (lseek_result _ (Nat.zero_le _)).trans hseek)⟩⟩
  · refine .inl ?_
    have hrun : FaultyNetworkAdd faults file profile.1 pusIndex =
        (.eWiFiFailure, pusIndex, fault_unopened faults.opens file append_mode) := by
      simp [FaultyNetworkAdd, fault_open, hopen]
    rw [hrun]
    refine ⟨rfl, ?_, .inl hopen⟩
    unfold fault_unopened
    split
    · rename_i hnew
      rw [hnew.1] at h
      rw [h.none]
      rfl
    · exact h

/-- The directory entry gets the size of a file that ends in the midst of a profile. -/
def AddFaults.Torn (faults : AddFaults) : Prop :=
  faults.write.result = .FR_OK ∧ 0 < faults.write.count ∧ ¬ faults.Undone ∧ faults.closes = .synced

/-- Where no call fails, that is the driver's call of before. -/
theorem FaultyNetworkAdd_faultless (h : Holds file profiles) (faults : AddFaults)
    (hopen : faults.opens.result = .FR_OK) (hreset : faults.reset_seek.result = .FR_OK)
    (hcut : faults.reset_truncate.result = .FR_OK) (hwrite : faults.write.result = .FR_OK)
    (hundo : faults.undo_seek.result = .FR_OK) (hback : faults.undo_truncate.result = .FR_OK)
    (hsynced : faults.closes = .synced) (room : Nat → Nat)
    (hroom : faults.write.count = room (profiles.length * sizeof_WIFINetworkProfile_t)) (profile : WIFINetworkProfile_t)
    (pusIndex : Option UInt16) :
    FaultyNetworkAdd faults file profile.1 pusIndex = WIFI_NetworkAdd file room profile.1 pusIndex := by
  rw [WIFI_NetworkAdd_spec h]
  rcases FaultyNetworkAdd_cases h faults profile pusIndex with ⟨-, -, hcase⟩ | ⟨-, networks, hend, heq⟩
  · rcases hcase with hcase | ⟨-, hcase | hcase⟩
    · exact absurd hopen hcase
    · exact absurd hreset hcase
    · exact absurd hcut hcase
  · obtain ⟨-, hmodified, hspec⟩ := fault_append_spec faults hend.kept hend.bytes hend.fptr profile pusIndex
    rw [decide_eq_true hwrite, Bool.or_true] at hmodified
    rw [heq]
    dsimp only
    rw [hsynced, close_synced hmodified]
    rcases Nat.lt_or_ge (room (profiles.length * sizeof_WIFINetworkProfile_t)) sizeof_WIFINetworkProfile_t with hlt | hfits
    · have hnot : ¬ faults.Full := fun hfull => by
        have hcount := hfull.2
        omega
      have hleft : faults.left = 0 := if_pos ⟨hwrite, hundo, .inl hback⟩
      rw [if_neg hnot, hleft, List.take_zero, List.append_nil] at hspec
      obtain ⟨hreply, hbytes⟩ := hspec
      obtain ⟨hret, hindex⟩ := Prod.mk.inj hreply
      rw [if_neg (Nat.not_le.2 hlt), hbytes, hret, hindex]
    · have hfull : faults.Full := ⟨hwrite, by omega⟩
      rw [if_pos hfull] at hspec
      obtain ⟨hreply, hbytes⟩ := hspec
      obtain ⟨hret, hindex⟩ := Prod.mk.inj hreply
      rw [if_pos hfits, hbytes, hret, hindex]

end Wifi
