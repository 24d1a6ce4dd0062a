import XcoreSdk.Fatfs.File
import XcoreSdk.Lib.Records
/-!
# The WiFi driver's network profiles

The driver keeps the profiles in one file, one after another, and moves those
behind a profile that is deleted. For its callers that is a list to append to, to
look up in and to erase from. A file that is no whole number of profiles counts
as empty.
-/

namespace Wifi

open Fatfs

inductive WIFIReturnCode_t
  | eWiFiSuccess
  | eWiFiFailure
  deriving DecidableEq

/-- The strings and lengths of a `WIFINetworkProfile_t`, padded for `xSecurity`, which is an `int`. -/
def sizeof_WIFINetworkProfile_t : Nat := 33 + 1 + 6 + 33 + 1 + 2 + 4

/-! ## The driver -/

/-- Writes the profile at `pos`, the end of the file, or leaves the file as it is. -/
def append_profile (networks : FIL) (pos : Nat) (room : Nat → Nat) (pxNetworkProfile : List UInt8)
    (pusIndex : Option UInt16) : WIFIReturnCode_t × Option UInt16 × FIL :=
  let (result, bytes_written, networks) := f_write room networks pxNetworkProfile
  if result = .FR_OK then
    if bytes_written = sizeof_WIFINetworkProfile_t then
      (.eWiFiSuccess, pusIndex.map fun _ => UInt16.ofNat (pos / sizeof_WIFINetworkProfile_t), networks)
    else
      -- not the entire profile: undo
      let (result, networks) := f_lseek networks pos
      if result = .FR_OK then (.eWiFiFailure, pusIndex, (f_truncate networks).2)
      else (.eWiFiFailure, pusIndex, networks)
  else (.eWiFiFailure, pusIndex, networks)

/-- What becomes of the file and of `*pusIndex`, where that is not `NULL`. -/
def WIFI_NetworkAdd (file : Option (List UInt8)) (room : Nat → Nat) (pxNetworkProfile : List UInt8)
    (pusIndex : Option UInt16) : WIFIReturnCode_t × Option UInt16 × Option (List UInt8) :=
  let (result, networks) := f_open file
    { FA_READ := false, FA_WRITE := true, FA_OPEN_ALWAYS := true, FA_SEEKEND := true }
  if result = .FR_OK then
    let pos := f_tell networks
    let (result, pos, networks) :=
      if pos % sizeof_WIFINetworkProfile_t ≠ 0 then
        -- no whole number of profiles: reset the file
        let (result, networks) := f_lseek networks 0
        if result = .FR_OK then
          let (result, networks) := f_truncate networks
          (result, 0, networks)
        else (result, pos, networks)
      else (result, pos, networks)
    let (ret, pusIndex, networks) :=
      if result = .FR_OK then append_profile networks pos room pxNetworkProfile pusIndex
      else (.eWiFiFailure, pusIndex, networks)
    (ret, pusIndex, f_close networks)
  else (.eWiFiFailure, pusIndex, file)

/-- What becomes of the file and of `*pxNetworkProfile`. -/
def WIFI_NetworkGet (file : Option (List UInt8)) (pxNetworkProfile : List UInt8) (usIndex : UInt16) :
    WIFIReturnCode_t × List UInt8 × Option (List UInt8) :=
  let (result, networks) := f_open file
    { FA_READ := true, FA_WRITE := false, FA_OPEN_ALWAYS := false, FA_SEEKEND := false }
  if result = .FR_OK then
    let size := f_size networks
    let pos := usIndex.toNat * sizeof_WIFINetworkProfile_t
    if size % sizeof_WIFINetworkProfile_t = 0 ∧ pos < size then
      let (result, networks) := f_lseek networks pos
      if result = .FR_OK then
        let (result, read, networks) := f_read networks sizeof_WIFINetworkProfile_t
        let pxNetworkProfile := read ++ pxNetworkProfile.drop read.length
        if result = .FR_OK ∧ read.length = sizeof_WIFINetworkProfile_t then
          (.eWiFiSuccess, pxNetworkProfile, f_close networks)
        else (.eWiFiFailure, pxNetworkProfile, f_close networks)
      else (.eWiFiFailure, pxNetworkProfile, f_close networks)
    else (.eWiFiFailure, pxNetworkProfile, f_close networks)
  else (.eWiFiFailure, pxNetworkProfile, file)

/-- Moves the profile at `src` to `dest`, by way of the buffer `tmp`. -/
def move_profile (room : Nat → Nat) (networks : FIL) (tmp : List UInt8) (src dest : Nat) :
    FRESULT × List UInt8 × FIL :=
  let (result, networks) := f_lseek networks src
  if result = .FR_OK then
    let (result, read, networks) := f_read networks sizeof_WIFINetworkProfile_t
    let tmp := read ++ tmp.drop read.length
    if result = .FR_OK then
      let (result, networks) := f_lseek networks dest
      if result = .FR_OK then
        let (result, _, networks) := f_write room networks tmp
        (result, tmp, networks)
      else (result, tmp, networks)
    else (result, tmp, networks)
  else (result, tmp, networks)

/-- The loop of `WIFI_NetworkDelete`, which also ends when a call fails. -/
def delete_loop (room : Nat → Nat) (size : Nat) (networks : FIL) (tmp : List UInt8) (src dest : Nat) :
    FRESULT × Nat × FIL :=
  if src < size then
    let (result, tmp, networks) := move_profile room networks tmp src dest
    if result = .FR_OK then
      delete_loop room size networks tmp (src + sizeof_WIFINetworkProfile_t) (dest + sizeof_WIFINetworkProfile_t)
    else (result, dest, networks)
  else (.FR_OK, dest, networks)
termination_by size - src
decreasing_by simp only [sizeof_WIFINetworkProfile_t]; omega

/-- What becomes of the file. `tmp` is what the buffer for one profile holds at first. -/
def WIFI_NetworkDelete (file : Option (List UInt8)) (room : Nat → Nat) (tmp : List UInt8) (usIndex : UInt16) :
    WIFIReturnCode_t × Option (List UInt8) :=
  let (result, networks) := f_open file
    { FA_READ := true, FA_WRITE := true, FA_OPEN_ALWAYS := false, FA_SEEKEND := false }
  if result = .FR_OK then
    let size := f_size networks
    let dest := usIndex.toNat * sizeof_WIFINetworkProfile_t
    let src := dest + sizeof_WIFINetworkProfile_t
    if size % sizeof_WIFINetworkProfile_t = 0 ∧ dest < size then
      let (result, dest, networks) := delete_loop room size networks tmp src dest
      if result = .FR_OK then
        let (result, networks) := f_lseek networks dest
        if result = .FR_OK then
          let (result, networks) := f_truncate networks
          (if result = .FR_OK then .eWiFiSuccess else .eWiFiFailure, f_close networks)
        else (.eWiFiFailure, f_close networks)
      else (.eWiFiFailure, f_close networks)
    else (.eWiFiFailure, f_close networks)
  else (.eWiFiFailure, file)

/-! ## The list -/

abbrev WIFINetworkProfile_t := { bytes : List UInt8 // bytes.length = sizeof_WIFINetworkProfile_t }

/-- A call with the memory it is given, and how much the file may grow while it lasts. -/
inductive Call
  | NetworkAdd (pxNetworkProfile : WIFINetworkProfile_t) (pusIndex : Option UInt16) (room : Nat → Nat)
  | NetworkGet (pxNetworkProfile : WIFINetworkProfile_t) (usIndex : UInt16)
  | NetworkDelete (usIndex : UInt16) (tmp : WIFINetworkProfile_t) (room : Nat → Nat)

/-- What a call returns, and what the memory it was given holds then. -/
inductive Reply
  | added (ret : WIFIReturnCode_t) (pusIndex : Option Nat)
  | got (ret : WIFIReturnCode_t) (pxNetworkProfile : List UInt8)
  | deleted (ret : WIFIReturnCode_t)

/-- What the driver does. -/
def Call.run (file : Option (List UInt8)) : Call → Reply × Option (List UInt8)
  | .NetworkAdd profile pusIndex room =>
    let (ret, pusIndex, file) := WIFI_NetworkAdd file room profile.1 pusIndex
    (.added ret (pusIndex.map UInt16.toNat), file)
  | .NetworkGet profile usIndex =>
    let (ret, profile, file) := WIFI_NetworkGet file profile.1 usIndex
    (.got ret profile, file)
  | .NetworkDelete usIndex tmp room =>
    let (ret, file) := WIFI_NetworkDelete file room tmp.1 usIndex
    (.deleted ret, file)

/-- What its callers see: the profiles are a list. -/
def Call.spec (profiles : List WIFINetworkProfile_t) : Call → Reply × List WIFINetworkProfile_t
  | .NetworkAdd profile pusIndex room =>
    -- the next profile comes behind all others
    if sizeof_WIFINetworkProfile_t ≤ room (profiles.length * sizeof_WIFINetworkProfile_t) then
      (.added .eWiFiSuccess (pusIndex.map fun _ => profiles.length), profiles ++ [profile])
    else (.added .eWiFiFailure (pusIndex.map UInt16.toNat), profiles)
  | .NetworkGet profile usIndex =>
    match profiles[usIndex.toNat]? with
    | some found => (.got .eWiFiSuccess found.1, profiles)
    | none => (.got .eWiFiFailure profile.1, profiles)
  | .NetworkDelete usIndex _ _ =>
    if usIndex.toNat < profiles.length then (.deleted .eWiFiSuccess, profiles.eraseIdx usIndex.toNat)
    else (.deleted .eWiFiFailure, profiles)

def stored (profiles : List WIFINetworkProfile_t) : List UInt8 := (profiles.map (·.1)).flatten

/-- The profiles that a file holds. -/
def Holds (file : Option (List UInt8)) (profiles : List WIFINetworkProfile_t) : Prop :=
  if (file.getD []).length % sizeof_WIFINetworkProfile_t = 0 then file.getD [] = stored profiles else profiles = []

/-! ## One profile is moved -/

open Records

variable {l : List (List UInt8)} {networks : FIL} {room : Nat → Nat} {tmp : List UInt8} {d : Nat}

/-- The file has records of a profile's size and may be read and written. -/
structure Opened (l : List (List UInt8)) (networks : FIL) : Prop where
  sized : Sized sizeof_WIFINetworkProfile_t l
  bytes : networks.bytes = l.flatten
  read : networks.flag.FA_READ = true
  write : networks.flag.FA_WRITE = true

theorem Opened.length (h : Opened l networks) :
    networks.bytes.length = l.length * sizeof_WIFINetworkProfile_t := by
  rw [h.bytes, h.sized.length_flatten]

variable (room) in
theorem Opened.move_profile (h : Opened l networks) (htmp : tmp.length = sizeof_WIFINetworkProfile_t)
    (hd : d + 1 < l.length) :
    ∃ networks', move_profile room networks tmp ((d + 1) * sizeof_WIFINetworkProfile_t)
        (d * sizeof_WIFINetworkProfile_t) = (.FR_OK, l[d + 1], networks') ∧
      Opened (l.set d l[d + 1]) networks' := by
  have hsrc : (d + 1) * sizeof_WIFINetworkProfile_t ≤ networks.bytes.length := by
    rw [h.length]
    exact Nat.mul_le_mul_right _ (Nat.le_of_lt hd)
  have hdest : d * sizeof_WIFINetworkProfile_t ≤ networks.bytes.length :=
    Nat.le_trans (Nat.mul_le_mul_right _ (Nat.le_succ d)) hsrc
  -- the profile at `dest` is in the file, so that all of `tmp` is written
  have hroom : min sizeof_WIFINetworkProfile_t
      (networks.bytes.length - d * sizeof_WIFINetworkProfile_t + room (d * sizeof_WIFINetworkProfile_t)) =
      sizeof_WIFINetworkProfile_t := by
    rw [Nat.succ_mul] at hsrc
    omega
  obtain ⟨bytes, fptr, flag⟩ := networks
  obtain ⟨hsized, rfl, hread, hwrite⟩ := h
  have hlen : l[d + 1].length = sizeof_WIFINetworkProfile_t := hsized _ (List.getElem_mem hd)
  refine ⟨⟨(l.set d l[d + 1]).flatten, d * sizeof_WIFINetworkProfile_t + sizeof_WIFINetworkProfile_t, flag⟩, ?_,
    hsized.set hlen, rfl, hread, hwrite⟩
  simp only [Wifi.move_profile, f_lseek, f_read, f_write, if_pos hsrc, if_pos hdest, if_pos hread, if_pos hwrite,
    hsized.read hd, hlen, hroom, List.drop_of_length_le (Nat.le_of_eq htmp), List.append_nil,
    List.take_of_length_le (Nat.le_of_eq hlen), hsized.replace (Nat.lt_of_succ_lt hd), if_true]

variable (room) in
/-- The profiles behind the deleted one move up by one. -/
theorem Opened.delete_loop (h : Opened l networks) (htmp : tmp.length = sizeof_WIFINetworkProfile_t)
    (hd : d < l.length) :
    ∃ l' networks', delete_loop room (l.length * sizeof_WIFINetworkProfile_t) networks tmp
        ((d + 1) * sizeof_WIFINetworkProfile_t) (d * sizeof_WIFINetworkProfile_t) =
          (.FR_OK, (l.length - 1) * sizeof_WIFINetworkProfile_t, networks') ∧
      Opened l' networks' ∧ l'.length = l.length ∧ l'.take (l.length - 1) = l.eraseIdx d := by
  obtain ⟨k, hk⟩ : ∃ k, k = l.length - d := ⟨_, rfl⟩
  induction k generalizing l networks tmp d with
  | zero => omega
  | succ k ih =>
    rw [Wifi.delete_loop]
    rcases Nat.lt_or_ge (d + 1) l.length with hlt | hge
    · have hsrc : (d + 1) * sizeof_WIFINetworkProfile_t < l.length * sizeof_WIFINetworkProfile_t :=
        Nat.mul_lt_mul_of_pos_right hlt (by decide)
      obtain ⟨moved, hmove, hopened⟩ := h.move_profile room htmp hlt
      have hlen : (l.set d l[d + 1]).length = l.length := List.length_set ..
      obtain ⟨l', networks', hloop, hopened', hlength, htake⟩ := ih hopened (h.sized _ (List.getElem_mem hlt))
        (by rwa [hlen]) (by rw [hlen]; omega)
      rw [hlen] at hloop hlength htake
      refine ⟨l', networks', ?_, hopened', hlength, ?_⟩
      · rw [if_pos hsrc, hmove]
        simpa only [if_true, ← Nat.succ_mul] using hloop
      · rw [htake, List.eraseIdx_eq_take_drop_succ, List.eraseIdx_eq_take_drop_succ, List.drop_set_of_lt (by omega),
          List.take_succ_eq_append_getElem (by rw [hlen]; omega), List.getElem_set_self, List.take_set_of_le (Nat.le_refl d),
          List.append_assoc, List.singleton_append, ← List.drop_eq_getElem_cons hlt]
    · have hsrc : ¬ (d + 1) * sizeof_WIFINetworkProfile_t < l.length * sizeof_WIFINetworkProfile_t :=
        Nat.not_lt.2 (Nat.mul_le_mul_right _ hge)
      obtain rfl : d = l.length - 1 := by omega
      refine ⟨l, networks, ?_, h, rfl, ?_⟩
      · rw [if_neg hsrc]
      · rw [List.eraseIdx_eq_take_drop_succ, List.drop_of_length_le hge, List.append_nil]

/-! ## The file holds the list -/

variable {file : Option (List UInt8)} {profiles : List WIFINetworkProfile_t}

theorem sized (profiles : List WIFINetworkProfile_t) :
    Sized sizeof_WIFINetworkProfile_t (profiles.map (·.1)) := by
  intro r hr
  obtain ⟨profile, -, rfl⟩ := List.mem_map.1 hr
  exact profile.2

theorem length_stored (profiles : List WIFINetworkProfile_t) :
    (stored profiles).length = profiles.length * sizeof_WIFINetworkProfile_t := by
  rw [stored, (sized profiles).length_flatten, List.length_map]

theorem stored_mod (profiles : List WIFINetworkProfile_t) :
    (stored profiles).length % sizeof_WIFINetworkProfile_t = 0 := by
  rw [length_stored, Nat.mul_mod_left]

theorem pos_lt {i : Nat} :
    i * sizeof_WIFINetworkProfile_t < profiles.length * sizeof_WIFINetworkProfile_t ↔ i < profiles.length :=
  Nat.mul_lt_mul_right (by decide)

theorem holds_stored (profiles : List WIFINetworkProfile_t) : Holds (some (stored profiles)) profiles := by
  rw [Holds, Option.getD_some, if_pos (stored_mod profiles)]

theorem Holds.none (h : Holds none profiles) : profiles = [] := by
  have hlen : (stored profiles).length = 0 := by
    rw [← show [] = stored profiles by simpa [Holds] using h]
    rfl
  rw [length_stored] at hlen
  exact List.eq_nil_of_length_eq_zero ((Nat.mul_eq_zero.1 hlen).resolve_right (by decide))

theorem Holds.some {bytes : List UInt8} (h : Holds (some bytes) profiles) :
    bytes = stored profiles ∨ bytes.length % sizeof_WIFINetworkProfile_t ≠ 0 ∧ profiles = [] := by
  unfold Holds at h
  split at h
  · exact .inl h
  · rename_i hmod
    exact .inr ⟨hmod, h⟩

/-- There are profiles in every file. -/
theorem exists_holds (file : Option (List UInt8)) : ∃ profiles, Holds file profiles := by
  by_cases hmod : (file.getD []).length % sizeof_WIFINetworkProfile_t = 0
  · obtain ⟨l, hl, -, hfile⟩ := exists_sized sizeof_WIFINetworkProfile_t (file.getD [])
      ((file.getD []).length / sizeof_WIFINetworkProfile_t) (Nat.div_mul_cancel (Nat.dvd_of_mod_eq_zero hmod)).symm
    refine ⟨l.attach.map fun r => ⟨r.1, hl r.1 r.2⟩, ?_⟩
    rw [Holds, if_pos hmod, stored, List.map_map]
    exact hfile.trans (by simp [Function.comp_def])
  · exact ⟨[], by rw [Holds, if_neg hmod]⟩

/-! ## The calls -/

theorem append_profile_spec (profiles : List WIFINetworkProfile_t) (profile : WIFINetworkProfile_t)
    (pusIndex : Option UInt16) (room : Nat → Nat) {flag : Mode} (hflag : flag.FA_WRITE = true) :
    let r := append_profile ⟨stored profiles, profiles.length * sizeof_WIFINetworkProfile_t, flag⟩
      (profiles.length * sizeof_WIFINetworkProfile_t) room profile.1 pusIndex
    (r.1, r.2.1, f_close r.2.2) = if sizeof_WIFINetworkProfile_t ≤ room (profiles.length * sizeof_WIFINetworkProfile_t)
      then (.eWiFiSuccess, pusIndex.map fun _ => UInt16.ofNat profiles.length, some (stored (profiles ++ [profile])))
      else (.eWiFiFailure, pusIndex, some (stored profiles)) := by
  have hlen := length_stored profiles
  have htake : (stored profiles).take (profiles.length * sizeof_WIFINetworkProfile_t) = stored profiles :=
    List.take_of_length_le (Nat.le_of_eq hlen)
  have hdrop : ∀ k, (stored profiles).drop (profiles.length * sizeof_WIFINetworkProfile_t + k) = [] := fun k =>
    List.drop_of_length_le (by omega)
  have hdiv : profiles.length * sizeof_WIFINetworkProfile_t / sizeof_WIFINetworkProfile_t = profiles.length :=
    Nat.mul_div_cancel _ (by decide)
  simp only [append_profile, f_write, f_lseek, f_truncate, if_pos hflag, hlen, Nat.sub_self, Nat.zero_add, profile.2,
    htake, hdrop, List.append_nil, if_true]
  rcases Nat.lt_or_ge (room (profiles.length * sizeof_WIFINetworkProfile_t)) sizeof_WIFINetworkProfile_t with hlt | hfits
  · have hshort : min sizeof_WIFINetworkProfile_t (room (profiles.length * sizeof_WIFINetworkProfile_t)) ≠
        sizeof_WIFINetworkProfile_t := by
      omega
    have hseek : profiles.length * sizeof_WIFINetworkProfile_t ≤ (stored profiles ++ profile.1.take
        (min sizeof_WIFINetworkProfile_t (room (profiles.length * sizeof_WIFINetworkProfile_t)))).length := by
      rw [List.length_append, hlen]
      exact Nat.le_add_right ..
    rw [if_neg (Nat.not_le.2 hlt), if_neg hshort, if_pos hseek]
    simp only [if_true, if_pos hflag, f_close, List.take_left' hlen]
  · rw [if_pos hfits, Nat.min_eq_left hfits, if_pos rfl, List.take_of_length_le (Nat.le_of_eq profile.2), hdiv]
    simp [f_close, stored]

theorem WIFI_NetworkAdd_spec (h : Holds file profiles) (profile : WIFINetworkProfile_t) (pusIndex : Option UInt16)
    (room : Nat → Nat) :
    WIFI_NetworkAdd file room profile.1 pusIndex =
      if sizeof_WIFINetworkProfile_t ≤ room (profiles.length * sizeof_WIFINetworkProfile_t)
      then (.eWiFiSuccess, pusIndex.map fun _ => UInt16.ofNat profiles.length, some (stored (profiles ++ [profile])))
      else (.eWiFiFailure, pusIndex, some (stored profiles)) := by
  -- whether the file is new, holds the profiles or is reset, the end is behind the profiles
  rw [← append_profile_spec profiles profile pusIndex room
    (show (Mode.mk false true true true).FA_WRITE = true from rfl)]
  cases file with
  | none =>
    obtain rfl := h.none
    rfl
  | some bytes =>
    rcases h.some with rfl | ⟨hmod, rfl⟩
    · simp [WIFI_NetworkAdd, f_open, f_tell, length_stored]
    · simp [WIFI_NetworkAdd, f_open, f_tell, f_lseek, f_truncate, hmod, stored]

theorem WIFI_NetworkGet_spec (h : Holds file profiles) (profile : WIFINetworkProfile_t) (usIndex : UInt16) :
    WIFI_NetworkGet file profile.1 usIndex =
      match profiles[usIndex.toNat]? with
      | some found => (.eWiFiSuccess, found.1, file)
      | none => (.eWiFiFailure, profile.1, file) := by
  cases file with
  | none =>
    obtain rfl := h.none
    rfl
  | some bytes =>
    rcases h.some with rfl | ⟨hmod, rfl⟩
    · rcases Nat.lt_or_ge usIndex.toNat profiles.length with hlt | hge
      · have hpos := pos_lt.2 hlt
        have hread : ((stored profiles).drop (usIndex.toNat * sizeof_WIFINetworkProfile_t)).take
            sizeof_WIFINetworkProfile_t = profiles[usIndex.toNat].1 := by
          rw [stored, (sized profiles).read (by rwa [List.length_map]), List.getElem_map]
        rw [List.getElem?_eq_getElem hlt]
        simp [WIFI_NetworkGet, f_open, f_size, f_lseek, f_read, f_close, length_stored, hpos, Nat.le_of_lt hpos, hread,
          profiles[usIndex.toNat].2, profile.2]
      · have hpos := mt pos_lt.1 (Nat.not_lt.2 hge)
        rw [List.getElem?_eq_none hge]
        simp [WIFI_NetworkGet, f_open, f_size, f_close, length_stored, hpos]
    · simp [WIFI_NetworkGet, f_open, f_size, f_close, hmod]

theorem WIFI_NetworkDelete_spec (h : Holds file profiles) (usIndex : UInt16) (tmp : WIFINetworkProfile_t)
    (room : Nat → Nat) :
    WIFI_NetworkDelete file room tmp.1 usIndex =
      if usIndex.toNat < profiles.length then (.eWiFiSuccess, some (stored (profiles.eraseIdx usIndex.toNat)))
      else (.eWiFiFailure, file) := by
  cases file with
  | none =>
    obtain rfl := h.none
    rfl
  | some bytes =>
    rcases h.some with rfl | ⟨hmod, rfl⟩
    · split
      · rename_i hlt
        have hpos := pos_lt.2 hlt
        have hopened : Opened (profiles.map (·.1)) ⟨stored profiles, 0, ⟨true, true, false, false⟩⟩ :=
          ⟨sized profiles, rfl, rfl, rfl⟩
        obtain ⟨l', networks, hloop, hopened', hlen, htake⟩ := hopened.delete_loop room tmp.2
          (d := usIndex.toNat) (by rwa [List.length_map])
        rw [List.length_map, Nat.succ_mul] at hloop
        have hseek : (profiles.length - 1) * sizeof_WIFINetworkProfile_t ≤ networks.bytes.length := by
          rw [hopened'.length, hlen, List.length_map]
          exact Nat.mul_le_mul_right _ (Nat.sub_le ..)
        have hcut : networks.bytes.take ((profiles.length - 1) * sizeof_WIFINetworkProfile_t) =
            stored (profiles.eraseIdx usIndex.toNat) := by
          rw [List.length_map] at htake
          rw [hopened'.bytes, hopened'.sized.take_flatten, htake, stored, List.eraseIdx_eq_take_drop_succ,
            List.eraseIdx_eq_take_drop_succ, List.map_append, List.map_take, List.map_drop]
        simp [WIFI_NetworkDelete, f_open, f_size, hpos, length_stored, hloop, f_lseek, hseek, f_truncate,
          hopened'.write, f_close, hcut]
      · rename_i hge
        have hpos := mt pos_lt.1 hge
        simp [WIFI_NetworkDelete, f_open, f_size, f_close, length_stored, hpos]
    · simp [WIFI_NetworkDelete, f_open, f_size, f_close, hmod]

/-- One call answers as the list does, and leaves the file as the list is then. -/
theorem Call.run_spec (c : Call) (h : Holds file profiles) (hsmall : profiles.length < 65536) :
    (c.run file).1 = (c.spec profiles).1 ∧ Holds (c.run file).2 (c.spec profiles).2 := by
  cases c with
  | NetworkAdd profile pusIndex room =>
    have hindex : (UInt16.ofNat profiles.length).toNat = profiles.length := UInt16.toNat_ofNat_of_lt' hsmall
    simp only [Call.run, Call.spec, WIFI_NetworkAdd_spec h]
    split
    · exact ⟨by simp [Function.comp_def, hindex], holds_stored _⟩
    · exact ⟨rfl, holds_stored _⟩
  | NetworkGet profile usIndex =>
    simp only [Call.run, Call.spec, WIFI_NetworkGet_spec h]
    cases profiles[usIndex.toNat]? with
    | none => exact ⟨rfl, h⟩
    | some found => exact ⟨rfl, h⟩
  | NetworkDelete usIndex tmp room =>
    simp only [Call.run, Call.spec, WIFI_NetworkDelete_spec h]
    split
    · exact ⟨rfl, holds_stored _⟩
    · exact ⟨rfl, h⟩

/-! ## Any sequence of calls -/

/-- The replies to some calls, and what they leave. -/
def replies {σ : Type} (call : Call → σ → Reply × σ) : σ → List Call → List Reply × σ
  | s, [] => ([], s)
  | s, c :: cs =>
    let (reply, s) := call c s
    let (rest, s) := replies call s cs
    (reply :: rest, s)

/-- There are fewer than 65536 profiles whenever a call is made. -/
def Small (profiles : List WIFINetworkProfile_t) : List Call → Prop
  | [] => True
  | c :: cs => profiles.length < 65536 ∧ Small (c.spec profiles).2 cs

theorem profile_store (calls : List Call) (file : Option (List UInt8)) (profiles : List WIFINetworkProfile_t)
    (h : Holds file profiles) (hsmall : Small profiles calls) :
    (replies (fun c file => c.run file) file calls).1 = (replies (fun c profiles => c.spec profiles) profiles calls).1 ∧
      Holds (replies (fun c file => c.run file) file calls).2
        (replies (fun c profiles => c.spec profiles) profiles calls).2 := by
  induction calls generalizing file profiles with
  | nil => exact ⟨rfl, h⟩
  | cons c calls ih =>
    obtain ⟨hlt, hrest⟩ := hsmall
    obtain ⟨hreply, hholds⟩ := c.run_spec h hlt
    obtain ⟨hreplies, hlast⟩ := ih _ _ hholds hrest
    exact ⟨congrArg₂ List.cons hreply hreplies, hlast⟩

/-- Two profiles are added to a new file, a third one does not fit, and the first one is deleted: the second one is moved. -/
theorem profile_store_two :
    let first : WIFINetworkProfile_t := ⟨List.replicate 80 7, List.length_replicate⟩
    let second : WIFINetworkProfile_t := ⟨List.replicate 80 9, List.length_replicate⟩
    let calls := [.NetworkAdd first (some 3) fun _ => 100, .NetworkAdd second none fun _ => 100,
      .NetworkAdd first (some 3) fun _ => 20, .NetworkGet first 1, .NetworkDelete 0 first fun _ => 0, .NetworkGet first 0,
      .NetworkGet first 1]
    (replies (fun c file => c.run file) none calls).1 =
        [.added .eWiFiSuccess (some 0), .added .eWiFiSuccess none, .added .eWiFiFailure (some 3),
          .got .eWiFiSuccess second.1, .deleted .eWiFiSuccess, .got .eWiFiSuccess second.1, .got .eWiFiFailure first.1] ∧
      Holds (replies (fun c file => c.run file) none calls).2 [second] :=
  profile_store _ none [] rfl ⟨by decide, by decide, by decide, by decide, by decide, by decide, by decide, trivial⟩

end Wifi
