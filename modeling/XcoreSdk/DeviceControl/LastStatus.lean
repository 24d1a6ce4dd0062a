import XcoreSdk.DeviceControl.Dispatch
import XcoreSdk.DeviceControl.Transport
/-!
# Device control: the last command's status

A read of `CONTROL_GET_LAST_COMMAND_STATUS` gets the status of the last
completed command, as long as every command of a USB host gets as far as
`device_control_payload_transfer`, which saves it, and what the host of the I2C
has asked for is still what is requested when it reads.
-/

namespace DeviceControl
variable {S L σ : Type*}

/-- A read of the last status, if that is what it is, got what it should. -/
def Read.Reports (r : Read) : Prop :=
  r.resid = CONTROL_SPECIAL_RESID → r.cmd = CONTROL_GET_LAST_COMMAND_STATUS → r.payload_len = 1 →
    r.answer = [r.before.status]

/-- The instance knows the last request, if its resource is there. -/
structure Requested (ctx : device_control_t S L) (request : UInt8 × UInt8 × Nat) : Prop where
  resid : ctx.requested_resid = request.1
  found : (resource_table_search ctx.resource_table ctx.requested_resid).1 = 0 →
    (ctx.requested_cmd, ctx.requested_payload_len) = request.2

def Caller.direction : Caller → control_direction_t
  | .i2c_rx | .usb_out => .CONTROL_HOST_TO_DEVICE
  | .i2c_tx | .usb_in => .CONTROL_DEVICE_TO_HOST

/-! ## Transfers -/

/-- What a transfer leaves that was made with this context and returns this result. -/
structure Result.Of (ctx : device_control_t S L) (direction : control_direction_t) (saved : UInt8) (e : Result S) :
    Prop where
  saved : saved = if direction = .CONTROL_HOST_TO_DEVICE ∧ announces ctx e then ctx.last_status else e.ret.status
  last_status : direction = .CONTROL_DEVICE_TO_HOST → e.resid = CONTROL_SPECIAL_RESID →
    e.cmd = CONTROL_GET_LAST_COMMAND_STATUS → e.payload_len = 1 →
    e.ret = .CONTROL_SUCCESS ∧ e.payload_buf.take e.buf_size = [ctx.last_status]

variable {s s' : State S L σ} {given : List UInt8} {direction : control_direction_t}

theorem decide_transfer_command {ctx : device_control_t S L} {buf_size : Nat} {servicer : UInt8}
    (h : decide_transfer ctx buf_size direction = .command servicer) :
    (resource_table_search ctx.resource_table ctx.requested_resid).1 = 0 ∧
      (direction = .CONTROL_DEVICE_TO_HOST ↔ IS_CONTROL_CMD_READ ctx.requested_cmd) := by
  unfold decide_transfer at h
  split at h
  case isFalse => cases h
  rename_i hfound
  split at h
  case isFalse => split at h <;> cases h
  rename_i hdir
  exact ⟨hfound, direction_iff.1 hdir⟩

theorem decide_transfer_ignore {ctx : device_control_t S L} {buf_size : Nat}
    (h : decide_transfer ctx buf_size direction = .ignore) :
    (resource_table_search ctx.resource_table ctx.requested_resid).1 = 0 ∧
      ¬ (direction = .CONTROL_DEVICE_TO_HOST ↔ IS_CONTROL_CMD_READ ctx.requested_cmd) ∧ buf_size = 0 := by
  unfold decide_transfer at h
  split at h
  case isFalse => cases h
  rename_i hfound
  split at h
  case isTrue => split at h <;> cases h
  rename_i hdir
  split at h
  case isTrue => cases h
  exact ⟨hfound, fun hiff => hdir (direction_iff.2 hiff), by omega⟩

/-- What is refused is not ignored, and does not fit. -/
theorem decide_transfer_refuse {ctx : device_control_t S L} {buf_size : Nat} {ret : control_ret_t}
    (h : decide_transfer ctx buf_size direction = .refuse ret)
    (hfound : (resource_table_search ctx.resource_table ctx.requested_resid).1 = 0) :
    ((direction = .CONTROL_DEVICE_TO_HOST ↔ IS_CONTROL_CMD_READ ctx.requested_cmd) →
        buf_size < ctx.requested_payload_len) ∧
      (¬ (direction = .CONTROL_DEVICE_TO_HOST ↔ IS_CONTROL_CMD_READ ctx.requested_cmd) → 0 < buf_size) := by
  unfold decide_transfer at h
  rw [if_pos hfound] at h
  split at h
  · rename_i hdir
    split at h
    · cases h
    · exact ⟨fun _ => by omega, fun hnot => absurd (direction_iff.1 hdir) hnot⟩
  · rename_i hdir
    split at h
    · rename_i hpos
      exact ⟨fun hiff => absurd (direction_iff.2 hiff) hdir, fun _ => hpos⟩
    · cases h

/-- The special resource is always there. -/
theorem Requested.special {ctx : device_control_t S L} {request : UInt8 × UInt8 × Nat} (h : Requested ctx request)
    (hspecial : request.1 = CONTROL_SPECIAL_RESID) :
    (resource_table_search ctx.resource_table ctx.requested_resid).1 = 0 := by
  rw [h.resid, hspecial]
  rfl

/-- The announcement of a read is a transfer that does not match its command. -/
theorem Requested.announced {ctx : device_control_t S L} {e : Result S}
    (h : Requested ctx (e.resid, e.cmd, e.payload_len)) (ha : announces ctx e) :
    (resource_table_search ctx.resource_table ctx.requested_resid).1 = 0 ∧ IS_CONTROL_CMD_READ ctx.requested_cmd ∧
      e.given = [] := by
  obtain ⟨hread, hgiven, hfound⟩ := ha
  have hfound' : (resource_table_search ctx.resource_table ctx.requested_resid).1 = 0 := by
    rw [h.resid]
    exact hfound
  have hcmd : ctx.requested_cmd = e.cmd := congrArg Prod.fst (h.found hfound')
  exact ⟨hfound', hcmd ▸ hread, hgiven⟩

/-- A read of the last status reads it. -/
theorem special_read_last_status {ctx : device_control_t S L} {payload : List UInt8} (hpayload : payload ≠ []) :
    special_read_command ctx CONTROL_GET_LAST_COMMAND_STATUS payload 1 =
      (.CONTROL_SUCCESS, ctx.last_status :: payload.tail) := by
  cases payload with
  | nil => exact absurd rfl hpayload
  | cons a payload => rfl

/-- A transfer returns, or sends a command to a servicer. -/
theorem transfer_cases (h : Requested s.ctx s.request) (hgiven : direction = .CONTROL_DEVICE_TO_HOST → given ≠ [])
    (hs : device_control_payload_transfer s given direction = some s') :
    s'.request = s.request ∧
    ((∃ p, s'.host = .send p ∧ s'.ctx = s.ctx ∧ s.request.1 ≠ CONTROL_SPECIAL_RESID ∧ p.given = given ∧
        (direction = .CONTROL_DEVICE_TO_HOST ↔ IS_CONTROL_CMD_READ s.request.2.1)) ∨
      ∃ e saved, s'.host = .idle ∧ s'.ctx = { s.ctx with last_status := saved } ∧ s'.results = s.results ++ [e] ∧
        (e.resid, e.cmd, e.payload_len) = s.request ∧ e.given = given ∧ e.Of s.ctx direction saved) := by
  unfold device_control_payload_transfer at hs
  cases hdec : decide_transfer s.ctx given.length direction with
  | refuse ret =>
    rw [hdec] at hs
    cases hs
    refine ⟨rfl, .inr ⟨_, ret.status, rfl, rfl, rfl, rfl, rfl, (if_neg ?_).symm, fun hdir hresid hcmd hlen => ?_⟩⟩
    · rintro ⟨rfl, ha⟩
      obtain ⟨hfound, hread, hnil⟩ := h.announced ha
      have hpos := (decide_transfer_refuse hdec hfound).2 (by simp [hread])
      rw [show given = [] from hnil] at hpos
      exact absurd hpos (Nat.lt_irrefl 0)
    · have hfound := h.special hresid
      obtain ⟨hc, hl⟩ := Prod.mk.inj (h.found hfound)
      have hread : IS_CONTROL_CMD_READ s.ctx.requested_cmd := by rw [hc, show s.request.2.1 = _ from hcmd]; decide
      have hlt := (decide_transfer_refuse hdec hfound).1 (by simp [hdir, hread])
      rw [hl, show s.request.2.2 = 1 from hlen] at hlt
      exact absurd (List.length_eq_zero_iff.1 (by omega)) (hgiven hdir)
  | ignore =>
    rw [hdec] at hs
    cases hs
    obtain ⟨hfound, hdir, hlen⟩ := decide_transfer_ignore hdec
    have hnil : given = [] := List.length_eq_zero_iff.1 hlen
    have hhost : direction = .CONTROL_HOST_TO_DEVICE := by
      cases direction with
      | CONTROL_HOST_TO_DEVICE => rfl
      | CONTROL_DEVICE_TO_HOST => exact absurd hnil (hgiven rfl)
    have hread : IS_CONTROL_CMD_READ s.ctx.requested_cmd := by simpa [hhost] using hdir
    obtain ⟨hc, -⟩ := Prod.mk.inj (h.found hfound)
    have hread : IS_CONTROL_CMD_READ s.request.2.1 := hc ▸ hread
    rw [h.resid] at hfound
    refine ⟨rfl, .inr ⟨_, s.ctx.last_status, rfl, rfl, rfl, rfl, rfl,
      (if_pos ⟨hhost, hread, hnil, hfound⟩).symm, fun hdev => ?_⟩⟩
    rw [hhost] at hdev
    cases hdev
  | command servicer =>
    rw [hdec] at hs
    obtain ⟨hfound, hdir⟩ := decide_transfer_command hdec
    obtain ⟨hc, hl⟩ := Prod.mk.inj (h.found hfound)
    by_cases hspecial : s.ctx.requested_resid = CONTROL_SPECIAL_RESID
    · simp only [if_pos hspecial] at hs
      cases hs
      refine ⟨rfl, .inr ⟨_, _, rfl, rfl, rfl, rfl, rfl, (if_neg ?_).symm, fun hdev hresid hcmd hlen => ?_⟩⟩
      · rintro ⟨rfl, ha⟩
        obtain ⟨-, hread, -⟩ := h.announced ha
        simp [hread] at hdir
      · rw [if_pos (hdir.1 hdev), hc, hl, show s.request.2.1 = _ from hcmd, show s.request.2.2 = 1 from hlen,
          special_read_last_status (hgiven hdev), hdev]
        exact ⟨rfl, rfl⟩
    · simp only [if_neg hspecial, Option.map_eq_some_iff] at hs
      obtain ⟨entry, hentry, rfl⟩ := hs
      exact ⟨rfl, .inl ⟨_, rfl, rfl, h.resid ▸ hspecial, rfl, hc ▸ hdir⟩⟩

theorem host_cases [DecidableEq S] [DecidableEq L] (hs : host_step s = some s') :
    s'.request = s.request ∧
    ((∃ p, s.host = .send p ∧ s'.host = .wait p ∧ s'.ctx = s.ctx ∧ s'.results = s.results) ∨
      ∃ p e, s.host = .wait p ∧ s'.host = .idle ∧ s'.ctx = { s.ctx with last_status := e.ret.status } ∧
        s'.results = s.results ++ [e] ∧ (e.resid, e.cmd, e.payload_len) = s.request ∧ e.given = p.given) := by
  cases hhost : s.host with
  | idle => simp [host_step, hhost] at hs
  | send t =>
    simp only [host_step, hhost] at hs
    split at hs
    · simp only [Option.map_eq_some_iff] at hs
      obtain ⟨queue, -, rfl⟩ := hs
      exact ⟨rfl, .inl ⟨t, rfl, rfl, rfl, rfl⟩⟩
    · cases hs
      exact ⟨rfl, .inl ⟨t, rfl, rfl, rfl, rfl⟩⟩
  | wait t =>
    simp only [host_step, hhost] at hs
    split at hs
    · simp only [Option.map_eq_some_iff] at hs
      obtain ⟨r, -, rfl⟩ := hs
      exact ⟨rfl, .inr ⟨t, _, rfl, rfl, rfl, rfl, rfl, rfl⟩⟩
    · split at hs
      · cases hs
      · split at hs
        · split at hs
          · cases hs
            exact ⟨rfl, .inr ⟨t, _, rfl, rfl, rfl, rfl, rfl, rfl⟩⟩
          · cases hs
        · split at hs
          · cases hs
            exact ⟨rfl, .inr ⟨t, _, rfl, rfl, rfl, rfl, rfl, rfl⟩⟩
          · cases hs

/-- The other threads leave the host and its instance alone. -/
structure Untouched (s s' : State S L σ) : Prop where
  ctx : s'.ctx = s.ctx
  request : s'.request = s.request
  host : s'.host = s.host
  results : s'.results = s.results

theorem client_untouched [DecidableEq S] [DecidableEq L] {l : L} {mem : List UInt8} (hs : client_step s l mem = some s') :
    Untouched s s' := by
  unfold client_step at hs
  split at hs
  · split at hs
    · cases hs
    · simp only at hs
      split at hs
      · split at hs
        · cases hs; exact ⟨rfl, rfl, rfl, rfl⟩
        · cases hs
      · split at hs
        · cases hs; exact ⟨rfl, rfl, rfl, rfl⟩
        · cases hs
  · simp only [Option.map_eq_some_iff] at hs
    obtain ⟨queue, -, rfl⟩ := hs
    exact ⟨rfl, rfl, rfl, rfl⟩

theorem servicer_untouched [DecidableEq S] [DecidableEq L] {cb : S → Callbacks σ} {servicer : S}
    (hs : servicer_step cb s servicer = some s') : Untouched s s' := by
  unfold servicer_step at hs
  split at hs
  · simp only [Option.map_eq_some_iff] at hs
    obtain ⟨r, -, rfl⟩ := hs
    exact ⟨rfl, rfl, rfl, rfl⟩
  · cases hs
    unfold run_callback
    split
    · dsimp only
      split <;> exact ⟨rfl, rfl, rfl, rfl⟩
    · exact ⟨rfl, rfl, rfl, rfl⟩
  · simp only at hs
    split at hs
    · simp only [Option.map_eq_some_iff] at hs
      obtain ⟨r, -, rfl⟩ := hs
      exact ⟨rfl, rfl, rfl, rfl⟩
    · cases hs; exact ⟨rfl, rfl, rfl, rfl⟩

/-! ## The callbacks -/

/-- A result that a callback finds, with the status saved that its command has. -/
structure Returned (t : Transports S L σ) (caller : Caller) (e : Result S) : Prop where
  request : (e.resid, e.cmd, e.payload_len) = t.dev.request
  saved : t.dev.ctx.last_status =
    (if caller = .i2c_rx ∧ announces t.dev.ctx e then t.completed else e.ret).status
  last_status : caller.direction = .CONTROL_DEVICE_TO_HOST → e.resid = CONTROL_SPECIAL_RESID →
    e.cmd = CONTROL_GET_LAST_COMMAND_STATUS → e.payload_len = 1 →
    e.ret = .CONTROL_SUCCESS ∧ e.payload_buf.take e.buf_size = [t.completed.status]

/-- A host that reads the last status reads what it has asked for. -/
def Transports.Kept (t : Transports S L σ) (caller : Caller) : Prop :=
  caller = .i2c_tx ∨ caller = .usb_in → t.asked caller = some get_last_status → t.dev.request = get_last_status

/-- The saved status is that of the last completed command, up to the end of the
transfer that saves the next one. -/
structure Saved (t : Transports S L σ) : Prop where
  requested : Requested t.dev.ctx t.dev.request
  waits : t.caller = none → t.dev.host = .idle
  before : t.caller = none ∨ t.dev.host ≠ .idle → t.dev.ctx.last_status = t.completed.status
  command : ∀ caller, t.caller = some caller → t.dev.host ≠ .idle → t.dev.request.1 ≠ CONTROL_SPECIAL_RESID ∧
    (caller.direction = .CONTROL_DEVICE_TO_HOST ↔ IS_CONTROL_CMD_READ t.dev.request.2.1)
  after : ∀ caller, t.caller = some caller → t.dev.host = .idle →
    ∃ rs e, t.dev.results = rs ++ [e] ∧ Returned t caller e
  asked : ∀ caller, t.caller = some caller → t.Kept caller
  setup : ∀ r, t.setup = some r → 0 < r.wLength.toNat
  reads : ∀ r ∈ t.reads, r.Reports

variable {t t' : Transports S L σ} {caller : Caller}

theorem Requested.save {ctx : device_control_t S L} {request : UInt8 × UInt8 × Nat} (h : Requested ctx request)
    (saved : UInt8) : Requested { ctx with last_status := saved } request :=
  ⟨h.resid, h.found⟩

theorem Saved.transfer (h : Saved t) (caller : Caller) (hcaller : t.caller = none) (hgiven : caller ≠ .i2c_rx → given ≠ [])
    (hasked : t.Kept caller) (hs : t.transfer caller given caller.direction = some t') : Saved t' := by
  obtain ⟨dev, hdev, rfl⟩ := Option.map_eq_some_iff.1 hs
  have hbefore := h.before (.inl hcaller)
  have hgiven' : caller.direction = .CONTROL_DEVICE_TO_HOST → given ≠ [] := fun hd =>
    hgiven (by rintro rfl; cases hd)
  obtain ⟨hrequest, hcases⟩ := transfer_cases h.requested hgiven' hdev
  have hkept : ∀ caller', some caller = some caller' → Transports.Kept { t with dev, caller := some caller } caller' := by
    rintro _ ⟨⟩ hread hlast
    exact hrequest.trans (hasked hread hlast)
  rcases hcases with ⟨p, hhost, hctx, hspecial, hp, hmatch⟩ | ⟨e, saved, hhost, hctx, hresults, he, he', hof⟩
  · refine ⟨?_, nofun, fun _ => ?_, ?_, fun _ _ hidle => ?_, hkept, h.setup, h.reads⟩
    · rw [hctx, hrequest]
      exact h.requested
    · rw [hctx]
      exact hbefore
    · rintro _ ⟨⟩ -
      rw [hrequest]
      exact ⟨hspecial, hmatch⟩
    · rw [hhost] at hidle
      cases hidle
  · refine ⟨?_, nofun, ?_, fun _ _ hbusy => absurd hhost hbusy, ?_, hkept, h.setup, h.reads⟩
    · rw [hctx, hrequest]
      exact h.requested.save saved
    · rintro (hc | hbusy)
      · cases hc
      · exact absurd hhost hbusy
    · rintro _ ⟨⟩ -
      refine ⟨_, e, hresults, he.trans hrequest.symm, ?_, fun hdir hr hc hl => ?_⟩
      · have hann : announces dev.ctx e ↔ announces t.dev.ctx e := by rw [hctx]; rfl
        have hrx : caller = .i2c_rx ∧ announces dev.ctx e ↔
            caller.direction = .CONTROL_HOST_TO_DEVICE ∧ announces t.dev.ctx e := by
          rw [hann]
          cases caller with
          | i2c_rx => simp [Caller.direction]
          | usb_out =>
            have hnot : ¬ announces t.dev.ctx e := fun ha => hgiven nofun (he' ▸ ha.2.1)
            simp [hnot]
          | i2c_tx => simp [Caller.direction]
          | usb_in => simp [Caller.direction]
        have hstatus : dev.ctx.last_status = saved := by rw [hctx]
        rw [hstatus, hof.saved, hbefore]
        dsimp only
        split
        · rename_i hcond
          rw [if_pos (hrx.2 hcond)]
        · rename_i hcond
          rw [if_neg fun hc => hcond (hrx.1 hc)]
      · rw [← hbefore]
        exact hof.last_status hdir hr hc hl

theorem request_requested {ctx : device_control_t S L} {resid cmd : UInt8} {payload_len : Nat} :
    Requested (device_control_request ctx resid cmd payload_len).2 (resid, cmd, payload_len) := by
  simp only [device_control_request]
  split
  · exact ⟨rfl, fun _ => rfl⟩
  · rename_i hfound
    exact ⟨rfl, fun h => absurd h hfound⟩

theorem request_last_status {ctx : device_control_t S L} {resid cmd : UInt8} {payload_len : Nat} :
    (device_control_request ctx resid cmd payload_len).2.last_status = ctx.last_status := by
  simp only [device_control_request]
  split <;> rfl

/-- A host's request, of either transport. -/
theorem Saved.request (h : Saved t) (hcaller : t.caller = none) (resid cmd : UInt8) (payload_len : Nat)
    (i2c_asked usb_asked : Option (UInt8 × UInt8 × Nat)) :
    Saved { t with dev := t.dev.request_made resid cmd payload_len, i2c_asked, usb_asked } where
  requested := request_requested
  waits := h.waits
  before _ := request_last_status.trans (h.before (.inl hcaller))
  command caller hc := by
    rw [hcaller] at hc
    cases hc
  after caller hc := by
    rw [hcaller] at hc
    cases hc
  asked caller hc := by
    rw [hcaller] at hc
    cases hc
  setup := h.setup
  reads := h.reads

theorem Saved.host [DecidableEq S] [DecidableEq L] {dev : State S L σ} (h : Saved t) (hs : host_step t.dev = some dev) :
    Saved { t with dev } := by
  obtain ⟨hrequest, hcases⟩ := host_cases hs
  have hkept : ∀ caller, t.caller = some caller → Transports.Kept { t with dev } caller :=
    fun caller hc hread hlast => hrequest.trans (h.asked caller hc hread hlast)
  rcases hcases with ⟨p, hhost, hhost', hctx, hresults⟩ | ⟨p, e, hhost, hhost', hctx, hresults, he, hgiven⟩
  · have hbusy : t.dev.host ≠ .idle := by
      rw [hhost]
      nofun
    refine ⟨?_, fun hc => absurd (h.waits hc) hbusy, fun _ => ?_, fun caller hc _ => ?_, fun _ _ hidle => ?_,
      hkept, h.setup, h.reads⟩
    · rw [hctx, hrequest]
      exact h.requested
    · rw [hctx]
      exact h.before (.inr hbusy)
    · rw [hrequest]
      exact h.command caller hc hbusy
    · rw [hhost'] at hidle
      cases hidle
  · have hbusy : t.dev.host ≠ .idle := by
      rw [hhost]
      nofun
    refine ⟨?_, fun _ => hhost', ?_, fun _ _ hnot => absurd hhost' hnot, fun caller hc _ => ?_, hkept, h.setup, h.reads⟩
    · rw [hctx, hrequest]
      exact h.requested.save _
    · rintro (hc | hnot)
      · exact absurd (h.waits hc) hbusy
      · exact absurd hhost' hnot
    · obtain ⟨hspecial, hmatch⟩ := h.command caller hc hbusy
      refine ⟨_, e, hresults, he.trans hrequest.symm, ?_, fun _ hr => ?_⟩
      · have hnot : ¬ (caller = .i2c_rx ∧ announces dev.ctx e) := by
          rintro ⟨rfl, hread, -⟩
          rw [← he] at hmatch
          exact absurd (hmatch.2 hread) nofun
        rw [if_neg hnot, hctx]
      · exact absurd ((congrArg Prod.fst he).symm.trans hr) hspecial

theorem Saved.untouched {dev : State S L σ} (h : Saved t) (hu : Untouched t.dev dev) : Saved { t with dev } := by
  obtain ⟨hctx, hrequest, hhost, hresults⟩ := hu
  refine ⟨?_, fun hc => ?_, fun hc => ?_, fun caller hc hbusy => ?_, fun caller hc hidle => ?_, fun caller hc hread hlast => ?_,
    h.setup, h.reads⟩
  · rw [hctx, hrequest]
    exact h.requested
  · rw [hhost]
    exact h.waits hc
  · rw [hhost] at hc
    rw [hctx]
    exact h.before hc
  · rw [hhost] at hbusy
    rw [hrequest]
    exact h.command caller hc hbusy
  · rw [hhost] at hidle
    obtain ⟨rs, e, hrs, he⟩ := h.after caller hc hidle
    refine ⟨rs, e, hresults.trans hrs, ?_, ?_, he.last_status⟩
    · rw [hrequest]
      exact he.request
    · rw [hctx]
      exact he.saved
  · exact hrequest.trans (h.asked caller hc hread hlast)

/-- A successful read of one byte is answered with it. -/
theorem Returned.read {e : Result S} (h : Returned t caller e) (hkept : t.Kept caller) : ∀ r ∈ t.read caller e, r.Reports := by
  intro r hr
  unfold Transports.read at hr
  split at hr
  case isFalse => cases hr
  rename_i hcaller
  obtain ⟨⟨resid, cmd, payload_len⟩, hasked, rfl⟩ := Option.map_eq_some_iff.1 hr
  intro hresid hcmd hlen
  have hlast : (resid, cmd, payload_len) = get_last_status := by
    rw [show resid = _ from hresid, show cmd = _ from hcmd, show payload_len = _ from hlen]
    rfl
  have hrequest := h.request.trans (hkept hcaller (hasked.trans (congrArg some hlast)))
  obtain ⟨hr, hrest⟩ := Prod.mk.inj hrequest
  obtain ⟨hc, hl⟩ := Prod.mk.inj hrest
  have hdir : caller.direction = .CONTROL_DEVICE_TO_HOST := by rcases hcaller with rfl | rfl <;> rfl
  obtain ⟨hret, hbuf⟩ := h.last_status hdir hr hc hl
  dsimp only
  rcases hcaller with rfl | rfl
  · rw [answer, hret, if_neg (by simp), hbuf]
  · rw [answer, if_pos hret, hbuf]

theorem Saved.callback_return (h : Saved t) (hs : callback_return t = some t') : Saved t' := by
  unfold DeviceControl.callback_return at hs
  split at hs
  case h_2 => cases hs
  rename_i caller e hcaller hhost hlast
  cases hs
  obtain ⟨rs, e', hrs, he⟩ := h.after caller hcaller hhost
  obtain rfl : e' = e := by simpa [hrs] using hlast
  refine ⟨h.requested, fun _ => hhost, fun _ => he.saved, nofun, nofun, nofun, h.setup, fun r hr => ?_⟩
  rcases List.mem_append.1 hr with hr | hr
  · exact h.reads r hr
  · exact he.read (h.asked caller hcaller) r (Option.mem_toList.1 hr)

/-- Between a write's setup stage and its data. -/
theorem Saved.set_up (h : Saved t) (setup : Option tusb_control_request_t)
    (hsetup : ∀ r, setup = some r → 0 < r.wLength.toNat) : Saved { t with setup } :=
  ⟨h.requested, h.waits, h.before, h.command, fun caller hc hidle => by
    obtain ⟨rs, e, hrs, he⟩ := h.after caller hc hidle
    exact ⟨rs, e, hrs, he.request, he.saved, he.last_status⟩, h.asked, hsetup, h.reads⟩

theorem ne_nil_of_length {data : List UInt8} {n : Nat} (h : data.length = n) (hpos : 0 < n) : data ≠ [] :=
  List.ne_nil_of_length_pos (h ▸ hpos)

theorem Saved.usb_setup {request : tusb_control_request_t} {request_data : List UInt8} (h : Saved t)
    (hcaller : t.caller = none) (hdata : request_data.length = CFG_TUD_ENDPOINT0_SIZE)
    (hdelivered : Delivered t (.usb_setup request request_data))
    (hs : device_control_usb_xfer t .CONTROL_STAGE_SETUP request request_data = some t') : Saved t' := by
  have hrequest := h.request hcaller request.wIndex.toUInt8 request.wValue.toUInt8 request.wLength.toNat t.i2c_asked
    (some (request.wIndex.toUInt8, request.wValue.toUInt8, request.wLength.toNat))
  have hnone := hrequest.set_up none nofun
  simp only [device_control_usb_xfer] at hs
  split at hs
  · rename_i hret
    split at hs
    · rename_i htype
      -- such a command is for a resource that is there
      simp only [device_control_request, if_pos (hdelivered.1 htype), ne_eq, not_true_eq_false] at hret
    · cases hs
      exact hnone
  · split at hs
    · rename_i hout
      cases hs
      exact hrequest.set_up (some request) fun r hr => Option.some.inj hr ▸ (hdelivered.2 hout).1
    · split at hs
      · exact hnone.transfer .usb_in hcaller (fun _ => ne_nil_of_length hdata (by decide)) (fun _ hlast => Option.some.inj hlast) hs
      · cases hs
        exact hnone

/-! ## Runs -/

theorem register_loop_last_status {ctx : device_control_t S L} {n : Nat}
    {polls : List (Option (servicer_init_data_t S × Option L))} :
    (register_loop ctx n polls).2.last_status = ctx.last_status := by
  induction polls generalizing ctx n with
  | nil => rfl
  | cons poll polls ih =>
    cases poll with
    | none =>
      simp only [register_loop]
      split
      · exact ih
      · rfl
    | some reg =>
      simp only [register_loop]
      split
      · split
        · exact ih
        · rfl
      · rfl

section
variable [DecidableEq S] [DecidableEq L] {cb : S → Callbacks σ} {servicer_count : Nat}
variable {polls : List (Option (servicer_init_data_t S × Option L))} {a : TransportAct S L}

theorem saved_init (h : (transports cb servicer_count polls).init t) : Saved t := by
  obtain ⟨⟨hctx, hrequest, hhost, -⟩, hcaller, hsetup, -, -, hcompleted, hreads⟩ := h
  have hstatus : t.dev.ctx.last_status = 0 := by
    have hctx := congrArg (fun r => r.2.last_status) hctx
    exact hctx.symm.trans register_loop_last_status
  refine ⟨⟨by rw [hrequest], fun _ => by rw [hrequest]⟩, fun _ => hhost, fun _ => ?_, fun _ hc => ?_, fun _ hc => ?_,
    fun _ hc => ?_, fun r hr => ?_, fun r hr => ?_⟩
  · rw [hstatus, hcompleted]
    rfl
  · rw [hcaller] at hc
    cases hc
  · rw [hcaller] at hc
    cases hc
  · rw [hcaller] at hc
    cases hc
  · rw [hsetup] at hr
    cases hr
  · rw [hreads] at hr
    cases hr

theorem saved_step (h : Saved t) (hc : Delivered t a) (hs : (transports cb servicer_count polls).step t a = some t') :
    Saved t' := by
  cases a with
  | i2c_write data =>
    simp only [transports] at hs
    split at hs
    case isFalse => cases hs
    rename_i hcaller
    unfold device_control_i2c_rx_cb at hs
    split at hs
    · exact (h.request hcaller _ _ _ _ t.usb_asked).transfer .i2c_rx hcaller (fun hne => absurd rfl hne) nofun hs
    · cases hs
      exact h
  | i2c_read data =>
    simp only [transports] at hs
    split at hs
    case isFalse => cases hs
    rename_i hcaller
    exact h.transfer .i2c_tx hcaller.1 (fun _ => ne_nil_of_length hcaller.2 (by decide)) (fun _ => hc) hs
  | usb_setup request request_data =>
    simp only [transports] at hs
    split at hs
    case isFalse => cases hs
    rename_i hcaller
    exact h.usb_setup hcaller.1 hcaller.2 hc hs
  | usb_data data =>
    obtain ⟨request, hsetup, hs⟩ := Option.bind_eq_some_iff.1 hs
    split at hs
    case isFalse => cases hs
    rename_i hdata
    exact (h.set_up none nofun).transfer .usb_out hdata.1 (fun _ => ne_nil_of_length hdata.2.2 hdata.2.1) nofun hs
  | usb_ack =>
    obtain ⟨request, hsetup, hs⟩ := Option.bind_eq_some_iff.1 hs
    split at hs
    case isFalse => cases hs
    rename_i hempty
    exact absurd hempty.2 (Nat.ne_of_gt (h.setup request hsetup))
  | callback_return => exact h.callback_return hs
  | host =>
    obtain ⟨dev, hdev, rfl⟩ := Option.map_eq_some_iff.1 hs
    exact h.host hdev
  | client l mem =>
    obtain ⟨dev, hdev, rfl⟩ := Option.map_eq_some_iff.1 hs
    exact h.untouched (client_untouched hdev)
  | servicer servicer =>
    obtain ⟨dev, hdev, rfl⟩ := Option.map_eq_some_iff.1 hs
    exact h.untouched (servicer_untouched hdev)

theorem last_status_reported (h : (transports cb servicer_count polls).Reachable Delivered t) :
    ∀ r ∈ t.reads, r.Reports :=
  (h.inv (I := Saved) (fun _ => saved_init) fun _ _ _ => saved_step).reads

end

/-- After the registration of `two_tiles`, before any command. -/
def transports_started : Transports Bool Unit Unit :=
  ⟨⟨(device_control_resources_register (device_control_init 2) two_tiles).2, (0, 0, 0), [], .idle, .quiet, fun _ => (), [],
    []⟩, none, none, none, none, .CONTROL_SUCCESS, []⟩

theorem transports_started_init : (transports (fun _ => nines) 2 two_tiles).init transports_started :=
  ⟨⟨rfl, rfl, rfl, rfl, rfl, rfl⟩, rfl, rfl, rfl, rfl, rfl, rfl⟩

/-- A USB host reads the last status. -/
def usb_read_last_status : List (TransportAct Bool Unit) :=
  [.usb_setup ⟨REQ_TYPE_IN, 0x81, 0, 1⟩ (List.replicate 64 0), .callback_return]

/-- A write over I2C, which its servicer refuses, a read of its status over USB,
and one of the status of that read over I2C. -/
theorem last_status_reported_mixed : ∃ t : Transports Bool Unit Unit,
    t.reads = [⟨0, 0x81, 1, [5], .CONTROL_ERROR⟩, ⟨0, 0x81, 1, [0], .CONTROL_SUCCESS⟩] ∧ ∀ r ∈ t.reads, r.Reports := by
  have hrun : ((transports (fun _ => nines) 2 two_tiles).exec Delivered transports_started
      (List.flatten [
        [.i2c_write [1, 0x01, 1, 5], .host], List.replicate 3 (.servicer false), [.host, .callback_return],
        usb_read_last_status,
        [.i2c_write [0, 0x81, 1], .callback_return, .i2c_read (List.replicate 256 0), .callback_return]])).map
          Transports.reads =
      some [⟨0, 0x81, 1, [5], .CONTROL_ERROR⟩, ⟨0, 0x81, 1, [0], .CONTROL_SUCCESS⟩] := by decide +kernel
  obtain ⟨t, ht, hreads⟩ := Option.map_eq_some_iff.1 hrun
  exact ⟨t, hreads, last_status_reported (Machine.exec_reachable transports_started_init ht)⟩

/-- A USB write for a resource that is not there is refused, and one without
data is acknowledged, but the status that is read next is that of the command
before it. Where a USB host reads from a servicer, between the two transactions
with which a host reads the last status over I2C, that host gets the servicer's
byte. -/
theorem usb_commands_disturb_status :
    (∃ t : Transports Bool Unit Unit, (transports (fun _ => nines) 2 two_tiles).Reachable Machine.Free t ∧
      t.reads = [⟨0, 0x81, 1, [0], .CONTROL_BAD_COMMAND⟩] ∧ ¬ ∀ r ∈ t.reads, r.Reports) ∧
    (∃ t : Transports Bool Unit Unit, (transports (fun _ => nines) 2 two_tiles).Reachable Machine.Free t ∧
      t.reads = [⟨0, 0x81, 1, [2], .CONTROL_SUCCESS⟩] ∧ ¬ ∀ r ∈ t.reads, r.Reports) ∧
    ∃ t : Transports Bool Unit Unit, (transports (fun _ => nines) 2 two_tiles).Reachable Machine.Free t ∧
      t.reads = [⟨1, 0x81, 1, [9], .CONTROL_SUCCESS⟩, ⟨0, 0x81, 1, [9], .CONTROL_SUCCESS⟩] ∧ ¬ ∀ r ∈ t.reads, r.Reports := by
  have hrefused : ((transports (fun _ => nines) 2 two_tiles).exec Machine.Free transports_started
      (.usb_setup ⟨REQ_TYPE_OUT, 0x01, 3, 1⟩ (List.replicate 64 0) :: usb_read_last_status)).map Transports.reads =
      some [⟨0, 0x81, 1, [0], .CONTROL_BAD_COMMAND⟩] := by decide +kernel
  have hempty : ((transports (fun _ => nines) 2 two_tiles).exec Machine.Free transports_started
      (.i2c_write [3, 0x01, 0] :: .callback_return ::
        .usb_setup ⟨REQ_TYPE_OUT, 0x01, 1, 0⟩ (List.replicate 64 0) :: .usb_ack :: usb_read_last_status)).map
        Transports.reads = some [⟨0, 0x81, 1, [2], .CONTROL_SUCCESS⟩] := by decide +kernel
  have hbetween : ((transports (fun _ => nines) 2 two_tiles).exec Machine.Free transports_started
      (List.flatten [
        [.i2c_write [0, 0x81, 1], .callback_return, .usb_setup ⟨REQ_TYPE_IN, 0x81, 1, 1⟩ (List.replicate 64 0), .host],
        List.replicate 3 (.servicer false), [.host, .callback_return, .i2c_read (List.replicate 256 0), .host],
        List.replicate 3 (.servicer false), [.host, .callback_return]])).map Transports.reads =
      some [⟨1, 0x81, 1, [9], .CONTROL_SUCCESS⟩, ⟨0, 0x81, 1, [9], .CONTROL_SUCCESS⟩] := by decide +kernel
  obtain ⟨t₁, ht₁, hreads₁⟩ := Option.map_eq_some_iff.1 hrefused
  obtain ⟨t₂, ht₂, hreads₂⟩ := Option.map_eq_some_iff.1 hempty
  obtain ⟨t₃, ht₃, hreads₃⟩ := Option.map_eq_some_iff.1 hbetween
  refine ⟨⟨t₁, Machine.exec_reachable transports_started_init ht₁, hreads₁, fun h => ?_⟩,
    ⟨t₂, Machine.exec_reachable transports_started_init ht₂, hreads₂, fun h => ?_⟩,
    t₃, Machine.exec_reachable transports_started_init ht₃, hreads₃, fun h => ?_⟩
  · rw [hreads₁] at h
    have hanswer := h _ (.head _) rfl rfl rfl
    cases hanswer
  · rw [hreads₂] at h
    have hanswer := h _ (.head _) rfl rfl rfl
    cases hanswer
  · rw [hreads₃] at h
    have hanswer := h _ (.tail _ (.head _)) rfl rfl rfl
    cases hanswer

end DeviceControl
