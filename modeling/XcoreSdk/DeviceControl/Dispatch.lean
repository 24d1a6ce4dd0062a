import XcoreSdk.DeviceControl.Transfer
/-!
# Device control: which servicer runs

A transfer that has to reach a servicer (`Due`) runs one callback, of the
servicer that registered the resource, and brings its answer back (`Serves`);
any other transfer runs none. The invariant `Phase` follows the one command
that is under way from place to place, with the number of steps that are left.
-/

namespace DeviceControl
open FreeRtos
variable {S L σ : Type*}

/-- The messages that a registration enters. -/
def registrations (servicer_count : Nat) (polls : List (Option (servicer_init_data_t S × Option L))) :
    List (servicer_init_data_t S × Option L) :=
  (polls.filterMap id).take servicer_count

/-- The resource is registered, the direction matches the command, and the
requested length fits the buffer. -/
structure Result.Due (regs : List (servicer_init_data_t S × Option L)) (e : Result S) : Prop where
  registered : ∃ reg ∈ regs, e.resid ∈ reg.1.resources
  direction : e.direction = .CONTROL_DEVICE_TO_HOST ↔ IS_CONTROL_CMD_READ e.cmd
  length : e.payload_len ≤ e.given.length

/-- Callback `k` does what a transfer asks for, and the transfer returns what it gave. -/
structure Result.Serves (regs : List (servicer_init_data_t S × Option L)) (e : Result S) (k : Callback S) : Prop where
  servicer : ∃ reg ∈ regs, reg.1.queue = k.servicer ∧ e.resid ∈ reg.1.resources
  read : k.read = IS_CONTROL_CMD_READ e.cmd
  resid : k.resid = e.resid
  cmd : k.cmd = e.cmd
  length : k.payload.length = e.payload_len
  payload : ¬ IS_CONTROL_CMD_READ e.cmd → k.payload = e.given.take e.payload_len ∧ e.payload_buf = e.given
  ret : e.ret = k.ret
  written : IS_CONTROL_CMD_READ e.cmd → k.written.length = e.payload_len ∧
    e.payload_buf = k.written ++ e.given.drop e.payload_len ∧ e.buf_size = e.payload_len

/-- One callback when it is due, none otherwise. -/
def Result.Correct (regs : List (servicer_init_data_t S × Option L)) (e : Result S) : Prop :=
  (e.Due regs → ∃ k, e.calls = [k] ∧ e.Serves regs k) ∧ (¬ e.Due regs → e.calls = [])

/-- The steps of the transfer and of the threads that work for it. -/
def Act.internal : Act S L → Bool
  | .request .. | .transfer .. => false
  | _ => true

/-! ## The command under way -/

/-- A command as `do_command` fills it in, for an instance and a payload pointer. -/
def Pending.command (t : Pending S L) (dev_ctrl_ctx : Option L) (payload : Payload) : cmd_to_servicer_t S L :=
  ⟨dev_ctrl_ctx, t.entry.queue, t.payload_len, t.resid, t.cmd, payload⟩

/-- The host's buffer after callback `k`. -/
def Pending.returned (t : Pending S L) (k : Callback S) : List UInt8 :=
  if IS_CONTROL_CMD_READ t.cmd then k.written ++ t.given.drop t.payload_len else t.given

/-- A command that may be sent, for the last request. -/
structure Pending.Asked (regs : List (servicer_init_data_t S × Option L)) (request : UInt8 × UInt8 × Nat)
    (t : Pending S L) : Prop where
  request : (t.resid, t.cmd, t.payload_len) = request
  entry : ∃ reg ∈ regs, t.resid ∈ reg.1.resources ∧ t.entry = ⟨reg.2, reg.1.queue⟩
  direction : t.direction = .CONTROL_DEVICE_TO_HOST ↔ IS_CONTROL_CMD_READ t.cmd
  length : t.payload_len ≤ t.given.length
  off_tile : IS_CONTROL_CMD_READ t.cmd → t.entry.intertile_ctx.isSome → 0 < t.payload_len

/-- The servicer's callback has run for the command. -/
structure Pending.Ran (t : Pending S L) (k : Callback S) : Prop where
  servicer : k.servicer = t.entry.queue
  read : k.read = IS_CONTROL_CMD_READ t.cmd
  resid : k.resid = t.resid
  cmd : k.cmd = t.cmd
  length : k.payload.length = t.payload_len
  payload : ¬ IS_CONTROL_CMD_READ t.cmd → k.payload = t.given.take t.payload_len
  written : IS_CONTROL_CMD_READ t.cmd → k.written.length = t.payload_len

/-- The command in the form that its servicer gets. -/
def Pending.Arrives (t : Pending S L) (c : cmd_to_servicer_t S L) : Prop :=
  match t.entry.intertile_ctx with
  | none => c = t.command none .host
  | some l => ∃ bytes, c = t.command (some l) (.own bytes) ∧ bytes.length = t.payload_len ∧
      (¬ IS_CONTROL_CMD_READ t.cmd → bytes = t.given.take t.payload_len)

/-- The command after callback `k`, and the host's buffer. -/
def Pending.Answered (t : Pending S L) (k : Callback S) (payload_buf : List UInt8) (c : cmd_to_servicer_t S L) : Prop :=
  match t.entry.intertile_ctx with
  | none => c = t.command none .host ∧ payload_buf = t.returned k
  | some l => ∃ bytes, c = t.command (some l) (.own bytes) ∧ payload_buf = t.given ∧
      (IS_CONTROL_CMD_READ t.cmd → bytes = k.written)

/-- Where the command, or its answer, is. -/
inductive Place (S L : Type*)
  | link (l : L) (c : cmd_to_servicer_t S L) (buf : List UInt8)
  | client (l : L) (c : cmd_to_servicer_t S L)
  | queue (c : cmd_to_servicer_t S L)
  | call (c : cmd_to_servicer_t S L)
  | respond (c : cmd_to_servicer_t S L) (ret : control_ret_t)
  | gateway (ret : control_ret_t)
  | reply (l : L) (ret : control_ret_t) (payload : List UInt8)

/-- The steps that are left. -/
def Place.left : Place S L → Nat
  | .link .. => 6
  | .client .. => 5
  | .queue _ => 4
  | .call _ => 3
  | .respond .. => 2
  | .gateway _ | .reply .. => 1

variable [DecidableEq S] [DecidableEq L]

/-- It is there, and nothing else is anywhere. -/
def Place.net : Place S L → Traffic S L
  | .link l c buf => { (.quiet : Traffic S L) with to_client := Function.update (fun _ => []) l [(c, buf)] }
  | .client l c => { (.quiet : Traffic S L) with client := Function.update (fun _ => .receive) l (.send c) }
  | .queue c => { (.quiet : Traffic S L) with queue := Function.update (fun _ => []) c.queue [c] }
  | .call c => { (.quiet : Traffic S L) with servicer := Function.update (fun _ => .receive) c.queue (.call c) }
  | .respond c ret =>
    { (.quiet : Traffic S L) with servicer := Function.update (fun _ => .receive) c.queue (.respond c ret) }
  | .gateway ret => { (.quiet : Traffic S L) with gateway_queue := [ret] }
  | .reply l ret payload =>
    { (.quiet : Traffic S L) with to_host := Function.update (fun _ => []) l [(ret, payload)] }

omit [DecidableEq S] [DecidableEq L] in
/-- What is at a place before the callback has run. -/
def Pending.Before (t : Pending S L) : Place S L → Prop
  | .link l c buf => t.entry.intertile_ctx = some l ∧ c = t.command none .host ∧
      buf = if IS_CONTROL_CMD_READ t.cmd then [] else t.given.take t.payload_len
  | .client l c => t.entry.intertile_ctx = some l ∧ t.Arrives c
  | .queue c | .call c => t.Arrives c
  | _ => False

/-- What is at a place after callback `k`. -/
def Pending.After (t : Pending S L) (k : Callback S) (payload_buf : List UInt8) : Place S L → Prop
  | .respond c ret => ret = k.ret ∧ t.Answered k payload_buf c
  | .gateway ret => t.entry.intertile_ctx = none ∧ ret = k.ret ∧ payload_buf = t.returned k
  | .reply l ret payload => t.entry.intertile_ctx = some l ∧ ret = k.ret ∧ payload_buf = t.given ∧
      payload = if IS_CONTROL_CMD_READ t.cmd then k.written else []
  | _ => False

/-- How far a transfer has come, and how many steps it needs to end. -/
inductive Phase (regs : List (servicer_init_data_t S × Option L)) (s : State S L σ) : Nat → Prop
  | idle : s.host = .idle → s.net = .quiet → s.calls = [] → Phase regs s 0
  | send {t : Pending S L} : s.host = .send t → t.Asked regs s.request → s.net = .quiet → s.calls = [] →
      s.payload_buf = t.given → Phase regs s 7
  | before {t : Pending S L} {p : Place S L} : s.host = .wait t → t.Asked regs s.request → s.net = p.net → s.calls = [] →
      s.payload_buf = t.given → t.Before p → Phase regs s p.left
  | after {t : Pending S L} {p : Place S L} {k : Callback S} : s.host = .wait t → t.Asked regs s.request →
      s.net = p.net → s.calls = [k] → t.Ran k → t.After k s.payload_buf p → Phase regs s p.left

/-- The invariant, with `n` steps left for the transfer under way. -/
structure Inv (regs : List (servicer_init_data_t S × Option L)) (s : State S L σ) (n : Nat) : Prop where
  tables : Registered s.ctx regs
  resid : s.ctx.requested_resid = s.request.1
  /-- A request of a resource that is not there leaves the command and length of the one before. -/
  found : (resource_table_search s.ctx.resource_table s.ctx.requested_resid).1 = 0 →
    (s.ctx.requested_cmd, s.ctx.requested_payload_len) = s.request.2
  phase : Phase regs s n
  results : ∀ e ∈ s.results, e.Correct regs

variable {regs : List (servicer_init_data_t S × Option L)} {s s' : State S L σ} {n : Nat} {t : Pending S L}
variable {k : Callback S}

theorem Phase.le (h : Phase regs s n) : n ≤ 7 := by
  cases h with
  | idle => omega
  | send => omega
  | @before t p => cases p <;> simp [Place.left]
  | @after t p k => cases p <;> simp [Place.left]

theorem Phase.of_idle (h : Phase regs s n) (hhost : s.host = .idle) : n = 0 ∧ s.net = .quiet ∧ s.calls = [] := by
  cases h with
  | idle _ h1 h2 => exact ⟨rfl, h1, h2⟩
  | send h1 => rw [hhost] at h1; cases h1
  | before h1 => rw [hhost] at h1; cases h1
  | after h1 => rw [hhost] at h1; cases h1

omit [DecidableEq S] in
/-- What leaves the only place where something was leaves nothing behind. -/
theorem update_back {β : Type*} (a : L) (b x : β) :
    Function.update (Function.update (fun _ => b) a x) a b = fun _ => b := by
  rw [Function.update_idem]
  exact Function.update_eq_self a fun _ => b

/-- The invariant over steps that change neither the tables nor the results. -/
theorem Inv.frame {m : Nat} (h : Inv regs s n) (hctx : s'.ctx = s.ctx) (hreq : s'.request = s.request)
    (hres : s'.results = s.results) (hp : Phase regs s' m) : Inv regs s' m :=
  ⟨by rw [hctx]; exact h.tables, by rw [hctx, hreq]; exact h.resid, by rw [hctx, hreq]; exact h.found, hp,
    by rw [hres]; exact h.results⟩

omit [DecidableEq S] [DecidableEq L] in
/-- The saved status does not matter. -/
theorem Registered.save {ctx : device_control_t S L} (h : Registered ctx regs) (status : UInt8) :
    Registered { ctx with last_status := status } regs :=
  ⟨h.length, h.entry, h.owner, h.free, h.special, h.nodup⟩

/-! ## The host -/

/-- The transfer returns with the answer of callback `k`. -/
theorem Inv.done (h : Inv regs s n) (hask : t.Asked regs s.request) (hcalls : s.calls = [k]) (hran : t.Ran k) :
    Inv regs (command_done { s with net := .quiet } t k.ret (t.returned k)) 0 := by
  refine ⟨h.tables.save _, h.resid, h.found, .idle rfl rfl rfl, fun e he => ?_⟩
  rcases List.mem_append.1 he with he | he
  · exact h.results e he
  obtain rfl := List.mem_singleton.1 he
  obtain ⟨reg, hreg, hresid, hentry⟩ := hask.entry
  have hrequest := hask.request
  refine ⟨fun _ => ⟨k, hcalls, ?_⟩, fun hdue => absurd ?_ hdue⟩
  · rw [← hrequest]
    refine ⟨⟨reg, hreg, ?_, hresid⟩, hran.read, hran.resid, hran.cmd, hran.length, fun hw => ?_, rfl, fun hr => ?_⟩
    · rw [hran.servicer, hentry]
    · exact ⟨hran.payload hw, by simp [Pending.returned, hw]⟩
    · refine ⟨hran.written hr, by simp [Pending.returned, show IS_CONTROL_CMD_READ t.cmd = true from hr], ?_⟩
      simp [size_after, hask.direction.2 hr]
  · rw [← hrequest]
    exact ⟨⟨reg, hreg, hresid⟩, hask.direction, hask.length⟩

theorem host_inv (h : Inv regs s n) (hs : host_step s = some s') : ∃ m < n, Inv regs s' m := by
  cases h.phase with
  | idle hhost => simp [host_step, hhost] at hs
  | @send t hhost hask hnet hcalls hbuf =>
    simp only [host_step, hhost] at hs
    cases hctx : t.entry.intertile_ctx with
    | none =>
      simp only [hctx, Option.map_eq_some_iff, queue_send_eq_some] at hs
      obtain ⟨queue, ⟨-, rfl⟩, rfl⟩ := hs
      refine ⟨4, by omega, h.frame rfl rfl rfl
        (.before (p := .queue (t.command none .host)) rfl hask ?_ hcalls hbuf ?_)⟩
      · simp [hnet, Place.net, Traffic.quiet, Pending.command]
      · simp [Pending.Before, Pending.Arrives, hctx]
    | some l =>
      simp only [hctx, Option.some.injEq] at hs
      subst hs
      refine ⟨6, by omega, h.frame rfl rfl rfl (.before (p := .link l (t.command none .host)
        (if IS_CONTROL_CMD_READ t.cmd then [] else t.given.take t.payload_len)) rfl hask ?_ hcalls hbuf ⟨hctx, rfl, rfl⟩)⟩
      simp [hnet, hbuf, Place.net, Traffic.quiet, Pending.command]
  | @before t p hhost hask hnet hcalls hbuf hp =>
    simp only [host_step, hhost] at hs
    cases hctx : t.entry.intertile_ctx <;> cases p <;>
      simp [hctx, hnet, Place.net, Traffic.quiet, rtos_osal_queue_receive, Pending.Before] at hs hp
  | @after t p k hhost hask hnet hcalls hran hp =>
    simp only [host_step, hhost] at hs
    cases p with
    | gateway ret =>
      obtain ⟨hctx, rfl, hbuf⟩ := hp
      simp only [hctx, hnet, Place.net, Traffic.quiet, rtos_osal_queue_receive, Option.map_some, Option.some.injEq] at hs
      subst hs
      refine ⟨0, by simp [Place.left], ?_⟩
      rw [hbuf]
      exact h.done hask hcalls hran
    | reply l ret payload =>
      obtain ⟨hctx, rfl, hbuf, hpayload⟩ := hp
      simp only [hctx, hnet, Place.net, Traffic.quiet, Function.update_self, update_back] at hs
      refine ⟨0, by simp [Place.left], ?_⟩
      have hdone := h.done hask hcalls hran
      split at hs
      · rename_i hr
        split at hs
        · cases hs
          have hret : payload ++ s.payload_buf.drop t.payload_len = t.returned k := by
            simp [Pending.returned, hr, hpayload, hbuf]
          rw [hret]
          exact hdone
        · cases hs
      · rename_i hr
        split at hs
        · cases hs
          have hret : s.payload_buf = t.returned k := by simp [Pending.returned, hr, hbuf]
          rw [hret]
          exact hdone
        · cases hs
    | respond c ret =>
      cases hctx : t.entry.intertile_ctx <;>
        simp [hctx, hnet, Place.net, Traffic.quiet, rtos_osal_queue_receive] at hs
    | _ => exact hp.elim

/-! ## The client thread -/

omit [DecidableEq S] [DecidableEq L] in
theorem Pending.arrives (t : Pending S L) {l : L} {bytes : List UInt8} (hctx : t.entry.intertile_ctx = some l)
    (hlen : bytes.length = t.payload_len) (hw : ¬ IS_CONTROL_CMD_READ t.cmd → bytes = t.given.take t.payload_len) :
    t.Arrives (t.command (some l) (.own bytes)) := by
  unfold Pending.Arrives
  rw [hctx]
  exact ⟨bytes, rfl, hlen, hw⟩

theorem client_inv {l : L} {mem : List UInt8} (h : Inv regs s n) (hs : client_step s l mem = some s') :
    ∃ m < n, Inv regs s' m := by
  cases h.phase with
  | idle hhost hnet => simp [client_step, hnet, Traffic.quiet] at hs
  | send hhost _ hnet => simp [client_step, hnet, Traffic.quiet] at hs
  | @before t p hhost hask hnet hcalls hbuf hp =>
    cases p with
    | link l' c buf =>
      obtain ⟨hctx, rfl, hsent⟩ := hp
      by_cases hl : l = l'
      case neg => simp [client_step, hnet, Place.net, Traffic.quiet, Function.update_of_ne hl] at hs
      subst hl
      simp only [client_step, hnet, Place.net, Traffic.quiet, Function.update_self, update_back] at hs
      split at hs
      · rename_i hr
        split at hs
        · rename_i hmsg
          cases hs
          exact ⟨5, by simp [Place.left], h.frame rfl rfl rfl
            (.before (p := .client l (t.command (some l) (.own mem))) hhost hask rfl hcalls hbuf
              ⟨hctx, t.arrives hctx hmsg.2.2 fun hw => absurd hr hw⟩)⟩
        · cases hs
      · rename_i hw
        split at hs
        · rename_i hmsg
          cases hs
          have hsent : buf = t.given.take t.payload_len := hsent.trans (if_neg hw)
          exact ⟨5, by simp [Place.left], h.frame rfl rfl rfl
            (.before (p := .client l (t.command (some l) (.own buf))) hhost hask rfl hcalls hbuf
              ⟨hctx, t.arrives hctx (by rw [hsent, List.length_take_of_le hask.length]) fun _ => hsent⟩)⟩
        · cases hs
    | client l' c =>
      obtain ⟨hctx, harr⟩ := hp
      by_cases hl : l = l'
      case neg => simp [client_step, hnet, Place.net, Traffic.quiet, Function.update_of_ne hl] at hs
      subst hl
      simp only [client_step, hnet, Place.net, Traffic.quiet, Function.update_self, Option.map_eq_some_iff,
        queue_send_eq_some, update_back] at hs
      obtain ⟨queue, ⟨-, rfl⟩, rfl⟩ := hs
      exact ⟨4, by simp [Place.left], h.frame rfl rfl rfl (.before (p := .queue c) hhost hask rfl hcalls hbuf harr)⟩
    | queue c => simp [client_step, hnet, Place.net, Traffic.quiet] at hs
    | call c => simp [client_step, hnet, Place.net, Traffic.quiet] at hs
    | _ => exact hp.elim
  | @after t p k hhost hask hnet hcalls hran hp =>
    cases p with
    | respond => simp [client_step, hnet, Place.net, Traffic.quiet] at hs
    | gateway => simp [client_step, hnet, Place.net, Traffic.quiet] at hs
    | reply => simp [client_step, hnet, Place.net, Traffic.quiet] at hs
    | _ => exact hp.elim

/-! ## The servicers -/

variable {cb : S → Callbacks σ}

/-- The callback runs on the tile of the host. -/
theorem run_callback_on_tile (h : Inv regs s n) (hhost : s.host = .wait t) (hask : t.Asked regs s.request)
    (hnet : s.net = (Place.call (t.command none .host)).net) (hcalls : s.calls = []) (hbuf : s.payload_buf = t.given)
    (hctx : t.entry.intertile_ctx = none) :
    Inv regs (run_callback cb s t.entry.queue (t.command none .host)) 2 := by
  have hpay : s.payload (t.command none .host) = t.given.take t.payload_len := by rw [← hbuf]; rfl
  have hlen : (t.given.take t.payload_len).length = t.payload_len := List.length_take_of_le hask.length
  unfold run_callback
  by_cases hr : IS_CONTROL_CMD_READ t.cmd = true
  · have hwritten := (cb t.entry.queue).read_length t.resid t.cmd (t.given.take t.payload_len) (s.app_data t.entry.queue)
    rw [hlen] at hwritten
    rw [if_pos (show IS_CONTROL_CMD_READ (t.command none Payload.host).cmd = true from hr), hpay]
    refine h.frame rfl rfl rfl (.after (p := .respond (t.command none .host) _) (k := ⟨_, _, _, _, _, _, _⟩) hhost hask ?_
      (by rw [hcalls]; rfl) ⟨rfl, hr.symm, rfl, rfl, hlen, fun hw => absurd hr hw, fun _ => hwritten⟩ ⟨rfl, ?_⟩)
    · simp [hnet, Place.net, Traffic.quiet, Pending.command]
    · simp [Pending.Answered, hctx, Pending.returned, hr, hbuf, Pending.command]
  · rw [if_neg (show ¬ IS_CONTROL_CMD_READ (t.command none Payload.host).cmd = true from hr), hpay]
    refine h.frame rfl rfl rfl (.after (p := .respond (t.command none .host) _) (k := ⟨_, _, _, _, _, _, _⟩) hhost hask ?_
      (by rw [hcalls]; rfl) ⟨rfl, by simpa using hr, rfl, rfl, hlen, fun _ => rfl, fun hr' => absurd hr' hr⟩ ⟨rfl, ?_⟩)
    · simp [hnet, Place.net, Traffic.quiet, Pending.command]
    · simp [Pending.Answered, hctx, Pending.returned, hr, hbuf, Pending.command]

/-- The callback runs on the tile at the end of link `l`. -/
theorem run_callback_off_tile {l : L} {bytes : List UInt8} (h : Inv regs s n) (hhost : s.host = .wait t)
    (hask : t.Asked regs s.request) (hnet : s.net = (Place.call (t.command (some l) (.own bytes))).net)
    (hcalls : s.calls = []) (hbuf : s.payload_buf = t.given) (hctx : t.entry.intertile_ctx = some l)
    (hlen : bytes.length = t.payload_len) (hw : ¬ IS_CONTROL_CMD_READ t.cmd → bytes = t.given.take t.payload_len) :
    Inv regs (run_callback cb s t.entry.queue (t.command (some l) (.own bytes))) 2 := by
  have hpay : s.payload (t.command (some l) (.own bytes)) = bytes := List.take_of_length_le (by
    rw [hlen]; exact Nat.le_refl _)
  unfold run_callback
  by_cases hr : IS_CONTROL_CMD_READ t.cmd = true
  · have hwritten := (cb t.entry.queue).read_length t.resid t.cmd bytes (s.app_data t.entry.queue)
    rw [hlen] at hwritten
    rw [if_pos (show IS_CONTROL_CMD_READ (t.command (some l) (.own bytes)).cmd = true from hr), hpay]
    refine h.frame rfl rfl rfl (.after (p := .respond (t.command (some l) (.own
      ((cb t.entry.queue).read_cmd_cb t.resid t.cmd bytes (s.app_data t.entry.queue)).2.1)) _) (k := ⟨_, _, _, _, _, _, _⟩)
      hhost hask ?_ (by rw [hcalls]; rfl) ⟨rfl, hr.symm, rfl, rfl, hlen, fun hw => absurd hr hw, fun _ => hwritten⟩
      ⟨rfl, ?_⟩)
    · simp [hnet, Place.net, Traffic.quiet, Pending.command]
    · simp [Pending.Answered, hctx, hbuf, Pending.command]
  · rw [if_neg (show ¬ IS_CONTROL_CMD_READ (t.command (some l) (.own bytes)).cmd = true from hr), hpay]
    refine h.frame rfl rfl rfl (.after (p := .respond (t.command (some l) (.own bytes)) _) (k := ⟨_, _, _, _, _, _, _⟩) hhost
      hask ?_ (by rw [hcalls]; rfl) ⟨rfl, by simpa using hr, rfl, rfl, hlen, fun _ => hw hr, fun hr' => absurd hr' hr⟩
      ⟨rfl, ?_⟩)
    · simp [hnet, Place.net, Traffic.quiet, Pending.command]
    · simp [Pending.Answered, hctx, hbuf, hr, Pending.command]

/-- A servicer answers. -/
theorem respond_inv {c : cmd_to_servicer_t S L} (h : Inv regs s n) (hhost : s.host = .wait t)
    (hask : t.Asked regs s.request) (hnet : s.net = (Place.respond c k.ret).net) (hcalls : s.calls = [k]) (hran : t.Ran k)
    (hans : t.Answered k s.payload_buf c) (hs : servicer_step cb s c.queue = some s') : Inv regs s' 1 := by
  simp only [servicer_step, hnet, Place.net, Traffic.quiet, Function.update_self, update_back] at hs
  unfold Pending.Answered at hans
  cases hctx : t.entry.intertile_ctx with
  | none =>
    rw [hctx] at hans
    obtain ⟨rfl, hbuf⟩ := hans
    simp only [Pending.command, Option.map_eq_some_iff, queue_send_eq_some] at hs
    obtain ⟨queue, ⟨-, rfl⟩, rfl⟩ := hs
    exact h.frame rfl rfl rfl (.after (p := .gateway k.ret) hhost hask rfl hcalls hran ⟨hctx, rfl, hbuf⟩)
  | some l =>
    rw [hctx] at hans
    obtain ⟨bytes, rfl, hbuf, hbytes⟩ := hans
    simp only [Pending.command, Option.some.injEq] at hs
    subst hs
    refine h.frame rfl rfl rfl (.after (p := .reply l k.ret _) hhost hask rfl hcalls hran ⟨hctx, rfl, hbuf, ?_⟩)
    refine ite_congr rfl (fun hr => ?_) fun _ => rfl
    have hlen : bytes.length ≤ t.payload_len := Nat.le_of_eq (by rw [hbytes hr, hran.written hr])
    exact (List.take_of_length_le hlen).trans (hbytes hr)

theorem servicer_inv {servicer : S} (h : Inv regs s n) (hs : servicer_step cb s servicer = some s') :
    ∃ m < n, Inv regs s' m := by
  cases h.phase with
  | idle hhost hnet => simp [servicer_step, hnet, Traffic.quiet, rtos_osal_queue_receive] at hs
  | send hhost _ hnet => simp [servicer_step, hnet, Traffic.quiet, rtos_osal_queue_receive] at hs
  | @before t p hhost hask hnet hcalls hbuf hp =>
    cases p with
    | queue c =>
      by_cases hq : servicer = c.queue
      case neg =>
        simp [servicer_step, hnet, Place.net, Traffic.quiet, Function.update_of_ne hq, rtos_osal_queue_receive] at hs
      subst hq
      simp only [servicer_step, hnet, Place.net, Traffic.quiet, Function.update_self, Option.map_eq_some_iff,
        Prod.exists, queue_receive_eq_some, List.cons.injEq] at hs
      obtain ⟨c', queue, ⟨rfl, rfl⟩, rfl⟩ := hs
      refine ⟨3, by simp [Place.left], h.frame rfl rfl rfl (.before (p := .call c) hhost hask ?_ hcalls hbuf hp)⟩
      simp [Place.net, Traffic.quiet]
    | call c =>
      by_cases hq : servicer = c.queue
      case neg =>
        simp [servicer_step, hnet, Place.net, Traffic.quiet, Function.update_of_ne hq, rtos_osal_queue_receive] at hs
      subst hq
      simp only [servicer_step, hnet, Place.net, Traffic.quiet, Function.update_self, Option.some.injEq] at hs
      subst hs
      refine ⟨2, by simp [Place.left], ?_⟩
      have harr : t.Arrives c := hp
      unfold Pending.Arrives at harr
      cases hctx : t.entry.intertile_ctx with
      | none =>
        rw [hctx] at harr
        subst harr
        exact run_callback_on_tile h hhost hask hnet hcalls hbuf hctx
      | some l =>
        rw [hctx] at harr
        obtain ⟨bytes, rfl, hlen, hw⟩ := harr
        exact run_callback_off_tile h hhost hask hnet hcalls hbuf hctx hlen hw
    | link l c buf => simp [servicer_step, hnet, Place.net, Traffic.quiet, rtos_osal_queue_receive] at hs
    | client l c => simp [servicer_step, hnet, Place.net, Traffic.quiet, rtos_osal_queue_receive] at hs
    | _ => exact hp.elim
  | @after t p k hhost hask hnet hcalls hran hp =>
    cases p with
    | respond c ret =>
      obtain ⟨rfl, hans⟩ := hp
      by_cases hq : servicer = c.queue
      case neg =>
        simp [servicer_step, hnet, Place.net, Traffic.quiet, Function.update_of_ne hq, rtos_osal_queue_receive] at hs
      subst hq
      exact ⟨1, by simp [Place.left], respond_inv h hhost hask hnet hcalls hran hans hs⟩
    | gateway => simp [servicer_step, hnet, Place.net, Traffic.quiet, rtos_osal_queue_receive] at hs
    | reply => simp [servicer_step, hnet, Place.net, Traffic.quiet, rtos_osal_queue_receive] at hs
    | _ => exact hp.elim

/-! ## Requests and transfers -/

omit [DecidableEq S] [DecidableEq L] in
theorem found_iff {resid : UInt8} : (resource_table_search s.ctx.resource_table resid).1 = 0 ↔
    resid = CONTROL_SPECIAL_RESID ∨ s.ctx.resource_table resid ≠ NO_SERVICER := by
  unfold resource_table_search
  split <;> simp_all

omit [DecidableEq S] [DecidableEq L] in
/-- A registered resource is found, and is not the special one. -/
theorem Registered.search {ctx : device_control_t S L} {resid : UInt8} (h : Registered ctx regs)
    (hreg : ∃ reg ∈ regs, resid ∈ reg.1.resources) :
    resid ≠ CONTROL_SPECIAL_RESID ∧ ctx.resource_table resid ≠ NO_SERVICER := by
  obtain ⟨reg, hmem, hresid⟩ := hreg
  obtain ⟨i, hi, rfl⟩ := List.getElem_of_mem hmem
  have hlen := h.length
  refine ⟨fun heq => h.special i hi (heq ▸ hresid), fun heq => ?_⟩
  have := ofNat_inj (j := 255) (by omega) (by omega) (((h.owner resid i hi).1 hresid).symm.trans heq)
  omega

omit [DecidableEq S] [DecidableEq L] in
/-- The servicer table has the servicer of a resource that is found. -/
theorem Registered.entered {ctx : device_control_t S L} {resid : UInt8} (h : Registered ctx regs)
    (hfound : ctx.resource_table resid ≠ NO_SERVICER) : ∃ reg ∈ regs, resid ∈ reg.1.resources ∧
      ctx.servicer_table (ctx.resource_table resid).toNat = some ⟨reg.2, reg.1.queue⟩ := by
  obtain ⟨i, hi, hresid⟩ := h.free resid hfound
  have hlen := h.length
  refine ⟨regs[i], List.getElem_mem hi, hresid, ?_⟩
  rw [(h.owner resid i hi).1 hresid, UInt8.toNat_ofNat', Nat.mod_eq_of_lt (by omega)]
  exact h.entry i hi

theorem request_inv {resid cmd : UInt8} {payload_len : Nat} (h : Inv regs s n) (hhost : s.host = .idle) :
    Inv regs { s with
      ctx := (device_control_request s.ctx resid cmd payload_len).2, request := (resid, cmd, payload_len) } n := by
  obtain ⟨rfl, hnet, hcalls⟩ := h.phase.of_idle hhost
  have htables : ∀ {ctx : device_control_t S L}, ctx.resource_table = s.ctx.resource_table →
      ctx.servicer_table = s.ctx.servicer_table → Registered ctx regs := by
    intro ctx h1 h2
    exact ⟨h.tables.length, h2 ▸ h.tables.entry, h1 ▸ h.tables.owner, h1 ▸ h.tables.free, h.tables.special, h.tables.nodup⟩
  unfold device_control_request
  by_cases hfound : (resource_table_search s.ctx.resource_table resid).1 = 0
  · simp only [if_pos hfound]
    exact ⟨htables rfl rfl, rfl, fun _ => rfl, .idle hhost hnet hcalls, h.results⟩
  · simp only [if_neg hfound]
    exact ⟨htables rfl rfl, rfl, fun hf => absurd hf hfound, .idle hhost hnet hcalls, h.results⟩

/-- A transfer that is not due returns without a command. -/
theorem Inv.finish {given payload_buf : List UInt8} {direction : control_direction_t} {ret : control_ret_t}
    {buf_size : Nat} (h : Inv regs s n) (hnet : s.net = .quiet) (hcalls : s.calls = [])
    (hdue : ∀ e : Result S, (e.resid, e.cmd, e.payload_len) = s.request → e.given = given → e.direction = direction →
      ¬ e.Due regs) : Inv regs (finish s given direction ret payload_buf buf_size) 0 := by
  refine ⟨h.tables, h.resid, h.found, .idle rfl hnet rfl, fun e he => ?_⟩
  rcases List.mem_append.1 he with he | he
  · exact h.results e he
  · obtain rfl := List.mem_singleton.1 he
    exact ⟨fun hd => absurd hd (hdue _ rfl rfl rfl), fun _ => hcalls⟩

theorem Inv.save {ret : control_ret_t} (h : Inv regs s n) : Inv regs (s.save ret) n := by
  refine ⟨h.tables.save _, h.resid, h.found, ?_, h.results⟩
  cases h.phase with
  | idle h1 h2 h3 => exact .idle h1 h2 h3
  | send h1 h2 h3 h4 h5 => exact .send h1 h2 h3 h4 h5
  | before h1 h2 h3 h4 h5 h6 => exact .before h1 h2 h3 h4 h5 h6
  | after h1 h2 h3 h4 h5 h6 => exact .after h1 h2 h3 h4 h5 h6

omit [DecidableEq S] [DecidableEq L] in
theorem direction_iff {direction : control_direction_t} {read : Bool} :
    (direction = .CONTROL_DEVICE_TO_HOST ∧ read ∨ direction = .CONTROL_HOST_TO_DEVICE ∧ ¬ read) ↔
      (direction = .CONTROL_DEVICE_TO_HOST ↔ read) := by
  cases direction <;> cases read <;> simp

/-- What is due is a command to a servicer. -/
theorem Inv.decide_due {e : Result S} (h : Inv regs s n) (he : (e.resid, e.cmd, e.payload_len) = s.request)
    (hdue : e.Due regs) : s.ctx.requested_resid ≠ CONTROL_SPECIAL_RESID ∧
      decide_transfer s.ctx e.given.length e.direction = .command (s.ctx.resource_table s.ctx.requested_resid) := by
  have hresid : s.ctx.requested_resid = e.resid := by rw [h.resid, ← he]
  obtain ⟨hspecial, hentered⟩ := h.tables.search hdue.registered
  have hfound : (resource_table_search s.ctx.resource_table s.ctx.requested_resid).1 = 0 :=
    found_iff.2 (.inr (hresid ▸ hentered))
  have hrequest := h.found hfound
  rw [← he] at hrequest
  obtain ⟨hcmd, hlen⟩ := Prod.mk.inj hrequest
  refine ⟨hresid ▸ hspecial, ?_⟩
  have hdir := direction_iff.2 hdue.direction
  rw [← hcmd] at hdir
  unfold decide_transfer
  rw [if_pos hfound, if_pos hdir, if_pos (hlen ▸ hdue.length)]
  rfl

/-- A command to a servicer is one that may be sent. -/
theorem Inv.asked {given : List UInt8} {direction : control_direction_t} {servicer : UInt8} (h : Inv regs s n)
    (hallowed : Allowed s (.transfer given direction)) (hspecial : s.ctx.requested_resid ≠ CONTROL_SPECIAL_RESID)
    (hdec : decide_transfer s.ctx given.length direction = .command servicer) :
    ∃ entry, s.ctx.servicer_table servicer.toNat = some entry ∧ Pending.Asked regs s.request
      ⟨entry, s.ctx.requested_resid, s.ctx.requested_cmd, s.ctx.requested_payload_len, given, direction⟩ := by
  unfold decide_transfer at hdec
  split at hdec
  case isFalse => cases hdec
  rename_i hfound
  split at hdec
  case isFalse => split at hdec <;> cases hdec
  rename_i hdir
  split at hdec
  case isFalse => cases hdec
  rename_i hlen
  cases hdec
  have hentered := (found_iff.1 hfound).resolve_left hspecial
  obtain ⟨reg, hreg, hresid, hentry⟩ := h.tables.entered hentered
  refine ⟨_, hentry, ?_, ⟨reg, hreg, hresid, rfl⟩, direction_iff.1 hdir, hlen, fun hr hoff => ?_⟩
  · rw [h.resid, h.found hfound]
  · obtain rfl := (direction_iff.1 hdir).2 hr
    exact hallowed hr _ hentry hoff

theorem transfer_inv {given : List UInt8} {direction : control_direction_t} (h : Inv regs s n) (hhost : s.host = .idle)
    (hallowed : Allowed s (.transfer given direction)) :
    ∃ s' m, device_control_payload_transfer s given direction = some s' ∧ Inv regs s' m := by
  obtain ⟨rfl, hnet, hcalls⟩ := h.phase.of_idle hhost
  unfold device_control_payload_transfer
  cases hdec : decide_transfer s.ctx given.length direction with
  | refuse ret =>
    refine ⟨_, 0, rfl, (h.finish hnet hcalls fun e he hgiven hdir hdue => ?_).save⟩
    have hcommand := (h.decide_due he hdue).2
    rw [hgiven, hdir, hdec] at hcommand
    cases hcommand
  | ignore =>
    refine ⟨_, 0, rfl, h.finish hnet hcalls fun e he hgiven hdir hdue => ?_⟩
    have hcommand := (h.decide_due he hdue).2
    rw [hgiven, hdir, hdec] at hcommand
    cases hcommand
  | command servicer =>
    by_cases hspecial : s.ctx.requested_resid = CONTROL_SPECIAL_RESID
    · simp only [if_pos hspecial]
      exact ⟨_, 0, rfl, (h.finish hnet hcalls fun e he _ _ hdue => (h.decide_due he hdue).1 hspecial).save⟩
    · obtain ⟨entry, hentry, hask⟩ := h.asked hallowed hspecial hdec
      simp only [if_neg hspecial, hentry, Option.map_some]
      exact ⟨_, 7, rfl, h.frame rfl rfl rfl (.send rfl hask hnet hcalls rfl)⟩

/-! ## All steps -/

section
variable {servicer_count : Nat} {polls : List (Option (servicer_init_data_t S × Option L))} {a : Act S L}

theorem inv_init (h : (device_control cb servicer_count polls).init s) :
    Inv (registrations servicer_count polls) s 0 := by
  obtain ⟨hctx, hrequest, hhost, hnet, hcalls, hresults⟩ := h
  exact ⟨(resources_register_success hctx).1, by rw [hrequest], fun _ => by rw [hrequest], .idle hhost hnet hcalls,
    by rw [hresults]; exact nofun⟩

/-- A step of the transfer or of a thread that works for it brings its end nearer. -/
theorem internal_step (h : Inv regs s n) (ha : a.internal)
    (hs : (device_control cb servicer_count polls).step s a = some s') : ∃ m < n, Inv regs s' m := by
  cases a with
  | request => cases ha
  | transfer => cases ha
  | host => exact host_inv h hs
  | client l mem => exact client_inv h hs
  | servicer servicer => exact servicer_inv h hs

theorem inv_step (h : ∃ n, Inv regs s n) (hc : Allowed s a)
    (hs : (device_control cb servicer_count polls).step s a = some s') : ∃ n, Inv regs s' n := by
  obtain ⟨n, h⟩ := h
  cases a with
  | request resid cmd payload_len =>
    simp only [device_control] at hs
    split at hs
    · rename_i hhost
      cases hs
      exact ⟨n, request_inv h hhost⟩
    · cases hs
  | transfer given direction =>
    simp only [device_control] at hs
    split at hs
    · rename_i hhost
      obtain ⟨s'', m, hs', h'⟩ := transfer_inv h hhost hc
      obtain rfl := Option.some.inj (hs.symm.trans hs')
      exact ⟨m, h'⟩
    · cases hs
  | host => exact (internal_step h rfl hs).imp fun m hm => hm.2
  | client => exact (internal_step h rfl hs).imp fun m hm => hm.2
  | servicer => exact (internal_step h rfl hs).imp fun m hm => hm.2

/-- Until the transfer has returned, someone can take a step: nobody waits for
ever, no queue is full, and no assertion fails. -/
theorem internal_enabled (h : Inv regs s n) (hhost : s.host ≠ .idle) :
    ∃ a, Act.internal a ∧ ((device_control cb servicer_count polls).step s a).isSome := by
  cases h.phase with
  | idle h1 => exact absurd h1 hhost
  | @send t hhost hask hnet =>
    refine ⟨.host, rfl, ?_⟩
    simp only [device_control, host_step, hhost, hnet]
    cases t.entry.intertile_ctx <;> rfl
  | @before t p hhost hask hnet hcalls hbuf hp =>
    cases p with
    | link l c buf =>
      obtain ⟨hctx, rfl, hsent⟩ := hp
      refine ⟨.client l (List.replicate t.payload_len 0), rfl, ?_⟩
      simp only [device_control, client_step, hnet, Place.net, Traffic.quiet, Function.update_self]
      by_cases hr : IS_CONTROL_CMD_READ t.cmd = true
      · have hpos := hask.off_tile hr (by rw [hctx]; rfl)
        simp [Pending.command, hr, hsent, hpos]
      · simp [Pending.command, hr, hsent, hask.length]
    | client l c =>
      refine ⟨.client l [], rfl, ?_⟩
      simp [device_control, client_step, hnet, Place.net, Traffic.quiet, rtos_osal_queue_send]
    | queue c =>
      refine ⟨.servicer c.queue, rfl, ?_⟩
      simp [device_control, servicer_step, hnet, Place.net, Traffic.quiet, rtos_osal_queue_receive]
    | call c =>
      refine ⟨.servicer c.queue, rfl, ?_⟩
      simp [device_control, servicer_step, hnet, Place.net, Traffic.quiet]
    | _ => exact hp.elim
  | @after t p k hhost hask hnet hcalls hran hp =>
    cases p with
    | respond c ret =>
      refine ⟨.servicer c.queue, rfl, ?_⟩
      simp only [device_control, servicer_step, hnet, Place.net, Traffic.quiet, Function.update_self]
      cases c.dev_ctrl_ctx <;> rfl
    | gateway ret =>
      obtain ⟨hctx, -⟩ := hp
      refine ⟨.host, rfl, ?_⟩
      simp [device_control, host_step, hhost, hctx, hnet, Place.net, rtos_osal_queue_receive]
    | reply l ret payload =>
      obtain ⟨hctx, -, -, hpayload⟩ := hp
      refine ⟨.host, rfl, ?_⟩
      by_cases hr : IS_CONTROL_CMD_READ t.cmd = true
      · simp [device_control, host_step, hhost, hctx, hnet, Place.net, hr, hpayload, hran.written hr]
      · simp [device_control, host_step, hhost, hctx, hnet, Place.net, hr, hpayload]
    | _ => exact hp.elim

/-- The end is at most `n` steps away. -/
theorem internal_run {as : List (Act S L)} (h : Inv regs s n) (hall : ∀ a ∈ as, a.internal)
    (hr : (device_control cb servicer_count polls).Run Allowed s as s') : as.length ≤ n := by
  induction hr generalizing n with
  | nil => exact Nat.zero_le _
  | cons _ hs _ ih =>
    obtain ⟨m, hm, h'⟩ := internal_step h (hall _ List.mem_cons_self) hs
    have := ih h' fun a ha => hall a (List.mem_cons_of_mem _ ha)
    rw [List.length_cons]
    omega

/-! ## Dispatch -/

/-- What holds in every state of the device control system. -/
structure Dispatched (cb : S → Callbacks σ) (servicer_count : Nat)
    (polls : List (Option (servicer_init_data_t S × Option L))) (s : State S L σ) : Prop where
  /-- A transfer that is due runs one callback, of the servicer of the resource, and any other runs none. -/
  correct : ∀ e ∈ s.results, (e.Due (registrations servicer_count polls) →
      ∃ k, e.calls = [k] ∧ e.Serves (registrations servicer_count polls) k) ∧
    (¬ e.Due (registrations servicer_count polls) → e.calls = [])
  /-- Between transfers no callback runs, and a transfer can be made, -/
  idle : s.host = .idle → s.calls = [] ∧ ∀ payload_buf direction, Allowed s (.transfer payload_buf direction) →
    ((device_control cb servicer_count polls).step s (.transfer payload_buf direction)).isSome
  /-- which returns after at most seven steps, in whatever order its threads take them. -/
  returns : s.host ≠ .idle → ∃ a, Act.internal a ∧ ((device_control cb servicer_count polls).step s a).isSome
  steps : ∀ as s', (∀ a ∈ as, Act.internal a) → (device_control cb servicer_count polls).Run Allowed s as s' →
    as.length ≤ 7
  registered : (registrations servicer_count polls).length = servicer_count
  /-- No resource has two servicers, -/
  unique : ∀ i j resid, ∀ (hi : i < (registrations servicer_count polls).length)
    (hj : j < (registrations servicer_count polls).length),
    resid ∈ (registrations servicer_count polls)[i].1.resources →
    resid ∈ (registrations servicer_count polls)[j].1.resources → i = j
  /-- and the special one has none. -/
  special : ∀ reg ∈ registrations servicer_count polls, CONTROL_SPECIAL_RESID ∉ reg.1.resources

theorem transfers_dispatched (h : (device_control cb servicer_count polls).Reachable Allowed s) :
    Dispatched cb servicer_count polls s := by
  have hinv : ∃ n, Inv (registrations servicer_count polls) s n :=
    h.inv (I := fun s => ∃ n, Inv (registrations servicer_count polls) s n) (fun _ h0 => ⟨0, inv_init h0⟩)
      fun _ _ _ hI hc hs => inv_step hI hc hs
  obtain ⟨n, hI⟩ := hinv
  obtain ⟨s₀, _, ⟨hctx, -⟩, -⟩ := h
  exact {
    correct := hI.results
    idle := fun hidle => by
      obtain ⟨rfl, -, hcalls⟩ := hI.phase.of_idle hidle
      refine ⟨hcalls, fun given direction hc => ?_⟩
      obtain ⟨s', m, hs, -⟩ := transfer_inv hI hidle hc
      simp [device_control, hidle, hs]
    returns := internal_enabled hI
    steps := fun as s' hall hr => Nat.le_trans (internal_run hI hall hr) hI.phase.le
    registered := (resources_register_success hctx).2
    unique := fun i j resid hi hj => hI.tables.unique hi hj
    special := fun reg hreg hspecial => (hI.tables.search ⟨reg, hreg, hspecial⟩).1 rfl }

end

/-- Servicer `false` on the host's tile and servicer `true` on another one. -/
def two_tiles : List (Option (servicer_init_data_t Bool × Option Unit)) :=
  [some (⟨false, [1, 2]⟩, none), none, some (⟨true, [7]⟩, some ())]

/-- Reads give nines, and writes an error. -/
def nines : Callbacks Unit :=
  ⟨fun _ _ payload _ => (.CONTROL_SUCCESS, payload.map fun _ => 9, ()), fun _ _ _ _ => (.CONTROL_ERROR, ()),
    fun _ _ _ _ => List.length_map _⟩

def two_tiles_results : List (Result Bool) :=
  [⟨1, 0x81, 2, [0, 0, 0], .CONTROL_DEVICE_TO_HOST, .CONTROL_SUCCESS, [9, 9, 0], 2,
      [⟨false, true, 1, 0x81, [0, 0], .CONTROL_SUCCESS, [9, 9]⟩]⟩,
    ⟨7, 0x80, 1, [0, 0], .CONTROL_DEVICE_TO_HOST, .CONTROL_SUCCESS, [9, 0], 1,
      [⟨true, true, 7, 0x80, [3], .CONTROL_SUCCESS, [9]⟩]⟩,
    ⟨7, 0x01, 1, [5, 6], .CONTROL_HOST_TO_DEVICE, .CONTROL_ERROR, [5, 6], 2,
      [⟨true, false, 7, 0x01, [5], .CONTROL_ERROR, []⟩]⟩,
    ⟨3, 0x01, 1, [5, 6], .CONTROL_HOST_TO_DEVICE, .CONTROL_BAD_COMMAND, [5, 6], 2, []⟩]

/-- A read on the host's tile, a read and a write on the other one, and a transfer
after a request of a resource that is not there. -/
theorem transfers_dispatched_two_tiles : ∃ s : State Bool Unit Unit,
    (device_control (fun _ => nines) 2 two_tiles).Reachable Allowed s ∧ s.results = two_tiles_results ∧
    Dispatched (fun _ => nines) 2 two_tiles s := by
  have hrun : ((device_control (fun _ => nines) 2 two_tiles).exec Allowed
      ⟨(device_control_resources_register (device_control_init 2) two_tiles).2, (0, 0, 0), [], .idle, .quiet, fun _ => (),
        [], []⟩
      (List.flatten [
        [.request 1 0x81 2, .transfer [0, 0, 0] .CONTROL_DEVICE_TO_HOST, .host], List.replicate 3 (.servicer false),
        [.host, .request 7 0x80 1, .transfer [0, 0] .CONTROL_DEVICE_TO_HOST, .host, .client () [3], .client () []],
        List.replicate 3 (.servicer true),
        [.host, .request 7 0x01 1, .transfer [5, 6] .CONTROL_HOST_TO_DEVICE, .host, .client () [], .client () []],
        List.replicate 3 (.servicer true), [.host, .request 3 0x01 1, .transfer [5, 6] .CONTROL_HOST_TO_DEVICE]])).map
          State.results =
      some two_tiles_results := by decide +kernel
  obtain ⟨s, hs, hobs⟩ := Option.map_eq_some_iff.1 hrun
  have hreach : (device_control (fun _ => nines) 2 two_tiles).Reachable Allowed s :=
    Machine.exec_reachable ⟨rfl, rfl, rfl, rfl, rfl, rfl⟩ hs
  exact ⟨s, hreach, hobs, transfers_dispatched hreach⟩

end DeviceControl
