import XcoreSdk.Gpio.Rpc
/-!
# Enabling and disabling a port's interrupt

The tasks of a tile, on any of its cores, set callbacks and enable or disable
interrupts, and each port's interrupt is serviced by `rtos_gpio_isr`, which takes
the tile's lock before it looks at anything and gives it back before the
callback. To disable is left to that routine: until it runs, the state is
`disable_pending`. One step is one critical section, or what the routine does
without the lock.
-/

namespace Gpio
namespace Local

variable {κ δ : Type*}

/-- `rtos_gpio_isr_info_t`, the one of a port. -/
structure Info (κ δ : Type*) extends IsrInfo κ δ where
  enabled : Interrupt
deriving DecidableEq

/-- Where the interrupt routine of a port is. -/
inductive Isr (κ δ : Type*)
  | idle
  | started
  | callback (value : UInt32) (info : IsrInfo κ δ)
  | set_trigger_value (value : UInt32)
deriving DecidableEq

structure Driver (κ δ : Type*) where
  isr_info : Nat → Option (Info κ δ)
  /-- Whether the port's trigger is on, and the value that it compares with. -/
  trigger : Nat → Bool
  trigger_value : Nat → UInt32
  isr : Nat → Isr κ δ
  /-- Set by an access through `NULL`. -/
  fault : Bool

/-- After `rtos_gpio_init`. -/
def rtos_gpio_init : Driver κ δ := ⟨fun _ => none, fun _ => false, fun _ => 0, fun _ => .idle, false⟩

variable (ctx : Driver κ δ) (port_id : Nat)

/-! ## The calls -/

def gpio_local_isr_callback_set (callback : κ) (isr_app_data : δ) : Driver κ δ :=
  { ctx with
    isr_info := Function.update ctx.isr_info port_id
      (some ⟨⟨callback, isr_app_data⟩, (ctx.isr_info port_id).elim .disabled Info.enabled⟩) }

/-- `value` is what `port_peek` gives. -/
def gpio_local_interrupt_enable (value : UInt32) : Driver κ δ :=
  match ctx.isr_info port_id with
  | none => { ctx with fault := true }
  | some info =>
    let ctx := if info.enabled = .disabled then
        { ctx with
          trigger_value := Function.update ctx.trigger_value port_id value
          trigger := Function.update ctx.trigger port_id true }
      else ctx
    { ctx with isr_info := Function.update ctx.isr_info port_id (some { info with enabled := .enabled }) }

def gpio_local_interrupt_disable : Driver κ δ :=
  match ctx.isr_info port_id with
  | none => ctx
  | some info =>
    if info.enabled ≠ .disabled then
      { ctx with isr_info := Function.update ctx.isr_info port_id (some { info with enabled := .disable_pending }) }
    else ctx

/-! ## The interrupt routine -/

/-- The critical section of `rtos_gpio_isr`, whose `port_in` gives `value`. Only a port with an `isr_info` has the
routine. -/
def rtos_gpio_isr (value : UInt32) : Option (Driver κ δ) :=
  match ctx.isr_info port_id with
  | none => none
  | some info =>
    if info.enabled = .disable_pending then
      some { ctx with
        trigger := Function.update ctx.trigger port_id false
        isr_info := Function.update ctx.isr_info port_id (some { info with enabled := .disabled })
        isr := Function.update ctx.isr port_id .idle }
    else some { ctx with isr := Function.update ctx.isr port_id (.callback value info.toIsrInfo) }

/-! ## Runs -/

inductive Act (κ δ : Type*)
  | isr_callback_set (port_id : Nat) (callback : κ) (isr_app_data : δ)
  | interrupt_enable (port_id : Nat) (value : UInt32)
  | interrupt_disable (port_id : Nat)
  /-- The core that services the port's interrupt enters the routine. -/
  | isr_start (port_id : Nat)
  /-- The routine gets the lock. -/
  | isr_enter (port_id : Nat) (value : UInt32)
  | isr_callback (port_id : Nat)
  | isr_return (port_id : Nat)

/-- The calls are for valid ports, as they assert. -/
def step (ctx : Driver κ δ) : Act κ δ → Option (Driver κ δ)
  | .isr_callback_set port_id callback isr_app_data =>
    if port_valid port_id then some (gpio_local_isr_callback_set ctx port_id callback isr_app_data) else none
  | .interrupt_enable port_id value =>
    if port_valid port_id then some (gpio_local_interrupt_enable ctx port_id value) else none
  | .interrupt_disable port_id =>
    if port_valid port_id then some (gpio_local_interrupt_disable ctx port_id) else none
  | .isr_start port_id =>
    match ctx.isr port_id with
    | .idle => if ctx.trigger port_id then some { ctx with isr := Function.update ctx.isr port_id .started } else none
    | _ => none
  | .isr_enter port_id value =>
    match ctx.isr port_id with
    | .started => rtos_gpio_isr ctx port_id value
    | _ => none
  | .isr_callback port_id =>
    match ctx.isr port_id with
    | .callback value _ => some { ctx with isr := Function.update ctx.isr port_id (.set_trigger_value value) }
    | _ => none
  | .isr_return port_id =>
    match ctx.isr port_id with
    | .set_trigger_value value => some { ctx with
        trigger_value := Function.update ctx.trigger_value port_id value
        isr := Function.update ctx.isr port_id .idle }
    | _ => none

/-! ## What is required -/

/-- The driver, and what has happened. -/
structure Traced (κ δ : Type*) where
  ctx : Driver κ δ
  /-- Whether the last call that enabled or disabled the port's interrupt enabled it, if there was one. -/
  asked : Nat → Option Bool
  /-- The port's last routine started after a call that disabled the interrupt and before the next one that enabled it. -/
  late : Nat → Bool

def asked_after (asked : Nat → Option Bool) : Act κ δ → Nat → Option Bool
  | .interrupt_enable port_id _ => Function.update asked port_id (some true)
  | .interrupt_disable port_id => Function.update asked port_id (some false)
  | _ => asked

def late_after (asked : Nat → Option Bool) (late : Nat → Bool) : Act κ δ → Nat → Bool
  | .isr_start port_id => Function.update late port_id (asked port_id == some false)
  | _ => late

def interrupts : Machine (Traced κ δ) (Act κ δ) where
  init s := s = ⟨rtos_gpio_init, fun _ => none, fun _ => false⟩
  step s a := (step s.ctx a).map fun ctx => ⟨ctx, asked_after s.asked a, late_after s.asked s.late a⟩

structure Sound (s : Traced κ δ) : Prop where
  trigger : ∀ p, s.ctx.trigger p = true ↔ ∃ info, s.ctx.isr_info p = some info ∧ info.enabled ≠ .disabled
  /-- A routine that started late does not get to its callback. -/
  silent : ∀ p value info, s.ctx.isr p = .callback value info → s.late p = false
  /-- Where the last call enabled the interrupt it works: the routine can start, and calls back. -/
  working : ∀ p, s.asked p = some true → s.ctx.trigger p = true ∧
    ∀ value, ∃ ctx' info, rtos_gpio_isr s.ctx p value = some ctx' ∧ ctx'.isr p = .callback value info
  no_fault : s.ctx.fault = false

/-- A port's callback is set before its interrupt is enabled. A routine that started late does not find the interrupt
enabled again when it gets the lock. -/
def Orderly (s : Traced κ δ) : Act κ δ → Prop
  | .interrupt_enable p _ => (s.ctx.isr_info p).isSome
  | .isr_enter p _ => s.late p = true → s.asked p ≠ some true
  | _ => True

/-! ## The invariant, port by port -/

/-- The state of a port's interrupt. -/
structure PortInv (record : Option (Info κ δ)) (on : Bool) (isr : Isr κ δ) (last : Option Bool) (late : Bool) : Prop where
  trigger : on = true ↔ ∃ info, record = some info ∧ info.enabled ≠ .disabled
  asked : last = some true ↔ ∃ info, record = some info ∧ info.enabled = .enabled
  started : isr = .started → on = true
  silent : ∀ value info, isr = .callback value info → late = false

def Traced.Port (s : Traced κ δ) (p : Nat) : Prop :=
  PortInv (s.ctx.isr_info p) (s.ctx.trigger p) (s.ctx.isr p) (s.asked p) (s.late p)

structure Traced.Inv (s : Traced κ δ) : Prop where
  port : ∀ p, s.Port p
  no_fault : s.ctx.fault = false

variable {s s' : Traced κ δ} {a : Act κ δ} {p : Nat} {info : Info κ δ}

theorem Traced.Inv.sound (h : s.Inv) : Sound s := by
  refine ⟨fun p => (h.port p).trigger, fun p => (h.port p).silent, fun p hp => ?_, h.no_fault⟩
  obtain ⟨info, hinfo, henabled⟩ := (h.port p).asked.1 hp
  refine ⟨(h.port p).trigger.2 ⟨info, hinfo, by rw [henabled]; decide⟩, fun value => ?_⟩
  have hpending : ¬ info.enabled = .disable_pending := by rw [henabled]; decide
  refine ⟨{ s.ctx with isr := Function.update s.ctx.isr p (.callback value info.toIsrInfo) }, info.toIsrInfo, ?_,
    Function.update_self ..⟩
  unfold rtos_gpio_isr
  rw [hinfo]
  exact if_neg hpending

/-- A step that keeps a port's invariant and leaves the other ports alone. -/
theorem Traced.Inv.of_port (h : s.Inv) (hp : s'.Port p) (hinfo : ∀ q ≠ p, s'.ctx.isr_info q = s.ctx.isr_info q)
    (htrigger : ∀ q ≠ p, s'.ctx.trigger q = s.ctx.trigger q) (hisr : ∀ q ≠ p, s'.ctx.isr q = s.ctx.isr q)
    (hasked : ∀ q ≠ p, s'.asked q = s.asked q) (hlate : ∀ q ≠ p, s'.late q = s.late q)
    (hfault : s'.ctx.fault = s.ctx.fault) : s'.Inv := by
  refine ⟨fun q => ?_, hfault.trans h.no_fault⟩
  by_cases hq : q = p
  · exact hq ▸ hp
  · have hport := h.port q
    unfold Traced.Port at hport ⊢
    rwa [hinfo q hq, htrigger q hq, hisr q hq, hasked q hq, hlate q hq]

/-! ## The steps -/

variable {record : Option (Info κ δ)} {on : Bool} {isr : Isr κ δ} {last : Option Bool} {late : Bool}

theorem PortInv.callback_set (h : PortInv record on isr last late) (callback : κ) (isr_app_data : δ) :
    PortInv (some ⟨⟨callback, isr_app_data⟩, record.elim .disabled Info.enabled⟩) on isr last late := by
  refine ⟨h.trigger.trans ?_, h.asked.trans ?_, h.started, h.silent⟩
  · cases record <;> simp
  · cases record <;> simp

theorem PortInv.enable (h : PortInv (some info) on isr last late) :
    PortInv (some { info with enabled := .enabled }) true isr (some true) late := by
  exact ⟨iff_of_true rfl ⟨_, rfl, nofun⟩, iff_of_true rfl ⟨_, rfl, rfl⟩, fun _ => rfl, h.silent⟩

theorem PortInv.on_of_enabled (h : PortInv (some info) on isr last late) (hinfo : info.enabled ≠ .disabled) : on = true :=
  h.trigger.2 ⟨info, rfl, hinfo⟩

theorem PortInv.disable (h : PortInv (some info) on isr last late) (hinfo : info.enabled ≠ .disabled) :
    PortInv (some { info with enabled := .disable_pending }) on isr (some false) late :=
  ⟨iff_of_true (h.on_of_enabled hinfo) ⟨_, rfl, nofun⟩, iff_of_false (by decide) (by simp), h.started, h.silent⟩

/-- There is nothing to disable. -/
theorem PortInv.disable_disabled (h : PortInv record on isr last late) (hrecord : ∀ info ∈ record, info.enabled = .disabled) :
    PortInv record on isr (some false) late := by
  refine ⟨h.trigger, iff_of_false (by decide) ?_, h.started, h.silent⟩
  rintro ⟨info, hinfo, henabled⟩
  rw [hrecord info hinfo] at henabled
  cases henabled

theorem PortInv.start (h : PortInv record true isr last late) (late' : Bool) : PortInv record true .started last late' :=
  ⟨h.trigger, h.asked, fun _ => rfl, nofun⟩

/-- The routine disables the interrupt. -/
theorem PortInv.enter_pending (h : PortInv (some info) on isr last late) (hinfo : info.enabled = .disable_pending) :
    PortInv (some { info with enabled := .disabled }) false .idle last late := by
  have hlast : last ≠ some true := by
    intro heq
    obtain ⟨info', hsome, henabled⟩ := h.asked.1 heq
    obtain rfl := Option.some.inj hsome
    rw [hinfo] at henabled
    cases henabled
  exact ⟨by simp, iff_of_false hlast (by simp), nofun, nofun⟩

/-- The routine goes on to its callback: the interrupt is enabled. -/
theorem PortInv.enter_enabled (h : PortInv (some info) on .started last late) (hinfo : info.enabled ≠ .disable_pending) :
    last = some true := by
  obtain ⟨info', hsome, hon⟩ := h.trigger.1 (h.started rfl)
  obtain rfl := Option.some.inj hsome
  refine h.asked.2 ⟨info, rfl, ?_⟩
  cases hstate : info.enabled with
  | disabled => exact absurd hstate hon
  | enabled => rfl
  | disable_pending => exact absurd hstate hinfo

theorem PortInv.enter (h : PortInv record on isr last late) (hlate : late = false) (value : UInt32) (info : IsrInfo κ δ) :
    PortInv record on (.callback value info) last late := ⟨h.trigger, h.asked, nofun, fun _ _ _ => hlate⟩

theorem PortInv.proceed (h : PortInv record on isr last late) {isr' : Isr κ δ} (hstarted : isr' ≠ .started)
    (hcallback : ∀ value info, isr' ≠ .callback value info) : PortInv record on isr' last late :=
  ⟨h.trigger, h.asked, fun heq => absurd heq hstarted, fun value info heq => absurd heq (hcallback value info)⟩

theorem Traced.Inv.call (h : s.Inv) {ctx : Driver κ δ} {asked : Nat → Option Bool}
    (hp : PortInv (ctx.isr_info p) (ctx.trigger p) (s.ctx.isr p) (asked p) (s.late p))
    (hinfo : ∀ q ≠ p, ctx.isr_info q = s.ctx.isr_info q) (htrigger : ∀ q ≠ p, ctx.trigger q = s.ctx.trigger q)
    (hasked : ∀ q ≠ p, asked q = s.asked q) (hisr : ctx.isr = s.ctx.isr) (hfault : ctx.fault = s.ctx.fault) :
    (⟨ctx, asked, s.late⟩ : Traced κ δ).Inv := by
  refine h.of_port ?_ hinfo htrigger (fun q _ => congrFun hisr q) hasked (fun q _ => rfl) hfault
  unfold Traced.Port
  dsimp only
  rwa [hisr]

theorem Traced.Inv.callback_set (h : s.Inv) (p : Nat) (callback : κ) (isr_app_data : δ) :
    (⟨gpio_local_isr_callback_set s.ctx p callback isr_app_data, s.asked, s.late⟩ : Traced κ δ).Inv := by
  have hport : PortInv _ _ _ _ _ := (h.port p).callback_set callback isr_app_data
  refine h.call ?_ (fun q hq => Function.update_of_ne hq ..) (fun q _ => rfl) (fun q _ => rfl) rfl rfl
  unfold gpio_local_isr_callback_set
  dsimp only
  rwa [Function.update_self]

theorem Traced.Inv.enable (h : s.Inv) (hsome : (s.ctx.isr_info p).isSome) (value : UInt32) :
    (⟨gpio_local_interrupt_enable s.ctx p value, Function.update s.asked p (some true), s.late⟩ : Traced κ δ).Inv := by
  obtain ⟨info, hinfo⟩ := Option.isSome_iff_exists.1 hsome
  have hport := h.port p
  unfold Traced.Port at hport
  rw [hinfo] at hport
  unfold gpio_local_interrupt_enable
  rw [hinfo]
  dsimp only
  by_cases hdisabled : info.enabled = .disabled
  · rw [if_pos hdisabled]
    refine h.call ?_ (fun q hq => Function.update_of_ne hq ..) (fun q hq => Function.update_of_ne hq ..)
      (fun q hq => Function.update_of_ne hq ..) rfl rfl
    simpa using hport.enable
  · rw [if_neg hdisabled]
    refine h.call ?_ (fun q hq => Function.update_of_ne hq ..) (fun q _ => rfl)
      (fun q hq => Function.update_of_ne hq ..) rfl rfl
    simpa [hport.on_of_enabled hdisabled] using hport.enable

theorem Traced.Inv.disable (h : s.Inv) (p : Nat) :
    (⟨gpio_local_interrupt_disable s.ctx p, Function.update s.asked p (some false), s.late⟩ : Traced κ δ).Inv := by
  have hport := h.port p
  unfold Traced.Port at hport
  have hnothing (hrecord : ∀ info ∈ s.ctx.isr_info p, info.enabled = .disabled) :
      (⟨s.ctx, Function.update s.asked p (some false), s.late⟩ : Traced κ δ).Inv := by
    refine h.call ?_ (fun q _ => rfl) (fun q _ => rfl) (fun q hq => Function.update_of_ne hq ..) rfl rfl
    rw [Function.update_self]
    exact hport.disable_disabled hrecord
  unfold gpio_local_interrupt_disable
  cases hinfo : s.ctx.isr_info p with
  | none => exact hnothing (by simp [hinfo])
  | some info =>
    rw [hinfo] at hport
    dsimp only
    by_cases hdisabled : info.enabled = .disabled
    · rw [if_neg (not_not_intro hdisabled)]
      exact hnothing (by simp [hinfo, hdisabled])
    · rw [if_pos hdisabled]
      refine h.call ?_ (fun q hq => Function.update_of_ne hq ..) (fun q _ => rfl)
        (fun q hq => Function.update_of_ne hq ..) rfl rfl
      simpa using hport.disable hdisabled

/-- The routine's steps leave the records and what was asked for alone, but for the one that disables. -/
theorem Traced.Inv.routine (h : s.Inv) {isr : Isr κ δ} {trigger_value : Nat → UInt32}
    (hp : PortInv (s.ctx.isr_info p) (s.ctx.trigger p) isr (s.asked p) (s.late p)) :
    (⟨{ s.ctx with trigger_value, isr := Function.update s.ctx.isr p isr }, s.asked, s.late⟩ : Traced κ δ).Inv := by
  refine h.of_port ?_ (fun q _ => rfl) (fun q _ => rfl) (fun q hq => Function.update_of_ne hq ..) (fun q _ => rfl)
    (fun q _ => rfl) rfl
  unfold Traced.Port
  dsimp only
  rwa [Function.update_self]

theorem Traced.Inv.start (h : s.Inv) (hon : s.ctx.trigger p = true) :
    (⟨{ s.ctx with isr := Function.update s.ctx.isr p .started }, s.asked,
      Function.update s.late p (s.asked p == some false)⟩ : Traced κ δ).Inv := by
  have hport := h.port p
  unfold Traced.Port at hport
  rw [hon] at hport
  refine h.of_port (p := p) ?_ (fun q _ => rfl) (fun q _ => rfl) (fun q hq => Function.update_of_ne hq ..)
    (fun q _ => rfl) (fun q hq => Function.update_of_ne hq ..) rfl
  unfold Traced.Port
  dsimp only
  rw [Function.update_self, hon]
  exact hport.start _

theorem Traced.Inv.enter (h : s.Inv) {value : UInt32} {ctx : Driver κ δ} (hisr : s.ctx.isr p = .started)
    (hlate : s.late p = true → s.asked p ≠ some true) (hs : rtos_gpio_isr s.ctx p value = some ctx) :
    (⟨ctx, s.asked, s.late⟩ : Traced κ δ).Inv := by
  have hport := h.port p
  unfold Traced.Port at hport
  rw [hisr] at hport
  unfold rtos_gpio_isr at hs
  cases hinfo : s.ctx.isr_info p with
  | none =>
    rw [hinfo] at hs
    cases hs
  | some info =>
    rw [hinfo] at hs hport
    dsimp only at hs
    by_cases hpending : info.enabled = .disable_pending
    · rw [if_pos hpending] at hs
      cases hs
      refine h.of_port (p := p) ?_ (fun q hq => Function.update_of_ne hq ..) (fun q hq => Function.update_of_ne hq ..)
        (fun q hq => Function.update_of_ne hq ..) (fun q _ => rfl) (fun q _ => rfl) rfl
      simpa [Traced.Port] using hport.enter_pending hpending
    · rw [if_neg hpending] at hs
      cases hs
      have hasked := hport.enter_enabled hpending
      have hearly : s.late p = false := Bool.eq_false_iff.2 fun heq => hlate heq hasked
      refine h.routine ?_
      rw [hinfo]
      exact hport.enter hearly value _

theorem Traced.Inv.step (h : s.Inv) (hc : Orderly s a) (hs : interrupts.step s a = some s') : s'.Inv := by
  obtain ⟨ctx, hctx, rfl⟩ := Option.map_eq_some_iff.1 hs
  cases a with
  | isr_callback_set p callback isr_app_data =>
    simp only [Local.step] at hctx
    split at hctx
    · cases hctx
      exact h.callback_set p callback isr_app_data
    · cases hctx
  | interrupt_enable p value =>
    simp only [Local.step] at hctx
    split at hctx
    · cases hctx
      exact h.enable hc value
    · cases hctx
  | interrupt_disable p =>
    simp only [Local.step] at hctx
    split at hctx
    · cases hctx
      exact h.disable p
    · cases hctx
  | isr_start p =>
    simp only [Local.step] at hctx
    split at hctx
    · split at hctx
      · rename_i hon
        cases hctx
        exact h.start hon
      · cases hctx
    · cases hctx
  | isr_enter p value =>
    simp only [Local.step] at hctx
    split at hctx
    · rename_i hisr
      exact h.enter hisr hc hctx
    · cases hctx
  | isr_callback p =>
    simp only [Local.step] at hctx
    split at hctx
    · cases hctx
      exact h.routine ((h.port p).proceed nofun nofun)
    · cases hctx
  | isr_return p =>
    simp only [Local.step] at hctx
    split at hctx
    · cases hctx
      exact h.routine ((h.port p).proceed nofun nofun)
    · cases hctx

theorem init_inv : (⟨rtos_gpio_init, fun _ => none, fun _ => false⟩ : Traced κ δ).Inv :=
  ⟨fun _ => ⟨by simp [rtos_gpio_init], by simp [rtos_gpio_init], nofun, nofun⟩, rfl⟩

/-- A step that is out of order is one too many. -/
theorem Traced.Inv.not_sound (h : s.Inv) (hc : ¬ Orderly s a) (hs : interrupts.step s a = some s') : ¬ Sound s' := by
  obtain ⟨ctx, hctx, rfl⟩ := Option.map_eq_some_iff.1 hs
  intro hsound
  cases a with
  | interrupt_enable p value =>
    have hnone : s.ctx.isr_info p = none := Option.not_isSome_iff_eq_none.1 hc
    simp only [Local.step] at hctx
    split at hctx
    · cases hctx
      have hfault := hsound.no_fault
      unfold gpio_local_interrupt_enable at hfault
      rw [hnone] at hfault
      cases hfault
    · cases hctx
  | isr_enter p value =>
    obtain ⟨hlate, hasked⟩ := Classical.not_imp.1 hc
    simp only [Local.step] at hctx
    split at hctx
    · rename_i hisr
      obtain ⟨info, hinfo, henabled⟩ := (h.port p).asked.1 (not_not.1 hasked)
      have hpending : ¬ info.enabled = .disable_pending := by
        rw [henabled]
        nofun
      unfold rtos_gpio_isr at hctx
      rw [hinfo] at hctx
      dsimp only at hctx
      rw [if_neg hpending] at hctx
      cases hctx
      have hearly := hsound.silent p value info.toIsrInfo (Function.update_self ..)
      exact Bool.noConfusion (hlate.symm.trans hearly)
    · cases hctx
  | isr_callback_set | interrupt_disable | isr_start | isr_callback | isr_return => exact hc trivial

theorem interrupts_sound_iff {as : List (Act κ δ)} {s₀ : Traced κ δ} (h0 : interrupts.init s₀)
    (h : interrupts.Run Machine.Free s₀ as s) :
    (∀ bs t, bs <+: as → interrupts.Run Machine.Free s₀ bs t → Sound t) ↔ interrupts.Run Orderly s₀ as s := by
  obtain rfl := h0
  exact Machine.Run.holds_iff (fun _ => Traced.Inv.sound) (fun _ _ _ => Traced.Inv.step) (fun _ _ _ => Traced.Inv.not_sound)
    init_inv h

/-! ## Two runs -/

/-- The interrupt is disabled and enabled again before its routine gets to run. -/
def overtaken : List (Act Unit Unit) :=
  [.isr_callback_set 3 () (), .interrupt_enable 3 0, .interrupt_disable 3, .interrupt_enable 3 0, .isr_start 3,
    .isr_enter 3 1, .isr_callback 3, .isr_return 3]

theorem interrupts_sound_overtaken : ∃ s, interrupts.Run Orderly ⟨rtos_gpio_init, fun _ => none, fun _ => false⟩ overtaken s ∧
    ∀ bs t, bs <+: overtaken → interrupts.Run Machine.Free ⟨rtos_gpio_init, fun _ => none, fun _ => false⟩ bs t →
      Sound t := by
  have hrun : ∃ s, interrupts.Run Orderly ⟨rtos_gpio_init, fun _ => none, fun _ => false⟩ overtaken s :=
    ⟨_, .cons trivial rfl (.cons rfl rfl (.cons trivial rfl (.cons rfl rfl (.cons trivial rfl
      (.cons (fun h => nomatch h) rfl (.cons trivial rfl (.cons trivial rfl (.nil _))))))))⟩
  obtain ⟨s, hrun⟩ := hrun
  exact ⟨s, hrun, (interrupts_sound_iff rfl (hrun.mono fun _ _ _ => trivial)).2 hrun⟩

/-- The record that the call writes to is not there. -/
theorem enable_without_record : ∃ s, interrupts.Run Machine.Free ⟨rtos_gpio_init, fun _ => none, fun _ => false⟩
    [(.interrupt_enable 0 0 : Act Unit Unit)] s ∧ ¬ Sound s :=
  ⟨_, .cons trivial rfl (.nil _), fun h => Bool.noConfusion h.no_fault⟩

end Local
end Gpio
