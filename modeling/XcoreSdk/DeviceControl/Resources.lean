import Mathlib.Logic.Function.Basic
import Mathlib.Data.List.Nodup
/-!
# Device control: registration

The host collects the messages of its servicers, its own tile's and those of
other tiles, in the order in which it finds them, and enters the resources of
each in a table under the servicer's number. A registration is known here by
its message and by the link that it came over, if it came over one.
-/

namespace DeviceControl

inductive control_ret_t
  | CONTROL_SUCCESS
  | CONTROL_REGISTRATION_FAILED
  | CONTROL_BAD_COMMAND
  | CONTROL_DATA_LENGTH_ERROR
  | CONTROL_OTHER_TRANSPORT_ERROR
  | CONTROL_ERROR
deriving DecidableEq, Repr

inductive control_direction_t
  | CONTROL_HOST_TO_DEVICE
  | CONTROL_DEVICE_TO_HOST
deriving DecidableEq, Repr

def CONTROL_VERSION : UInt8 := 0x10
def CONTROL_SPECIAL_RESID : UInt8 := 0
def NO_SERVICER : UInt8 := 255

def IS_CONTROL_CMD_READ (c : UInt8) : Bool := c &&& 0x80 != 0

def CONTROL_GET_VERSION : UInt8 := 0 ||| 0x80
def CONTROL_GET_LAST_COMMAND_STATUS : UInt8 := 1 ||| 0x80

/-- A status as the byte that is saved. -/
def control_ret_t.status : control_ret_t → UInt8
  | .CONTROL_SUCCESS => 0
  | .CONTROL_REGISTRATION_FAILED => 1
  | .CONTROL_BAD_COMMAND => 2
  | .CONTROL_DATA_LENGTH_ERROR => 3
  | .CONTROL_OTHER_TRANSPORT_ERROR => 4
  | .CONTROL_ERROR => 5

variable {S L : Type*}

/-- The message of a servicer, whose queue names it. -/
structure servicer_init_data_t (S : Type*) where
  queue : S
  resources : List UInt8

/-- An entry of the servicer table: the link to the servicer's tile, if it is on another one. -/
structure ServicerEntry (S L : Type*) where
  intertile_ctx : Option L
  queue : S
deriving DecidableEq

structure device_control_t (S L : Type*) where
  resource_table : UInt8 → UInt8
  servicer_count : Nat
  servicer_table : Nat → Option (ServicerEntry S L)
  requested_payload_len : Nat
  requested_resid : UInt8
  requested_cmd : UInt8
  last_status : UInt8

/-! ## The resource table -/

/-- The loop of `resource_table_add`. -/
def add_resources (table : UInt8 → UInt8) (servicer : UInt8) : List UInt8 → Nat × (UInt8 → UInt8)
  | [] => (0, table)
  | resid :: resources =>
    if resid = CONTROL_SPECIAL_RESID then (2, table)
    else if table resid ≠ NO_SERVICER then (3, table)
    else add_resources (Function.update table resid servicer) servicer resources

def resource_table_add (table : UInt8 → UInt8) (resources : List UInt8) (servicer : UInt8) : Nat × (UInt8 → UInt8) :=
  if servicer = NO_SERVICER then (1, table) else add_resources table servicer resources

def resource_table_search (table : UInt8 → UInt8) (resid : UInt8) : Nat × UInt8 :=
  (if resid = CONTROL_SPECIAL_RESID ∨ table resid ≠ NO_SERVICER then 0 else 1, table resid)

/-! ## Registration -/

/-- `device_control_init` in host mode. -/
def device_control_init (servicer_count : Nat) : device_control_t S L :=
  ⟨fun _ => NO_SERVICER, servicer_count, fun _ => none, 0, 0, 0, 0⟩

def servicer_register (ctx : device_control_t S L) (init_cmd : servicer_init_data_t S) (intertile_ctx : Option L)
    (servicer_index : Nat) : Nat × device_control_t S L :=
  let added := resource_table_add ctx.resource_table init_cmd.resources (UInt8.ofNat servicer_index)
  (added.1, { ctx with
    servicer_table := Function.update ctx.servicer_table servicer_index (some ⟨intertile_ctx, init_cmd.queue⟩)
    resource_table := added.2 })

/-- The loop of `device_control_resources_register`, over what its receives on
the gateway queue and on the links give, one after the other until it times
out. -/
def register_loop (ctx : device_control_t S L) (registered_count : Nat) :
    List (Option (servicer_init_data_t S × Option L)) → Nat × device_control_t S L
  | [] => (registered_count, ctx)
  | none :: polls => if registered_count < ctx.servicer_count then register_loop ctx registered_count polls
      else (registered_count, ctx)
  | some (init_cmd, intertile_ctx) :: polls =>
    if registered_count < ctx.servicer_count then
      let registered := servicer_register ctx init_cmd intertile_ctx registered_count
      if registered.1 = 0 then register_loop registered.2 (registered_count + 1) polls
      else (registered_count, registered.2)
    else (registered_count, ctx)

def device_control_resources_register (ctx : device_control_t S L)
    (polls : List (Option (servicer_init_data_t S × Option L))) : control_ret_t × device_control_t S L :=
  let registered := register_loop ctx 0 polls
  (if registered.1 = ctx.servicer_count then .CONTROL_SUCCESS else .CONTROL_REGISTRATION_FAILED, registered.2)

/-! ## What a registration leaves behind -/

theorem add_resources_success {table table' : UInt8 → UInt8} {servicer : UInt8} {resources : List UInt8}
    (hservicer : servicer ≠ NO_SERVICER) (h : add_resources table servicer resources = (0, table')) :
    resources.Nodup ∧ (∀ r ∈ resources, r ≠ CONTROL_SPECIAL_RESID ∧ table r = NO_SERVICER) ∧
      ∀ r, table' r = if r ∈ resources then servicer else table r := by
  induction resources generalizing table with
  | nil =>
    cases h
    exact ⟨.nil, nofun, fun r => rfl⟩
  | cons resid resources ih =>
    simp only [add_resources] at h
    split at h
    · cases h
    rename_i hspecial
    split at h
    · cases h
    rename_i hfree
    have hfree : table resid = NO_SERVICER := by simpa using hfree
    obtain ⟨hnd, hall, htable⟩ := ih h
    have hnot : resid ∉ resources := fun hmem => by
      have := (hall resid hmem).2
      rw [Function.update_self] at this
      exact hservicer this
    refine ⟨List.nodup_cons.2 ⟨hnot, hnd⟩, fun r hr => ?_, fun r => ?_⟩
    · rcases List.mem_cons.1 hr with rfl | hr
      · exact ⟨hspecial, hfree⟩
      · have hne : r ≠ resid := fun heq => hnot (heq ▸ hr)
        have := hall r hr
        rwa [Function.update_of_ne hne] at this
    · rw [htable r]
      by_cases hr : r = resid
      · subst hr; simp [hnot]
      · simp [hr]

/-- The tables after the registrations `regs`, in order. -/
structure Registered (ctx : device_control_t S L) (regs : List (servicer_init_data_t S × Option L)) : Prop where
  length : regs.length ≤ 255
  entry : ∀ i (h : i < regs.length), ctx.servicer_table i = some ⟨regs[i].2, regs[i].1.queue⟩
  /-- A resource is entered under the number of the servicer that named it. -/
  owner : ∀ r i (h : i < regs.length), r ∈ regs[i].1.resources ↔ ctx.resource_table r = UInt8.ofNat i
  free : ∀ r, ctx.resource_table r ≠ NO_SERVICER → ∃ i, ∃ h : i < regs.length, r ∈ regs[i].1.resources
  special : ∀ i (h : i < regs.length), CONTROL_SPECIAL_RESID ∉ regs[i].1.resources
  nodup : ∀ i (h : i < regs.length), regs[i].1.resources.Nodup

variable {ctx ctx' : device_control_t S L} {regs : List (servicer_init_data_t S × Option L)}

theorem ofNat_inj {i j : Nat} (hi : i ≤ 255) (hj : j ≤ 255) (h : UInt8.ofNat i = UInt8.ofNat j) : i = j := by
  have := congrArg UInt8.toNat h
  simp only [UInt8.toNat_ofNat'] at this
  omega

/-- No resource has two servicers. -/
theorem Registered.unique {r : UInt8} {i j : Nat} (h : Registered ctx regs) (hi : i < regs.length) (hj : j < regs.length)
    (hri : r ∈ regs[i].1.resources) (hrj : r ∈ regs[j].1.resources) : i = j := by
  have hlen := h.length
  exact ofNat_inj (by omega) (by omega) (((h.owner r i hi).1 hri).symm.trans ((h.owner r j hj).1 hrj))

theorem registered_init (servicer_count : Nat) :
    Registered (device_control_init (S := S) (L := L) servicer_count) [] :=
  ⟨Nat.zero_le _, nofun, nofun, fun _ h => absurd rfl h, nofun, nofun⟩

/-- One more servicer. -/
theorem Registered.register {init_cmd : servicer_init_data_t S} {intertile_ctx : Option L} (h : Registered ctx regs)
    (hs : servicer_register ctx init_cmd intertile_ctx regs.length = (0, ctx')) :
    Registered ctx' (regs ++ [(init_cmd, intertile_ctx)]) := by
  have hlen := h.length
  simp only [servicer_register, resource_table_add] at hs
  split at hs
  · cases hs
  rename_i hservicer
  obtain ⟨ret, table, hadd⟩ : ∃ ret table,
      add_resources ctx.resource_table (UInt8.ofNat regs.length) init_cmd.resources = (ret, table) := ⟨_, _, rfl⟩
  rw [hadd] at hs
  cases hs
  have hlt : regs.length < 255 := by
    by_contra hge
    obtain heq : regs.length = 255 := by omega
    rw [heq] at hservicer
    exact hservicer rfl
  obtain ⟨hnd, hall, htable⟩ := add_resources_success hservicer hadd
  have hcases : ∀ {i}, i < (regs ++ [(init_cmd, intertile_ctx)]).length → i < regs.length ∨ i = regs.length := by
    intro i hi
    rw [List.length_append, List.length_singleton] at hi
    omega
  refine ⟨by rw [List.length_append, List.length_singleton]; omega, fun i hi => ?_, fun r i hi => ?_, fun r hr => ?_,
    fun i hi => ?_, fun i hi => ?_⟩
  · rcases hcases hi with hi | rfl
    · rw [List.getElem_append_left hi]
      dsimp only
      rw [Function.update_of_ne (by omega)]
      exact h.entry i hi
    · simp
  · dsimp only
    rw [htable r]
    rcases hcases hi with hi | rfl
    · rw [List.getElem_append_left hi, h.owner r i hi]
      split
      · rename_i hmem
        rw [(hall r hmem).2]
        constructor
        · intro heq
          have := ofNat_inj (i := 255) (by omega) (by omega) heq
          omega
        · intro heq
          have := ofNat_inj (by omega) (by omega) heq
          omega
      · rfl
    · rw [List.getElem_append_right (Nat.le_refl _)]
      simp only [Nat.sub_self, List.getElem_singleton]
      split
      · simp [*]
      · rename_i hmem
        refine ⟨fun hr => absurd hr hmem, fun heq => ?_⟩
        obtain ⟨j, hj, hrj⟩ := h.free r (by rw [heq]; exact hservicer)
        have := ofNat_inj (by omega) (by omega) (((h.owner r j hj).1 hrj).symm.trans heq)
        omega
  · dsimp only at hr
    rw [htable r] at hr
    split at hr
    · rename_i hmem
      exact ⟨regs.length, by simp, by simpa using hmem⟩
    · obtain ⟨i, hi, hri⟩ := h.free r hr
      exact ⟨i, by rw [List.length_append]; omega, by rw [List.getElem_append_left hi]; exact hri⟩
  · rcases hcases hi with hi | rfl
    · rw [List.getElem_append_left hi]
      exact h.special i hi
    · rw [List.getElem_append_right (Nat.le_refl _)]
      simp only [Nat.sub_self, List.getElem_singleton]
      exact fun hmem => (hall _ hmem).1 rfl
  · rcases hcases hi with hi | rfl
    · rw [List.getElem_append_left hi]
      exact h.nodup i hi
    · rw [List.getElem_append_right (Nat.le_refl _)]
      simpa using hnd

theorem servicer_register_count {init_cmd : servicer_init_data_t S} {intertile_ctx : Option L} {index : Nat} :
    (servicer_register ctx init_cmd intertile_ctx index).2.servicer_count = ctx.servicer_count := rfl

/-- The loop enters the servicers in the order in which their messages come. -/
theorem Registered.loop {polls : List (Option (servicer_init_data_t S × Option L))} (h : Registered ctx regs)
    (hs : register_loop ctx regs.length polls = (ctx.servicer_count, ctx')) :
    ∃ regs', Registered ctx' regs' ∧ regs'.length = ctx.servicer_count ∧ regs' <+: regs ++ polls.filterMap id := by
  induction polls generalizing ctx regs with
  | nil =>
    obtain ⟨hn, rfl⟩ := Prod.mk.inj hs
    exact ⟨regs, h, hn, List.prefix_append _ _⟩
  | cons poll polls ih =>
    cases poll with
    | none =>
      simp only [register_loop] at hs
      split at hs
      · exact ih h hs
      · obtain ⟨hn, rfl⟩ := Prod.mk.inj hs
        exact ⟨regs, h, hn, List.prefix_append _ _⟩
    | some reg =>
      obtain ⟨init_cmd, intertile_ctx⟩ := reg
      simp only [register_loop] at hs
      split at hs
      · rename_i hlt
        split at hs
        · rename_i hret
          have hreg : servicer_register ctx init_cmd intertile_ctx regs.length =
              (0, (servicer_register ctx init_cmd intertile_ctx regs.length).2) := Prod.ext hret rfl
          have hnext := h.register hreg
          rw [show regs.length + 1 = (regs ++ [(init_cmd, intertile_ctx)]).length by simp] at hs
          obtain ⟨regs', h', hlen, hpre⟩ := ih hnext hs
          exact ⟨regs', h', hlen, by simpa using hpre⟩
        · obtain ⟨hn, -⟩ := Prod.mk.inj hs
          omega
      · obtain ⟨hn, rfl⟩ := Prod.mk.inj hs
        exact ⟨regs, h, hn, List.prefix_append _ _⟩

/-- A successful registration has entered the first messages, one for each servicer. -/
theorem resources_register_success {servicer_count : Nat} {polls : List (Option (servicer_init_data_t S × Option L))}
    (h : device_control_resources_register (device_control_init servicer_count) polls = (.CONTROL_SUCCESS, ctx)) :
    Registered ctx ((polls.filterMap id).take servicer_count) ∧
      ((polls.filterMap id).take servicer_count).length = servicer_count := by
  simp only [device_control_resources_register, Prod.mk.injEq] at h
  obtain ⟨hret, rfl⟩ := h
  split at hret
  case isFalse => cases hret
  rename_i hcount
  obtain ⟨regs, hreg, hlen, hpre⟩ := (registered_init servicer_count).loop (Prod.ext hcount rfl)
  have hlen : regs.length = servicer_count := hlen
  rw [List.nil_append] at hpre
  have htake := List.prefix_iff_eq_take.1 hpre
  rw [hlen] at htake
  rw [← htake]
  exact ⟨hreg, hlen⟩

end DeviceControl
