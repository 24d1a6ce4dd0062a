import XcoreSdk.DeviceControl.Resources
/-!
# Device control: a servicer that is rejected

`resource_table_add` enters a resource before it looks at the next one. Where a
list is rejected, what stands before the first bad resource stays in the table,
under the number of a servicer that is not there.
-/

namespace DeviceControl
variable {S L : Type*} {table : UInt8 → UInt8} {servicer : UInt8} {resources : List UInt8}

/-- Every resource of the list can be entered. -/
def Accepted (table : UInt8 → UInt8) (resources : List UInt8) : Prop :=
  resources.Nodup ∧ ∀ r ∈ resources, r ≠ CONTROL_SPECIAL_RESID ∧ table r = NO_SERVICER

/-- The list is entered as a whole or not at all: its first resource is good only if all are. -/
def Whole (table : UInt8 → UInt8) (resources : List UInt8) (servicer : UInt8) : Prop :=
  servicer = NO_SERVICER ∨ Accepted table resources ∨
    ∃ r ∈ resources.head?, r = CONTROL_SPECIAL_RESID ∨ table r ≠ NO_SERVICER

/-- Commands for the resource go to the servicer with this number. -/
def Routed (table : UInt8 → UInt8) (r servicer : UInt8) : Prop :=
  r ≠ CONTROL_SPECIAL_RESID ∧ resource_table_search table r = (0, servicer)

/-- The servicer that ends the registration, with the table that it finds and its number. -/
def rejected (ctx : device_control_t S L) (registered_count : Nat) :
    List (Option (servicer_init_data_t S × Option L)) → Option ((UInt8 → UInt8) × servicer_init_data_t S × UInt8)
  | [] => none
  | none :: polls => if registered_count < ctx.servicer_count then rejected ctx registered_count polls else none
  | some (init_cmd, intertile_ctx) :: polls =>
    if registered_count < ctx.servicer_count then
      let registered := servicer_register ctx init_cmd intertile_ctx registered_count
      if registered.1 = 0 then rejected registered.2 (registered_count + 1) polls
      else some (ctx.resource_table, init_cmd, UInt8.ofNat registered_count)
    else none

/-! ## The table after a failure -/

/-- What `resource_table_add` has done when it fails: it has entered the resources before the bad one. -/
theorem add_resources_failure (hservicer : servicer ≠ NO_SERVICER) (h : (add_resources table servicer resources).1 ≠ 0) :
    ∃ entered bad rest, resources = entered ++ bad :: rest ∧ Accepted table entered ∧
      (bad = CONTROL_SPECIAL_RESID ∨ table bad ≠ NO_SERVICER ∨ bad ∈ entered) ∧
      ∀ r, (add_resources table servicer resources).2 r = if r ∈ entered then servicer else table r := by
  induction resources generalizing table with
  | nil => exact absurd rfl h
  | cons resid resources ih =>
    unfold add_resources at h ⊢
    by_cases hspecial : resid = CONTROL_SPECIAL_RESID
    · rw [if_pos hspecial]
      exact ⟨[], resid, resources, rfl, ⟨.nil, by simp⟩, .inl hspecial, fun r => rfl⟩
    rw [if_neg hspecial] at h ⊢
    by_cases hfree : table resid = NO_SERVICER
    · rw [if_neg (not_not_intro hfree)] at h ⊢
      obtain ⟨entered, bad, rest, rfl, ⟨hnodup, hall⟩, hbad, htable⟩ := ih h
      have hnew : resid ∉ entered := by
        intro hmem
        have hnone := (hall resid hmem).2
        rw [Function.update_self] at hnone
        exact hservicer hnone
      refine ⟨resid :: entered, bad, rest, rfl, ⟨List.nodup_cons.2 ⟨hnew, hnodup⟩, ?_⟩, ?_, ?_⟩
      · intro r hr
        rcases List.mem_cons.1 hr with rfl | hr
        · exact ⟨hspecial, hfree⟩
        · have hne : r ≠ resid := fun heq => hnew (heq ▸ hr)
          have hr := hall r hr
          rwa [Function.update_of_ne hne] at hr
      · by_cases heq : bad = resid
        · exact .inr (.inr (heq ▸ List.mem_cons_self))
        · rw [Function.update_of_ne heq] at hbad
          exact hbad.imp id (Or.imp id (List.mem_cons_of_mem resid))
      · intro r
        rw [htable r]
        by_cases heq : r = resid
        · subst heq
          simp [hnew]
        · simp [heq]
    · rw [if_pos hfree]
      exact ⟨[], resid, resources, rfl, ⟨.nil, by simp⟩, .inr (.inl hfree), fun r => rfl⟩

/-- A list with a bad resource behind good ones is not accepted. -/
theorem not_accepted {entered rest : List UInt8} {bad : UInt8}
    (hbad : bad = CONTROL_SPECIAL_RESID ∨ table bad ≠ NO_SERVICER ∨ bad ∈ entered) :
    ¬ Accepted table (entered ++ bad :: rest) := by
  rintro ⟨hnodup, hall⟩
  obtain ⟨hspecial, hfree⟩ := hall bad (List.mem_append_right _ List.mem_cons_self)
  rcases hbad with hbad | hbad | hbad
  · exact hspecial hbad
  · exact hbad hfree
  · exact (List.nodup_append.1 hnodup).2.2 bad hbad bad List.mem_cons_self rfl

/-- Where the list is not entered as a whole, its first resource stays in the table. -/
theorem add_failure_iff (h : (resource_table_add table resources servicer).1 ≠ 0) :
    (Whole table resources servicer ∧ (resource_table_add table resources servicer).2 = table) ∨
      ¬ Whole table resources servicer ∧ servicer ≠ NO_SERVICER ∧ ∃ r ∈ resources, r ≠ CONTROL_SPECIAL_RESID ∧
        table r = NO_SERVICER ∧ (resource_table_add table resources servicer).2 r = servicer := by
  unfold resource_table_add at h ⊢
  by_cases hservicer : servicer = NO_SERVICER
  · rw [if_pos hservicer]
    exact .inl ⟨.inl hservicer, rfl⟩
  rw [if_neg hservicer] at h ⊢
  obtain ⟨entered, bad, rest, rfl, haccepted, hbad, htable⟩ := add_resources_failure hservicer h
  have hnot : ¬ Accepted table (entered ++ bad :: rest) := not_accepted hbad
  cases entered with
  | nil =>
    have hbad : bad = CONTROL_SPECIAL_RESID ∨ table bad ≠ NO_SERVICER := hbad.imp id (Or.resolve_right · (List.not_mem_nil))
    exact .inl ⟨.inr (.inr ⟨bad, rfl, hbad⟩), funext htable⟩
  | cons r entered =>
    obtain ⟨hspecial, hfree⟩ := haccepted.2 r List.mem_cons_self
    refine .inr ⟨?_, hservicer, r, List.mem_cons_self, hspecial, hfree, ?_⟩
    · rintro (heq | heq | ⟨r', hr', hbad'⟩)
      · exact hservicer heq
      · exact hnot heq
      · obtain rfl := Option.some.inj hr'
        exact hbad'.elim hspecial (fun h => h hfree)
    · rw [htable r]
      exact if_pos List.mem_cons_self

theorem add_success (h : (resource_table_add table resources servicer).1 = 0) : Accepted table resources := by
  unfold resource_table_add at h
  by_cases hservicer : servicer = NO_SERVICER
  · rw [if_pos hservicer] at h
    cases h
  · rw [if_neg hservicer] at h
    obtain ⟨hnodup, hall, -⟩ := add_resources_success hservicer (Prod.ext h rfl)
    exact ⟨hnodup, hall⟩

/-! ## The registration that it ends -/

variable {ctx : device_control_t S L} {regs : List (servicer_init_data_t S × Option L)} {init_cmd : servicer_init_data_t S}

/-- The servicers before it are registered, and the registration stops there. -/
theorem Registered.rejected {polls : List (Option (servicer_init_data_t S × Option L))} (h : Registered ctx regs)
    (hrejected : rejected ctx regs.length polls = some (table, init_cmd, servicer)) :
    ∃ ctx' regs' intertile_ctx, Registered ctx' regs' ∧ ctx'.resource_table = table ∧
      servicer = UInt8.ofNat regs'.length ∧ regs'.length < ctx.servicer_count ∧
      (servicer_register ctx' init_cmd intertile_ctx regs'.length).1 ≠ 0 ∧
      register_loop ctx regs.length polls =
        (regs'.length, (servicer_register ctx' init_cmd intertile_ctx regs'.length).2) := by
  induction polls generalizing ctx regs with
  | nil => cases hrejected
  | cons poll polls ih =>
    cases poll with
    | none =>
      unfold DeviceControl.rejected at hrejected
      unfold register_loop
      split at hrejected
      · rename_i hlt
        rw [if_pos hlt]
        exact ih h hrejected
      · cases hrejected
    | some reg =>
      obtain ⟨init, intertile_ctx⟩ := reg
      unfold DeviceControl.rejected at hrejected
      unfold register_loop
      split at hrejected
      · rename_i hlt
        rw [if_pos hlt]
        dsimp only at hrejected ⊢
        split at hrejected
        · rename_i hret
          have hnext := h.register (Prod.ext hret rfl : servicer_register ctx init intertile_ctx regs.length = (0, _))
          have hlen : regs.length + 1 = (regs ++ [(init, intertile_ctx)]).length := by
            rw [List.length_append, List.length_singleton]
          rw [if_pos hret, hlen]
          rw [hlen] at hrejected
          exact ih hnext hrejected
        · rename_i hret
          rw [if_neg hret]
          cases hrejected
          exact ⟨ctx, regs, intertile_ctx, h, rfl, rfl, hlt, hret, rfl⟩
      · cases hrejected

/-- Its number is new. -/
theorem Registered.ne_length (h : Registered ctx regs) (hservicer : UInt8.ofNat regs.length ≠ NO_SERVICER) (r : UInt8) :
    ctx.resource_table r ≠ UInt8.ofNat regs.length := by
  intro heq
  obtain ⟨i, hi, hmem⟩ := h.free r (heq ▸ hservicer)
  have hlen := h.length
  have hi' := ofNat_inj (by omega) (by omega) (((h.owner r i hi).1 hmem).symm.trans heq)
  omega

theorem not_routed {r : UInt8} (h : servicer ≠ NO_SERVICER → table r ≠ servicer) : ¬ Routed table r servicer := by
  rintro ⟨hspecial, hsearch⟩
  obtain ⟨hret, hr⟩ := Prod.mk.inj hsearch
  by_cases hservicer : servicer = NO_SERVICER
  · rw [hr, hservicer, if_neg (not_or_intro hspecial (not_not_intro rfl))] at hret
    cases hret
  · exact h hservicer hr

theorem routed_of_eq {r : UInt8} (hspecial : r ≠ CONTROL_SPECIAL_RESID) (hservicer : servicer ≠ NO_SERVICER)
    (h : table r = servicer) : Routed table r servicer := by
  refine ⟨hspecial, Prod.ext (if_pos (.inr ?_)) h⟩
  rwa [h]

/-- A failure leaves the table as it was just where the list is entered as a whole, and just then no resource of a
rejected servicer is routed to it. -/
theorem registration_whole_iff (servicer_count : Nat) (polls : List (Option (servicer_init_data_t S × Option L))) :
    (∀ table resources servicer, ((resource_table_add table resources servicer).1 ≠ 0 →
        (resource_table_add table resources servicer).2 = table) ↔ Whole table resources servicer) ∧
      ∀ table init_cmd servicer,
        rejected (device_control_init servicer_count) 0 polls = some (table, init_cmd, servicer) →
          (device_control_resources_register (device_control_init servicer_count) polls).1 = .CONTROL_REGISTRATION_FAILED ∧
          ((∀ r ∈ init_cmd.resources, ¬ Routed
              (device_control_resources_register (device_control_init servicer_count) polls).2.resource_table r servicer) ↔
            Whole table init_cmd.resources servicer) := by
  constructor
  · intro table resources servicer
    by_cases hret : (resource_table_add table resources servicer).1 = 0
    · exact iff_of_true (fun hne => absurd hret hne) (.inr (.inl (add_success hret)))
    · rcases add_failure_iff hret with ⟨hwhole, htable⟩ | ⟨hwhole, hservicer, r, -, -, hfree, hr⟩
      · exact iff_of_true (fun _ => htable) hwhole
      · refine iff_of_false (fun hsame => hservicer ?_) hwhole
        rw [← hr, hsame hret, hfree]
  · intro table init_cmd servicer hrejected
    obtain ⟨ctx, regs, intertile_ctx, hregs, rfl, rfl, hlt, hret, hloop⟩ :=
      (registered_init servicer_count).rejected hrejected
    have hloop : register_loop (device_control_init servicer_count) 0 polls = _ := hloop
    unfold device_control_resources_register
    rw [hloop]
    refine ⟨if_neg (Nat.ne_of_lt hlt), ?_⟩
    rcases add_failure_iff hret with ⟨hwhole, htable⟩ | ⟨hwhole, hservicer, r, hmem, hspecial, -, hr⟩
    · refine iff_of_true (fun r _ => not_routed fun hservicer => ?_) hwhole
      show (resource_table_add ctx.resource_table init_cmd.resources (UInt8.ofNat regs.length)).2 r ≠ _
      rw [htable]
      exact hregs.ne_length hservicer r
    · exact iff_of_false (fun hnone => hnone r hmem (routed_of_eq hspecial hservicer hr)) hwhole

/-- A servicer whose second resource is the reserved one. -/
def reserved_second : servicer_init_data_t Unit := ⟨(), [5, CONTROL_SPECIAL_RESID]⟩

theorem registration_whole_reserved_second :
    (device_control_resources_register (device_control_init 1) [some (reserved_second, (none : Option Unit))]).1 =
        .CONTROL_REGISTRATION_FAILED ∧
      ¬ ∀ r ∈ reserved_second.resources, ¬ Routed (device_control_resources_register (device_control_init 1)
        [some (reserved_second, (none : Option Unit))]).2.resource_table r 0 := by
  obtain ⟨hret, hiff⟩ := (registration_whole_iff 1 [some (reserved_second, (none : Option Unit))]).2
    (fun _ => NO_SERVICER) reserved_second 0 rfl
  refine ⟨hret, fun hnone => ?_⟩
  rcases hiff.1 hnone with h | ⟨-, h⟩ | ⟨r, hr, h⟩
  · exact absurd h (by decide)
  · exact (h CONTROL_SPECIAL_RESID (by decide)).1 rfl
  · obtain rfl := Option.some.inj hr
    exact h.elim (by decide) (fun h => h rfl)

/-- Resource 5 stays in the table, and its commands go to a servicer that is not there. -/
theorem reserved_second_left :
    ¬ ((resource_table_add (fun _ => NO_SERVICER) reserved_second.resources 0).1 ≠ 0 →
        (resource_table_add (fun _ => NO_SERVICER) reserved_second.resources 0).2 = fun _ => NO_SERVICER) ∧
      Routed (device_control_resources_register (device_control_init 1)
        [some (reserved_second, (none : Option Unit))]).2.resource_table 5 0 := by
  refine ⟨fun h => ?_, by decide, rfl⟩
  have h5 := congrFun (h (by decide)) 5
  exact absurd h5 (by decide)

end DeviceControl
