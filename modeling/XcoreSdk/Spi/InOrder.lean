import XcoreSdk.Spi.Transactions
/-!
# The RTOS SPI master: each task's operations

The operations that a task has issued have been sent, but for one that it is still about to
send. So when a transfer returns, it is the last one that has been performed for the task,
and its bytes are the ones that were received.
-/

namespace Spi
namespace RtosMaster
open FreeRtos
open QspiFlash.Locking (Actor Mutex mutex_get mutex_put)
variable {ι κ τ δ : Type*}

/-! ## Steps of a task -/

section
variable [DecidableEq ι] [DecidableEq κ]

/-- What a task or thread does in the four functions. -/
inductive Moves (s : Host ι κ τ δ) (a : Actor ι κ) : Host ι κ τ δ → Prop
  | get_mutex (owner : Owner ι κ τ) (ctx : δ) (lock : Mutex (Actor ι κ)) (priority : Nat) :
      s.actor a = .get_mutex owner ctx → mutex_get s.lock a = some lock → Moves s a ({ s with
        lock
        within := Function.update s.within a (some owner)
        }.goto a (.send ⟨owner, .transaction_start ctx, .SPI_OP_START ctx priority⟩))
  | send (item : Item ι κ τ δ) : s.actor a = .send item → Moves s a ({ s with
      xfer_req_queue := s.xfer_req_queue ++ [item]
      sent := s.sent ++ [(item.owner, item.op)] }.goto a item.req.next)
  | wait (place : Place κ) (ready : Nat) : s.actor a = .wait place → s.data_ready = ready + 1 → Moves s a ({ s with
      data_ready := ready
      returned := s.returned ++ s.returns a place }.goto a .idle)
  | put_mutex : s.actor a = .put_mutex → Moves s a ({ s with
      lock := mutex_put s.lock a
      within := Function.update s.within a none }.goto a .idle)

variable {s s' : Host ι κ τ δ} {a : Actor ι κ} {priority : Nat}

theorem moves_of_step (hs : actor_step s a priority = some s') : Moves s a s' := by
  unfold actor_step at hs
  split at hs
  case h_1 => cases hs
  case h_2 owner ctx hget =>
    obtain ⟨lock, hlock, rfl⟩ := Option.map_eq_some_iff.1 hs
    exact .get_mutex owner ctx lock priority hget hlock
  case h_3 item hsend =>
    obtain ⟨_, hqueue, rfl⟩ := Option.map_eq_some_iff.1 hs
    obtain ⟨-, rfl⟩ := queue_send_eq_some.1 hqueue
    exact .send item hsend
  case h_4 place hwait =>
    obtain ⟨ready, hready, rfl⟩ := Option.map_eq_some_iff.1 hs
    exact .wait place ready hwait (semaphore_get_eq_some.1 hready)
  case h_5 hput =>
    cases hs
    exact .put_mutex hput

/-! ## The order of a task's operations -/

/-- What is still to be sent. -/
def Local.asked : Local ι κ τ δ → List (Owner ι κ τ × Op δ)
  | .get_mutex owner ctx => [(owner, .transaction_start ctx)]
  | .send item => [item.asked]
  | _ => []

/-- A task's or thread's own calls, with its own memory. -/
def Local.Belongs (a : Actor ι κ) : Local ι κ τ δ → Prop
  | .get_mutex owner _ => owner.actor = a
  | .send item => item.owner.actor = a ∧ ∀ place ∈ item.req.data_in, place.Of a
  | .wait place => place.Of a
  | _ => True

variable [DecidableEq τ]

def asked_by (owner : Owner ι κ τ) (l : List (Owner ι κ τ × Op δ)) : List (Op δ) :=
  (l.filter (·.1 = owner)).map Prod.snd

/-- Nothing that a task issues is lost or changes its place. -/
def Ordered (s : Host ι κ τ δ) : Prop :=
  ∀ owner, asked_by owner (s.sent ++ (s.actor owner.actor).asked) = s.issued owner

/-- What a transfer returned with has been received by that transfer. -/
def Filled (s : Host ι κ τ δ) : Prop :=
  ∀ r ∈ s.returned, ∃ e, (s.performed r.owner)[r.number]? = some e ∧ e.op.receives ∧ e.received = r.bytes

theorem asked_by_append (owner : Owner ι κ τ) (l₁ l₂ : List (Owner ι κ τ × Op δ)) :
    asked_by owner (l₁ ++ l₂) = asked_by owner l₁ ++ asked_by owner l₂ := by
  rw [asked_by, List.filter_append, List.map_append]
  rfl

theorem asked_by_self (owner : Owner ι κ τ) (op : Op δ) : asked_by owner [(owner, op)] = [op] := by
  simp [asked_by]

theorem asked_by_other {owner owner' : Owner ι κ τ} (hne : owner' ≠ owner) (op : Op δ) :
    asked_by owner [(owner', op)] = [] := by
  simp [asked_by, hne]

theorem Ordered.move (h : Ordered s) (hbelongs : ∀ b, (s.actor b).Belongs b) (hs : Moves s a s') : Ordered s' := by
  have hframe : ∀ t : Host ι κ τ δ, t.sent = s.sent → t.issued = s.issued → (t.actor a).asked = (s.actor a).asked →
      (∀ b, b ≠ a → t.actor b = s.actor b) → Ordered t := by
    intro t hsent hissued hself hother owner
    rw [hsent, hissued, ← h owner]
    by_cases ha : owner.actor = a
    · rw [ha, hself]
    · rw [hother _ ha]
  cases hs with
  | get_mutex owner ctx lock priority ha _ =>
    exact hframe _ rfl rfl (by rw [goto_self, ha]; rfl) fun b hb => goto_other hb
  | wait place ready ha _ => exact hframe _ rfl rfl (by rw [goto_self, ha]; rfl) fun b hb => goto_other hb
  | put_mutex ha => exact hframe _ rfl rfl (by rw [goto_self, ha]; rfl) fun b hb => goto_other hb
  | send item ha =>
    have hitem : item.owner.actor = a := by
      have hb := hbelongs a
      rw [ha] at hb
      exact hb.1
    have hnext : (item.req.next : Local ι κ τ δ).asked = [] := by
      cases item.req with
      | SPI_OP_START | SPI_OP_DELAY | SPI_OP_END => rfl
      | SPI_OP_XFER ctx data_out data_in len => cases data_in <;> rfl
    intro owner
    refine Eq.trans ?_ (h owner)
    by_cases howner : owner.actor = a
    · rw [howner, goto_self, hnext, ha, List.append_nil]
      rfl
    · have hne : item.owner ≠ owner := fun heq => howner (heq ▸ hitem)
      rw [goto_other howner, asked_by_append, asked_by_append]
      dsimp only [Host.goto]
      rw [asked_by_append, asked_by_other hne, List.append_nil]

/-- A call of a task that is not in one. -/
theorem start_call_cases {owner : Owner ι κ τ} {call : Call δ (Place κ)} (hs : start_call s owner call = some s') :
    s.actor owner.actor = .idle ∧ ∃ pc copy allocated,
      s' = { s with
        copy, allocated
        issued := Function.update s.issued owner (s.issued owner ++ [call.op]) }.goto owner.actor pc ∧
      pc.asked = [(owner, call.op)] ∧ ((∀ place ∈ call.places, place.Of owner.actor) → pc.Belongs owner.actor) := by
  unfold start_call at hs
  split at hs
  · rename_i hidle
    cases hs
    refine ⟨hidle, ?_⟩
    cases call with
    | transaction_start => exact ⟨_, s.copy, s.allocated, rfl, rfl, fun _ => rfl⟩
    | delay_before_next_transfer => exact ⟨_, s.copy, s.allocated, rfl, rfl, fun _ => ⟨rfl, nofun⟩⟩
    | transaction_end => exact ⟨_, s.copy, s.allocated, rfl, rfl, fun _ => ⟨rfl, nofun⟩⟩
    | transfer ctx data_out data_in len =>
      cases data_in with
      | none => exact ⟨_, _, _, rfl, rfl, fun _ => ⟨rfl, nofun⟩⟩
      | some place => exact ⟨_, s.copy, s.allocated, rfl, rfl, fun hplaces => ⟨rfl, hplaces⟩⟩
  · cases hs

theorem Ordered.call {owner : Owner ι κ τ} {call : Call δ (Place κ)} (h : Ordered s)
    (hs : start_call s owner call = some s') : Ordered s' := by
  obtain ⟨hidle, pc, copy, allocated, rfl, hasked, -⟩ := start_call_cases hs
  intro o
  have ho := h o
  dsimp only [Host.goto]
  rw [asked_by_append] at ho ⊢
  by_cases howner : o = owner
  · subst howner
    rw [hidle] at ho
    rw [Function.update_self, Function.update_self, hasked, asked_by_self, ← ho]
    exact congrArg (· ++ _) (List.append_nil _).symm
  · rw [Function.update_of_ne howner, ← ho]
    by_cases hactor : o.actor = owner.actor
    · rw [hactor, Function.update_self, hasked, asked_by_other (Ne.symm howner), hidle]
      rfl
    · rw [Function.update_of_ne hactor]

/-! ## What transfers return with -/

/-- What has been performed for a task keeps its number. -/
theorem performed_stays {owner : Owner ι κ τ} {number : Nat} {e : Executed ι κ τ δ} {executed : List (Executed ι κ τ δ)}
    (hexecuted : s'.executed = s.executed ++ executed) (he : (s.performed owner)[number]? = some e) :
    (s'.performed owner)[number]? = some e := by
  have hperformed : s'.performed owner = s.performed owner ++ executed.filter (·.owner = owner) := by
    rw [Host.performed, hexecuted, List.filter_append]
    rfl
  obtain ⟨hlt, -⟩ := List.getElem?_eq_some_iff.1 he
  rw [hperformed, List.getElem?_append_left hlt]
  exact he

theorem Filled.grow (h : Filled s) {executed : List (Executed ι κ τ δ)} (hexecuted : s'.executed = s.executed ++ executed)
    (hreturned : s'.returned = s.returned) : Filled s' := by
  intro r hr
  rw [hreturned] at hr
  obtain ⟨e, he, hspec⟩ := h r hr
  exact ⟨e, performed_stays hexecuted he, hspec⟩

theorem performed_asked (s : Host ι κ τ δ) (owner : Owner ι κ τ) :
    asked_by owner (s.executed.map Executed.done) = (s.performed owner).map (·.op) := by
  rw [asked_by, List.filter_map, List.map_map]
  rfl

theorem Filled.wait {place : Place κ} {ready : Nat} (h : Filled s) (hserial : Serial s) (hordered : Ordered s)
    (ha : s.actor a = .wait place) (hready : s.data_ready = ready + 1) : Filled ({ s with
      data_ready := ready
      returned := s.returned ++ s.returns a place }.goto a .idle) := by
  obtain ⟨-, owner, front, e, hwithin, howner, hsent, hexecuted, rfl, hop, hbytes⟩ := hserial.wait ha hready []
  intro r hr
  dsimp only [Host.goto] at hr
  rcases List.mem_append.1 hr with hr | hr
  · exact h r hr
  · rw [Host.returns, hwithin] at hr
    obtain rfl := List.mem_singleton.1 hr
    refine ⟨e, ?_, hop, hbytes⟩
    have hissued : asked_by e.owner (s.sent ++ []) = s.issued e.owner := by
      rw [← hordered e.owner, howner, ha]
      rfl
    have hperformed : s.performed e.owner = front.filter (·.owner = e.owner) ++ [e] := by
      rw [Host.performed, hexecuted, List.filter_append]
      simp
    have hlength : (s.issued e.owner).length = (front.filter (·.owner = e.owner)).length + 1 := by
      rw [← hissued, List.append_nil, ← hsent, performed_asked, hperformed, List.length_map, List.length_append]
      rfl
    change (s.performed e.owner)[(s.issued e.owner).length - 1]? = some e
    rw [hperformed, hlength, Nat.add_sub_cancel]
    exact List.getElem?_concat_length

/-! ## Every step -/

/-- What holds however the tasks, the threads and `spi_xfer_thread` take turns. -/
structure Host.Inv (s : Host ι κ τ δ) : Prop where
  serial : Serial s
  ordered : Ordered s
  belongs : ∀ a, (s.actor a).Belongs a
  filled : Filled s

theorem init_inv (op_task_priority : Nat) (memory : Place κ → List UInt8) :
    (Host.init op_task_priority memory : Host ι κ τ δ).Inv := by
  have hquiet : Quiet (Host.init op_task_priority memory : Host ι κ τ δ) := ⟨rfl, nofun, nofun⟩
  refine ⟨⟨[], ⟨rfl, nofun, rfl, rfl, nofun, nofun, nofun⟩, .free rfl (fun _ => ⟨rfl, .inl rfl⟩) rfl hquiet⟩, fun _ => rfl,
    fun _ => trivial, nofun⟩

theorem Host.Inv.thread_step {received : List UInt8} (h : s.Inv) (hs : spi_xfer_thread s received = some s') : s'.Inv := by
  obtain ⟨-, -, hactor, hsent, hissued, hreturned, -, executed, hexecuted⟩ := thread_frame hs
  obtain ⟨held, hflow, hturn⟩ := h.serial
  refine ⟨⟨held, hflow.thread hs, hturn.thread_step hs⟩, fun owner => ?_, fun a => ?_, h.filled.grow hexecuted hreturned⟩
  · rw [hsent, hactor, hissued]
    exact h.ordered owner
  · rw [hactor]
    exact h.belongs a

theorem Host.Inv.move (h : s.Inv) (hs : Moves s a s') : s'.Inv := by
  have hordered := h.ordered.move h.belongs hs
  have hbelongs : ∀ t : Host ι κ τ δ, (t.actor a).Belongs a → (∀ b, b ≠ a → t.actor b = s.actor b) →
      ∀ b, (t.actor b).Belongs b := by
    intro t hself hother b
    by_cases hb : b = a
    · rw [hb]
      exact hself
    · rw [hother b hb]
      exact h.belongs b
  have hself := h.belongs a
  cases hs with
  | get_mutex owner ctx lock priority ha hget =>
    rw [ha] at hself
    refine ⟨h.serial.get_mutex ha hget, hordered, hbelongs _ ?_ fun b hb => goto_other hb, h.filled.grow (List.append_nil _).symm rfl⟩
    rw [goto_self]
    exact ⟨hself, nofun⟩
  | send item ha =>
    rw [ha] at hself
    refine ⟨h.serial.send ha, hordered, hbelongs _ ?_ fun b hb => goto_other hb, h.filled.grow (List.append_nil _).symm rfl⟩
    rw [goto_self]
    cases hreq : item.req with
    | SPI_OP_START | SPI_OP_DELAY | SPI_OP_END => trivial
    | SPI_OP_XFER ctx data_out data_in len =>
      cases data_in with
      | none => trivial
      | some place => exact hself.2 place (by rw [hreq]; rfl)
  | wait place ready ha hready =>
    refine ⟨(h.serial.wait ha hready _).1, hordered, hbelongs _ ?_ fun b hb => goto_other hb,
      h.filled.wait h.serial h.ordered ha hready⟩
    rw [goto_self]
    trivial
  | put_mutex ha =>
    refine ⟨h.serial.put_mutex ha, hordered, hbelongs _ ?_ fun b hb => goto_other hb, h.filled.grow (List.append_nil _).symm rfl⟩
    rw [goto_self]
    trivial

theorem Host.Inv.call {owner : Owner ι κ τ} {call : Call δ (Place κ)} (h : s.Inv) (hp : Proper s (.call owner call))
    (hs : start_call s owner call = some s') : s'.Inv := by
  have hserial := h.serial.call hp hs
  have hordered := h.ordered.call hs
  obtain ⟨-, pc, copy, allocated, rfl, -, hbelongs⟩ := start_call_cases hs
  refine ⟨hserial, hordered, fun b => ?_, h.filled.grow (List.append_nil _).symm rfl⟩
  by_cases hb : b = owner.actor
  · rw [hb, goto_self]
    exact hbelongs hp.2
  · rw [goto_other hb]
    exact h.belongs b

theorem Host.Inv.step {b : Act ι κ τ δ} (h : s.Inv) (hp : Proper s b) (hs : host.step s b = some s') : s'.Inv := by
  cases b with
  | call owner call => exact h.call hp hs
  | actor a priority => exact h.move (moves_of_step hs)
  | thread received => exact h.thread_step hs

/-- The tile by itself. -/
theorem host_inv (h : host.Reachable Proper s) : s.Inv := by
  refine h.inv (fun s hs => ?_) fun s b s' hs hp ht => hs.step hp ht
  obtain ⟨op_task_priority, memory, rfl⟩ := hs
  exact init_inv op_task_priority memory

/-! ## What follows from it -/

/-- The transactions are performed one after another. -/
theorem Host.Inv.contiguous (h : s.Inv) :
    ∃ opened, transactions.exec Machine.Free none (s.executed.map Executed.done) = some opened := by
  obtain ⟨held, hflow, hturn⟩ := h.serial
  obtain ⟨opened, hopened⟩ : ∃ opened, Opened s opened := by
    cases hturn with
    | free _ _ hopened => exact ⟨_, hopened⟩
    | held a owner held _ _ _ _ hown =>
      cases hown with
      | between _ hopened | send _ _ _ hopened | wait _ _ hopened | ending _ hopened => exact ⟨_, hopened⟩
  unfold Opened at hopened
  rw [← hflow.sent, Machine.exec_append] at hopened
  obtain ⟨opened, hexec, -⟩ := Option.bind_eq_some_iff.1 hopened
  exact ⟨opened, hexec⟩

theorem Host.Inv.in_order (h : s.Inv) (owner : Owner ι κ τ) : (s.performed owner).map (·.op) <+: s.issued owner := by
  obtain ⟨held, hflow, -⟩ := h.serial
  rw [← h.ordered owner, ← hflow.sent, List.append_assoc, asked_by_append, performed_asked]
  exact List.prefix_append ..

theorem Host.Inv.received (h : s.Inv) : ∀ e ∈ s.executed, e.op.receives → e.received.length = e.op.length := by
  obtain ⟨held, hflow, -⟩ := h.serial
  exact hflow.received

/-- Each copy is freed once, after it was sent, and each that was made is freed or still of use. -/
structure Freed (s : Host ι κ τ δ) : Prop where
  once : s.freed.Nodup
  sent : ∀ n ∈ s.freed, ∃ e ∈ s.executed, e.copy = some n
  own : (s.executed.filterMap (·.copy)).Nodup ∧ ∀ e ∈ s.executed, e.op.transmits → e.copy ≠ none
  all : ∀ n < s.allocated, n ∈ s.freed ∨ s.thread = .free (.copy n) ∨
    ∃ item, item.req.copy = some n ∧ (s.thread = .perform item ∨ item ∈ s.xfer_req_queue ∨ ∃ a, s.actor a = .send item)

theorem Host.Inv.copies_freed (h : s.Inv) : Freed s := by
  obtain ⟨held, hflow, hturn⟩ := h.serial
  have hnodup : (s.executed.filterMap (·.copy)).Nodup := by
    have hrange := List.nodup_range (n := s.allocated)
    rw [← hflow.copies] at hrange
    exact hrange.of_append_left
  refine ⟨?_, fun n hn => ?_, ⟨hnodup, hflow.transmitted⟩, fun n hn => ?_⟩
  · rw [hflow.freed] at hnodup
    exact List.Nodup.of_append_left hnodup
  · have hmem : n ∈ s.executed.filterMap (·.copy) := by
      rw [hflow.freed]
      exact List.mem_append_left _ hn
    exact List.mem_filterMap.1 hmem
  · have hmem := List.mem_range.2 hn
    rw [← hflow.copies, hflow.freed] at hmem
    rcases List.mem_append.1 hmem with hmem | hmem
    · rcases List.mem_append.1 hmem with hfreed | hfreeing
      · exact .inl hfreed
      · refine .inr (.inl ?_)
        cases hthread : s.thread with
        | receive | perform | put =>
          rw [hthread] at hfreeing
          cases hfreeing
        | free data_out =>
          rw [hthread] at hfreeing
          cases data_out with
          | caller => cases hfreeing
          | copy m => rw [List.mem_singleton.1 hfreeing]
    · obtain ⟨item, hitem, hcopy⟩ := List.mem_filterMap.1 hmem
      refine .inr (.inr ⟨item, hcopy, ?_⟩)
      rcases List.mem_append.1 hitem with hpending | hheld
      · rcases List.mem_append.1 hpending with hperform | hqueue
        · refine .inl ?_
          cases hthread : s.thread with
          | receive | put | free =>
            rw [hthread] at hperform
            cases hperform
          | perform i =>
            rw [hthread] at hperform
            rw [List.mem_singleton.1 hperform]
        · exact .inr (.inl hqueue)
      · refine .inr (.inr ?_)
        cases hturn with
        | free => cases hheld
        | held a owner held _ _ _ _ hown =>
          cases hown with
          | between | wait | ending => cases hheld
          | send i hsend =>
            rw [List.mem_singleton.1 hheld]
            exact ⟨a, hsend⟩

end
end RtosMaster
end Spi
