import XcoreSdk.Spi.RtosMaster
import Mathlib.Data.List.Nodup
import Mathlib.Data.List.Range
/-!
# The RTOS SPI master: transactions

What goes through the queue is in the order of sending, and only the holder of the lock
sends. So the requests of a transaction stand next to each other, and where a task waits
for its bytes, its own request is the last one on the way, or has just been performed.
-/

namespace Spi
namespace RtosMaster
open FreeRtos
open QspiFlash.Locking (Actor Mutex mutex_get mutex_put)
variable {ι κ τ δ : Type*}

/-! ## What is promised -/

section
variable [DecidableEq ι] [DecidableEq κ] [DecidableEq τ]

/-- Whose transaction is under way. -/
def transactions : Machine (Option (Owner ι κ τ)) (Owner ι κ τ × Op δ) where
  init s := s = none
  step s a :=
    match a.2 with
    | .transaction_start _ => if s = none then some (some a.1) else none
    | .transaction_end _ => if s = some a.1 then some none else none
    | _ => if s = some a.1 then some s else none

def Host.performed (s : Host ι κ τ δ) (owner : Owner ι κ τ) : List (Executed ι κ τ δ) :=
  s.executed.filter (·.owner = owner)

end

def Call.receives {ρ : Type*} (call : Call δ ρ) : Prop := call.places ≠ none

def Call.length {ρ : Type*} : Call δ ρ → Nat
  | .transfer _ _ _ len => len
  | _ => 0

def Call.transmits {ρ : Type*} : Call δ ρ → Prop
  | .transfer _ _ none _ => True
  | _ => False

/-! ## On the way to the thread -/

def Thread.items : Thread ι κ τ δ → List (Item ι κ τ δ)
  | .perform item => [item]
  | _ => []

def Thread.freeing : Thread ι κ τ δ → List Nat
  | .free data_out => data_out.copies.toList
  | _ => []

def Host.pending (s : Host ι κ τ δ) : List (Item ι κ τ δ) := s.thread.items ++ s.xfer_req_queue

def Item.asked (item : Item ι κ τ δ) : Owner ι κ τ × Op δ := (item.owner, item.op)

def Executed.done (e : Executed ι κ τ δ) : Owner ι κ τ × Op δ := (e.owner, e.op)

def spi_xfer_req_t.data_in : spi_xfer_req_t κ δ → Option (Place κ)
  | .SPI_OP_XFER _ _ data_in _ => data_in
  | _ => none

/-- A request of transmission has a copy, and no other one. -/
def spi_xfer_req_t.Copied : spi_xfer_req_t κ δ → Prop
  | .SPI_OP_XFER _ data_out data_in _ => data_out.copies = none ↔ data_in ≠ none
  | _ => True

/-- The request still stands for what was asked. -/
structure Host.Intact (s : Host ι κ τ δ) (item : Item ι κ τ δ) : Prop where
  performs : s.performs item.req = item.op
  copied : item.req.Copied

/-- `held` is what the holder of the lock is about to send. -/
structure Flow (s : Host ι κ τ δ) (held : List (Item ι κ τ δ)) : Prop where
  sent : s.executed.map Executed.done ++ s.pending.map Item.asked = s.sent
  intact : ∀ item ∈ s.pending ++ held, s.Intact item
  copies : s.executed.filterMap (·.copy) ++ (s.pending ++ held).filterMap (·.req.copy) = List.range s.allocated
  freed : s.executed.filterMap (·.copy) = s.freed ++ s.thread.freeing
  freeing : ∀ data_out, s.thread = .free data_out → data_out.copies ≠ none
  transmitted : ∀ e ∈ s.executed, e.op.transmits → e.copy ≠ none
  received : ∀ e ∈ s.executed, e.op.receives → e.received.length = e.op.length

variable {s s' : Host ι κ τ δ} {held : List (Item ι κ τ δ)} {item : Item ι κ τ δ} {received : List UInt8}

theorem Host.Intact.frame (h : s.Intact item) (hcopy : ∀ n, item.req.copy = some n → s'.copy n = s.copy n) :
    s'.Intact item := by
  refine ⟨?_, h.copied⟩
  rw [← h.performs]
  cases hreq : item.req with
  | SPI_OP_START | SPI_OP_DELAY | SPI_OP_END => rfl
  | SPI_OP_XFER ctx data_out data_in len =>
    have hcopied := h.copied
    rw [hreq] at hcopied hcopy
    cases data_out with
    | caller => rfl
    | copy n =>
      cases data_in with
      | some place => exact absurd (hcopied.2 nofun) nofun
      | none =>
        dsimp only [Host.performs, Host.data_out]
        rw [hcopy n rfl]

theorem Host.Intact.transmits (h : s.Intact item) (htransmits : (s.performs item.req).transmits) : item.req.copy ≠ none := by
  have hcopied := h.copied
  cases hreq : item.req with
  | SPI_OP_START | SPI_OP_DELAY | SPI_OP_END =>
    rw [hreq] at htransmits
    exact htransmits.elim
  | SPI_OP_XFER ctx data_out data_in len =>
    rw [hreq] at htransmits hcopied
    cases data_in with
    | some place => exact htransmits.elim
    | none => exact fun hcopy => hcopied.1 hcopy rfl

theorem not_receives {req : spi_xfer_req_t κ δ} (hnone : req.data_in = none) : ¬ (s.performs req).receives := by
  cases req with
  | SPI_OP_START | SPI_OP_DELAY | SPI_OP_END => exact fun h => h rfl
  | SPI_OP_XFER ctx data_out data_in len =>
    obtain rfl : data_in = none := hnone
    exact fun h => h rfl

theorem Flow.frame (h : Flow s held) (hcopy : s'.copy = s.copy) (hexecuted : s'.executed = s.executed)
    (hpending : s'.pending = s.pending) (hsent : s'.sent = s.sent) (hallocated : s'.allocated = s.allocated)
    (hfreed : s'.freed = s.freed) (hfreeing : s'.thread.freeing = s.thread.freeing)
    (hthread : ∀ data_out, s'.thread = .free data_out → s.thread = .free data_out) : Flow s' held where
  sent := by rw [hexecuted, hpending, hsent]; exact h.sent
  intact item hitem := by
    rw [hpending] at hitem
    exact (h.intact item hitem).frame fun n _ => by rw [hcopy]
  copies := by rw [hexecuted, hpending, hallocated]; exact h.copies
  freed := by rw [hexecuted, hfreed, hfreeing]; exact h.freed
  freeing data_out hd := h.freeing data_out (hthread data_out hd)
  transmitted := by rw [hexecuted]; exact h.transmitted
  received := by rw [hexecuted]; exact h.received

/-! ## The thread -/

theorem free_cases {data_out : DataOut} (hs : rtos_osal_free s data_out = some s') :
    ∃ copy freed, s' = { s with copy, freed } := by
  unfold rtos_osal_free at hs
  split at hs
  · cases hs
    exact ⟨s.copy, s.freed, rfl⟩
  · cases hs
  · cases hs
    exact ⟨_, _, rfl⟩

theorem filterMap_singleton {α β : Type*} (f : α → Option β) (x : α) : [x].filterMap f = (f x).toList := by
  rw [List.filterMap_eq_flatMap_toList, List.flatMap_singleton]

/-- The bytes that are freed are of no request that is still on its way. -/
theorem Flow.free {n : Nat} (h : Flow s held) (hthread : s.thread = .free (.copy n)) :
    Flow { s with thread := .receive, copy := Function.update s.copy n none, freed := s.freed ++ [n] } held := by
  have hpending : ({ s with
      thread := .receive
      copy := Function.update s.copy n none
      freed := s.freed ++ [n] } : Host ι κ τ δ).pending = s.pending := by
    dsimp only [Host.pending]
    rw [hthread]
    rfl
  have hdone : n ∈ s.executed.filterMap (·.copy) := by
    rw [h.freed, hthread]
    exact List.mem_append_right _ (List.mem_singleton.2 rfl)
  refine ⟨?_, fun i hi => ?_, ?_, ?_, nofun, h.transmitted, h.received⟩
  · rw [hpending]
    exact h.sent
  · rw [hpending] at hi
    refine (h.intact i hi).frame fun m hm => Function.update_of_ne (fun hmn => ?_) ..
    subst hmn
    have hnodup : (s.executed.filterMap (·.copy) ++ (s.pending ++ held).filterMap (·.req.copy)).Nodup := by
      rw [h.copies]
      exact List.nodup_range
    exact List.disjoint_of_nodup_append hnodup hdone (List.mem_filterMap.2 ⟨i, hi, hm⟩)
  · rw [hpending]
    exact h.copies
  · dsimp only
    rw [h.freed, hthread]
    exact (List.append_nil _).symm

section
variable [DecidableEq κ]

/-- A transfer that receives ends at the semaphore, one that does not at its copy. -/
theorem perform_cases (hs : perform s item received = some s') :
    ∃ bytes thread memory op_task current_priority,
      s' = { s with
        executed := s.executed ++ [⟨item.owner, s.performs item.req, bytes, item.req.copy⟩]
        thread, memory, op_task, current_priority } ∧
      thread.items = [] ∧
      thread.freeing = item.req.copy.toList ∧
      (∀ data_out, thread = .free data_out → ∃ ctx len, item.req = .SPI_OP_XFER ctx data_out none len) ∧
      (item.req.data_in = none ∧ thread ≠ .put ∧ memory = s.memory ∨
        ∃ place, item.req.data_in = some place ∧ thread = .put ∧ memory = Function.update s.memory place bytes ∧
          bytes.length = (s.performs item.req).length) := by
  unfold perform at hs
  split at hs
  case h_1 hreq =>
    cases hs
    exact ⟨[], .receive, s.memory, _, _, rfl, rfl, by rw [hreq]; rfl, nofun, .inl ⟨by rw [hreq]; rfl, nofun, rfl⟩⟩
  case h_2 data_in _ hreq =>
    split at hs
    · rename_i hlength
      cases hs
      exact ⟨received, .put, _, s.op_task, s.current_priority, rfl, rfl, by rw [hreq]; rfl, nofun,
        .inr ⟨data_in, by rw [hreq]; rfl, rfl, rfl, by rw [hreq]; exact hlength⟩⟩
    · cases hs
  case h_3 ctx data_out len hreq =>
    cases hs
    refine ⟨[], .free data_out, s.memory, s.op_task, s.current_priority, rfl, rfl, by rw [hreq]; rfl, ?_,
      .inl ⟨by rw [hreq]; rfl, nofun, rfl⟩⟩
    rintro _ ⟨⟩
    exact ⟨ctx, len, hreq⟩
  case h_4 hreq =>
    cases hs
    exact ⟨[], .receive, s.memory, s.op_task, s.current_priority, rfl, rfl, by rw [hreq]; rfl, nofun,
      .inl ⟨by rw [hreq]; rfl, nofun, rfl⟩⟩
  case h_5 hreq =>
    cases hs
    exact ⟨[], .receive, s.memory, _, _, rfl, rfl, by rw [hreq]; rfl, nofun, .inl ⟨by rw [hreq]; rfl, nofun, rfl⟩⟩

theorem Flow.perform (h : Flow s held) (hthread : s.thread = .perform item) (hs : perform s item received = some s') :
    Flow s' held := by
  obtain ⟨bytes, thread, memory, _, _, rfl, hitems, hfreeing, hfree, hcases⟩ := perform_cases hs
  have hpending : s.pending = item :: s.xfer_req_queue := by rw [Host.pending, hthread]; rfl
  have hitem : s.Intact item := h.intact item (by rw [hpending]; exact List.mem_cons_self ..)
  have hnone : s.thread.freeing = [] := by rw [hthread]; rfl
  refine ⟨?_, fun i hi => ?_, ?_, ?_, fun data_out hdata_out => ?_, fun e he htransmits => ?_, fun e he hreceives => ?_⟩
  · rw [← h.sent, hpending]
    dsimp only [Host.pending]
    rw [hitems, hitem.performs, List.map_append, List.append_assoc]
    rfl
  · refine (h.intact i ?_).frame fun _ _ => rfl
    rw [hpending]
    dsimp only [Host.pending] at hi
    rw [hitems] at hi
    exact List.mem_cons_of_mem _ hi
  · rw [← h.copies, hpending]
    dsimp only [Host.pending]
    rw [hitems, List.filterMap_append, filterMap_singleton, List.append_assoc, List.cons_append,
      ← List.singleton_append (l := s.xfer_req_queue ++ held), List.filterMap_append (l := [item]), filterMap_singleton]
    rfl
  · dsimp only
    rw [List.filterMap_append, filterMap_singleton, h.freed, hnone, hfreeing, List.append_nil]
  · obtain ⟨ctx, len, hreq⟩ := hfree data_out hdata_out
    have hcopied := hitem.copied
    rw [hreq] at hcopied
    exact fun hcopies => hcopied.1 hcopies rfl
  · rcases List.mem_append.1 he with he | he
    · exact h.transmitted e he htransmits
    · obtain rfl := List.mem_singleton.1 he
      exact hitem.transmits htransmits
  · rcases List.mem_append.1 he with he | he
    · exact h.received e he hreceives
    · obtain rfl := List.mem_singleton.1 he
      rcases hcases with ⟨hnone, -⟩ | ⟨_, -, -, -, hlength⟩
      · exact absurd hreceives (not_receives hnone)
      · exact hlength

theorem Flow.thread (h : Flow s held) (hs : spi_xfer_thread s received = some s') : Flow s' held := by
  unfold spi_xfer_thread at hs
  split at hs
  case h_1 hthread =>
    obtain ⟨⟨item, xfer_req_queue⟩, hqueue, rfl⟩ := Option.map_eq_some_iff.1 hs
    rw [queue_receive_eq_some] at hqueue
    refine h.frame rfl rfl ?_ rfl rfl rfl (by rw [hthread]; rfl) nofun
    rw [Host.pending, Host.pending, hthread, hqueue]
    rfl
  case h_2 hthread => exact h.perform hthread hs
  case h_3 hthread =>
    cases hs
    refine h.frame rfl rfl ?_ rfl rfl rfl (by rw [hthread]; rfl) nofun
    rw [Host.pending, Host.pending, hthread]
    rfl
  case h_4 data_out hthread =>
    cases data_out with
    | caller => exact absurd rfl (h.freeing _ hthread)
    | copy n =>
      cases hs
      exact h.free hthread

end

/-! ## The holder of the lock -/

theorem Flow.hold (h : Flow s []) (hintact : s'.Intact item) (hcopy : ∀ n < s.allocated, s'.copy n = s.copy n)
    (hallocated : List.range s'.allocated = List.range s.allocated ++ item.req.copy.toList)
    (hexecuted : s'.executed = s.executed) (hpending : s'.pending = s.pending) (hsent : s'.sent = s.sent)
    (hfreed : s'.freed = s.freed) (hthread : s'.thread = s.thread) : Flow s' [item] where
  sent := by rw [hexecuted, hpending, hsent]; exact h.sent
  intact i hi := by
    rw [hpending] at hi
    rcases List.mem_append.1 hi with hi | hi
    · have hi : i ∈ s.pending ++ [] := List.mem_append_left _ hi
      refine (h.intact i hi).frame fun n hn => hcopy n ?_
      have hmem : n ∈ s.executed.filterMap (·.copy) ++ (s.pending ++ []).filterMap fun i : Item ι κ τ δ => i.req.copy :=
        List.mem_append_right _ (List.mem_filterMap.2 ⟨i, hi, hn⟩)
      rw [h.copies] at hmem
      exact List.mem_range.1 hmem
    · obtain rfl := List.mem_singleton.1 hi
      exact hintact
  copies := by
    rw [hexecuted, hpending, hallocated, ← h.copies, List.append_nil, List.filterMap_append (l := s.pending), filterMap_singleton,
      List.append_assoc]
  freed := by rw [hexecuted, hfreed, hthread]; exact h.freed
  freeing data_out hd := h.freeing data_out (hthread ▸ hd)
  transmitted := by rw [hexecuted]; exact h.transmitted
  received := by rw [hexecuted]; exact h.received

theorem Flow.send (h : Flow s [item]) (hqueue : s'.xfer_req_queue = s.xfer_req_queue ++ [item])
    (hsent : s'.sent = s.sent ++ [item.asked]) (hcopy : s'.copy = s.copy) (hallocated : s'.allocated = s.allocated)
    (hexecuted : s'.executed = s.executed) (hfreed : s'.freed = s.freed) (hthread : s'.thread = s.thread) : Flow s' [] := by
  have hpending : s'.pending = s.pending ++ [item] := by
    rw [Host.pending, hthread, hqueue, ← List.append_assoc]
    rfl
  refine ⟨?_, fun i hi => ?_, ?_, ?_, fun data_out hd => h.freeing data_out (hthread ▸ hd),
    by rw [hexecuted]; exact h.transmitted, by rw [hexecuted]; exact h.received⟩
  · rw [hexecuted, hpending, hsent, ← h.sent, List.map_append, List.append_assoc]
    rfl
  · rw [List.append_nil, hpending] at hi
    exact (h.intact i hi).frame fun n _ => by rw [hcopy]
  · rw [List.append_nil, hexecuted, hpending, hallocated]
    exact h.copies
  · rw [hexecuted, hfreed, hthread]
    exact h.freed

/-- No bytes are waited for. -/
structure Quiet (s : Host ι κ τ δ) : Prop where
  data_ready : s.data_ready = 0
  thread : s.thread ≠ .put
  pending : ∀ item ∈ s.pending, item.req.data_in = none

/-- The task waits for the bytes of the last request that was sent. -/
inductive Waiting (s : Host ι κ τ δ) (owner : Owner ι κ τ) (place : Place κ) : Prop
  | pending (front : List (Item ι κ τ δ)) (item : Item ι κ τ δ) : s.pending = front ++ [item] → item.owner = owner →
      item.req.data_in = some place → (∀ i ∈ front, i.req.data_in = none) → s.data_ready = 0 → s.thread ≠ .put →
      Waiting s owner place
  | performed (front : List (Executed ι κ τ δ)) (e : Executed ι κ τ δ) : s.pending = [] → s.executed = front ++ [e] →
      e.owner = owner → e.op.receives → e.received = s.memory place →
      (s.thread = .put ∧ s.data_ready = 0 ∨ s.thread = .receive ∧ s.data_ready = 1) → Waiting s owner place

theorem Quiet.frame (h : Quiet s) (hready : s'.data_ready = s.data_ready) (hthread : s'.thread = s.thread)
    (hqueue : s'.xfer_req_queue = s.xfer_req_queue) : Quiet s' where
  data_ready := hready.trans h.data_ready
  thread := by rw [hthread]; exact h.thread
  pending item hitem := h.pending item (by rwa [Host.pending, hthread, hqueue] at hitem)

theorem Waiting.frame {owner : Owner ι κ τ} {place : Place κ} (h : Waiting s owner place) (hready : s'.data_ready = s.data_ready)
    (hthread : s'.thread = s.thread) (hqueue : s'.xfer_req_queue = s.xfer_req_queue) (hexecuted : s'.executed = s.executed)
    (hmemory : s'.memory = s.memory) : Waiting s' owner place := by
  have hpending' : s'.pending = s.pending := by rw [Host.pending, hthread, hqueue]; rfl
  cases h with
  | pending front item hpending hitem hplace hfront hzero hput =>
    exact .pending front item (hpending'.trans hpending) hitem hplace hfront (hready.trans hzero) (by rw [hthread]; exact hput)
  | performed front e hpending hlast he hop hbytes hcases =>
    refine .performed front e (hpending'.trans hpending) (hexecuted.trans hlast) he hop (by rw [hmemory]; exact hbytes) ?_
    rw [hthread, hready]
    exact hcases

/-- Between its calls, or waiting for the lock. -/
structure Outside (s : Host ι κ τ δ) (a : Actor ι κ) : Prop where
  within : s.within a = none
  actor : s.actor a = .idle ∨ ∃ owner ctx, owner.actor = a ∧ s.actor a = .get_mutex owner ctx

theorem not_outside {a : Actor ι κ} {pc : Local ι κ τ δ} (hactor : s.actor a = pc) (hidle : pc ≠ .idle)
    (hget : ∀ owner ctx, pc ≠ .get_mutex owner ctx) : ¬ Outside s a := by
  intro h
  rcases h.actor with hout | ⟨owner, ctx, -, hout⟩
  · exact hidle (hactor.symm.trans hout)
  · exact hget owner ctx (hactor.symm.trans hout)

theorem Outside.frame {a : Actor ι κ} (h : Outside s a) (hwithin : s'.within a = s.within a)
    (hactor : s'.actor a = s.actor a) : Outside s' a where
  within := hwithin.trans h.within
  actor := by rw [hactor]; exact h.actor

section
variable [DecidableEq κ]

/-- The thread leaves the lock and the tasks as they are. -/
theorem thread_frame (hs : spi_xfer_thread s received = some s') :
    s'.lock = s.lock ∧ s'.within = s.within ∧ s'.actor = s.actor ∧ s'.sent = s.sent ∧ s'.issued = s.issued ∧
      s'.returned = s.returned ∧ s'.allocated = s.allocated ∧ ∃ executed, s'.executed = s.executed ++ executed := by
  unfold spi_xfer_thread at hs
  split at hs
  case h_1 =>
    obtain ⟨_, -, rfl⟩ := Option.map_eq_some_iff.1 hs
    exact ⟨rfl, rfl, rfl, rfl, rfl, rfl, rfl, [], (List.append_nil _).symm⟩
  case h_2 =>
    obtain ⟨_, _, _, _, _, rfl, -⟩ := perform_cases hs
    exact ⟨rfl, rfl, rfl, rfl, rfl, rfl, rfl, _, rfl⟩
  case h_3 =>
    cases hs
    exact ⟨rfl, rfl, rfl, rfl, rfl, rfl, rfl, [], (List.append_nil _).symm⟩
  case h_4 =>
    obtain ⟨_, ht, rfl⟩ := Option.map_eq_some_iff.1 hs
    obtain ⟨_, _, rfl⟩ := free_cases ht
    exact ⟨rfl, rfl, rfl, rfl, rfl, rfl, rfl, [], (List.append_nil _).symm⟩

theorem Quiet.thread_step (h : Quiet s) (hs : spi_xfer_thread s received = some s') : Quiet s' := by
  unfold spi_xfer_thread at hs
  split at hs
  case h_1 hthread =>
    obtain ⟨⟨item, xfer_req_queue⟩, hqueue, rfl⟩ := Option.map_eq_some_iff.1 hs
    rw [queue_receive_eq_some] at hqueue
    refine ⟨h.data_ready, nofun, fun i hi => h.pending i ?_⟩
    rw [Host.pending, hthread, hqueue]
    exact hi
  case h_2 item hthread =>
    have hnone := h.pending item (by rw [Host.pending, hthread]; exact List.mem_cons_self ..)
    obtain ⟨bytes, thread, memory, _, _, rfl, hitems, -, -, hcases⟩ := perform_cases hs
    rcases hcases with ⟨-, hput, -⟩ | ⟨place, hplace, -⟩
    · refine ⟨h.data_ready, hput, fun i hi => h.pending i ?_⟩
      rw [Host.pending, hthread]
      dsimp only [Host.pending] at hi
      rw [hitems] at hi
      exact List.mem_cons_of_mem _ hi
    · rw [hnone] at hplace
      cases hplace
  case h_3 hthread => exact absurd hthread h.thread
  case h_4 data_out hthread =>
    obtain ⟨_, ht, rfl⟩ := Option.map_eq_some_iff.1 hs
    obtain ⟨copy, freed, rfl⟩ := free_cases ht
    refine ⟨h.data_ready, nofun, fun i hi => h.pending i ?_⟩
    rw [Host.pending, hthread]
    exact hi

theorem Waiting.thread_step {owner : Owner ι κ τ} {place : Place κ} (h : Waiting s owner place)
    (hs : spi_xfer_thread s received = some s') : Waiting s' owner place := by
  unfold spi_xfer_thread at hs
  cases h with
  | pending front last hpending howner hplace hfront hready hput =>
    split at hs
    case h_1 hthread =>
      obtain ⟨⟨item, xfer_req_queue⟩, hqueue, rfl⟩ := Option.map_eq_some_iff.1 hs
      rw [queue_receive_eq_some] at hqueue
      refine .pending front last ?_ howner hplace hfront hready nofun
      rw [← hpending, Host.pending, Host.pending, hthread, hqueue]
      rfl
    case h_2 item hthread =>
      have hcons : s.pending = item :: s.xfer_req_queue := by rw [Host.pending, hthread]; rfl
      obtain ⟨bytes, thread, memory, _, _, rfl, hitems, -, -, hcases⟩ := perform_cases hs
      cases front with
      | nil =>
        -- it is the one that is waited for
        obtain ⟨rfl, hqueue⟩ := List.cons.inj (hcons.symm.trans hpending)
        rcases hcases with ⟨hnone, -⟩ | ⟨place', hplace', rfl, rfl, -⟩
        · rw [hnone] at hplace
          cases hplace
        · obtain rfl := Option.some.inj (hplace'.symm.trans hplace)
          have hreceives : (s.performs item.req).receives := by
            cases hreq : item.req with
            | SPI_OP_START | SPI_OP_DELAY | SPI_OP_END =>
              rw [hreq] at hplace
              cases hplace
            | SPI_OP_XFER ctx data_out data_in len =>
              rw [hreq] at hplace
              obtain rfl : data_in = some place' := hplace
              exact nofun
          refine .performed s.executed _ ?_ rfl howner hreceives ?_ (.inl ⟨rfl, hready⟩)
          · dsimp only [Host.pending]
            rw [hqueue]
            rfl
          · dsimp only
            rw [Function.update_self]
      | cons i front =>
        obtain ⟨rfl, hqueue⟩ := List.cons.inj (hcons.symm.trans hpending)
        have hnone := hfront item (List.mem_cons_self ..)
        rcases hcases with ⟨-, hput', -⟩ | ⟨place', hplace', -⟩
        · refine .pending front last ?_ howner hplace (fun i hi => hfront i (List.mem_cons_of_mem _ hi)) hready hput'
          dsimp only [Host.pending]
          rw [hitems, hqueue]
          rfl
        · rw [hnone] at hplace'
          cases hplace'
    case h_3 hthread => exact absurd hthread hput
    case h_4 data_out hthread =>
      obtain ⟨_, ht, rfl⟩ := Option.map_eq_some_iff.1 hs
      obtain ⟨copy, freed, rfl⟩ := free_cases ht
      refine .pending front last ?_ howner hplace hfront hready nofun
      rw [← hpending, Host.pending, Host.pending, hthread]
      rfl
  | performed front e hpending hexecuted howner hop hbytes hthread =>
    have hqueue : s.xfer_req_queue = [] := (List.append_eq_nil_iff.1 hpending).2
    rcases hthread with ⟨hthread, hready⟩ | ⟨hthread, hready⟩
    · rw [hthread] at hs
      cases hs
      refine .performed front e ?_ hexecuted howner hop hbytes (.inr ⟨rfl, ?_⟩)
      · dsimp only [Host.pending]
        rw [hqueue]
        rfl
      · dsimp only
        rw [hready]
        rfl
    · rw [hthread, hqueue] at hs
      cases hs

end

/-! ## Whose turn it is -/

section
variable [DecidableEq ι] [DecidableEq κ] [DecidableEq τ]

/-- This transaction is open after what has been sent. -/
def Opened (s : Host ι κ τ δ) (opened : Option (Owner ι κ τ)) : Prop :=
  transactions.exec Machine.Free none s.sent = some opened

/-- Before a request is sent, and after it. -/
def spi_xfer_req_t.before (owner : Owner ι κ τ) : spi_xfer_req_t κ δ → Option (Owner ι κ τ)
  | .SPI_OP_START _ _ => none
  | _ => some owner

def spi_xfer_req_t.after (owner : Owner ι κ τ) : spi_xfer_req_t κ δ → Option (Owner ι κ τ)
  | .SPI_OP_END _ => none
  | _ => some owner

/-- Where the holder is, and what it is about to send. -/
inductive Own (s : Host ι κ τ δ) (a : Actor ι κ) (owner : Owner ι κ τ) : List (Item ι κ τ δ) → Prop
  | between : s.actor a = .idle → Opened s (some owner) → Quiet s → Own s a owner []
  | send (item : Item ι κ τ δ) : s.actor a = .send item → item.owner = owner → Opened s (item.req.before owner) →
      Quiet s → Own s a owner [item]
  | wait (place : Place κ) : s.actor a = .wait place → Opened s (some owner) → Waiting s owner place → Own s a owner []
  | ending : s.actor a = .put_mutex → Opened s none → Quiet s → Own s a owner []

inductive Turn (s : Host ι κ τ δ) : List (Item ι κ τ δ) → Prop
  | free : s.lock = none → (∀ a, Outside s a) → Opened s none → Quiet s → Turn s []
  | held (a : Actor ι κ) (owner : Owner ι κ τ) (held : List (Item ι κ τ δ)) : s.lock = some (a, 1) →
      s.within a = some owner → owner.actor = a → (∀ b, b ≠ a → Outside s b) → Own s a owner held → Turn s held

theorem Host.Intact.asked (h : s.Intact item) :
    transactions.step (item.req.before item.owner) item.asked = some (item.req.after item.owner) := by
  rw [Item.asked, ← h.performs]
  cases item.req with
  | SPI_OP_START => rfl
  | SPI_OP_XFER => exact if_pos rfl
  | SPI_OP_DELAY => exact if_pos rfl
  | SPI_OP_END => exact if_pos rfl

theorem Opened.send (h : Opened s (item.req.before item.owner)) (hitem : s.Intact item)
    (hsent : s'.sent = s.sent ++ [item.asked]) : Opened s' (item.req.after item.owner) := by
  unfold Opened
  rw [hsent, Machine.exec_append, h, Option.bind_some, Machine.exec_cons, hitem.asked]
  rfl

theorem Opened.frame {opened : Option (Owner ι κ τ)} (h : Opened s opened) (hsent : s'.sent = s.sent) : Opened s' opened := by
  unfold Opened
  rw [hsent]
  exact h

/-- The holder is where it was. -/
theorem Own.frame {a : Actor ι κ} {owner : Owner ι κ τ} (h : Own s a owner held) (hactor : s'.actor a = s.actor a)
    (hsent : s'.sent = s.sent) (hquiet : Quiet s → Quiet s') (hwaiting : ∀ place, Waiting s owner place → Waiting s' owner place) :
    Own s' a owner held := by
  cases h with
  | between hidle hopened h => exact .between (hactor.trans hidle) (hopened.frame hsent) (hquiet h)
  | send item hsend hitem hopened h => exact .send item (hactor.trans hsend) hitem (hopened.frame hsent) (hquiet h)
  | wait place hwait hopened h => exact .wait place (hactor.trans hwait) (hopened.frame hsent) (hwaiting place h)
  | ending hput hopened h => exact .ending (hactor.trans hput) (hopened.frame hsent) (hquiet h)

theorem Turn.thread_step (h : Turn s held) (hs : spi_xfer_thread s received = some s') : Turn s' held := by
  obtain ⟨hlock, hwithin, hactor, hsent, -⟩ := thread_frame hs
  have houtside : ∀ a, Outside s a → Outside s' a := fun a ha => ha.frame (congrFun hwithin a) (congrFun hactor a)
  cases h with
  | free hfree hall hopened hquiet =>
    exact .free (hlock.trans hfree) (fun a => houtside a (hall a)) (hopened.frame hsent) (hquiet.thread_step hs)
  | held a owner _ hheld howner ha hothers hown =>
    refine .held a owner _ (hlock.trans hheld) ((congrFun hwithin a).trans howner) ha (fun b hb => houtside b (hothers b hb)) ?_
    exact hown.frame (congrFun hactor a) hsent (fun h => h.thread_step hs) fun _ h => h.thread_step hs

theorem Turn.holder {a : Actor ι κ} (h : Turn s held) (ha : ¬ Outside s a) :
    ∃ owner, s.lock = some (a, 1) ∧ s.within a = some owner ∧ owner.actor = a ∧ (∀ b, b ≠ a → Outside s b) ∧
      Own s a owner held := by
  cases h with
  | free _ hall => exact absurd (hall a) ha
  | held b owner _ hlock hwithin howner hothers hown =>
    by_cases hab : a = b
    · subst hab
      exact ⟨owner, hlock, hwithin, howner, hothers, hown⟩
    · exact absurd (hothers a hab) ha

/-- Bytes are received for a task that waits for them. -/
theorem Turn.receiver {place : Place κ} (h : Turn s held) (hthread : s.thread = .perform item)
    (hplace : item.req.data_in = some place) : ∃ a, s.actor a = .wait place := by
  have hpending : s.pending = item :: s.xfer_req_queue := by rw [Host.pending, hthread]; rfl
  have hnot : ¬ Quiet s := fun hquiet => by
    have hnone := hquiet.pending item (by rw [hpending]; exact List.mem_cons_self ..)
    rw [hplace] at hnone
    cases hnone
  cases h with
  | free _ _ _ hquiet => exact absurd hquiet hnot
  | held a owner held _ _ _ _ hown =>
    cases hown with
    | between _ _ hquiet | send _ _ _ _ hquiet | ending _ _ hquiet => exact absurd hquiet hnot
    | wait place' ha _ hwaiting =>
      refine ⟨a, ?_⟩
      cases hwaiting with
      | performed _ _ hnil =>
        rw [hpending] at hnil
        cases hnil
      | pending front last hfront _ hlast hnone =>
        cases front with
        | nil =>
          obtain ⟨rfl, -⟩ := List.cons.inj (hpending.symm.trans hfront)
          rwa [← Option.some.inj (hlast.symm.trans hplace)]
        | cons i front =>
          obtain ⟨rfl, -⟩ := List.cons.inj (hpending.symm.trans hfront)
          rw [hnone item (List.mem_cons_self ..)] at hplace
          cases hplace

/-- What is in order whoever moves next. -/
def Serial (s : Host ι κ τ δ) : Prop := ∃ held, Flow s held ∧ Turn s held

theorem Serial.get_mutex {a : Actor ι κ} {owner : Owner ι κ τ} {ctx : δ} {lock : Mutex (Actor ι κ)} {priority : Nat}
    (h : Serial s) (ha : s.actor a = .get_mutex owner ctx) (hget : mutex_get s.lock a = some lock) :
    Serial ({ s with
      lock
      within := Function.update s.within a (some owner)
      }.goto a (.send ⟨owner, .transaction_start ctx, .SPI_OP_START ctx priority⟩)) := by
  obtain ⟨held, hflow, hturn⟩ := h
  cases hturn with
  | held b owner' held hlock hwithin howner hothers hown =>
    -- the lock is another's
    rw [hlock] at hget
    dsimp only [mutex_get] at hget
    split at hget
    · rename_i hba
      subst hba
      cases hown with
      | between hb | send _ hb | wait _ hb | ending hb => exact absurd (ha.symm.trans hb) nofun
    · cases hget
  | free hlock hall hopened hquiet =>
    rw [hlock] at hget
    cases hget
    obtain ⟨owner', ctx', howner, hactor⟩ := (hall a).actor.resolve_left (by rw [ha]; nofun)
    obtain ⟨rfl, rfl⟩ := Local.get_mutex.inj (ha.symm.trans hactor)
    refine ⟨[⟨owner, .transaction_start ctx, .SPI_OP_START ctx priority⟩], ?_, ?_⟩
    · exact hflow.hold ⟨rfl, trivial⟩ (fun _ _ => rfl) (List.append_nil _).symm rfl rfl rfl rfl rfl
    · refine .held a owner _ rfl (Function.update_self ..) howner (fun b hb => ?_) ?_
      · exact (hall b).frame (Function.update_of_ne hb ..) (goto_other hb)
      · exact .send _ goto_self rfl (hopened.frame rfl) (hquiet.frame rfl rfl rfl)

theorem Serial.send {a : Actor ι κ} {item : Item ι κ τ δ} (h : Serial s) (ha : s.actor a = .send item) :
    Serial ({ s with
      xfer_req_queue := s.xfer_req_queue ++ [item]
      sent := s.sent ++ [(item.owner, item.op)] }.goto a item.req.next) := by
  obtain ⟨held, hflow, hturn⟩ := h
  obtain ⟨owner, hlock, hwithin, howner, hothers, hown⟩ := hturn.holder (not_outside ha nofun nofun)
  cases hown with
  | between hb | wait _ hb | ending hb => exact absurd (ha.symm.trans hb) nofun
  | send item' hb hitem hopened hquiet =>
    obtain rfl := Local.send.inj (ha.symm.trans hb)
    subst hitem
    obtain ⟨t, ht⟩ : ∃ t, t = { s with
      xfer_req_queue := s.xfer_req_queue ++ [item]
      sent := s.sent ++ [(item.owner, item.op)] }.goto a item.req.next := ⟨_, rfl⟩
    have hintact := hflow.intact item (List.mem_append_right _ (List.mem_singleton.2 rfl))
    have hopened' : Opened t (item.req.after item.owner) := hopened.send hintact (by rw [ht]; rfl)
    have hpending : t.pending = s.pending ++ [item] := by
      rw [ht, Host.pending, Host.pending, List.append_assoc]
      rfl
    have hready : t.data_ready = 0 := by rw [ht]; exact hquiet.data_ready
    have hthread : t.thread ≠ .put := by rw [ht]; exact hquiet.thread
    have hself : t.actor a = item.req.next := by rw [ht]; exact goto_self
    have hquiet' : item.req.data_in = none → Quiet t := fun hnone => by
      refine ⟨hready, hthread, fun i hi => ?_⟩
      rw [hpending] at hi
      rcases List.mem_append.1 hi with hi | hi
      · exact hquiet.pending i hi
      · rw [List.mem_singleton.1 hi]
        exact hnone
    refine ⟨[], hflow.send rfl rfl rfl rfl rfl rfl rfl, ?_⟩
    rw [← ht]
    refine .held a item.owner [] (by rw [ht]; exact hlock) (by rw [ht]; exact hwithin) howner (fun b hb => ?_) ?_
    · rw [ht]
      exact (hothers b hb).frame rfl (goto_other hb)
    · cases hreq : item.req with
      | SPI_OP_START | SPI_OP_DELAY =>
        rw [hreq] at hopened' hself hquiet'
        exact .between hself hopened' (hquiet' rfl)
      | SPI_OP_END =>
        rw [hreq] at hopened' hself hquiet'
        exact .ending hself hopened' (hquiet' rfl)
      | SPI_OP_XFER ctx data_out data_in len =>
        rw [hreq] at hopened' hself hquiet'
        cases data_in with
        | none => exact .between hself hopened' (hquiet' rfl)
        | some place =>
          exact .wait place hself hopened' (.pending s.pending item hpending rfl (by rw [hreq]; rfl) hquiet.pending hready hthread)

theorem Serial.wait {a : Actor ι κ} {place : Place κ} {ready : Nat} (h : Serial s) (ha : s.actor a = .wait place)
    (hready : s.data_ready = ready + 1) (returned : List (Returned ι κ τ)) :
    Serial ({ s with data_ready := ready, returned }.goto a .idle) ∧
      ∃ owner front e, s.within a = some owner ∧ owner.actor = a ∧ s.executed.map Executed.done = s.sent ∧
        s.executed = front ++ [e] ∧ e.owner = owner ∧ e.op.receives ∧ e.received = s.memory place := by
  obtain ⟨held, hflow, hturn⟩ := h
  obtain ⟨owner, hlock, hwithin, howner, hothers, hown⟩ := hturn.holder (not_outside ha nofun nofun)
  cases hown with
  | between hb | send _ hb | ending hb => exact absurd (ha.symm.trans hb) nofun
  | wait place' hb hopened hwaiting =>
    obtain rfl := Local.wait.inj (ha.symm.trans hb)
    cases hwaiting with
    | pending _ _ _ _ _ _ hzero => omega
    | performed front e hpending hexecuted he hop hbytes hthread =>
      rcases hthread with ⟨-, hzero⟩ | ⟨hthread, hone⟩
      · omega
      · have hsent := hflow.sent
        rw [hpending, List.map_nil, List.append_nil] at hsent
        refine ⟨⟨[], hflow.frame rfl rfl rfl rfl rfl rfl rfl fun _ h => h, ?_⟩,
          owner, front, e, hwithin, howner, hsent, hexecuted, he, hop, hbytes⟩
        refine .held a owner _ hlock hwithin howner (fun b hb => (hothers b hb).frame rfl (goto_other hb)) ?_
        refine .between goto_self (hopened.frame rfl) ⟨?_, ?_, fun i hi => ?_⟩
        · exact Nat.succ.inj (hready.symm.trans hone)
        · exact fun hput => absurd (hthread.symm.trans hput) nofun
        · have hi : i ∈ s.pending := hi
          rw [hpending] at hi
          cases hi

theorem Serial.put_mutex {a : Actor ι κ} (h : Serial s) (ha : s.actor a = .put_mutex) :
    Serial ({ s with
      lock := mutex_put s.lock a
      within := Function.update s.within a none }.goto a .idle) := by
  obtain ⟨held, hflow, hturn⟩ := h
  obtain ⟨owner, hlock, hwithin, howner, hothers, hown⟩ := hturn.holder (not_outside ha nofun nofun)
  cases hown with
  | between hb | send _ hb | wait _ hb => exact absurd (ha.symm.trans hb) nofun
  | ending hb hopened hquiet =>
    refine ⟨[], hflow.frame rfl rfl rfl rfl rfl rfl rfl fun _ h => h, .free ?_ (fun b => ?_) (hopened.frame rfl)
      (hquiet.frame rfl rfl rfl)⟩
    · dsimp only [Host.goto]
      rw [hlock, mutex_put, if_pos rfl, if_pos rfl]
    · by_cases hb : b = a
      · subst hb
        exact ⟨Function.update_self .., .inl goto_self⟩
      · exact (hothers b hb).frame (Function.update_of_ne hb ..) (goto_other hb)

/-- A request that a call leads to, with the copy that it makes. -/
theorem Serial.request {owner : Owner ι κ τ} (h : Serial s) (req : spi_xfer_req_t κ δ) (op : Op δ)
    (hidle : s.actor owner.actor = .idle) (hwithin : s.within owner.actor = some owner)
    (hbefore : req.before owner = some owner) (hintact : s'.Intact ⟨owner, op, req⟩)
    (hallocated : List.range s'.allocated = List.range s.allocated ++ req.copy.toList)
    (hcopy : ∀ n < s.allocated, s'.copy n = s.copy n)
    (hs : s' = { s with
      copy := s'.copy
      allocated := s'.allocated
      issued := s'.issued }.goto owner.actor (.send ⟨owner, op, req⟩)) : Serial s' := by
  obtain ⟨held, hflow, hturn⟩ := h
  have hnot : ¬ Outside s owner.actor := fun houtside => absurd (hwithin.symm.trans houtside.within) nofun
  obtain ⟨owner', hlock, hwithin', howner, hothers, hown⟩ := hturn.holder hnot
  obtain rfl := Option.some.inj (hwithin.symm.trans hwithin')
  cases hown with
  | send _ hb | wait _ hb | ending hb => exact absurd (hidle.symm.trans hb) nofun
  | between hb hopened hquiet =>
    refine ⟨[⟨owner, op, req⟩], ?_, ?_⟩
    · exact hflow.hold hintact hcopy hallocated (by rw [hs]; rfl) (by rw [hs]; rfl) (by rw [hs]; rfl) (by rw [hs]; rfl)
        (by rw [hs]; rfl)
    · refine .held owner.actor owner _ (by rw [hs]; exact hlock) (by rw [hs]; exact hwithin) rfl (fun b hb => ?_) ?_
      · exact (hothers b hb).frame (by rw [hs]; rfl) (by rw [hs]; exact goto_other hb)
      · refine .send _ (by rw [hs]; exact goto_self) rfl ?_ (hquiet.frame (by rw [hs]; rfl) (by rw [hs]; rfl) (by rw [hs]; rfl))
        dsimp only
        rw [hbefore]
        exact hopened.frame (by rw [hs]; rfl)

theorem Serial.start {owner : Owner ι κ τ} {ctx : δ} {issued : Owner ι κ τ → List (Op δ)} (h : Serial s)
    (hwithin : s.within owner.actor = none) : Serial { s.goto owner.actor (.get_mutex owner ctx) with issued } := by
  obtain ⟨held, hflow, hturn⟩ := h
  have hself : (s.goto owner.actor (.get_mutex owner ctx)).actor owner.actor = .get_mutex owner ctx := goto_self
  have houtside : ∀ b, Outside s b → Outside { s.goto owner.actor (.get_mutex owner ctx) with issued } b := by
    intro b hb
    by_cases hab : b = owner.actor
    · subst hab
      exact ⟨hwithin, .inr ⟨owner, ctx, rfl, hself⟩⟩
    · exact hb.frame rfl (goto_other hab)
  refine ⟨held, hflow.frame rfl rfl rfl rfl rfl rfl rfl fun _ h => h, ?_⟩
  cases hturn with
  | free hlock hall hopened hquiet =>
    exact .free hlock (fun b => houtside b (hall b)) (hopened.frame rfl) (hquiet.frame rfl rfl rfl)
  | held a owner' held hlock hwithin' howner hothers hown =>
    have hne : a ≠ owner.actor := by
      rintro rfl
      rw [hwithin] at hwithin'
      cases hwithin'
    refine .held a owner' held hlock hwithin' howner (fun b hb => houtside b (hothers b hb)) ?_
    exact hown.frame (goto_other hne) rfl (fun h => h.frame rfl rfl rfl) fun _ h => h.frame rfl rfl rfl rfl rfl

theorem Serial.call {owner : Owner ι κ τ} {call : Call δ (Place κ)} (h : Serial s) (hp : Proper s (.call owner call))
    (hs : start_call s owner call = some s') : Serial s' := by
  obtain ⟨hwithin, -⟩ := hp
  unfold start_call at hs
  split at hs
  · rename_i hidle
    cases hs
    cases call with
    | transaction_start ctx => exact h.start hwithin
    | transfer ctx data_out data_in len =>
      cases data_in with
      | some place =>
        exact h.request (.SPI_OP_XFER ctx (.caller data_out) (some place) len) (.transfer ctx data_out (some ()) len)
          hidle hwithin rfl ⟨rfl, iff_of_true rfl nofun⟩ (List.append_nil _).symm (fun _ _ => rfl) rfl
      | none =>
        refine h.request (.SPI_OP_XFER ctx (.copy s.allocated) none len)
          (.transfer ctx (some (copied data_out len)) none len) hidle hwithin rfl
          ⟨?_, iff_of_false nofun fun hnone => hnone rfl⟩ List.range_succ (fun n hn => ?_) rfl
        · dsimp only [Host.performs, Host.data_out, Host.enter, Host.goto]
          rw [Function.update_self]
          rfl
        · exact Function.update_of_ne (Nat.ne_of_lt hn) ..
    | delay_before_next_transfer ctx delay_ticks =>
      exact h.request (.SPI_OP_DELAY ctx delay_ticks) (.delay_before_next_transfer ctx delay_ticks) hidle hwithin rfl
        ⟨rfl, trivial⟩ (List.append_nil _).symm (fun _ _ => rfl) rfl
    | transaction_end ctx =>
      exact h.request (.SPI_OP_END ctx) (.transaction_end ctx) hidle hwithin rfl ⟨rfl, trivial⟩ (List.append_nil _).symm
        (fun _ _ => rfl) rfl
  · cases hs

end

end RtosMaster
end Spi
