import XcoreSdk.Spi.RemoteTransactions
import Mathlib.Data.List.Infix
/-!
# The RTOS SPI master: whole runs

Tasks of the host's tile and of the client tiles, the threads that serve the clients and
`spi_xfer_thread`, in any order of steps.
-/

namespace Spi
namespace RtosMaster
open FreeRtos
open QspiFlash.Locking (Actor Mutex mutex_get mutex_put)
variable {ι κ τ δ : Type*}

section
variable [DecidableEq ι] [DecidableEq κ] [DecidableEq τ]

/-! ## Every step -/

/-- A task of the host's tile. -/
structure System.Task (s : System ι κ τ δ) (i : ι) : Prop where
  called : s.called (.host i) = s.host.issued (.host i)
  place : s.host.actor (.host i) = .idle ∧ s.host.within (.host i) = (if s.begun (.host i) then some (.host i) else none) ∨
    ∃ call : Call δ (Place κ), (s.host.actor (.host i)).Runs (.host i) call (s.host.within (.host i)) ∧
      s.begun (.host i) = call.continues

/-- The bytes are those that the task's operation of this number has received. One without bytes has not waited. -/
def Received (s : System ι κ τ δ) (r : Returned ι κ τ) : Prop :=
  ∃ op, (s.called r.owner)[r.number]? = some op ∧ r.bytes.length = op.length ∧
    (op.length = 0 ∨ ∃ e, (s.host.performed r.owner)[r.number]? = some e ∧ e.op = op ∧ op.receives ∧ e.received = r.bytes)

/-- What the transfers on the client tiles returned with. -/
def ClientFilled (s : System ι κ τ δ) : Prop := ∀ r ∈ s.returned, Received s r

structure System.Inv (host_dev_ctx_ptr : κ → δ → δ) (s : System ι κ τ δ) : Prop where
  host : s.host.Inv
  task : ∀ i, s.Task i
  tile : ∀ k, (s.view k).Tile (host_dev_ctx_ptr k) k s.host.returned
  filled : ClientFilled s

variable {u u' : System ι κ τ δ} {ptr : κ → δ → δ} {host : Host ι κ τ δ}

theorem ClientFilled.grow {executed : List (Executed ι κ τ δ)} (h : ClientFilled u)
    (hexecuted : u'.host.executed = u.host.executed ++ executed) (hcalled : ∀ owner, u.called owner <+: u'.called owner)
    (hreturned : u'.returned = u.returned) : ClientFilled u' := by
  intro r hr
  rw [hreturned] at hr
  obtain ⟨op, hop, hlength, hcases⟩ := h r hr
  obtain ⟨hlt, rfl⟩ := List.getElem?_eq_some_iff.1 hop
  refine ⟨_, List.prefix_iff_getElem?.1 (hcalled r.owner) _ hlt, hlength, ?_⟩
  rcases hcases with hnone | ⟨e, he, hspec⟩
  · exact .inl hnone
  · exact .inr ⟨e, performed_stays hexecuted he, hspec⟩

theorem ClientFilled.frame (h : ClientFilled u) (hhost : u'.host = u.host)
    (hcalled : ∀ owner, u.called owner <+: u'.called owner) (hreturned : u'.returned = u.returned) : ClientFilled u' :=
  h.grow (by rw [hhost]; exact (List.append_nil _).symm) hcalled hreturned

/-- One more call. -/
theorem called_grows (called : Owner ι κ τ → List (Op δ)) (owner : Owner ι κ τ) (op : Op δ)
    (owner' : Owner ι κ τ) : called owner' <+: Function.update called owner (called owner ++ [op]) owner' := by
  by_cases ho : owner' = owner
  · subst ho
    rw [Function.update_self]
    exact List.prefix_append ..
  · rw [Function.update_of_ne ho]

omit [DecidableEq ι] [DecidableEq κ] [DecidableEq τ] in
theorem System.Task.frame {i : ι} (h : u.Task i) (hcalled : u'.called (.host i) = u.called (.host i))
    (hissued : u'.host.issued (.host i) = u.host.issued (.host i)) (hbegun : u'.begun (.host i) = u.begun (.host i))
    (hactor : u'.host.actor (.host i) = u.host.actor (.host i))
    (hwithin : u'.host.within (.host i) = u.host.within (.host i)) : u'.Task i where
  called := by rw [hcalled, hissued]; exact h.called
  place := by rw [hbegun, hactor, hwithin]; exact h.place

theorem System.Inv.thread_step {received : List UInt8} (h : u.Inv ptr) (hs : spi_xfer_thread u.host received = some host) :
    System.Inv ptr { u with host } := by
  obtain ⟨-, hwithin, hactor, -, hissued, hreturned, -, executed, hexecuted⟩ := thread_frame hs
  refine ⟨h.host.thread_step hs, fun i => ?_, fun k => ?_, h.filled.grow hexecuted (fun _ => List.prefix_rfl) rfl⟩
  · exact (h.task i).frame rfl (congrFun hissued _) rfl (congrFun hactor _) (congrFun hwithin _)
  · refine (h.tile k).frame rfl (fun t => ⟨rfl, rfl, rfl, congrFun hissued _⟩) ?_ (by rw [hreturned]; exact fun _ h => h)
    exact ⟨rfl, rfl, rfl, congrFun hwithin _, congrFun hactor _, thread_memory h.host hs⟩

theorem System.Inv.move {a : Actor ι κ} (h : u.Inv ptr) (hs : Moves u.host a host) : System.Inv ptr { u with host } := by
  obtain ⟨hmemory, hissued, hexecuted, new, hreturned⟩ := hs.same
  have hgrown : ∀ r ∈ u.host.returned, r ∈ host.returned := fun r hr => by
    rw [hreturned]
    exact List.mem_append_left _ hr
  refine ⟨h.host.move hs, fun i => ?_, fun k => ?_, h.filled.grow (hexecuted.trans (List.append_nil _).symm) (fun _ => List.prefix_rfl) rfl⟩
  · by_cases ha : Actor.host i = a
    · subst ha
      refine ⟨(h.task i).called.trans (congrFun hissued _).symm, ?_⟩
      rcases (h.task i).place with ⟨hidle, -⟩ | ⟨call, hruns, hbegun⟩
      · cases hs with
        | get_mutex _ _ _ _ ha | send _ ha | wait _ _ ha | put_mutex ha => exact absurd (hidle.symm.trans ha) nofun
      · rcases hruns.move hs with hruns' | hover
        · exact .inr ⟨call, hruns', hbegun⟩
        · refine .inl ⟨hover.idle, ?_⟩
          rw [show ({ u with host } : System ι κ τ δ).begun (.host i) = call.continues from hbegun]
          exact hover.within
    · obtain ⟨hactor, hwithin⟩ := hs.frame ha
      exact (h.task i).frame rfl (congrFun hissued _) rfl hactor hwithin
  · by_cases ha : Actor.rpc k = a
    · subst ha
      exact System.tile_move (h.tile k) hs
    · obtain ⟨hactor, hwithin⟩ := hs.frame ha
      refine (h.tile k).frame rfl (fun t => ⟨rfl, rfl, rfl, congrFun hissued _⟩) ?_ hgrown
      exact ⟨rfl, rfl, rfl, hwithin, hactor, fun _ => congrFun hmemory _⟩

/-- A call leaves the others as they are. -/
theorem start_call_frame {s s' : Host ι κ τ δ} {owner : Owner ι κ τ} {call : Call δ (Place κ)}
    (hs : start_call s owner call = some s') :
    s'.memory = s.memory ∧ s'.returned = s.returned ∧ s'.executed = s.executed ∧ s'.within = s.within ∧
      (∀ b, b ≠ owner.actor → s'.actor b = s.actor b) ∧ (∀ o, o ≠ owner → s'.issued o = s.issued o) ∧
      s'.issued owner = s.issued owner ++ [call.op] := by
  obtain ⟨-, pc, copy, allocated, rfl, -⟩ := start_call_cases hs
  exact ⟨rfl, rfl, rfl, rfl, fun b hb => goto_other hb, fun o ho => Function.update_of_ne ho .., Function.update_self ..⟩

theorem System.Inv.host_call {i : ι} {call : Call δ Nat} (h : u.Inv ptr) (hbegun : u.begun (.host i) = !call.starts)
    (hs : start_call u.host (.host i) (call.map .memory) = some host) : System.Inv ptr { u with
      begun := Function.update u.begun (.host i) call.continues
      host
      called := Function.update u.called (.host i) (u.called (.host i) ++ [call.op]) } := by
  obtain ⟨hidle, -⟩ := start_call_cases hs
  obtain ⟨hmemory, hreturned, hexecuted, hwithin, hactors, hissued, hissued'⟩ := start_call_frame hs
  have hopen : u.host.within (.host i) = if u.begun (.host i) then some (.host i) else none := by
    rcases (h.task i).place with ⟨-, hopen⟩ | ⟨_, hruns, -⟩
    · exact hopen
    · rw [show u.host.actor (.host i) = .idle from hidle] at hruns
      exact hruns.elim
  rw [hbegun] at hopen
  have hproper : Proper u.host (.call (.host i) (call.map .memory)) := by
    refine ⟨?_, fun place hplace => ?_⟩
    · refine Eq.trans hopen ?_
      cases call <;> rfl
    · rw [Call.places_map] at hplace
      obtain ⟨address, -, rfl⟩ := Option.map_eq_some_iff.1 hplace
      exact ⟨i, rfl⟩
  refine ⟨h.host.call hproper hs, fun j => ?_, fun k => ?_, h.filled.grow (hexecuted.trans (List.append_nil _).symm) (called_grows _ _ _) rfl⟩
  · by_cases hj : j = i
    · subst hj
      refine ⟨?_, .inr ⟨call.map .memory, ?_, ?_⟩⟩
      · dsimp only
        rw [Function.update_self, hissued', Call.op_map, (h.task j).called]
      · refine runs_of_call (fun hstarts => ?_) hs
        rw [Call.starts_map] at hstarts
        exact hopen.trans (by rw [hstarts]; rfl)
      · rw [Call.continues_map]
        exact Function.update_self ..
    · have hne : Owner.host (κ := κ) (τ := τ) j ≠ .host i := fun heq => hj (Owner.host.inj heq)
      have hactor : Actor.host (κ := κ) j ≠ .host i := fun heq => hj (Actor.host.inj heq)
      exact (h.task j).frame (Function.update_of_ne hne ..) (hissued _ hne) (Function.update_of_ne hne ..) (hactors _ hactor)
        (congrFun hwithin _)
  · refine (h.tile k).frame rfl (fun t => ?_) ?_ (by rw [hreturned]; exact fun _ h => h)
    · exact ⟨rfl, rfl, rfl, hissued _ nofun⟩
    · exact ⟨rfl, rfl, rfl, congrFun hwithin _, hactors _ nofun, fun _ => congrFun hmemory _⟩

omit [DecidableEq ι] [DecidableEq κ] [DecidableEq τ] in
/-- A task of another tile, or another task of the tile. -/
theorem client_ne {k k' : κ} {t t' : τ} (hne : k' ≠ k ∨ t' ≠ t) : Owner.client (ι := ι) k' t' ≠ .client k t := by
  rintro ⟨⟩
  rcases hne with hne | hne
  · exact hne rfl
  · exact hne rfl

/-- A step on a client tile. -/
theorem System.Inv.client_step {k : κ} (h : u.Inv ptr) (hhost : u'.host = u.host)
    (hcalled : ∀ i, u'.called (.host i) = u.called (.host i)) (hbegun : ∀ i, u'.begun (.host i) = u.begun (.host i))
    (hothers : ∀ k', k' ≠ k → (u'.view k').lock = (u.view k').lock ∧ (∀ t, (u.view k').Same (u'.view k') t) ∧
      (u.view k').Still (u'.view k'))
    (htile : (u'.view k).Tile (ptr k) k u.host.returned) (hfilled : ClientFilled u') : u'.Inv ptr := by
  refine ⟨by rw [hhost]; exact h.host, fun i => ?_, fun k' => ?_, hfilled⟩
  · exact (h.task i).frame (hcalled i) (by rw [hhost]) (hbegun i) (by rw [hhost]) (by rw [hhost])
  · rw [hhost]
    by_cases hk : k' = k
    · rw [hk]
      exact htile
    · obtain ⟨hlock, hsame, hstill⟩ := hothers k' hk
      exact (h.tile k').frame hlock hsame hstill fun _ h => h

theorem System.Inv.client_call {k : κ} {t : τ} {call : Call δ Nat} (h : u.Inv ptr) (hidle : u.remote k t = .idle)
    (hbegun : u.begun (.client k t) = !call.starts) (hshort : Short (Owner.client (ι := ι) k t) call) :
    System.Inv ptr ({ u with
      begun := Function.update u.begun (.client k t) call.continues
      called := Function.update u.called (.client k t)
        (u.called (.client k t) ++ [(call.remote (ptr k)).op]) }.goto k t call.entry) := by
  obtain ⟨u', hu'⟩ : ∃ u', u' = { u with
      begun := Function.update u.begun (.client k t) call.continues
      called := Function.update u.called (.client k t)
        (u.called (.client k t) ++ [(call.remote (ptr k)).op]) }.goto k t call.entry := ⟨_, rfl⟩
  rw [← hu']
  have hothers : ∀ k' t', k' ≠ k ∨ t' ≠ t → (u.view k').Same (u'.view k') t' := fun k' t' hne => by
    rw [hu']
    exact ⟨remote_goto_other hne, Function.update_of_ne (client_ne hne) .., Function.update_of_ne (client_ne hne) .., rfl⟩
  have hstill : ∀ k', (u.view k').Still (u'.view k') := fun k' => by
    rw [hu']
    exact ⟨rfl, rfl, rfl, rfl, rfl, fun _ => rfl⟩
  have hremote : (u'.view k).remote t = call.entry := by
    rw [hu']
    exact remote_goto_self
  have hcontinues : (u'.view k).begun t = call.continues := by
    rw [hu']
    exact Function.update_self ..
  have hcalled : (u'.view k).called t = (u.view k).called t ++ [(call.remote (ptr k)).op] := by
    rw [hu']
    exact Function.update_self ..
  refine h.client_step (k := k) (by rw [hu']; rfl) (fun i => ?_) (fun i => ?_) (fun k' hk => ?_) ?_
    (h.filled.frame (by rw [hu']; rfl) (by rw [hu']; exact called_grows _ _ _) (by rw [hu']; rfl))
  · rw [hu']
    rfl
  · rw [hu']
    rfl
  · exact ⟨by rw [hu']; rfl, fun t' => hothers k' t' (.inl hk), hstill k'⟩
  · have hlock : (u'.view k).lock = (u.view k).lock := by rw [hu']; rfl
    have hissued : (u'.view k).issued t = (u.view k).issued t := by rw [hu']; rfl
    cases call with
    | transaction_start dev_ctx =>
      exact (h.tile k).start hidle hbegun hlock (fun t' ht' => hothers k t' (.inr ht')) (hstill k) hremote hcontinues hissued
        hcalled
    | transfer | delay_before_next_transfer | transaction_end =>
      exact (h.tile k).request hidle hbegun rfl hshort hlock (fun t' ht' => hothers k t' (.inr ht')) (hstill k) hremote
        hcontinues hissued hcalled

theorem System.Inv.rpc_receive {k : κ} {msg : Msg ι κ τ δ} {requests : List (Msg ι κ τ δ)} (h : u.Inv ptr)
    (hrequests : u.requests k = msg :: requests)
    (hs : start_call u.host msg.owner (msg.call.map fun _ => .rpc k) = some host) : System.Inv ptr { u with
      host
      requests := Function.update u.requests k requests
      rpc := Function.update u.rpc k (.serve msg) } := by
  obtain ⟨t, call, hmsg, hopen, -, htile⟩ := (h.tile k).receive hrequests
  obtain ⟨hmemory, hreturned, hexecuted, hwithin, hactors, hissued, hissued'⟩ := start_call_frame hs
  have howner : msg.owner = .client k t := by rw [hmsg]
  have hactor : msg.owner.actor = .rpc k := by rw [howner]; rfl
  have hopen : u.host.within (.rpc k) = call.before (.client k t) := hopen
  have hproper : Proper u.host (.call msg.owner (msg.call.map fun _ => .rpc k)) := by
    constructor
    · rw [hactor, hopen, hmsg]
      cases call <;> rfl
    · intro place hplace
      rw [Call.places_map] at hplace
      obtain ⟨_, -, rfl⟩ := Option.map_eq_some_iff.1 hplace
      exact hactor
  have hruns := runs_of_call (fun hstarts => by
    rw [hactor, hopen, howner]
    rw [hmsg, Call.starts_map, Call.starts_remote] at hstarts
    rw [Call.before, hstarts]
    rfl) hs
  have hstays : ∀ r ∈ u.host.returned, r ∈ host.returned := by rw [hreturned]; exact fun _ h => h
  refine ⟨h.host.call hproper hs, fun i => ?_, fun k' => ?_, h.filled.grow (hexecuted.trans (List.append_nil _).symm) (fun _ => List.prefix_rfl) rfl⟩
  · exact (h.task i).frame rfl (hissued _ (by rw [howner]; rintro ⟨⟩)) rfl (hactors _ (by rw [hactor]; rintro ⟨⟩))
      (congrFun hwithin _)
  · by_cases hk : k' = k
    · subst hk
      dsimp only
      rw [hreturned]
      refine htile _ rfl (Function.update_self ..) rfl (Function.update_self ..) (fun t' => ⟨rfl, rfl, rfl⟩) (fun t' ht' => ?_)
        ?_ (by rw [hactor] at hruns; exact hruns)
      · exact hissued _ (by rw [howner]; exact client_ne (.inr ht'))
      · rw [howner, Call.op_map] at hissued'
        exact hissued'
    · have hne : Actor.rpc (ι := ι) k' ≠ msg.owner.actor := by
        rw [hactor]
        exact fun heq => hk (Actor.rpc.inj heq)
      refine (h.tile k').frame rfl (fun t' => ⟨rfl, rfl, rfl, hissued _ (by rw [howner]; exact client_ne (.inl hk))⟩) ?_ hstays
      exact ⟨Function.update_of_ne hk .., rfl, Function.update_of_ne hk .., congrFun hwithin _, hactors _ hne,
        fun _ => congrFun hmemory _⟩

theorem System.Inv.rpc_respond {k : κ} {msg : Msg ι κ τ δ} (h : u.Inv ptr) (hserve : u.rpc k = .serve msg)
    (hidle : u.host.actor (.rpc k) = .idle) : System.Inv ptr { u with
      responses := Function.update u.responses k (u.responses k ++ [msg.response (u.host.memory (.rpc k))])
      rpc := Function.update u.rpc k .receive } := by
  refine h.client_step (k := k) rfl (fun _ => rfl) (fun _ => rfl) (fun k' hk => ⟨rfl, fun t => ⟨rfl, rfl, rfl, rfl⟩, ?_⟩) ?_
    (h.filled.frame rfl (fun _ => List.prefix_rfl) rfl)
  · exact ⟨rfl, Function.update_of_ne hk .., Function.update_of_ne hk .., rfl, rfl, fun _ => rfl⟩
  · refine ((h.tile k).respond hserve hidle).frame rfl (fun t => ⟨rfl, rfl, rfl, rfl⟩) ?_ fun _ h => h
    exact ⟨rfl, Function.update_self .., Function.update_self .., rfl, rfl, fun _ => rfl⟩

theorem System.Inv.rpc_step {k : κ} (h : u.Inv ptr) (hs : rpc_step u k = some u') : u'.Inv ptr := by
  unfold RtosMaster.rpc_step at hs
  split at hs
  · obtain ⟨⟨msg, requests⟩, hreceive, hs⟩ := Option.bind_eq_some_iff.1 hs
    obtain ⟨host, hcall, rfl⟩ := Option.map_eq_some_iff.1 hs
    exact h.rpc_receive (queue_receive_eq_some.1 hreceive) hcall
  · rename_i msg hserve
    split at hs
    · rename_i hidle
      cases hs
      exact h.rpc_respond hserve hidle
    · cases hs

omit [DecidableEq ι] in
/-- The other tasks while one goes on in one of the remote functions. -/
theorem goto_same {k k' : κ} {t t' : τ} {w : System ι κ τ δ} {pc : Remote δ} (hhost : w.host = u.host)
    (hcalled : w.called = u.called) (hbegun : w.begun = u.begun) (hremote : w.remote = u.remote) (hne : k' ≠ k ∨ t' ≠ t) :
    (u.view k').Same ((w.goto k t pc).view k') t' where
  remote := (remote_goto_other hne).trans (by rw [hremote]; rfl)
  begun := congrFun hbegun _
  called := congrFun hcalled _
  issued := congrArg (fun host : Host ι κ τ δ => host.issued (.client k' t')) hhost

omit [DecidableEq ι] in
/-- The messages but for those of the tile are as they were. -/
theorem goto_still {k k' : κ} {t : τ} {w : System ι κ τ δ} {pc : Remote δ} (hhost : w.host = u.host)
    (hrequests : w.requests k' = u.requests k') (hresponses : w.responses k' = u.responses k') (hrpc : w.rpc k' = u.rpc k') :
    (u.view k').Still ((w.goto k t pc).view k') where
  requests := hrequests
  responses := hresponses
  rpc := hrpc
  within := congrArg (fun host : Host ι κ τ δ => host.within (.rpc k')) hhost
  actor := congrArg (fun host : Host ι κ τ δ => host.actor (.rpc k')) hhost
  memory _ := congrArg (fun host : Host ι κ τ δ => host.memory (.rpc k')) hhost

/-- A task goes on in one of the remote functions. -/
theorem System.Inv.remote_move {k : κ} {t : τ} {w : System ι κ τ δ} {pc : Remote δ} (h : u.Inv ptr) (hhost : w.host = u.host)
    (hcalled : w.called = u.called) (hbegun : w.begun = u.begun) (hremote : w.remote = u.remote)
    (hothers : ∀ k', k' ≠ k → w.client_lock k' = u.client_lock k' ∧ w.requests k' = u.requests k' ∧
      w.responses k' = u.responses k' ∧ w.rpc k' = u.rpc k')
    (htile : ((w.goto k t pc).view k).Tile (ptr k) k u.host.returned) (hfilled : ClientFilled w) :
    System.Inv ptr (w.goto k t pc) := by
  refine h.client_step (k := k) hhost (fun _ => congrFun hcalled _) (fun _ => congrFun hbegun _) (fun k' hk => ?_) htile
    (hfilled.frame rfl (fun _ => List.prefix_rfl) rfl)
  obtain ⟨hlock, hrequests, hresponses, hrpc⟩ := hothers k' hk
  exact ⟨hlock, fun t' => goto_same hhost hcalled hbegun hremote (.inl hk), goto_still hhost hrequests hresponses hrpc⟩

theorem System.Inv.remote_get_mutex {k : κ} {t : τ} {dev_ctx : δ} (h : u.Inv ptr) (hget : u.remote k t = .get_mutex dev_ctx)
    (hfree : u.client_lock k = none) : System.Inv ptr ({ u with
      client_lock := Function.update u.client_lock k (some t) }.goto k t (.call (.transaction_start dev_ctx))) := by
  refine h.remote_move rfl rfl rfl rfl (fun k' hk => ⟨Function.update_of_ne hk .., rfl, rfl, rfl⟩) ?_
    (h.filled.frame rfl (fun _ => List.prefix_rfl) rfl)
  exact (h.tile k).get_mutex hget hfree (Function.update_self ..) (fun _ ht => goto_same rfl rfl rfl rfl (.inr ht))
    ⟨rfl, rfl, rfl, rfl, rfl, fun _ => rfl⟩ remote_goto_self rfl rfl rfl

theorem System.Inv.remote_send {k : κ} {t : τ} {call : Call δ Nat} (h : u.Inv ptr) (hcall : u.remote k t = .call call) :
    System.Inv ptr ({ u with
      requests := Function.update u.requests k
        (u.requests k ++ [Msg.mk (.client k t) (call.remote (ptr k))]) }.goto k t (.wait call)) := by
  refine h.remote_move rfl rfl rfl rfl (fun k' hk => ⟨rfl, Function.update_of_ne hk .., rfl, rfl⟩) ?_
    (h.filled.frame rfl (fun _ => List.prefix_rfl) rfl)
  exact (h.tile k).send hcall rfl (fun _ ht => goto_same rfl rfl rfl rfl (.inr ht)) ⟨rfl, rfl, rfl, rfl, rfl, fun _ => rfl⟩
    (Function.update_self ..) remote_goto_self rfl rfl rfl

theorem System.Inv.remote_put_mutex {k : κ} {t : τ} (h : u.Inv ptr) (hput : u.remote k t = .put_mutex) :
    System.Inv ptr ({ u with
      client_lock := Function.update u.client_lock k (rtos_osal_mutex_put (u.client_lock k)).2 }.goto k t .idle) := by
  refine h.remote_move rfl rfl rfl rfl (fun k' hk => ⟨Function.update_of_ne hk .., rfl, rfl, rfl⟩) ?_
    (h.filled.frame rfl (fun _ => List.prefix_rfl) rfl)
  exact (h.tile k).put_mutex hput (Function.update_self ..) (fun _ ht => goto_same rfl rfl rfl rfl (.inr ht))
    ⟨rfl, rfl, rfl, rfl, rfl, fun _ => rfl⟩ remote_goto_self rfl rfl rfl

/-! ### A transfer's return -/

omit [DecidableEq κ] [DecidableEq τ] [DecidableEq ι] in
theorem Call.op_length {ρ : Type*} (call : Call δ ρ) : call.op.length = call.length := by
  cases call with
  | transfer ctx data_out data_in len => cases data_in <;> rfl
  | _ => rfl

theorem fill_take (bytes buffer : List UInt8) : (fill (some bytes) buffer).take bytes.length = bytes := by
  rw [fill, Option.getD_some, List.take_left]

omit [DecidableEq κ] [DecidableEq τ] [DecidableEq ι] in
theorem places_remote {ptr : δ → δ} {ctx : δ} {data_out : Option (List UInt8)} {address len : Nat} (hshort : len < 2 ^ 24)
    (hlen : len ≠ 0) : ∃ length, ((Call.transfer ctx data_out (some address) len).remote ptr).places = some length ∧
      length.toNat = len := by
  refine ⟨param_length true len, ?_, param_length_toNat hshort⟩
  have hne : param_length true len ≠ 0 := fun hzero => by
    have hnat := param_length_toNat hshort
    rw [hzero] at hnat
    exact hlen hnat.symm
  exact if_neg hne

/-- A transfer's buffer has what the host has received for it. -/
theorem transfer_filled {k : κ} {t : τ} {call : Call δ Nat} {bytes : List UInt8} (buffer : List UInt8) (hhost : u.host.Inv)
    (htaken : (u.view k).Taken (ptr k) k t call) (hbrings : Brings (ptr k) k u.host.returned (u.view k) call t bytes)
    (hplaces : call.length ≠ 0 → ∃ length, (call.remote (ptr k)).places = some length ∧ length.toNat = call.length) :
    Received u ⟨.client k t, (u.called (.client k t)).length - 1,
      (fill ((call.remote (ptr k)).places.map fun length => bytes.take length.toNat) buffer).take call.length⟩ := by
  obtain ⟨front, hfront⟩ := htaken.issued
  have hnumber : (u.called (.client k t))[(u.called (.client k t)).length - 1]? = some (call.remote (ptr k)).op := by
    rw [show u.called (.client k t) = front ++ [(call.remote (ptr k)).op] from htaken.called.trans hfront,
      List.length_append, List.length_singleton, Nat.add_sub_cancel]
    exact List.getElem?_concat_length
  have hlength : (call.remote (ptr k)).op.length = call.length := by
    rw [Call.op_length, Call.length_remote]
  refine ⟨_, hnumber, ?_⟩
  by_cases hlen : call.length = 0
  · refine ⟨?_, .inl (hlength.trans hlen)⟩
    rw [hlength, hlen]
    rfl
  · obtain ⟨length, hsome, hlength'⟩ := hplaces hlen
    obtain ⟨e, he, hop, hreceives, rfl, hcount⟩ := brings_received hhost rfl htaken.issued (by rw [hsome]; exact nofun) hbrings
    rw [hop, hlength] at hcount
    have hbytes : (fill ((call.remote (ptr k)).places.map fun length => e.received.take length.toNat) buffer).take call.length =
        e.received := by
      rw [hsome, Option.map_some, hlength', ← hcount, List.take_length]
      exact fill_take ..
    rw [hbytes, hlength]
    refine ⟨hcount, .inr ⟨e, ?_, hop, hop ▸ hreceives, rfl⟩⟩
    rw [show u.called (.client k t) = u.host.issued (.client k t) from htaken.called]
    exact he

theorem ClientFilled.answer {k : κ} {t : τ} {call : Call δ Nat} {bytes : List UInt8} (h : ClientFilled u) (hhost : u.host.Inv)
    (htaken : (u.view k).Taken (ptr k) k t call) (hbrings : Brings (ptr k) k u.host.returned (u.view k) call t bytes) :
    ClientFilled (u.answer k t call ((call.remote (ptr k)).places.map fun length => bytes.take length.toNat)) := by
  cases call with
  | transaction_start | delay_before_next_transfer | transaction_end => exact h
  | transfer ctx data_out data_in len =>
    cases data_in with
    | none => exact h
    | some address =>
      intro r hr
      rcases List.mem_append.1 hr with hbefore | hnew
      · exact h r hbefore
      · rw [List.mem_singleton.1 hnew]
        exact transfer_filled _ hhost htaken hbrings (places_remote htaken.short)

omit [DecidableEq ι] [DecidableEq τ] in
/-- What a response does not change. -/
theorem answer_frame (u : System ι κ τ δ) (k : κ) (t : τ) (call : Call δ Nat) (data_in : Option (List UInt8)) :
    (u.answer k t call data_in).host = u.host ∧ (u.answer k t call data_in).called = u.called ∧
      (u.answer k t call data_in).begun = u.begun ∧ (u.answer k t call data_in).remote = u.remote ∧
      (u.answer k t call data_in).client_lock = u.client_lock ∧ (u.answer k t call data_in).requests = u.requests ∧
      (u.answer k t call data_in).rpc = u.rpc := by
  cases call with
  | transfer ctx data_out data_in len => cases data_in <;> exact ⟨rfl, rfl, rfl, rfl, rfl, rfl, rfl⟩
  | _ => exact ⟨rfl, rfl, rfl, rfl, rfl, rfl, rfl⟩

theorem System.Inv.remote_wait {k : κ} {t : τ} {call : Call δ Nat} {data_in : Option (List UInt8)}
    {responses : List (Option (List UInt8))} (h : u.Inv ptr) (hwait : u.remote k t = .wait call)
    (hresponses : u.responses k = data_in :: responses) : System.Inv ptr ({ u.answer k t call data_in with
      responses := Function.update u.responses k responses }.goto k t call.exit) := by
  obtain ⟨hhost, hcalled, hbegun, hremote, hlock, hrequests, hrpc⟩ :=
    answer_frame u k t call data_in
  have hothers : ∀ t', t' ≠ t → (u.view k).Same (({ u.answer k t call data_in with
      responses := Function.update u.responses k responses }.goto k t call.exit).view k) t' :=
    fun t' ht' => goto_same hhost hcalled hbegun hremote (.inr ht')
  obtain ⟨htile, htaken, bytes, rfl, hbrings⟩ := (h.tile k).answer hwait hresponses (congrFun hlock k) hothers
    (goto_still (w := { u.answer k t call data_in with responses := u.responses }) hhost (congrFun hrequests k) rfl
      (congrFun hrpc k)) (Function.update_self ..) remote_goto_self (congrFun hbegun _)
    (congrArg (fun host : Host ι κ τ δ => host.issued (.client k t)) hhost) (congrFun hcalled _)
  refine h.remote_move hhost hcalled hbegun hremote (fun k' hk => ?_) htile ((h.filled.answer h.host htaken hbrings).frame rfl
    (fun _ => List.prefix_rfl) rfl)
  exact ⟨congrFun hlock _, congrFun hrequests _, Function.update_of_ne hk .., congrFun hrpc _⟩

theorem System.Inv.remote_step {k : κ} {t : τ} (h : u.Inv ptr) (hs : remote_step ptr u k t = some u') : u'.Inv ptr := by
  unfold RtosMaster.remote_step at hs
  split at hs
  case h_1 => cases hs
  case h_2 dev_ctx hget =>
    obtain ⟨lock, hlock, rfl⟩ := Option.map_eq_some_iff.1 hs
    obtain ⟨hfree, rfl⟩ := mutex_get_eq_some.1 hlock
    exact h.remote_get_mutex hget hfree
  case h_3 call hcall =>
    cases hs
    exact h.remote_send hcall
  case h_4 call hwait =>
    obtain ⟨⟨data_in, responses⟩, hreceive, rfl⟩ := Option.map_eq_some_iff.1 hs
    exact h.remote_wait hwait (queue_receive_eq_some.1 hreceive)
  case h_5 hput =>
    cases hs
    exact h.remote_put_mutex hput

theorem System.Inv.task_call {owner : Owner ι κ τ} {call : Call δ Nat} (h : u.Inv ptr)
    (hone : OneByOne u (.call owner call)) (hs : task_call ptr u owner call = some u') : u'.Inv ptr := by
  obtain ⟨hbegun, hshort⟩ := hone
  unfold RtosMaster.task_call at hs
  split at hs
  · obtain ⟨host, hcall, rfl⟩ := Option.map_eq_some_iff.1 hs
    exact h.host_call hbegun hcall
  · dsimp only at hs
    split at hs
    · rename_i hidle
      cases hs
      exact h.client_call hidle hbegun hshort
    · cases hs

theorem System.Inv.step {a : SystemAct ι κ τ δ} (h : u.Inv ptr) (hone : OneByOne u a) (hs : (system ptr).step u a = some u') :
    u'.Inv ptr := by
  cases a with
  | call owner call => exact h.task_call hone hs
  | actor a priority =>
    obtain ⟨host, hstep, rfl⟩ := Option.map_eq_some_iff.1 hs
    exact h.move (moves_of_step hstep)
  | rpc k => exact h.rpc_step hs
  | remote k t => exact h.remote_step hs
  | thread received =>
    obtain ⟨host, hstep, rfl⟩ := Option.map_eq_some_iff.1 hs
    exact h.thread_step hstep

theorem system_inv (h : (system ptr).Reachable OneByOne u) : u.Inv ptr := by
  refine h.inv (fun s hs => ?_) fun s a s' hs hone ht => hs.step hone ht
  obtain ⟨op_task_priority, memory, client_memory, rfl⟩ := hs
  refine ⟨init_inv op_task_priority memory, fun i => ⟨rfl, .inl ⟨rfl, rfl⟩⟩, fun k => ?_, nofun⟩
  exact .free rfl (fun t => .idle rfl rfl rfl) ⟨rfl, rfl, rfl, rfl, rfl⟩

/-! ## What the tasks rely on -/

omit [DecidableEq ι] [DecidableEq κ] [DecidableEq τ] in
theorem View.Away.issued_called {v : View ι κ τ δ} {host_dev_ctx_ptr : δ → δ} {t : τ} (h : v.Away host_dev_ctx_ptr t) :
    v.issued t <+: v.called t := by
  cases h with
  | idle _ _ hcalled => rw [hcalled]
  | waiting _ _ _ hcalled =>
    rw [hcalled]
    exact List.prefix_append ..

omit [DecidableEq ι] [DecidableEq κ] [DecidableEq τ] in
/-- The host is asked for what the task has called. -/
theorem View.Tile.issued_called {v : View ι κ τ δ} {host_dev_ctx_ptr : δ → δ} {k : κ} {returned : List (Returned ι κ τ)}
    (h : v.Tile host_dev_ctx_ptr k returned) (t : τ) : v.issued t <+: v.called t := by
  by_cases ht : v.Away host_dev_ctx_ptr t
  · exact ht.issued_called
  · obtain ⟨-, -, hown⟩ := h.holder ht
    cases hown with
    | rest _ _ hcalled | put _ _ hcalled => rw [hcalled]
    | running _ htaken | ended _ htaken | answered _ _ htaken => rw [htaken.called]
    | call _ _ _ _ hcalled | sent _ _ _ _ hcalled =>
      rw [hcalled]
      exact List.prefix_append ..

theorem System.Inv.issued (h : u.Inv ptr) (owner : Owner ι κ τ) : u.host.issued owner <+: u.called owner := by
  cases owner with
  | host i => rw [(h.task i).called]
  | client k t => exact (h.tile k).issued_called t

/-- What a transfer has returned with on the host's tile. -/
theorem System.Inv.received (h : u.Inv ptr) {r : Returned ι κ τ} (hr : r ∈ u.host.returned) : Received u r := by
  obtain ⟨e, he, hreceives, hbytes⟩ := h.host.filled r hr
  have hop : ((u.host.performed r.owner).map (·.op))[r.number]? = some e.op := by
    rw [List.getElem?_map, he]
    rfl
  obtain ⟨hlt, hget⟩ := List.getElem?_eq_some_iff.1 hop
  have hmem : e ∈ u.host.executed := (List.mem_filter.1 (List.mem_of_getElem? he)).1
  refine ⟨e.op, ?_, ?_, .inr ⟨e, he, rfl, hreceives, hbytes⟩⟩
  · rw [← hget]
    exact List.prefix_iff_getElem?.1 ((h.host.in_order r.owner).trans (h.issued r.owner)) _ hlt
  · rw [← hbytes]
    exact h.host.received e hmem hreceives

end
end RtosMaster
end Spi
