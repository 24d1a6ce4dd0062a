import XcoreSdk.Spi.RtosMasterRpc
/-!
# The RTOS SPI master over RPC: transactions

While a task of a client tile holds the tile's lock, the tile's messages and its thread on
the host are at the task's call, so that to the host the tile is one more task that issues
its transactions one after another.
-/

namespace Spi
namespace RtosMaster
open FreeRtos
open QspiFlash.Locking (Actor Mutex mutex_get mutex_put)
variable {ι κ τ δ : Type*}

/-! ## One call of a local function -/

/-- Where the call is, with the transaction that the lock is held for. -/
def Local.Runs (owner : Owner ι κ τ) (call : Call δ (Place κ)) (within : Option (Owner ι κ τ)) : Local ι κ τ δ → Prop
  | .idle => False
  | .get_mutex owner' _ => owner' = owner ∧ call.starts = true ∧ call.places = none ∧ call.continues = true
  | .send item => item.owner = owner ∧ item.req.data_in = call.places ∧ item.req.after owner = (if call.continues then some owner else none) ∧
    within = some owner
  | .wait place => call.places = some place ∧ call.continues = true ∧ within = some owner
  | .put_mutex => call.places = none ∧ call.continues = false

section
variable [DecidableEq ι] [DecidableEq κ] [DecidableEq τ] {s s' : Host ι κ τ δ} {a b : Actor ι κ} {owner : Owner ι κ τ}
  {call : Call δ (Place κ)}

theorem runs_of_call (hwithin : call.starts = false → s.within owner.actor = some owner)
    (hs : start_call s owner call = some s') : (s'.actor owner.actor).Runs owner call (s'.within owner.actor) := by
  unfold start_call at hs
  split at hs
  · cases hs
    dsimp only
    cases call with
    | transaction_start =>
      rw [Host.enter, goto_self]
      exact ⟨rfl, rfl, rfl, rfl⟩
    | delay_before_next_transfer =>
      rw [Host.enter, goto_self]
      exact ⟨rfl, rfl, rfl, hwithin rfl⟩
    | transaction_end =>
      rw [Host.enter, goto_self]
      exact ⟨rfl, rfl, rfl, hwithin rfl⟩
    | transfer ctx data_out data_in len =>
      cases data_in with
      | none =>
        rw [Host.enter, goto_self]
        exact ⟨rfl, rfl, rfl, hwithin rfl⟩
      | some place =>
        rw [Host.enter, goto_self]
        exact ⟨rfl, rfl, rfl, hwithin rfl⟩
  · cases hs

/-- The call has returned; a transfer has left what it received. -/
structure Over (s : Host ι κ τ δ) (a : Actor ι κ) (owner : Owner ι κ τ) (call : Call δ (Place κ)) : Prop where
  idle : s.actor a = .idle
  within : s.within a = if call.continues then some owner else none
  returned : ∀ place, call.places = some place → ∃ r ∈ s.returned,
    r.owner = owner ∧ r.number = (s.issued owner).length - 1 ∧ r.bytes = s.memory place

omit [DecidableEq τ] in
theorem Local.Runs.move (h : (s.actor a).Runs owner call (s.within a)) (hs : Moves s a s') :
    (s'.actor a).Runs owner call (s'.within a) ∨ Over s' a owner call := by
  cases hs with
  | get_mutex owner' ctx lock priority ha _ =>
    rw [ha] at h
    obtain ⟨rfl, hstarts, hplaces, hcontinues⟩ := h
    left
    rw [goto_self]
    exact ⟨rfl, hplaces.symm, by rw [hcontinues]; rfl, Function.update_self ..⟩
  | send item ha =>
    rw [ha] at h
    obtain ⟨rfl, hplaces, hafter, hwithin⟩ := h
    have hover : item.req.data_in = none → item.req.after item.owner = some item.owner → (item.req.next : Local ι κ τ δ) = .idle →
        Over ({ s with
          xfer_req_queue := s.xfer_req_queue ++ [item]
          sent := s.sent ++ [(item.owner, item.op)] }.goto a item.req.next) a item.owner call := by
      intro hnone hsome hidle
      refine ⟨goto_self.trans hidle, ?_, fun place hplace => ?_⟩
      · rw [← hafter, hsome]
        exact hwithin
      · rw [← hplaces, hnone] at hplace
        cases hplace
    cases hreq : item.req with
    | SPI_OP_START | SPI_OP_DELAY =>
      rw [hreq] at hover
      exact .inr (hover rfl rfl rfl)
    | SPI_OP_END =>
      rw [hreq] at hplaces hafter
      left
      rw [goto_self]
      refine ⟨hplaces.symm, ?_⟩
      by_contra hcontinues
      rw [if_pos (Bool.eq_true_of_not_eq_false hcontinues)] at hafter
      cases hafter
    | SPI_OP_XFER ctx data_out data_in len =>
      rw [hreq] at hover hplaces hafter
      cases data_in with
      | none => exact .inr (hover rfl rfl rfl)
      | some place =>
        left
        rw [goto_self]
        refine ⟨hplaces.symm, ?_, hwithin⟩
        by_contra hcontinues
        rw [if_neg hcontinues] at hafter
        cases hafter
  | wait place ready ha _ =>
    rw [ha] at h
    obtain ⟨hplaces, hcontinues, hwithin⟩ := h
    refine .inr ⟨goto_self, by rw [hcontinues]; exact hwithin, fun place' hplace' => ?_⟩
    obtain rfl := Option.some.inj (hplaces.symm.trans hplace')
    refine ⟨⟨owner, (s.issued owner).length - 1, s.memory place⟩, ?_, rfl, rfl, rfl⟩
    dsimp only [Host.goto]
    rw [Host.returns, hwithin]
    exact List.mem_append_right _ (List.mem_singleton.2 rfl)
  | put_mutex ha =>
    rw [ha] at h
    refine .inr ⟨goto_self, by rw [h.2]; exact Function.update_self .., fun place hplace => ?_⟩
    rw [h.1] at hplace
    cases hplace

/-! ## What stays as it is -/

omit [DecidableEq τ] in
/-- The steps of another task or thread. -/
theorem Moves.frame (hs : Moves s a s') (hb : b ≠ a) :
    s'.actor b = s.actor b ∧ s'.within b = s.within b := by
  cases hs with
  | get_mutex => exact ⟨goto_other hb, Function.update_of_ne hb ..⟩
  | send | wait => exact ⟨goto_other hb, rfl⟩
  | put_mutex => exact ⟨goto_other hb, Function.update_of_ne hb ..⟩

omit [DecidableEq τ] in
theorem Moves.same (hs : Moves s a s') :
    s'.memory = s.memory ∧ s'.issued = s.issued ∧ s'.executed = s.executed ∧ ∃ returned, s'.returned = s.returned ++ returned := by
  cases hs with
  | get_mutex | send | put_mutex => exact ⟨rfl, rfl, rfl, [], (List.append_nil _).symm⟩
  | wait => exact ⟨rfl, rfl, rfl, _, rfl⟩

/-- What a thread that is not waiting has received stays in its buffer. -/
theorem thread_memory {received : List UInt8} {k : κ} (h : s.Inv) (hs : spi_xfer_thread s received = some s')
    (hidle : s.actor (.rpc k) = .idle) : s'.memory (.rpc k) = s.memory (.rpc k) := by
  unfold spi_xfer_thread at hs
  split at hs
  case h_1 =>
    obtain ⟨_, -, rfl⟩ := Option.map_eq_some_iff.1 hs
    rfl
  case h_3 =>
    cases hs
    rfl
  case h_4 =>
    obtain ⟨_, ht, rfl⟩ := Option.map_eq_some_iff.1 hs
    obtain ⟨_, _, rfl⟩ := free_cases ht
    rfl
  case h_2 item hthread =>
    obtain ⟨_, _, _, _, _, rfl, -, -, -, hcases⟩ := perform_cases hs
    rcases hcases with ⟨-, -, rfl⟩ | ⟨place, hplace, -, rfl, -⟩
    · rfl
    · refine Function.update_of_ne ?_ ..
      rintro rfl
      obtain ⟨held, -, hturn⟩ := h.serial
      obtain ⟨a, ha⟩ := hturn.receiver hthread hplace
      have hbelongs := h.belongs a
      rw [ha] at hbelongs
      obtain rfl : a = .rpc k := hbelongs
      rw [hidle] at ha
      cases ha

end

/-! ## A client tile -/

/-- What there is of a client tile. -/
structure View (ι κ τ δ : Type*) where
  lock : Option τ
  remote : τ → Remote δ
  requests : List (Msg ι κ τ δ)
  responses : List (Option (List UInt8))
  rpc : Rpc ι κ τ δ
  begun : τ → Bool
  called : τ → List (Op δ)
  issued : τ → List (Op δ)
  within : Option (Owner ι κ τ)
  actor : Local ι κ τ δ
  memory : List UInt8

def System.view (s : System ι κ τ δ) (k : κ) : View ι κ τ δ where
  lock := s.client_lock k
  remote := s.remote k
  requests := s.requests k
  responses := s.responses k
  rpc := s.rpc k
  begun t := s.begun (.client k t)
  called t := s.called (.client k t)
  issued t := s.host.issued (.client k t)
  within := s.host.within (.rpc k)
  actor := s.host.actor (.rpc k)
  memory := s.host.memory (.rpc k)

section
variable (host_dev_ctx_ptr : δ → δ) (k : κ) (returned : List (Returned ι κ τ)) (v : View ι κ τ δ)

/-- No call is under way. -/
structure View.Rest (within : Option (Owner ι κ τ)) : Prop where
  requests : v.requests = []
  responses : v.responses = []
  rpc : v.rpc = .receive
  actor : v.actor = .idle
  within : v.within = within

/-- The host's transaction before a call and after it. -/
def Call.before (call : Call δ Nat) (owner : Owner ι κ τ) : Option (Owner ι κ τ) := if call.starts then none else some owner

def Call.after (call : Call δ Nat) (owner : Owner ι κ τ) : Option (Owner ι κ τ) := if call.continues then some owner else none

/-- Between transactions, or waiting for the tile's lock. -/
inductive View.Away (t : τ) : Prop
  | idle : v.remote t = .idle → v.begun t = false → v.called t = v.issued t → Away t
  | waiting (dev_ctx : δ) : v.remote t = .get_mutex dev_ctx → v.begun t = true →
      v.called t = v.issued t ++ [.transaction_start (host_dev_ctx_ptr dev_ctx)] → Away t

/-- The bytes are those of the task's last transfer. -/
def Brings (call : Call δ Nat) (t : τ) (bytes : List UInt8) : Prop :=
  (call.remote host_dev_ctx_ptr).places ≠ none →
    ∃ r ∈ returned, r.owner = .client k t ∧ r.number = (v.issued t).length - 1 ∧ r.bytes = bytes

/-- In a call whose request has been taken. -/
structure View.Taken (t : τ) (call : Call δ Nat) : Prop where
  remote : v.remote t = .wait call
  begun : v.begun t = call.continues
  short : Short (Owner.client (ι := ι) k t) call
  called : v.called t = v.issued t
  issued : ∃ front, v.issued t = front ++ [(call.remote host_dev_ctx_ptr).op]
  requests : v.requests = []

/-- Where the holder of the tile's lock is. -/
inductive View.Own (t : τ) : Prop
  | rest : v.remote t = .idle → v.begun t = true → v.called t = v.issued t → v.Rest (some (.client k t)) → Own t
  | call (call : Call δ Nat) : v.remote t = .call call → v.begun t = call.continues → Short (Owner.client (ι := ι) k t) call →
      v.called t = v.issued t ++ [(call.remote host_dev_ctx_ptr).op] → v.Rest (call.before (.client k t)) → Own t
  | sent (call : Call δ Nat) : v.remote t = .wait call → v.begun t = call.continues → Short (Owner.client (ι := ι) k t) call →
      v.called t = v.issued t ++ [(call.remote host_dev_ctx_ptr).op] →
      v.requests = [⟨.client k t, call.remote host_dev_ctx_ptr⟩] → v.responses = [] → v.rpc = .receive → v.actor = .idle →
      v.within = call.before (.client k t) → Own t
  | running (call : Call δ Nat) : v.Taken host_dev_ctx_ptr k t call → v.responses = [] →
      v.rpc = .serve ⟨.client k t, call.remote host_dev_ctx_ptr⟩ →
      v.actor.Runs (.client k t) ((call.remote host_dev_ctx_ptr).map fun _ => .rpc k) v.within → Own t
  | ended (call : Call δ Nat) : v.Taken host_dev_ctx_ptr k t call → v.responses = [] →
      v.rpc = .serve ⟨.client k t, call.remote host_dev_ctx_ptr⟩ → v.actor = .idle →
      v.within = call.after (.client k t) → Brings host_dev_ctx_ptr k returned v call t v.memory → Own t
  | answered (call : Call δ Nat) (bytes : List UInt8) : v.Taken host_dev_ctx_ptr k t call →
      v.responses = [(call.remote host_dev_ctx_ptr).places.map fun length => bytes.take length.toNat] → v.rpc = .receive →
      v.actor = .idle → v.within = call.after (.client k t) → Brings host_dev_ctx_ptr k returned v call t bytes → Own t
  | put : v.remote t = .put_mutex → v.begun t = false → v.called t = v.issued t → v.Rest none → Own t

inductive View.Tile : Prop
  | free : v.lock = none → (∀ t, v.Away host_dev_ctx_ptr t) → v.Rest none → Tile
  | held (t : τ) : v.lock = some t → (∀ t', t' ≠ t → v.Away host_dev_ctx_ptr t') → v.Own host_dev_ctx_ptr k returned t → Tile

end

variable {host_dev_ctx_ptr : δ → δ} {k : κ} {returned returned' : List (Returned ι κ τ)} {v v' : View ι κ τ δ} {t : τ}

/-! ### What a tile does not see -/

/-- A task as it was. -/
structure View.Same (v v' : View ι κ τ δ) (t : τ) : Prop where
  remote : v'.remote t = v.remote t
  begun : v'.begun t = v.begun t
  called : v'.called t = v.called t
  issued : v'.issued t = v.issued t

/-- The messages and the thread as they were, but for what the thread receives while it is at work. -/
structure View.Still (v v' : View ι κ τ δ) : Prop where
  requests : v'.requests = v.requests
  responses : v'.responses = v.responses
  rpc : v'.rpc = v.rpc
  within : v'.within = v.within
  actor : v'.actor = v.actor
  memory : v.actor = .idle → v'.memory = v.memory

theorem View.Away.frame (h : v.Away host_dev_ctx_ptr t) (hs : v.Same v' t) : v'.Away host_dev_ctx_ptr t := by
  cases h with
  | idle hremote hbegun hcalled =>
    exact .idle (hs.remote.trans hremote) (hs.begun.trans hbegun) (by rw [hs.called, hs.issued]; exact hcalled)
  | waiting dev_ctx hremote hbegun hcalled =>
    exact .waiting dev_ctx (hs.remote.trans hremote) (hs.begun.trans hbegun) (by rw [hs.called, hs.issued]; exact hcalled)

theorem View.Rest.frame {within : Option (Owner ι κ τ)} (h : v.Rest within) (hstill : v.Still v') : v'.Rest within :=
  ⟨hstill.requests.trans h.requests, hstill.responses.trans h.responses, hstill.rpc.trans h.rpc,
    hstill.actor.trans h.actor, hstill.within.trans h.within⟩

theorem View.Taken.frame {call : Call δ Nat} (h : v.Taken host_dev_ctx_ptr k t call) (hs : v.Same v' t)
    (hrequests : v'.requests = v.requests) : v'.Taken host_dev_ctx_ptr k t call :=
  ⟨hs.remote.trans h.remote, hs.begun.trans h.begun, h.short, by rw [hs.called, hs.issued]; exact h.called,
    by rw [hs.issued]; exact h.issued, hrequests.trans h.requests⟩

theorem Brings.frame {call : Call δ Nat} {bytes : List UInt8} (h : Brings host_dev_ctx_ptr k returned v call t bytes)
    (hissued : v'.issued t = v.issued t) (hreturned : ∀ r ∈ returned, r ∈ returned') :
    Brings host_dev_ctx_ptr k returned' v' call t bytes := by
  intro hplaces
  obtain ⟨r, hr, hspec⟩ := h hplaces
  rw [hissued]
  exact ⟨r, hreturned r hr, hspec⟩

theorem View.Own.frame (h : v.Own host_dev_ctx_ptr k returned t) (hs : v.Same v' t) (hstill : v.Still v')
    (hreturned : ∀ r ∈ returned, r ∈ returned') : v'.Own host_dev_ctx_ptr k returned' t := by
  cases h with
  | rest hremote hbegun hcalled hrest =>
    exact .rest (hs.remote.trans hremote) (hs.begun.trans hbegun) (by rw [hs.called, hs.issued]; exact hcalled)
      (hrest.frame hstill)
  | call call hremote hbegun hshort hcalled hrest =>
    exact .call call (hs.remote.trans hremote) (hs.begun.trans hbegun) hshort (by rw [hs.called, hs.issued]; exact hcalled)
      (hrest.frame hstill)
  | sent call hremote hbegun hshort hcalled hrequests hresponses hrpc hactor hwithin =>
    exact .sent call (hs.remote.trans hremote) (hs.begun.trans hbegun) hshort (by rw [hs.called, hs.issued]; exact hcalled)
      (hstill.requests.trans hrequests) (hstill.responses.trans hresponses) (hstill.rpc.trans hrpc)
      (hstill.actor.trans hactor) (hstill.within.trans hwithin)
  | running call htaken hresponses hrpc hruns =>
    exact .running call (htaken.frame hs hstill.requests) (hstill.responses.trans hresponses) (hstill.rpc.trans hrpc)
      (by rw [hstill.actor, hstill.within]; exact hruns)
  | ended call htaken hresponses hrpc hactor hwithin hbrings =>
    exact .ended call (htaken.frame hs hstill.requests) (hstill.responses.trans hresponses) (hstill.rpc.trans hrpc)
      (hstill.actor.trans hactor) (hstill.within.trans hwithin)
      (by rw [hstill.memory hactor]; exact hbrings.frame hs.issued hreturned)
  | answered call bytes htaken hresponses hrpc hactor hwithin hbrings =>
    exact .answered call bytes (htaken.frame hs hstill.requests) (hstill.responses.trans hresponses) (hstill.rpc.trans hrpc)
      (hstill.actor.trans hactor) (hstill.within.trans hwithin) (hbrings.frame hs.issued hreturned)
  | put hremote hbegun hcalled hrest =>
    exact .put (hs.remote.trans hremote) (hs.begun.trans hbegun) (by rw [hs.called, hs.issued]; exact hcalled)
      (hrest.frame hstill)

theorem View.Tile.frame (h : v.Tile host_dev_ctx_ptr k returned) (hlock : v'.lock = v.lock) (hs : ∀ t, v.Same v' t)
    (hstill : v.Still v') (hreturned : ∀ r ∈ returned, r ∈ returned') : v'.Tile host_dev_ctx_ptr k returned' := by
  cases h with
  | free hfree hall hrest => exact .free (hlock.trans hfree) (fun t => (hall t).frame (hs t)) (hrest.frame hstill)
  | held t hheld hothers hown =>
    exact .held t (hlock.trans hheld) (fun t' ht' => (hothers t' ht').frame (hs t')) (hown.frame (hs t) hstill hreturned)

/-! ### The tile's tasks -/

/-- A task starts a transaction, from outside of one. -/
theorem View.Tile.start {dev_ctx : δ} (h : v.Tile host_dev_ctx_ptr k returned) (hidle : v.remote t = .idle)
    (hbegun : v.begun t = false) (hlock : v'.lock = v.lock) (hothers : ∀ t', t' ≠ t → v.Same v' t') (hstill : v.Still v')
    (hremote : v'.remote t = .get_mutex dev_ctx) (hbegun' : v'.begun t = true) (hissued : v'.issued t = v.issued t)
    (hcalled : v'.called t = v.called t ++ [.transaction_start (host_dev_ctx_ptr dev_ctx)]) :
    v'.Tile host_dev_ctx_ptr k returned := by
  have hown : v.Away host_dev_ctx_ptr t → v'.Away host_dev_ctx_ptr t := fun ht => by
    cases ht with
    | idle _ _ hsame => exact .waiting dev_ctx hremote hbegun' (by rw [hcalled, hissued, hsame])
    | waiting _ hget => rw [hidle] at hget; cases hget
  have haway : ∀ t', v.Away host_dev_ctx_ptr t' → v'.Away host_dev_ctx_ptr t' := fun t' ht' => by
    by_cases htt : t' = t
    · subst htt
      exact hown ht'
    · exact ht'.frame (hothers t' htt)
  cases h with
  | free hfree hall hrest => exact .free (hlock.trans hfree) (fun t' => haway t' (hall t')) (hrest.frame hstill)
  | held t' hheld haways hholder =>
    have hne : t' ≠ t := by
      rintro rfl
      cases hholder with
      | rest _ hb => rw [hbegun] at hb; cases hb
      | call _ hr | sent _ hr | put hr => rw [hidle] at hr; cases hr
      | running _ htaken | ended _ htaken | answered _ _ htaken => exact absurd (hidle.symm.trans htaken.remote) nofun
    exact .held t' (hlock.trans hheld) (fun t'' ht'' => haway t'' (haways t'' ht''))
      (hholder.frame (hothers t' hne) hstill fun _ h => h)

theorem View.Tile.holder (h : v.Tile host_dev_ctx_ptr k returned) (ht : ¬ v.Away host_dev_ctx_ptr t) :
    v.lock = some t ∧ (∀ t', t' ≠ t → v.Away host_dev_ctx_ptr t') ∧ v.Own host_dev_ctx_ptr k returned t := by
  cases h with
  | free _ hall => exact absurd (hall t) ht
  | held t' hlock hothers hown =>
    by_cases htt : t = t'
    · subst htt
      exact ⟨hlock, hothers, hown⟩
    · exact absurd (hothers t htt) ht

theorem not_away {pc : Remote δ} (hremote : v.remote t = pc) (hidle : pc = .idle → v.begun t = true)
    (hget : ∀ dev_ctx, pc ≠ .get_mutex dev_ctx) : ¬ v.Away host_dev_ctx_ptr t := fun h => by
  cases h with
  | idle hr hb =>
    rw [hidle (hremote.symm.trans hr)] at hb
    cases hb
  | waiting dev_ctx hr => exact hget dev_ctx (hremote.symm.trans hr)

/-- The holder calls another one of the functions. -/
theorem View.Tile.request {call : Call δ Nat} (h : v.Tile host_dev_ctx_ptr k returned) (hidle : v.remote t = .idle)
    (hbegun : v.begun t = true) (hstarts : call.starts = false) (hshort : Short (Owner.client (ι := ι) k t) call)
    (hlock : v'.lock = v.lock) (hothers : ∀ t', t' ≠ t → v.Same v' t') (hstill : v.Still v')
    (hremote : v'.remote t = .call call) (hbegun' : v'.begun t = call.continues) (hissued : v'.issued t = v.issued t)
    (hcalled : v'.called t = v.called t ++ [(call.remote host_dev_ctx_ptr).op]) : v'.Tile host_dev_ctx_ptr k returned := by
  obtain ⟨hheld, haways, hown⟩ := h.holder (not_away hidle (fun _ => hbegun) nofun)
  refine .held t (hlock.trans hheld) (fun t' ht' => (haways t' ht').frame (hothers t' ht')) ?_
  cases hown with
  | call _ hr | sent _ hr | put hr => exact absurd (hidle.symm.trans hr) nofun
  | running _ htaken | ended _ htaken | answered _ _ htaken => exact absurd (hidle.symm.trans htaken.remote) nofun
  | rest _ _ hsame hrest =>
    refine .call call hremote hbegun' hshort (by rw [hcalled, hissued, hsame]) ?_
    rw [Call.before, hstarts]
    exact hrest.frame hstill

theorem View.Tile.get_mutex {dev_ctx : δ} (h : v.Tile host_dev_ctx_ptr k returned)
    (hget : v.remote t = .get_mutex dev_ctx) (hfree : v.lock = none) (hlock : v'.lock = some t)
    (hothers : ∀ t', t' ≠ t → v.Same v' t') (hstill : v.Still v')
    (hremote : v'.remote t = .call (.transaction_start dev_ctx)) (hbegun : v'.begun t = v.begun t)
    (hissued : v'.issued t = v.issued t) (hcalled : v'.called t = v.called t) : v'.Tile host_dev_ctx_ptr k returned := by
  cases h with
  | held _ hheld =>
    rw [hfree] at hheld
    cases hheld
  | free _ hall hrest =>
    refine .held t hlock (fun t' ht' => (hall t').frame (hothers t' ht')) ?_
    cases hall t with
    | idle hr => exact absurd (hget.symm.trans hr) nofun
    | waiting dev_ctx' hr hb hc =>
      obtain rfl := Remote.get_mutex.inj (hget.symm.trans hr)
      exact .call (.transaction_start dev_ctx) hremote (hbegun.trans hb) trivial (by rw [hcalled, hissued]; exact hc)
        (hrest.frame hstill)

theorem View.Tile.send {call : Call δ Nat} (h : v.Tile host_dev_ctx_ptr k returned) (hcall : v.remote t = .call call)
    (hlock : v'.lock = v.lock) (hothers : ∀ t', t' ≠ t → v.Same v' t')
    (hstill : v.Still { v' with requests := v.requests })
    (hrequests : v'.requests = v.requests ++ [⟨.client k t, call.remote host_dev_ctx_ptr⟩])
    (hremote : v'.remote t = .wait call) (hbegun : v'.begun t = v.begun t) (hissued : v'.issued t = v.issued t)
    (hcalled : v'.called t = v.called t) : v'.Tile host_dev_ctx_ptr k returned := by
  obtain ⟨hheld, haways, hown⟩ := h.holder (not_away hcall nofun nofun)
  refine .held t (hlock.trans hheld) (fun t' ht' => (haways t' ht').frame (hothers t' ht')) ?_
  cases hown with
  | rest hr | sent _ hr | put hr => exact absurd (hcall.symm.trans hr) nofun
  | running _ htaken | ended _ htaken | answered _ _ htaken => exact absurd (hcall.symm.trans htaken.remote) nofun
  | call call' hr hb hshort hc hrest =>
    obtain rfl := Remote.call.inj (hcall.symm.trans hr)
    exact .sent call hremote (hbegun.trans hb) hshort (by rw [hcalled, hissued]; exact hc)
      (by rw [hrequests, hrest.requests]; rfl) (hstill.responses.trans hrest.responses) (hstill.rpc.trans hrest.rpc)
      (hstill.actor.trans hrest.actor) (hstill.within.trans hrest.within)

/-- The response is the one to the task's own request. -/
theorem View.Tile.answer {call : Call δ Nat} {data_in : Option (List UInt8)} {responses : List (Option (List UInt8))}
    (h : v.Tile host_dev_ctx_ptr k returned) (hwait : v.remote t = .wait call) (hresponses : v.responses = data_in :: responses)
    (hlock : v'.lock = v.lock) (hothers : ∀ t', t' ≠ t → v.Same v' t')
    (hstill : v.Still { v' with responses := v.responses }) (hresponses' : v'.responses = responses)
    (hremote : v'.remote t = call.exit) (hbegun : v'.begun t = v.begun t) (hissued : v'.issued t = v.issued t)
    (hcalled : v'.called t = v.called t) :
    v'.Tile host_dev_ctx_ptr k returned ∧ v.Taken host_dev_ctx_ptr k t call ∧
      ∃ bytes, data_in = ((call.remote host_dev_ctx_ptr).places.map fun length => bytes.take length.toNat) ∧
        Brings host_dev_ctx_ptr k returned v call t bytes := by
  obtain ⟨hheld, haways, hown⟩ := h.holder (not_away hwait nofun nofun)
  cases hown with
  | rest hr | call _ hr | put hr => exact absurd (hwait.symm.trans hr) nofun
  | sent _ _ _ _ _ _ hnone | running _ _ hnone | ended _ _ hnone =>
    rw [hresponses] at hnone
    cases hnone
  | answered call' bytes htaken hdata hrpc hactor hwithin hbrings =>
    obtain rfl := Remote.wait.inj (hwait.symm.trans htaken.remote)
    obtain ⟨rfl, rfl⟩ := List.cons.inj (hresponses.symm.trans hdata)
    refine ⟨.held t (hlock.trans hheld) (fun t' ht' => (haways t' ht').frame (hothers t' ht')) ?_, htaken, bytes, rfl, hbrings⟩
    have hrest : v'.Rest (call.after (.client k t)) := ⟨hstill.requests.trans htaken.requests, hresponses',
      hstill.rpc.trans hrpc, hstill.actor.trans hactor, hstill.within.trans hwithin⟩
    have hb := hbegun.trans htaken.begun
    have hc : v'.called t = v'.issued t := by
      rw [hcalled, hissued]
      exact htaken.called
    cases call with
    | transaction_start | transfer | delay_before_next_transfer => exact .rest hremote hb hc hrest
    | transaction_end => exact .put hremote hb hc hrest

theorem View.Tile.put_mutex (h : v.Tile host_dev_ctx_ptr k returned) (hput : v.remote t = .put_mutex)
    (hlock : v'.lock = none) (hothers : ∀ t', t' ≠ t → v.Same v' t') (hstill : v.Still v')
    (hremote : v'.remote t = .idle) (hbegun : v'.begun t = v.begun t) (hissued : v'.issued t = v.issued t)
    (hcalled : v'.called t = v.called t) : v'.Tile host_dev_ctx_ptr k returned := by
  obtain ⟨-, haways, hown⟩ := h.holder (not_away hput nofun nofun)
  cases hown with
  | rest hr | call _ hr | sent _ hr => exact absurd (hput.symm.trans hr) nofun
  | running _ htaken | ended _ htaken | answered _ _ htaken => exact absurd (hput.symm.trans htaken.remote) nofun
  | put _ hb hc hrest =>
    refine .free hlock (fun t' => ?_) (hrest.frame hstill)
    by_cases htt : t' = t
    · subst htt
      exact .idle hremote (hbegun.trans hb) (by rw [hcalled, hissued]; exact hc)
    · exact (haways t' htt).frame (hothers t' htt)

/-! ### The tile's thread -/

theorem Call.places_map {ρ ρ' : Type*} (call : Call δ ρ) (f : ρ → ρ') : (call.map f).places = call.places.map f := by
  cases call <;> rfl

theorem Call.starts_map {ρ ρ' : Type*} (call : Call δ ρ) (f : ρ → ρ') : (call.map f).starts = call.starts := by
  cases call <;> rfl

theorem Call.continues_map {ρ ρ' : Type*} (call : Call δ ρ) (f : ρ → ρ') : (call.map f).continues = call.continues := by
  cases call <;> rfl

theorem Call.starts_remote (call : Call δ Nat) : (call.remote host_dev_ctx_ptr).starts = call.starts := by
  cases call <;> rfl

theorem Call.continues_remote (call : Call δ Nat) : (call.remote host_dev_ctx_ptr).continues = call.continues := by
  cases call <;> rfl

theorem Call.length_remote (call : Call δ Nat) : (call.remote host_dev_ctx_ptr).length = call.length := by
  cases call <;> rfl

theorem Call.op_map {ρ ρ' : Type*} (call : Call δ ρ) (f : ρ → ρ') : (call.map f).op = call.op := by
  cases call with
  | transfer ctx data_out data_in len => cases data_in <;> rfl
  | _ => rfl

/-- The thread takes the request. -/
theorem View.Tile.receive {msg : Msg ι κ τ δ} {requests : List (Msg ι κ τ δ)} (h : v.Tile host_dev_ctx_ptr k returned)
    (hrequests : v.requests = msg :: requests) :
    ∃ (t : τ) (call : Call δ Nat), msg = ⟨.client k t, call.remote host_dev_ctx_ptr⟩ ∧ v.within = call.before (.client k t) ∧ v.actor = .idle ∧
      ∀ v' : View ι κ τ δ, v'.lock = v.lock → v'.requests = requests → v'.responses = v.responses → v'.rpc = .serve msg →
        (∀ t', v'.remote t' = v.remote t' ∧ v'.begun t' = v.begun t' ∧ v'.called t' = v.called t') →
        (∀ t', t' ≠ t → v'.issued t' = v.issued t') → v'.issued t = v.issued t ++ [msg.call.op] →
        v'.actor.Runs msg.owner (msg.call.map fun _ => .rpc k) v'.within → v'.Tile host_dev_ctx_ptr k returned := by
  cases h with
  | free _ _ hrest =>
    rw [hrest.requests] at hrequests
    cases hrequests
  | held t hheld haways hown =>
    cases hown with
    | rest _ _ _ hrest | call _ _ _ _ _ hrest | put _ _ _ hrest =>
      rw [hrest.requests] at hrequests
      cases hrequests
    | running _ htaken | ended _ htaken | answered _ _ htaken =>
      rw [htaken.requests] at hrequests
      cases hrequests
    | sent call hr hb hshort hc hone hresponses hrpc hactor hwithin =>
      obtain ⟨rfl, rfl⟩ := List.cons.inj (hone.symm.trans hrequests)
      refine ⟨t, call, rfl, hwithin, hactor, fun v' hlock hrequests' hresponses' hrpc' hsame hothers hissued hruns => ?_⟩
      refine .held t (hlock.trans hheld) (fun t' ht' => (haways t' ht').frame ?_) ?_
      · exact ⟨(hsame t').1, (hsame t').2.1, (hsame t').2.2, hothers t' ht'⟩
      · refine .running call ⟨(hsame t).1.trans hr, (hsame t).2.1.trans hb, hshort, ?_, ⟨_, hissued⟩, hrequests'⟩
          (hresponses'.trans hresponses) hrpc' hruns
        rw [(hsame t).2.2, hc, hissued]

theorem View.Tile.serving {msg : Msg ι κ τ δ} (h : v.Tile host_dev_ctx_ptr k returned) (hserve : v.rpc = .serve msg) :
    ∃ (t : τ) (call : Call δ Nat), msg = ⟨.client k t, call.remote host_dev_ctx_ptr⟩ ∧ v.lock = some t ∧
      (∀ t', t' ≠ t → v.Away host_dev_ctx_ptr t') ∧ v.Taken host_dev_ctx_ptr k t call ∧ v.responses = [] ∧
      (v.actor.Runs msg.owner (msg.call.map fun _ => .rpc k) v.within ∨
        v.actor = .idle ∧ v.within = call.after (.client k t) ∧ Brings host_dev_ctx_ptr k returned v call t v.memory) := by
  cases h with
  | free _ _ hrest => exact absurd (hserve.symm.trans hrest.rpc) nofun
  | held t hheld haways hown =>
    cases hown with
    | rest _ _ _ hrest | call _ _ _ _ _ hrest | put _ _ _ hrest => exact absurd (hserve.symm.trans hrest.rpc) nofun
    | sent _ _ _ _ _ _ _ hrpc | answered _ _ _ _ hrpc => exact absurd (hserve.symm.trans hrpc) nofun
    | running call htaken hresponses hrpc hruns =>
      obtain rfl := Rpc.serve.inj (hserve.symm.trans hrpc)
      exact ⟨t, call, rfl, hheld, haways, htaken, hresponses, .inl hruns⟩
    | ended call htaken hresponses hrpc hactor hwithin hbrings =>
      obtain rfl := Rpc.serve.inj (hserve.symm.trans hrpc)
      exact ⟨t, call, rfl, hheld, haways, htaken, hresponses, .inr ⟨hactor, hwithin, hbrings⟩⟩

theorem View.Tile.respond {msg : Msg ι κ τ δ} (h : v.Tile host_dev_ctx_ptr k returned) (hserve : v.rpc = .serve msg)
    (hidle : v.actor = .idle) :
    View.Tile host_dev_ctx_ptr k returned
      { v with rpc := .receive, responses := v.responses ++ [msg.response v.memory] } := by
  obtain ⟨t, call, rfl, hheld, haways, htaken, hresponses, hruns | ⟨-, hwithin, hbrings⟩⟩ := h.serving hserve
  · rw [hidle] at hruns
    exact hruns.elim
  · refine .held t hheld (fun t' ht' => (haways t' ht').frame ⟨rfl, rfl, rfl, rfl⟩) ?_
    refine .answered call v.memory (htaken.frame ⟨rfl, rfl, rfl, rfl⟩ rfl) ?_ rfl hidle hwithin hbrings
    dsimp only
    rw [hresponses]
    rfl

section
variable [DecidableEq ι] [DecidableEq κ] {s : System ι κ τ δ} {host : Host ι κ τ δ}

/-- The local function goes on. -/
theorem System.tile_move (h : (s.view k).Tile host_dev_ctx_ptr k s.host.returned) (hm : Moves s.host (.rpc k) host) :
    ({ s with host }.view k).Tile host_dev_ctx_ptr k host.returned := by
  have hbusy : (s.view k).actor ≠ .idle := fun hidle => by
    have hidle : s.host.actor (.rpc k) = .idle := hidle
    cases hm with
    | get_mutex _ _ _ _ ha | send _ ha | wait _ _ ha | put_mutex ha => exact absurd (hidle.symm.trans ha) nofun
  obtain ⟨hmemory, hissued, -, new, hreturned⟩ := hm.same
  have hsame : ∀ t, (s.view k).Same ({ s with host }.view k) t := fun t => ⟨rfl, rfl, rfl, congrFun hissued _⟩
  cases h with
  | free _ _ hrest => exact absurd hrest.actor hbusy
  | held t hlock haways hown =>
    refine .held t hlock (fun t' ht' => (haways t' ht').frame (hsame t')) ?_
    cases hown with
    | rest _ _ _ hrest | call _ _ _ _ _ hrest | put _ _ _ hrest => exact absurd hrest.actor hbusy
    | sent _ _ _ _ _ _ _ _ hidle | ended _ _ _ _ hidle | answered _ _ _ _ _ hidle => exact absurd hidle hbusy
    | running call htaken hresponses hrpc hruns =>
      have htaken' : ({ s with host }.view k).Taken host_dev_ctx_ptr k t call := htaken.frame (hsame t) rfl
      rcases Local.Runs.move hruns hm with hruns' | hover
      · exact .running call htaken' hresponses hrpc hruns'
      · refine .ended call htaken' hresponses hrpc hover.idle ?_ fun hplaces => ?_
        · exact hover.within.trans (by rw [Call.continues_map, Call.continues_remote]; rfl)
        · obtain ⟨length, hlength⟩ := Option.ne_none_iff_exists'.1 hplaces
          exact hover.returned (.rpc k) (by rw [Call.places_map, hlength]; rfl)

end

/-! ## What a client's transfer returns with -/

theorem param_length_toNat {len : Nat} (h : len < 2 ^ 24) : (param_length true len).toNat = len := by
  rw [param_length, if_pos rfl, BitVec.toNat_ofNat, Nat.mod_eq_of_lt h]

section
variable [DecidableEq ι] [DecidableEq κ] [DecidableEq τ] {s s' : Host ι κ τ δ}

/-- The host is asked for the task's own operation, on the device's context there. -/
theorem remote_op {ctx : δ} {data_out : Option (List UInt8)} {data_in : Option Nat} {len : Nat} (hshort : len < 2 ^ 24)
    (hlen : len ≠ 0) (hout : ∀ bytes ∈ data_out, bytes.length = len) :
    ((Call.transfer ctx data_out data_in len).remote host_dev_ctx_ptr).op =
      (Call.transfer (host_dev_ctx_ptr ctx) data_out data_in len).op := by
  have hsome : param_length true len ≠ 0 := fun hzero => hlen (by rw [← param_length_toNat hshort, hzero]; rfl)
  have hnone : param_length false len = 0 := rfl
  have hdata_out : (if param_length data_out.isSome len = 0 then none
      else data_out.map (·.take (param_length data_out.isSome len).toNat)) = data_out := by
    cases data_out with
    | none => rfl
    | some bytes =>
      rw [Option.isSome_some, if_neg hsome, param_length_toNat hshort, Option.map_some, ← hout bytes rfl, List.take_length]
  dsimp only [Call.remote]
  rw [hdata_out]
  cases data_in with
  | none =>
    rw [Option.isSome_none, if_pos hnone]
    rfl
  | some address =>
    rw [Option.isSome_some, if_neg hsome]
    rfl

/-- The task's last operation has received these bytes, as many as it asked for. -/
theorem brings_received {call : Call δ Nat} {bytes : List UInt8} (h : s.Inv) (hissued : v.issued t = s.issued (.client k t))
    (hfront : ∃ front, v.issued t = front ++ [(call.remote host_dev_ctx_ptr).op])
    (hplaces : (call.remote host_dev_ctx_ptr).places ≠ none)
    (hbrings : Brings host_dev_ctx_ptr k s.returned v call t bytes) :
    ∃ e, (s.performed (.client k t))[(v.issued t).length - 1]? = some e ∧ e.op = (call.remote host_dev_ctx_ptr).op ∧
      e.op.receives ∧ e.received = bytes ∧ bytes.length = e.op.length := by
  obtain ⟨r, hr, howner, hnumber, rfl⟩ := hbrings hplaces
  obtain ⟨e, he, hop, hreceived⟩ := h.filled r hr
  rw [howner, hnumber] at he
  obtain ⟨front, hfront⟩ := hfront
  have hlast : (v.issued t)[(v.issued t).length - 1]? = some (call.remote host_dev_ctx_ptr).op := by
    rw [hfront, List.length_append, List.length_singleton, Nat.add_sub_cancel]
    exact List.getElem?_concat_length
  have hsame : e.op = (call.remote host_dev_ctx_ptr).op := by
    obtain ⟨rest, hrest⟩ := h.in_order (.client k t)
    have hmap : ((s.performed (.client k t)).map (·.op))[(v.issued t).length - 1]? = some e.op := by
      rw [List.getElem?_map, he]
      rfl
    generalize (v.issued t).length - 1 = n at hmap hlast
    obtain ⟨hlt, -⟩ := List.getElem?_eq_some_iff.1 hmap
    rw [hissued, ← hrest, List.getElem?_append_left hlt, hmap] at hlast
    exact Option.some.inj hlast
  have hmem : e ∈ s.executed := (List.mem_filter.1 (List.mem_of_getElem? he)).1
  refine ⟨e, he, hsame, hop, hreceived, ?_⟩
  rw [← hreceived, h.received e hmem hop]

end

end RtosMaster
end Spi
