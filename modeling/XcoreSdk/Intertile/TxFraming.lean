import XcoreSdk.Intertile.Tx
import Mathlib.Data.List.Infix
/-!
# Whole frames from many tasks

`Inv` follows the task that holds the lock through its message: what it has
written so far and what it has still to do make up the message's frame. The
lock is released when the announced length has been written. Parts that come
after that are empty, and for each of them the lock is released once more: as
long as nobody else sends that is a put on a free mutex, but it can also be
the put of another task's lock.
-/

namespace Intertile
open FreeRtos
variable {ι : Type*} [DecidableEq ι]

/-- The last part carries the last byte of the message, so the byte count
reaches the end in the last call and not before. -/
def Msg.Closed : Msg → Prop
  | .tx _ => True
  | .parts _ ps ne _ => ps.length = 1 ∨ ps.getLast ne ≠ []

/-- A task that sends messages which are not closed has the link to itself. -/
def Sound (progs : ι → List Msg) : Prop :=
  ∀ i, (∀ m ∈ progs i, m.Closed) ∨ ∀ j, j ≠ i → progs j = []

/-- The messages of task `i` among those sent. -/
def sentBy (sent : List (ι × Msg)) (i : ι) : List Msg := (sent.filter (·.1 = i)).map Prod.snd

def frames (sent : List (ι × Msg)) : List UInt8 := sent.flatMap fun e => e.2.packet.frame

/-- What is on the channel: the frames of the messages `sent`, one after the
other, and the beginning of the frame that the holder of the lock is writing. -/
structure Framed (progs : ι → List Msg) (s : Sender ι) (sent : List (ι × Msg)) (part : List UInt8) : Prop where
  chan : s.chan = frames sent ++ part
  holder : part ≠ [] → ∃ i m, s.lock = some i ∧ part <+: m.packet.frame ∧ sentBy sent i ++ [m] <+: progs i
  order : ∀ i, sentBy sent i <+: progs i
  /-- Every release is by the task that took the lock, one for each message. -/
  releases : s.releases = sent.map fun e => (e.1, e.1)
  finished : (∀ i, s.code i = []) → part = [] ∧ ∀ i, sentBy sent i = progs i
  failed : s.failed = false

/-! ## One message -/

/-- The holder's progress in a message: the value of `ctx->tx_len`, the bytes
written, and the operations left. -/
inductive Sending : Msg → Nat → List UInt8 → List Op → Prop
  | tx {p : Packet} {w r : List UInt8} : w ++ r = p.frame → Sending (.tx p) 0 w (r.map Op.out ++ [Op.put])
  | len {port ps ne fits} :
      Sending (.parts port ps ne fits) 0 []
        (Op.set_len ps.flatten.length :: (header port ps.flatten.length).map Op.out ++ ps.map Op.data)
  | head {port ps ne fits} {w r : List UInt8} : w ++ r = header port ps.flatten.length →
      Sending (.parts port ps ne fits) ps.flatten.length w (r.map Op.out ++ ps.map Op.data)
  | part {port ps ne fits w q qs} : q :: qs <:+ ps → w ++ (q :: qs).flatten = (Msg.parts port ps ne fits).packet.frame →
      Sending (.parts port ps ne fits) (q :: qs).flatten.length w ((q :: qs).map Op.data)
  | chunk {port ps ne fits w c q qs} : q :: qs <:+ ps →
      w ++ (c ++ qs.flatten) = (Msg.parts port ps ne fits).packet.frame →
      Sending (.parts port ps ne fits) (q.length + qs.flatten.length) w
        (c.map Op.out ++ Op.sub q.length :: Op.put_if_done :: qs.map Op.data)
  | done {port ps ne fits w q qs} : q :: qs <:+ ps → w ++ qs.flatten = (Msg.parts port ps ne fits).packet.frame →
      Sending (.parts port ps ne fits) qs.flatten.length w (.put_if_done :: qs.map Op.data)

/-- Operations that change nothing while the lock is free. -/
def Stray (ops : List Op) : Prop := ∀ op ∈ ops, op = .data [] ∨ op = .sub 0 ∨ op = .put_if_done

theorem Sending.prefix {m : Msg} {n : Nat} {w : List UInt8} {ops : List Op} (h : Sending m n w ops) :
    w <+: m.packet.frame := by
  cases h with
  | tx h => exact ⟨_, h⟩
  | len => exact List.nil_prefix
  | head h => exact List.IsPrefix.trans ⟨_, h⟩ ⟨_, rfl⟩
  | part _ h => exact ⟨_, h⟩
  | chunk _ h => exact ⟨_, h⟩
  | done _ h => exact ⟨_, h⟩

theorem Sending.ops_ne_nil {m : Msg} {n : Nat} {w : List UInt8} {ops : List Op} (h : Sending m n w ops) : ops ≠ [] := by
  cases h with
  | head _ =>
    rename_i ps ne _ _ _
    exact fun h => ne (by simpa using (List.append_eq_nil_iff.1 h).2)
  | _ => simp

/-- What is left after the byte count has reached the end are empty parts, of
a message that is not closed. -/
theorem stray_of_flatten_nil {qs : List (List UInt8)} (h : qs.flatten = []) : Stray (qs.map Op.data) := by
  intro op hop
  obtain ⟨q, hq, rfl⟩ := List.mem_map.1 hop
  exact .inl (congrArg Op.data (List.flatten_eq_nil_iff.1 h q hq))

theorem closed_no_stray {port ps ne fits q qs} (hc : (Msg.parts port ps ne fits).Closed) (hs : q :: qs <:+ ps)
    (h : qs.flatten = []) : qs = [] := by
  by_contra hqs
  obtain ⟨pre, rfl⟩ := hs
  rcases hc with h1 | hlast
  · have := List.length_pos_iff.2 hqs
    simp only [List.length_append, List.length_cons] at h1
    omega
  · refine hlast (List.flatten_eq_nil_iff.1 h _ ?_)
    rw [List.getLast_append_of_ne_nil _ (List.cons_ne_nil _ _), List.getLast_cons hqs]
    exact List.getLast_mem hqs

/-! ## The invariant -/

/-- What holds at all times: the messages `todo` of each task are still to be
finished, those `sent` are out. -/
structure Common (progs : ι → List Msg) (s : Sender ι) (sent : List (ι × Msg)) (todo : ι → List Msg) : Prop where
  order : ∀ i, sentBy sent i ++ todo i = progs i
  releases : s.releases = sent.map fun e => (e.1, e.1)
  failed : s.failed = false

/-- Nobody holds the lock. -/
structure Unlocked (progs : ι → List Msg) (s : Sender ι) (sent : List (ι × Msg)) (todo : ι → List Msg) : Prop
    extends Common progs s sent todo where
  lock : s.lock = none
  tx_len : s.tx_len = 0
  chan : s.chan = frames sent
  code : ∀ i, ∃ stray, s.code i = stray ++ (todo i).flatMap Msg.ops ∧ Stray stray ∧
    (stray ≠ [] → ∀ j, j ≠ i → progs j = [])

/-- Task `h` holds the lock and sends `m`. -/
structure Locked (progs : ι → List Msg) (s : Sender ι) (sent : List (ι × Msg)) (todo : ι → List Msg) (h : ι) (m : Msg)
    (rest : List Msg) (w : List UInt8) (ops : List Op) : Prop extends Common progs s sent todo where
  lock : s.lock = some h
  sending : Sending m s.tx_len w ops
  chan : s.chan = frames sent ++ w
  todo_holder : todo h = m :: rest
  code_holder : s.code h = ops ++ rest.flatMap Msg.ops
  code : ∀ i, i ≠ h → s.code i = (todo i).flatMap Msg.ops

def Inv (progs : ι → List Msg) (s : Sender ι) : Prop :=
  ∃ sent todo, Unlocked progs s sent todo ∨ ∃ h m rest w ops, Locked progs s sent todo h m rest w ops

theorem sentBy_append (sent : List (ι × Msg)) (h i : ι) (m : Msg) :
    sentBy (sent ++ [(h, m)]) i = sentBy sent i ++ if h = i then [m] else [] := by
  unfold sentBy
  rw [List.filter_append, List.map_append]
  congr 1
  by_cases hi : h = i <;> simp [hi]

omit [DecidableEq ι] in
theorem frames_append (sent : List (ι × Msg)) (h : ι) (m : Msg) :
    frames (sent ++ [(h, m)]) = frames sent ++ m.packet.frame := by
  simp [frames]

theorem inv_init (progs : ι → List Msg) (s : Sender ι) (h : (sender progs).init s) : Inv progs s := by
  cases h
  refine ⟨[], progs, .inl ⟨⟨fun _ => rfl, rfl, rfl⟩, rfl, rfl, rfl, fun i => ⟨[], rfl, ?_, fun h => absurd rfl h⟩⟩⟩
  intro op hop
  cases hop

/-! ## Steps -/

variable {progs : ι → List Msg} {s s' : Sender ι} {sent : List (ι × Msg)} {todo : ι → List Msg}
  {h : ι} {m : Msg} {rest : List Msg} {w : List UInt8} {ops : List Op}

@[simp] theorem goto_code_self (i : ι) (k : List Op) : (s.goto i k).code i = k := by simp [Sender.goto]

theorem goto_code_of_ne {i j : ι} (k : List Op) (hj : j ≠ i) : (s.goto i k).code j = s.code j := by
  simp [Sender.goto, hj]

/-- Every message begins with taking the lock. -/
theorem ops_eq_get (m : Msg) : ∃ k, m.ops = .get :: k ∧ Sending m 0 [] k := by
  cases m with
  | tx p => exact ⟨_, rfl, .tx rfl⟩
  | parts port ps ne fits => exact ⟨_, rfl, .len⟩

/-- A holder that moves on within its message. -/
theorem Locked.advance {s' : Sender ι} (w' : List UInt8) (ops' : List Op)
    (hl : Locked progs s sent todo h m rest w ops) (hlock : s'.lock = s.lock) (hrel : s'.releases = s.releases)
    (hfail : s'.failed = s.failed) (hchan : s'.chan = frames sent ++ w')
    (hcode : s'.code = Function.update s.code h (ops' ++ rest.flatMap Msg.ops)) (hs : Sending m s'.tx_len w' ops') :
    Inv progs s' := by
  refine ⟨sent, todo, .inr ⟨h, m, rest, w', ops', ⟨hl.order, by rw [hrel, hl.releases], by rw [hfail, hl.failed]⟩,
    by rw [hlock, hl.lock], hs, hchan, hl.todo_holder, by rw [hcode, Function.update_self], fun i hi => ?_⟩⟩
  rw [hcode, Function.update_of_ne hi, hl.code i hi]

/-- A holder that releases the lock at the end of its message. -/
theorem Locked.release {s' : Sender ι} {stray : List Op} (hl : Locked progs s sent todo h m rest w ops)
    (hlock : s'.lock = none) (hrel : s'.releases = s.releases ++ [(h, h)]) (hfail : s'.failed = s.failed)
    (hlen : s'.tx_len = 0) (hchan : s'.chan = s.chan) (hw : w = m.packet.frame)
    (hcode : s'.code = Function.update s.code h (stray ++ rest.flatMap Msg.ops)) (hs : Stray stray)
    (halone : stray ≠ [] → ∀ j, j ≠ h → progs j = []) : Inv progs s' := by
  refine ⟨sent ++ [(h, m)], Function.update todo h rest, .inl ⟨⟨fun i => ?_, ?_, by rw [hfail, hl.failed]⟩, hlock, hlen,
    by rw [hchan, hl.chan, frames_append, hw], fun i => ?_⟩⟩
  · rw [sentBy_append, ← hl.order i]
    by_cases hi : h = i
    · subst hi
      rw [if_pos rfl, Function.update_self, hl.todo_holder, List.append_assoc, List.singleton_append]
    · rw [if_neg hi, Function.update_of_ne (Ne.symm hi), List.append_nil]
  · rw [hrel, hl.releases, List.map_append, List.map_singleton]
  · by_cases hi : i = h
    · subst hi
      exact ⟨stray, by rw [hcode, Function.update_self, Function.update_self], hs, halone⟩
    · refine ⟨[], ?_, fun op hop => (nomatch hop), fun hne => absurd rfl hne⟩
      rw [hcode, Function.update_of_ne hi, Function.update_of_ne hi, hl.code i hi, List.nil_append]

theorem holder_mem (hl : Locked progs s sent todo h m rest w ops) : m ∈ progs h := by
  rw [← hl.order h, hl.todo_holder]
  simp

/-- The lock is taken for the next message. -/
theorem unlocked_step {i : ι} (hu : Unlocked progs s sent todo) (hs : (sender progs).step s i = some s') :
    Inv progs s' := by
  obtain ⟨stray, hcode, hstray, halone⟩ := hu.code i
  cases stray with
  | nil =>
    cases htodo : todo i with
    | nil =>
      have hnil : s.code i = [] := by rw [hcode, htodo]; rfl
      simp only [sender, hnil] at hs
      cases hs
    | cons m rest =>
      have hcode' : s.code i = m.ops ++ rest.flatMap Msg.ops := by rw [hcode, htodo]; rfl
      have hothers : ∀ j, j ≠ i → s.code j = (todo j).flatMap Msg.ops := by
        intro j hj
        obtain ⟨stray', hj', -, hal⟩ := hu.code j
        have hne : progs i ≠ [] := by rw [← hu.order i, htodo]; simp
        have : stray' = [] := by
          by_contra hs'
          exact hne (hal hs' i (Ne.symm hj))
        rw [hj', this, List.nil_append]
      obtain ⟨k, hk, hsend⟩ := ops_eq_get m
      rw [hk, List.cons_append] at hcode'
      simp only [sender, hcode', Sender.run, hu.lock, rtos_osal_mutex_get, Option.map_some, Option.some.injEq] at hs
      subst hs
      refine ⟨sent, todo, .inr ⟨i, m, rest, [], k, ⟨hu.order, hu.releases, hu.failed⟩, rfl, ?_,
        by simp [Sender.goto, hu.chan], htodo, by simp, fun j hj => ?_⟩⟩
      · have hlen : (s.goto i (k ++ rest.flatMap Msg.ops)).tx_len = 0 := hu.tx_len
        exact hlen ▸ hsend
      · exact (goto_code_of_ne (k ++ rest.flatMap Msg.ops) hj).trans (hothers j hj)
  | cons op stray =>
    -- what is left over from a message that is not closed
    have hal := halone (List.cons_ne_nil _ _)
    have hstray' : Stray stray := fun o ho => hstray o (List.mem_cons_of_mem _ ho)
    rw [List.cons_append] at hcode
    have keep : ∀ stray', Stray stray' → ∀ t : Sender ι, t = s.goto i (stray' ++ (todo i).flatMap Msg.ops) →
        Inv progs t := by
      rintro stray' hs' t rfl
      refine ⟨sent, todo, .inl ⟨⟨hu.order, hu.releases, hu.failed⟩, hu.lock, hu.tx_len, hu.chan, fun j => ?_⟩⟩
      by_cases hj : j = i
      · subst hj
        exact ⟨stray', by simp, hs', fun _ => hal⟩
      · rw [goto_code_of_ne _ hj]
        exact hu.code j
    rcases hstray op List.mem_cons_self with rfl | rfl | rfl
    · simp only [sender, hcode, Sender.run, rtos_intertile_tx_data, List.length_nil, Nat.zero_le, if_true,
        List.take_nil, List.map_nil, List.nil_append, Option.some.injEq] at hs
      refine keep (.sub 0 :: .put_if_done :: stray) ?_ _ hs.symm
      intro o ho
      rcases List.mem_cons.1 ho with rfl | ho
      · exact .inr (.inl rfl)
      · rcases List.mem_cons.1 ho with rfl | ho
        · exact .inr (.inr rfl)
        · exact hstray' o ho
    · simp only [sender, hcode, Sender.run, Option.some.injEq] at hs
      refine keep stray hstray' _ ?_
      rw [← hs, hu.tx_len]
      simp [Sender.goto, hu.tx_len]
    · simp only [sender, hcode, Sender.run, hu.tx_len, if_true, Option.some.injEq] at hs
      refine keep stray hstray' _ ?_
      rw [← hs]
      simp [Sender.goto, Sender.unlock, rtos_osal_mutex_put, hu.lock]

/-- The holder goes on with its message; everybody else waits or is done. -/
theorem locked_step {i : ι} (hsound : Sound progs) (hl : Locked progs s sent todo h m rest w ops)
    (hs : (sender progs).step s i = some s') : Inv progs s' := by
  by_cases hi : i = h
  · subst hi
    have hcode := hl.code_holder
    have hclosed : m.Closed ∨ ∀ j, j ≠ i → progs j = [] := (hsound i).imp_left fun hc => hc m (holder_mem hl)
    have hmove : ∀ {b : UInt8} {r : List Op}, ops = .out b :: r → Sending m s.tx_len (w ++ [b]) r → Inv progs s' := by
      rintro b r rfl hsend
      rw [List.cons_append] at hcode
      simp only [sender, hcode, Sender.run, Option.some.injEq] at hs
      subst hs
      exact hl.advance (w ++ [b]) r rfl rfl rfl (by simp [hl.chan]) rfl hsend
    have hunlock : ∀ stray : List Op, (s.goto i (stray ++ rest.flatMap Msg.ops)).unlock i = s' →
        s.tx_len = 0 → w = m.packet.frame → Stray stray → (stray ≠ [] → ¬ m.Closed) → Inv progs s' := by
      rintro stray rfl hlen hw hstray hal
      refine hl.release rfl ?_ rfl hlen rfl hw rfl hstray fun hne => hclosed.resolve_left (hal hne)
      simp [Sender.unlock, Sender.goto, hl.lock]
    have hdata : ∀ {port ps ne fits q qs}, m = .parts port ps ne fits → q :: qs <:+ ps →
        w ++ (q :: qs).flatten = m.packet.frame → ops = (q :: qs).map Op.data →
        s.tx_len = (q :: qs).flatten.length → Inv progs s' := by
      rintro port ps ne fits q qs rfl hsuf hw rfl hlen
      rw [List.map_cons, List.cons_append] at hcode
      have hle : q.length ≤ s.tx_len := by rw [hlen]; simp
      simp only [sender, hcode, Sender.run, rtos_intertile_tx_data, if_pos hle, List.take_length,
        Option.some.injEq] at hs
      subst hs
      refine hl.advance w (q.map Op.out ++ Op.sub q.length :: Op.put_if_done :: qs.map Op.data) rfl rfl rfl hl.chan
        (by simp [Sender.goto]) ?_
      have hlen' : s.tx_len = q.length + qs.flatten.length := by rw [hlen]; simp
      show Sending _ s.tx_len w _
      rw [hlen']
      exact .chunk hsuf hw
    have hsending := hl.sending
    generalize hn : s.tx_len = n at hsending hmove hunlock hdata
    cases hsending with
    | tx hwr =>
      rename_i p r
      cases r with
      | nil =>
        simp only [List.map_nil, List.nil_append, List.singleton_append] at hcode
        simp only [sender, hcode, Sender.run, Option.some.injEq] at hs
        rw [List.append_nil] at hwr
        exact hunlock [] hs rfl hwr (fun op hop => nomatch hop) fun h => absurd rfl h
      | cons b r =>
        exact hmove rfl (.tx (by rw [List.append_assoc, List.singleton_append, hwr]))
    | len =>
      rename_i port ps ne fits
      simp only [List.cons_append, sender, hcode, Sender.run, hn, ne_eq, not_true, decide_false, Bool.or_false,
        Option.some.injEq] at hs
      subst hs
      exact hl.advance [] ((header port ps.flatten.length).map Op.out ++ ps.map Op.data) rfl rfl
        (by simp) hl.chan rfl (.head rfl)
    | head hwr =>
      rename_i port ps ne fits r
      cases r with
      | nil =>
        obtain ⟨q, qs, rfl⟩ := List.exists_cons_of_ne_nil ne
        rw [List.append_nil] at hwr
        exact hdata rfl (List.suffix_refl _) (by rw [hwr]; rfl) rfl rfl
      | cons b r =>
        exact hmove rfl (.head (by rw [List.append_assoc, List.singleton_append, hwr]))
    | part hsuf hw => exact hdata rfl hsuf hw rfl rfl
    | chunk hsuf hw =>
      rename_i port ps ne fits c q qs
      cases c with
      | nil =>
        simp only [List.map_nil, List.nil_append, List.cons_append, sender, hcode, Sender.run, Option.some.injEq] at hs
        subst hs
        refine hl.advance w (.put_if_done :: qs.map Op.data) rfl rfl rfl hl.chan rfl ?_
        have hlt : q.length + qs.flatten.length < 2 ^ 32 := by
          obtain ⟨pre, rfl⟩ := hsuf
          simp only [List.flatten_append, List.flatten_cons, List.length_append] at fits
          omega
        have hlen : (s.tx_len + 2 ^ 32 - q.length) % 2 ^ 32 = qs.flatten.length := by omega
        show Sending _ ((s.tx_len + 2 ^ 32 - q.length) % 2 ^ 32) w _
        rw [hlen]
        exact .done hsuf (by simpa using hw)
      | cons b c =>
        exact hmove rfl (.chunk hsuf (by rw [← hw]; simp))
    | done hsuf hw =>
      rename_i port ps ne fits q qs
      simp only [List.cons_append, sender, hcode, Sender.run, hn, Option.some.injEq] at hs
      split at hs
      · rename_i h0
        have hnil := List.eq_nil_of_length_eq_zero h0
        rw [hnil, List.append_nil] at hw
        refine hunlock _ hs h0 hw (stray_of_flatten_nil hnil) fun hne hc => hne ?_
        rw [closed_no_stray hc hsuf hnil, List.map_nil]
      · rename_i h0
        subst hs
        cases qs with
        | nil => exact absurd rfl h0
        | cons q' qs =>
          refine hl.advance w ((q' :: qs).map Op.data) rfl rfl rfl hl.chan rfl ?_
          show Sending _ s.tx_len w _
          rw [hn]
          exact .part ((List.suffix_cons q _).trans hsuf) hw
  · have hcode := hl.code i hi
    cases htodo : todo i with
    | nil =>
      simp only [sender, hcode, htodo, List.flatMap_nil] at hs
      cases hs
    | cons m' rest' =>
      obtain ⟨k, hk, -⟩ := ops_eq_get m'
      rw [htodo, List.flatMap_cons, hk, List.cons_append] at hcode
      simp only [sender, hcode, Sender.run, hl.lock, rtos_osal_mutex_get, Option.map_none] at hs
      cases hs

theorem inv_step (hsound : Sound progs) {i : ι} (hinv : Inv progs s) (hs : (sender progs).step s i = some s') :
    Inv progs s' := by
  obtain ⟨sent, todo, hu | ⟨h, m, rest, w, ops, hl⟩⟩ := hinv
  · exact unlocked_step hu hs
  · exact locked_step hsound hl hs

theorem prefix_append_of_todo {m : Msg} {sent : List (ι × Msg)} (ho : sentBy sent h ++ todo h = progs h)
    (ht : todo h = m :: rest) : sentBy sent h ++ [m] <+: progs h :=
  ⟨rest, by rw [← ho, ht, List.append_assoc, List.singleton_append]⟩

theorem framed_of_inv (hinv : Inv progs s) : ∃ sent part, Framed progs s sent part := by
  obtain ⟨sent, todo, hu | ⟨h, m, rest, w, ops, hl⟩⟩ := hinv
  · refine ⟨sent, [], by rw [hu.chan, List.append_nil], fun hne => absurd rfl hne,
      fun i => ⟨_, hu.order i⟩, hu.releases, fun hfin => ⟨rfl, fun i => ?_⟩, hu.failed⟩
    obtain ⟨stray, hcode, -⟩ := hu.code i
    rw [hfin i] at hcode
    have hnil := (List.append_eq_nil_iff.1 hcode.symm).2
    have htodo : todo i = [] := by
      cases htodo : todo i with
      | nil => rfl
      | cons m' rest' =>
        obtain ⟨k, hk, -⟩ := ops_eq_get m'
        rw [htodo, List.flatMap_cons, hk] at hnil
        cases hnil
    rw [← hu.order i, htodo, List.append_nil]
  · refine ⟨sent, w, hl.chan, fun _ => ⟨h, m, hl.lock, hl.sending.prefix, prefix_append_of_todo (hl.order h) hl.todo_holder⟩,
      fun i => ⟨_, hl.order i⟩, hl.releases, fun hfin => ?_, hl.failed⟩
    have hcode := hl.code_holder
    rw [hfin h] at hcode
    exact absurd (List.append_eq_nil_iff.1 hcode.symm).1 hl.sending.ops_ne_nil

/-- Whatever the tasks' interleaving, whole frames are on the channel, each
from one message of one task, and each message releases the lock once. -/
theorem tx_framing (progs : ι → List Msg) (hsound : Sound progs) {s : Sender ι}
    (hs : (sender progs).Reachable Machine.Free s) : ∃ sent part, Framed progs s sent part :=
  framed_of_inv (hs.inv (inv_init progs) fun _ _ _ hinv _ hstep => inv_step hsound hinv hstep)

theorem seven_fits : [(7 : UInt8)].length < 2 ^ 32 := by decide

theorem nine_fits : [(9 : UInt8)].length < 2 ^ 32 := by decide

theorem five_six_fit : [(5 : UInt8), 6].length < 2 ^ 32 := by decide

/-- A message in two parts and one after it, with another task's message between them. -/
def twoParts : List Msg := [.parts 1 [[5], [6]] (List.cons_ne_nil _ _) five_six_fit, .tx ⟨3, [7], seven_fits⟩]

def oneByte : List Msg := [.tx ⟨2, [9], nine_fits⟩]

theorem twoParts_sound : Sound fun i : Bool => if i then oneByte else twoParts := by
  intro i
  refine .inl fun m hm => ?_
  cases i with
  | true =>
    obtain rfl := List.mem_singleton.1 hm
    trivial
  | false =>
    rcases List.mem_cons.1 hm with rfl | hm
    · exact .inr (by decide)
    · obtain rfl := List.mem_singleton.1 hm
      trivial

theorem tx_framing_parts : ∃ s sent, (sender fun i => if i then oneByte else twoParts).Reachable Machine.Free s ∧
    s.chan = [1, 0, 0, 0, 2, 5, 6, 2, 0, 0, 0, 1, 9, 3, 0, 0, 0, 1, 7] ∧
    s.releases = [(false, false), (true, true), (false, false)] ∧
    (∀ i, sentBy sent i = if i then oneByte else twoParts) ∧ Framed (fun i => if i then oneByte else twoParts) s sent [] := by
  have hrun : ((sender fun i => if i then oneByte else twoParts).exec Machine.Free
      ⟨none, 0, [], fun i => (if i then oneByte else twoParts).flatMap Msg.ops, [], false⟩
      (List.replicate 15 false ++ List.replicate 8 true ++ List.replicate 8 false)).map
        (fun s => (s.chan, s.releases, (s.code false).isEmpty, (s.code true).isEmpty)) =
      some ([1, 0, 0, 0, 2, 5, 6, 2, 0, 0, 0, 1, 9, 3, 0, 0, 0, 1, 7],
        [(false, false), (true, true), (false, false)], true, true) := by decide +kernel
  obtain ⟨s, hs, hobs⟩ := Option.map_eq_some_iff.1 hrun
  simp only [Prod.mk.injEq, List.isEmpty_iff] at hobs
  obtain ⟨hchan, hrel, hcode, hcode'⟩ := hobs
  have hreach := Machine.exec_reachable rfl hs
  obtain ⟨sent, part, hf⟩ := tx_framing _ twoParts_sound hreach
  have hfin : ∀ i, s.code i = [] := by
    intro i
    cases i
    · exact hcode
    · exact hcode'
  obtain ⟨rfl, hall⟩ := hf.finished hfin
  exact ⟨s, sent, hreach, hchan, hrel, hall, hf⟩

/-- A command of one byte without a payload, sent in two parts as device
control does, and a message after it. -/
def emptyPart : List Msg :=
  [.parts 1 [[5], []] (List.cons_ne_nil _ _) (by decide), .tx ⟨3, [7], seven_fits⟩]

/-- Task `false` announces and sends its byte and releases the lock, task
`true` takes it and writes its port, task `false` sends its empty part and so
releases the lock again, takes it and writes into the frame of `true`. -/
def stealing : List Bool :=
  List.replicate 11 false ++ List.replicate 2 true ++ List.replicate 5 false

theorem tx_framing_stolen : ∃ s, (sender fun i => if i then oneByte else emptyPart).Reachable Machine.Free s ∧
    s.chan = [1, 0, 0, 0, 1, 5, 2, 3] ∧ s.releases = [(false, false), (false, true)] ∧
    ¬ ∃ sent part, Framed (fun i => if i then oneByte else emptyPart) s sent part := by
  have hrun : ((sender fun i => if i then oneByte else emptyPart).exec Machine.Free
      ⟨none, 0, [], fun i => (if i then oneByte else emptyPart).flatMap Msg.ops, [], false⟩ stealing).map
        (fun s => (s.chan, s.releases)) = some ([1, 0, 0, 0, 1, 5, 2, 3], [(false, false), (false, true)]) := by
    decide +kernel
  obtain ⟨s, hs, hobs⟩ := Option.map_eq_some_iff.1 hrun
  obtain ⟨hchan, hrel⟩ := Prod.mk.inj hobs
  refine ⟨s, Machine.exec_reachable rfl hs, hchan, hrel, ?_⟩
  rintro ⟨sent, part, hf⟩
  have hmem : (false, true) ∈ sent.map fun e => (e.1, e.1) := by rw [← hf.releases, hrel]; decide
  obtain ⟨e, -, he⟩ := List.mem_map.1 hmem
  obtain ⟨h1, h2⟩ := Prod.mk.inj he
  rw [h1] at h2
  cases h2

end Intertile
