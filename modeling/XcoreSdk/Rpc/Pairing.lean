import XcoreSdk.Rpc.Clients
/-!
# Which call gets which response

A response goes to whoever waits on the port, so it reaches the right caller
only if there is one caller. That is so when every call is made with the
driver's lock held (`Guarded`), as the functions of four drivers see to, or
when the callers take turns by themselves (`Turns`). The remote functions of
the I2C master and of the microphone array take no lock.
-/

namespace Rpc
variable {ι : Type*} [DecidableEq ι] {d : Driver} {progs : ι → List (Remote d)}

/-- Every call is made with the lock held, which was taken `n` times before. -/
def Guarded : Nat → List ClientOp → Prop
  | _, [] => True
  | n, .get :: k => Guarded (n + 1) k
  | n, .call _ :: k => 0 < n ∧ Guarded n k
  | n, .put :: k => 0 < n ∧ Guarded (n - 1) k

/-- No call is started while another one waits for its response. -/
def Turns (s : Clients ι) : ClientAct ι → Prop
  | .task i => s.waiting i = none → (∃ fcode k, s.code i = .call fcode :: k) → ∀ j, s.waiting j = none
  | .host => True

/-- Every call that has returned got the response to its own request. -/
def Paired (s : Clients ι) : Prop := ∀ e ∈ s.returned, e.2 = e.1

/-! ## Taking turns -/

/-- At most one call is under way, and its request or its response with it. -/
inductive OneCall (s : Clients ι) : Prop
  | none : (∀ j, s.waiting j = none) → s.requests = [] → s.responses = [] → Paired s → OneCall s
  | one {i : ι} {c : Call ι} : s.waiting i = some c → c.task = i → (∀ j, j ≠ i → s.waiting j = Option.none) →
      s.responses ++ s.requests = [c] → Paired s → OneCall s

variable {s s' : Clients ι}

omit [DecidableEq ι] in
theorem OneCall.paired (h : OneCall s) : Paired s := by
  cases h with
  | none _ _ _ hp => exact hp
  | one _ _ _ _ hp => exact hp

omit [DecidableEq ι] in
/-- Operations on the lock do not concern the calls. -/
theorem OneCall.frame (h : OneCall s) (hw : s'.waiting = s.waiting) (hq : s'.requests = s.requests)
    (hr : s'.responses = s.responses) (hret : s'.returned = s.returned) : OneCall s' := by
  have hp : Paired s' := by
    have := h.paired
    unfold Paired
    rwa [hret]
  cases h with
  | none h1 h2 h3 _ => exact .none (by rwa [hw]) (by rw [hq, h2]) (by rw [hr, h3]) hp
  | one h1 ht h2 h3 _ => exact .one (by rw [hw]; exact h1) ht (by rwa [hw]) (by rw [hq, hr, h3]) hp

theorem client_op_frame {recursive : Bool} {i : ι} {k : List ClientOp} {op : ClientOp} (hop : ∀ fcode, op ≠ .call fcode)
    (hs : client_op recursive s i k op = some s') :
    s'.waiting = s.waiting ∧ s'.requests = s.requests ∧ s'.responses = s.responses ∧ s'.returned = s.returned := by
  cases op with
  | call fcode => exact absurd rfl (hop fcode)
  | get =>
    simp only [client_op] at hs
    split at hs
    · cases hs; exact ⟨rfl, rfl, rfl, rfl⟩
    · split at hs
      · cases hs; exact ⟨rfl, rfl, rfl, rfl⟩
      · cases hs
  | put =>
    simp only [client_op] at hs
    split at hs <;> cases hs <;> exact ⟨rfl, rfl, rfl, rfl⟩

theorem one_call_task {i : ι} (h : OneCall s) (hturns : Turns s (.task i))
    (hs : client_step d.recursive s i = some s') : OneCall s' := by
  unfold client_step at hs
  cases hw : s.waiting i with
  | some c =>
    rw [hw] at hs
    cases hr : s.responses with
    | nil => rw [hr] at hs; cases hs
    | cons r responses =>
      rw [hr] at hs
      cases hs
      cases h with
      | none h1 => rw [h1 i] at hw; cases hw
      | @one i' c' h1 _ h2 h3 hp =>
        have hi : i = i' := by
          by_contra hne
          rw [h2 i hne] at hw
          cases hw
        subst hi
        rw [hr, List.cons_append] at h3
        obtain ⟨rfl, hnil⟩ := List.cons.inj h3
        obtain ⟨rfl, hnil⟩ := List.append_eq_nil_iff.1 hnil
        obtain rfl := Option.some.inj (hw.symm.trans h1)
        refine .none (fun j => ?_) hnil rfl fun e he => ?_
        · by_cases hj : j = i
          · subst hj; simp
          · simp [Function.update_of_ne hj, h2 j hj]
        · rcases List.mem_append.1 he with he | he
          · exact hp e he
          · rw [List.mem_singleton.1 he]
  | none =>
    rw [hw] at hs
    cases hc : s.code i with
    | nil => rw [hc] at hs; cases hs
    | cons op k =>
      rw [hc] at hs
      cases op with
      | call fcode =>
        have hnone := hturns hw ⟨fcode, k, hc⟩
        cases hs
        cases h with
        | none h1 h2 h3 hp =>
          exact .one (i := i) (Function.update_self ..) rfl (fun j hj => (Function.update_of_ne hj _ _).trans (h1 j))
            (by rw [h2, h3]; rfl) hp
        | one h1 => rw [hnone _] at h1; cases h1
      | get =>
        obtain ⟨h1, h2, h3, h4⟩ := client_op_frame (fun _ h => ClientOp.noConfusion h) hs
        exact h.frame h1 h2 h3 h4
      | put =>
        obtain ⟨h1, h2, h3, h4⟩ := client_op_frame (fun _ h => ClientOp.noConfusion h) hs
        exact h.frame h1 h2 h3 h4

theorem one_call_step {a : ClientAct ι} (h : OneCall s) (hturns : Turns s a)
    (hs : (clients d progs).step s a = some s') : OneCall s' := by
  cases a with
  | task i => exact one_call_task h hturns hs
  | host =>
    simp only [clients] at hs
    cases hq : s.requests with
    | nil => rw [hq] at hs; cases hs
    | cons c requests =>
      rw [hq] at hs
      cases hs
      cases h with
      | none _ h2 => rw [h2] at hq; cases hq
      | one h1 ht h2 h3 hp => exact .one h1 ht h2 (by rw [← h3, hq]; simp) hp

/-! ## The lock -/

/-- How often task `i` holds the lock. -/
def Clients.held (s : Clients ι) (i : ι) : Nat := if s.lock = some i then s.depth else 0

/-- The lock is held by the task that waits in a call, and each task's code
is guarded from where it is. -/
structure LockInv (recursive : Bool) (s : Clients ι) : Prop where
  guarded : ∀ i, Guarded (s.held i) (s.code i)
  waiting : ∀ i, s.waiting i ≠ none → s.lock = some i
  depth : recursive = false → s.depth ≤ 1

theorem turns_of_lockInv {recursive : Bool} {a : ClientAct ι} (h : LockInv recursive s) : Turns s a := by
  cases a with
  | host => trivial
  | task i =>
    rintro hw ⟨fcode, k, hc⟩ j
    have hg := h.guarded i
    rw [hc] at hg
    have hi : s.lock = some i := by
      by_contra hne
      have h0 := hg.1
      simp [Clients.held, hne] at h0
    by_contra hj
    have hj' := h.waiting j hj
    rw [hi] at hj'
    obtain rfl := Option.some.inj hj'
    exact hj hw

theorem lock_op {recursive : Bool} {i : ι} {k : List ClientOp} {op : ClientOp} (h : LockInv recursive s)
    (hw : s.waiting i = none) (hc : s.code i = op :: k) (hs : client_op recursive s i k op = some s') :
    LockInv recursive s' := by
  have hg := h.guarded i
  rw [hc] at hg
  have hothers : ∀ {t : Clients ι}, t.code = Function.update s.code i k →
      (∀ j, j ≠ i → t.held j = s.held j) → Guarded (t.held i) k → ∀ j, Guarded (t.held j) (t.code j) := by
    intro t ht hheld hi j
    by_cases hj : j = i
    · subst hj; rw [ht, Function.update_self]; exact hi
    · rw [ht, Function.update_of_ne hj, hheld j hj]; exact h.guarded j
  have hwait : ∀ j, s.waiting j ≠ none → j ≠ i := by
    rintro j hj rfl
    exact hj hw
  cases op with
  | call fcode =>
    cases hs
    refine ⟨hothers rfl (fun _ _ => rfl) hg.2, fun j hj => ?_, h.depth⟩
    by_cases hji : j = i
    · subst hji
      by_contra hne
      have h0 := hg.1
      simp only [Clients.held] at h0
      rw [if_neg hne] at h0
      omega
    · simp only [Function.update_of_ne hji] at hj
      exact h.waiting j hj
  | get =>
    simp only [client_op] at hs
    split at hs
    · rename_i hlock
      cases hs
      have h0 : s.held i = 0 := by simp [Clients.held, hlock]
      have hg' : Guarded (s.held i + 1) k := hg
      refine ⟨hothers rfl (fun j hj => ?_) ?_, fun j hj => ?_, fun _ => Nat.le_refl 1⟩
      · simp [Clients.held, hlock, Ne.symm hj]
      · rw [h0] at hg'
        simpa [Clients.held] using hg'
      · have := h.waiting j hj
        rw [hlock] at this
        cases this
    · split at hs
      · rename_i hlock
        cases hs
        have hg' : Guarded (s.held i + 1) k := hg
        refine ⟨hothers rfl (fun j hj => ?_) ?_, h.waiting, fun hr => ?_⟩
        · simp [Clients.held, hlock.2, Ne.symm hj]
        · simpa [Clients.held, hlock.2] using hg'
        · rw [hr] at hlock
          exact absurd hlock.1 nofun
      · cases hs
  | put =>
    have hlock : s.lock = some i := by
      by_contra hne
      have h0 := hg.1
      simp only [Clients.held] at h0
      rw [if_neg hne] at h0
      omega
    have hheld : s.held i = s.depth := by simp [Clients.held, hlock]
    have hg' : Guarded (s.depth - 1) k := hheld ▸ hg.2
    have hw' : ∀ j, s.waiting j ≠ none → False := by
      intro j hj
      have := h.waiting j hj
      rw [hlock] at this
      exact hwait j hj (Option.some.inj this).symm
    simp only [client_op] at hs
    split at hs
    · rename_i hcond
      cases hs
      refine ⟨hothers rfl (fun j hj => ?_) ?_, fun j hj => absurd hj (hw' j), fun hr => ?_⟩
      · simp [Clients.held, hlock, Ne.symm hj]
      · simpa [Clients.held, hlock] using hg'
      · rw [hr] at hcond
        exact absurd hcond.1 Bool.false_ne_true
    · rename_i hcond
      cases hs
      have hd : s.depth - 1 = 0 := by
        rcases Bool.eq_false_or_eq_true recursive with hr | hr
        · have : ¬ 1 < s.depth := fun hlt => hcond ⟨hr, .inr hlt⟩
          omega
        · have := h.depth hr
          omega
      refine ⟨hothers rfl (fun j hj => ?_) ?_, fun j hj => absurd hj (hw' j), fun _ => Nat.zero_le 1⟩
      · simp [Clients.held, hlock, Ne.symm hj]
      · rw [hd] at hg'
        simpa [Clients.held] using hg'

theorem lock_step {a : ClientAct ι} (h : LockInv d.recursive s) (hs : (clients d progs).step s a = some s') :
    LockInv d.recursive s' := by
  cases a with
  | task i =>
    simp only [clients, client_step] at hs
    cases hw : s.waiting i with
    | some c =>
      rw [hw] at hs
      cases hr : s.responses with
      | nil => rw [hr] at hs; cases hs
      | cons r responses =>
        rw [hr] at hs
        cases hs
        refine ⟨h.guarded, fun j hj => h.waiting j fun hn => hj ?_, h.depth⟩
        by_cases hji : j = i
        · subst hji; exact Function.update_self ..
        · exact (Function.update_of_ne hji _ _).trans hn
    | none =>
      rw [hw] at hs
      cases hc : s.code i with
      | nil => rw [hc] at hs; cases hs
      | cons op k =>
        rw [hc] at hs
        exact lock_op h hw hc hs
  | host =>
    simp only [clients] at hs
    cases hq : s.requests with
    | nil => rw [hq] at hs; cases hs
    | cons c requests =>
      rw [hq] at hs
      cases hs
      exact ⟨h.guarded, h.waiting, h.depth⟩

/-! ## The drivers' functions -/

theorem guarded_append {n : Nat} {k l : List ClientOp} (hk : Guarded n k) (hl : ∀ m, Guarded m l) :
    Guarded n (k ++ l) := by
  induction k generalizing n with
  | nil => exact hl n
  | cons op k ih =>
    cases op with
    | get => exact ih hk
    | call => exact ⟨hk.1, ih hk.2⟩
    | put => exact ⟨hk.1, ih hk.2⟩

theorem guarded_flatMap {fs : List (Remote d)} (h : ∀ f ∈ fs, ∀ n, Guarded n f.ops) (n : Nat) :
    Guarded n (fs.flatMap Remote.ops) := by
  induction fs generalizing n with
  | nil => trivial
  | cons f fs ih =>
    rw [List.flatMap_cons]
    exact guarded_append (h f (.head _) n) (ih fun g hg => h g (.tail _ hg))

theorem guarded_locked (fcode n : Nat) : Guarded n (locked fcode) :=
  ⟨n.succ_pos, n.succ_pos, trivial⟩

theorem guarded_gpio (f : Remote .gpio) (n : Nat) : Guarded n f.ops := by
  cases f <;> exact guarded_locked _ n

theorem guarded_i2s (f : Remote .i2s) (n : Nat) : Guarded n f.ops := by
  cases f <;> exact guarded_locked _ n

theorem guarded_replicate {n : Nat} (hn : 0 < n) (m fcode : Nat) {k : List ClientOp} (hk : Guarded n k) :
    Guarded n (List.replicate m (ClientOp.call fcode) ++ k) := by
  induction m with
  | zero => exact hk
  | succ m ih =>
    rw [List.replicate_succ, List.cons_append]
    exact ⟨hn, ih⟩

/-- Reads, writes and erases take the flash lock by themselves. -/
theorem guarded_qspi_flash (f : Remote .qspi_flash) (hf : f ≠ .qspi_flash_unlock) (n : Nat) : Guarded n f.ops := by
  cases f with
  | qspi_flash_lock => exact ⟨n.succ_pos, trivial⟩
  | qspi_flash_unlock => exact absurd rfl hf
  | qspi_flash_read len => exact guarded_replicate n.succ_pos _ _ ⟨n.succ_pos, trivial⟩
  | qspi_flash_write => exact guarded_locked _ n
  | qspi_flash_erase => exact guarded_locked _ n

/-- A whole transaction on the SPI bus. -/
theorem guarded_transaction (fs : List (Remote .spi_master))
    (hfs : ∀ f ∈ fs, f = .spi_master_transfer ∨ f = .spi_master_delay_before_next_transfer) (n : Nat) :
    Guarded n ((Remote.spi_master_transaction_start :: (fs ++ [Remote.spi_master_transaction_end])).flatMap Remote.ops) := by
  refine ⟨n.succ_pos, ?_⟩
  induction fs with
  | nil => exact ⟨n.succ_pos, n.succ_pos, trivial⟩
  | cons f fs ih =>
    have htail := ih fun g hg => hfs g (.tail _ hg)
    rcases hfs f (.head _) with rfl | rfl
    · exact ⟨n.succ_pos, htail⟩
    · exact ⟨n.succ_pos, htail⟩

/-- The I2C master's functions never hold the lock. -/
theorem not_guarded_i2c_master {fs : List (Remote .i2c_master)} (hfs : fs ≠ []) : ¬ Guarded 0 (fs.flatMap Remote.ops) := by
  obtain ⟨f, fs, rfl⟩ := List.exists_cons_of_ne_nil hfs
  cases f <;> exact fun h => absurd h.1 (Nat.lt_irrefl 0)

/-! ## Pairing -/

theorem lockInv_init (h : (clients d progs).init s) (hg : ∀ i, Guarded 0 ((progs i).flatMap Remote.ops)) :
    LockInv d.recursive s := by
  obtain rfl := h
  exact ⟨hg, fun i hi => absurd rfl hi, fun _ => Nat.zero_le 1⟩

theorem oneCall_init (h : (clients d progs).init s) : OneCall s := by
  obtain rfl := h
  exact .none (fun _ => rfl) rfl rfl fun e he => absurd he List.not_mem_nil

/-- The condition under which calls on one port do not overlap. -/
def Serial (progs : ι → List (Remote d)) (s : Clients ι) (a : ClientAct ι) : Prop :=
  (∀ i, Guarded 0 ((progs i).flatMap Remote.ops)) ∨ Turns s a

theorem oneCall_reachable (h : (clients d progs).Reachable (Serial progs) s) : OneCall s := by
  by_cases hg : ∀ i, Guarded 0 ((progs i).flatMap Remote.ops)
  · have hboth : LockInv d.recursive s ∧ OneCall s :=
      h.inv (I := fun t => LockInv d.recursive t ∧ OneCall t) (fun _ h0 => ⟨lockInv_init h0 hg, oneCall_init h0⟩) fun _ _ _ hinv _ hs =>
        ⟨lock_step hinv.1 hs, one_call_step hinv.2 (turns_of_lockInv hinv.1) hs⟩
    exact hboth.2
  · exact h.inv (fun _ h0 => oneCall_init h0) fun _ _ _ hinv hc hs =>
      one_call_step hinv (hc.resolve_left hg) hs

theorem response_run (d : Driver) (progs : ι → List (Remote d)) {c : Call ι} {rest : List (Call ι)} (h : s.responses ++ s.requests = c :: rest) :
    ∃ as t, (clients d progs).Run Machine.Free s as t ∧ t.waiting = s.waiting ∧
      ∃ responses, t.responses = c :: responses := by
  cases hr : s.responses with
  | cons r responses =>
    rw [hr, List.cons_append] at h
    obtain ⟨rfl, -⟩ := List.cons.inj h
    exact ⟨[], s, .nil s, rfl, responses, hr⟩
  | nil =>
    rw [hr, List.nil_append] at h
    exact ⟨[.host], { s with requests := rest, responses := s.responses ++ [c] },
      .cons trivial (by simp [clients, h]) (.nil _), rfl, [], by rw [hr]; rfl⟩

/-- A task that waits while another's response comes first may take it. -/
theorem mispaired_run {i : ι} {c c' : Call ι} {rest : List (Call ι)} (hi : s.waiting i = some c') (hne : c ≠ c')
    (h : s.responses ++ s.requests = c :: rest) :
    ∃ as t, (clients d progs).Run Machine.Free s as t ∧ ¬ Paired t := by
  obtain ⟨as, t, hrun, hw, responses, hr⟩ := response_run d progs h
  have hti : t.waiting i = some c' := by rw [hw, hi]
  have hstep : (clients d progs).step t (.task i) = some { t with
      responses, waiting := Function.update t.waiting i none, returned := t.returned ++ [(c', c)] } := by
    simp [clients, client_step, hti, hr]
  exact ⟨as ++ [ClientAct.task i], _, hrun.snoc trivial hstep, fun hp => hne (hp (c', c) (by simp))⟩

/-- A call that is sent while another one is under way may get the other's response. -/
theorem overlap_mispairs {i : ι} (h : OneCall s) (hs : (clients d progs).step s (.task i) = some s')
    (hturns : ¬ Turns s (.task i)) : ∃ as t, (clients d progs).Run Machine.Free s' as t ∧ ¬ Paired t := by
  simp only [Turns, not_forall] at hturns
  obtain ⟨hw, ⟨fcode, k, hc⟩, j, hj⟩ := hturns
  cases h with
  | none h1 => exact absurd (h1 j) hj
  | @one i' c h1 ht _ h3 =>
    have hii : i ≠ i' := by
      rintro rfl
      rw [hw] at h1
      cases h1
    simp only [clients, client_step, hw, hc, client_op] at hs
    cases hs
    have horder : s.responses ++ (s.requests ++ [⟨i, s.calls i + 1, fcode⟩]) = c :: [⟨i, s.calls i + 1, fcode⟩] := by
      simp [← List.append_assoc, h3]
    refine mispaired_run (Function.update_self ..) (fun heq => hii ?_) horder
    rw [← ht, heq]

/-- Calls that are made with the lock held, or in turns, get the responses to
their own requests; a call that is sent out of turn need not. The functions of
the GPIO and the I2S driver hold the lock in every call. -/
theorem rpc_pairing {ι : Type*} [DecidableEq ι] {d : Driver} {progs : ι → List (Remote d)} {s : Clients ι}
    (h : (clients d progs).Reachable (Serial progs) s) :
    Paired s ∧
    (∀ i s', (clients d progs).step s (.task i) = some s' → ¬ Turns s (.task i) →
      ∃ as t, (clients d progs).Run Machine.Free s' as t ∧ ¬ Paired t) ∧
    (d = .gpio ∨ d = .i2s → ∀ i, Guarded 0 ((progs i).flatMap Remote.ops)) := by
  refine ⟨(oneCall_reachable h).paired, fun i s' hs hturns => overlap_mispairs (oneCall_reachable h) hs hturns, ?_⟩
  rintro (rfl | rfl) i
  · exact guarded_flatMap (fun f _ => guarded_gpio f) 0
  · exact guarded_flatMap (fun f _ => guarded_i2s f) 0

/-- Two tasks on GPIO ports: one reads, then the other writes. -/
theorem rpc_pairing_gpio : ∃ s, (clients (ι := Bool) .gpio fun i => [if i then .gpio_port_out else .gpio_port_in]).Reachable
    (Serial fun i => [if i then .gpio_port_out else .gpio_port_in]) s ∧
    s.returned = [(⟨false, 1, 1⟩, ⟨false, 1, 1⟩), (⟨true, 1, 2⟩, ⟨true, 1, 2⟩)] ∧ Paired s := by
  have hrun : ((clients (ι := Bool) .gpio fun i => [if i then .gpio_port_out else .gpio_port_in]).exec Machine.Free
      ⟨none, 0, fun i => ([if i then .gpio_port_out else .gpio_port_in] : List (Remote .gpio)).flatMap Remote.ops,
        fun _ => none, fun _ => 0, [], [], []⟩
      [.task false, .task false, .host, .task false, .task false, .task true, .task true, .host, .task true]).map
        Clients.returned = some [(⟨false, 1, 1⟩, ⟨false, 1, 1⟩), (⟨true, 1, 2⟩, ⟨true, 1, 2⟩)] := by decide +kernel
  obtain ⟨s, hs, hobs⟩ := Option.map_eq_some_iff.1 hrun
  have hreach : (clients (ι := Bool) .gpio fun i => [if i then .gpio_port_out else .gpio_port_in]).Reachable
      (Serial fun i => [if i then .gpio_port_out else .gpio_port_in]) s :=
    ⟨_, _, rfl, (Machine.exec_run hs).mono fun _ _ _ => .inl fun _ => guarded_flatMap (fun f _ => guarded_gpio f) 0⟩
  exact ⟨s, hreach, hobs, (rpc_pairing hreach).1⟩

/-- Two tasks read from I2C devices. The second sends its request before the
first has taken its response, and takes that response. -/
theorem rpc_pairing_unlocked : ∃ s, (clients (ι := Bool) .i2c_master fun _ => [.i2c_master_read]).Reachable Machine.Free s ∧
    s.returned = [(⟨true, 1, 1⟩, ⟨false, 1, 1⟩)] ∧ ¬ Paired s := by
  have hrun : ((clients (ι := Bool) .i2c_master fun _ => [.i2c_master_read]).exec Machine.Free
      ⟨none, 0, fun _ => ([.i2c_master_read] : List (Remote .i2c_master)).flatMap Remote.ops,
        fun _ => none, fun _ => 0, [], [], []⟩ [.task false, .host, .task true, .task true]).map
        Clients.returned = some [(⟨true, 1, 1⟩, ⟨false, 1, 1⟩)] := by decide +kernel
  obtain ⟨s, hs, hobs⟩ := Option.map_eq_some_iff.1 hrun
  refine ⟨s, Machine.exec_reachable rfl hs, hobs, fun hp => ?_⟩
  have hc := hp (⟨true, 1, 1⟩, ⟨false, 1, 1⟩) (by rw [hobs]; exact .head _)
  exact absurd hc (by decide)

end Rpc
