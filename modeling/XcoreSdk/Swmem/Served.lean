import XcoreSdk.Swmem.Driver
/-!
# Every request of the software memory is served once

A request is with the interrupt routine, with the timer task or with the thread,
and the driver's variables belong to it until it is served, since there is no
other request before: while the routine runs there is no other interrupt, and
afterwards the interrupts are off until the thread turns them on again.
-/

namespace Swmem

variable {β : Type*} {app : App}

/-! ## Fill requests -/

namespace Fills
variable {s s' : Fills β}

/-- The requests whose lines are populated. -/
def done (s : Fills β) : List (Nat × Word) := s.populated.map fun p => (p.1, p.2.1)

/-- The answers that they were populated with. -/
def told (app : App) (s : Fills β) : List (Word × β) := s.populated.map fun p => (app.offset p.2.1, p.2.2)

/-- The request in the driver's variables is all that is left to do. -/
structure Owing (s : Fills β) (core : Nat) : Prop where
  core_lt : core < 8
  taken : s.taken = s.done ++ [(core, s.fill_slot)]

/-- The driver has left the interrupt routine. -/
structure Left (s : Fills β) : Prop where
  isr : s.isr = .idle
  trigger : s.trigger = false

/-- Where a fill request can be. -/
inductive Phase (app : App) (s : Fills β) : Prop
  | free : s.isr = .idle → s.trigger = true → s.pended = false → s.flag = false → s.thread = none → s.exclusion = 0 →
      s.taken = s.done → s.answers = s.told app → Phase app s
  | isr {core : Nat} : (s.isr = .asking core ∨ s.isr = .unhandled core) → s.trigger = true → s.pended = false → s.flag = false →
      s.thread = none → s.exclusion = 0 → s.Owing core → s.answers = s.told app → Phase app s
  /-- With the timer task. -/
  | pended {core : Nat} : s.Left → s.pended = true → s.flag = false → s.thread = none → s.exclusion = 0 →
      s.swmem_core_exclude_map = ~~~(1#32 <<< core) → s.Owing core → s.answers = s.told app → Phase app s
  | flagged {core : Nat} : s.Left → s.pended = false → s.flag = true → s.thread = none → s.exclusion = 0 →
      s.swmem_core_exclude_map = ~~~(1#32 <<< core) → s.Owing core → s.answers = s.told app → Phase app s
  | reading {core : Nat} : s.Left → s.pended = false → s.flag = false → s.thread = some .read → s.exclusion = 0 →
      s.swmem_core_exclude_map = ~~~(1#32 <<< core) → s.Owing core → s.answers = s.told app → Phase app s
  /-- The thread has the application's answer. -/
  | answered {core : Nat} : s.Left → s.pended = false → s.flag = false →
      (s.thread = some .exclude ∧ s.exclusion = 0 ∨ s.thread = some .populate ∧ s.exclusion = ~~~(1#32 <<< core)) →
      s.swmem_core_exclude_map = ~~~(1#32 <<< core) → s.Owing core →
      s.answers = s.told app ++ [(app.offset s.fill_slot, s.fill_buf)] → Phase app s
  | populated {core : Nat} : core < 8 → s.Left → s.pended = false → s.flag = false →
      (s.thread = some .unexclude ∧ s.exclusion = ~~~(1#32 <<< core) ∨ s.thread = some .enable ∧ s.exclusion = 0) →
      s.taken = s.done → s.answers = s.told app → Phase app s

/-- The map excludes all cores but one. -/
theorem exclude_map {c core : Nat} (hc : c < 8) : (~~~(1#32 <<< core)).getLsbD c = false ↔ c = core := by
  rw [BitVec.getLsbD_not, decide_eq_true (by omega), Bool.true_and, BitVec.getLsbD_shiftLeft, decide_eq_true (by omega),
    Bool.true_and, Bool.not_eq_false', Bool.and_eq_true, Bool.not_eq_true', decide_eq_false_iff_not, BitVec.getLsbD_one,
    Bool.and_eq_true, decide_eq_true_eq, decide_eq_true_eq]
  omega

theorem Phase.isr_in {core : Nat} {slot : Word} (h : Phase app s) (hs : s.isr_in app core slot = some s') : Phase app s' := by
  unfold Fills.isr_in at hs
  split at hs
  · rename_i hin
    cases hs
    cases h with
    | free _ htrigger hpended hflag hthread hexcl htaken hanswers =>
      refine .isr ?_ htrigger hpended hflag hthread hexcl ⟨hin.2.2, congrArg (· ++ [(core, slot)]) htaken⟩ hanswers
      cases app.read_isr
      · exact .inr rfl
      · exact .inl rfl
    | isr hisr =>
      rcases hisr with hisr | hisr <;> cases hisr.symm.trans hin.2.1
    | pended hleft | flagged hleft | reading hleft | answered hleft | populated _ hleft =>
      cases hleft.trigger.symm.trans hin.1
  · cases hs

theorem done_append {s : Fills β} {core : Nat} {slot : Word} {buf : β} :
    done { s with populated := s.populated ++ [(core, slot, buf)] } = s.done ++ [(core, slot)] := List.map_append

theorem told_append {s : Fills β} {core : Nat} {slot : Word} {buf : β} :
    told app { s with populated := s.populated ++ [(core, slot, buf)] } = s.told app ++ [(app.offset slot, buf)] := List.map_append

theorem Phase.isr_answer {handled : Bool} {buf : β} (h : Phase app s) (hs : s.isr_answer app handled buf = some s') :
    Phase app s' := by
  unfold Fills.isr_answer at hs
  split at hs
  · rename_i core hasking
    cases h with
    | @isr core' hisr htrigger hpended hflag hthread hexcl howing hanswers =>
      rcases hisr with hisr | hisr
      · obtain rfl := Isr.asking.inj (hisr.symm.trans hasking)
        split at hs
        · cases hs
          refine .free rfl htrigger hpended hflag hthread hexcl ?_ ?_
          · exact howing.taken.trans done_append.symm
          · exact (congrArg (· ++ [(app.offset s.fill_slot, buf)]) hanswers).trans told_append.symm
        · cases hs
          exact .isr (.inr rfl) htrigger hpended hflag hthread hexcl ⟨howing.core_lt, howing.taken⟩ hanswers
      · cases hisr.symm.trans hasking
    | free hisr => cases hisr.symm.trans hasking
    | pended hleft | flagged hleft | reading hleft | answered hleft | populated _ hleft => cases hleft.isr.symm.trans hasking
  · cases hs

theorem Phase.isr_hand (h : Phase app s) (hs : s.isr_hand = some s') : Phase app s' := by
  unfold Fills.isr_hand at hs
  split at hs
  · rename_i core hunhandled
    cases hs
    cases h with
    | @isr core' hisr _ _ hflag hthread hexcl howing hanswers =>
      rcases hisr with hisr | hisr
      · cases hisr.symm.trans hunhandled
      · obtain rfl := Isr.unhandled.inj (hisr.symm.trans hunhandled)
        exact .pended ⟨rfl, rfl⟩ rfl hflag hthread hexcl rfl ⟨howing.core_lt, howing.taken⟩ hanswers
    | free hisr => cases hisr.symm.trans hunhandled
    | pended hleft | flagged hleft | reading hleft | answered hleft | populated _ hleft => cases hleft.isr.symm.trans hunhandled
  · cases hs

theorem Phase.timer (h : Phase app s) (hs : s.timer = some s') : Phase app s' := by
  unfold Fills.timer at hs
  split at hs
  · rename_i hpended
    cases hs
    cases h with
    | pended hleft _ hflag hthread hexcl hmap howing hanswers =>
      exact .flagged ⟨hleft.isr, hleft.trigger⟩ rfl rfl hthread hexcl hmap ⟨howing.core_lt, howing.taken⟩ hanswers
    | isr _ _ hnot | free _ _ hnot | flagged _ hnot | reading _ hnot | answered _ hnot | populated _ _ hnot =>
      cases hnot.symm.trans hpended
  · cases hs

theorem Phase.get_bits (h : Phase app s) (hthread : s.thread = none) : Phase app s.get_bits := by
  cases h with
  | free hisr htrigger hpended hflag _ hexcl htaken hanswers =>
    exact .free hisr htrigger hpended rfl (by simp [Fills.get_bits, hflag]) hexcl htaken hanswers
  | isr hisr htrigger hpended hflag _ hexcl howing hanswers =>
    exact .isr hisr htrigger hpended rfl (by simp [Fills.get_bits, hflag]) hexcl ⟨howing.core_lt, howing.taken⟩ hanswers
  | pended hleft hpended hflag _ hexcl hmap howing hanswers =>
    exact .pended ⟨hleft.isr, hleft.trigger⟩ hpended rfl (by simp [Fills.get_bits, hflag]) hexcl hmap
      ⟨howing.core_lt, howing.taken⟩ hanswers
  | flagged hleft hpended hflag _ hexcl hmap howing hanswers =>
    exact .reading ⟨hleft.isr, hleft.trigger⟩ hpended rfl (by simp [Fills.get_bits, hflag]) hexcl hmap
      ⟨howing.core_lt, howing.taken⟩ hanswers
  | reading _ _ _ h => cases h.symm.trans hthread
  | answered _ _ _ h | populated _ _ _ _ h => rcases h with ⟨h, -⟩ | ⟨h, -⟩ <;> cases h.symm.trans hthread

/-- The thread populates the line on a core that is not excluded, which is the one of the request. -/
theorem Phase.step {core : Nat} {buf : β} (h : Phase app s) (hcore : core < 8) (hruns : s.exclusion.getLsbD core = false)
    (hs : s.step app core buf = some s') : Phase app s' := by
  unfold Fills.step at hs
  cases h with
  | free _ _ _ _ hthread | isr _ _ _ _ hthread | pended _ _ _ hthread | flagged _ _ _ hthread =>
    rw [hthread] at hs
    cases hs
  | reading hleft hpended hflag hthread hexcl hmap howing hanswers =>
    rw [hthread] at hs
    cases hs
    exact .answered ⟨hleft.isr, hleft.trigger⟩ hpended hflag (.inl ⟨rfl, hexcl⟩) hmap ⟨howing.core_lt, howing.taken⟩
      (congrArg (· ++ [(app.offset s.fill_slot, buf)]) hanswers)
  | @answered core' hleft hpended hflag hthread hmap howing hanswers =>
    rcases hthread with ⟨hthread, hexcl⟩ | ⟨hthread, hexcl⟩
    · rw [hthread] at hs
      cases hs
      exact .answered ⟨hleft.isr, hleft.trigger⟩ hpended hflag (.inr ⟨rfl, hmap⟩) hmap ⟨howing.core_lt, howing.taken⟩ hanswers
    · rw [hthread] at hs
      cases hs
      rw [hexcl] at hruns
      obtain rfl := (exclude_map hcore).1 hruns
      refine .populated hcore ⟨hleft.isr, hleft.trigger⟩ hpended hflag (.inl ⟨rfl, hexcl⟩) ?_ ?_
      · exact howing.taken.trans done_append.symm
      · exact hanswers.trans told_append.symm
  | populated hcore' hleft hpended hflag hthread htaken hanswers =>
    rcases hthread with ⟨hthread, hexcl⟩ | ⟨hthread, hexcl⟩
    · rw [hthread] at hs
      cases hs
      exact .populated hcore' ⟨hleft.isr, hleft.trigger⟩ hpended hflag (.inr ⟨rfl, rfl⟩) htaken hanswers
    · rw [hthread] at hs
      cases hs
      exact .free hleft.isr rfl hpended hflag rfl hexcl htaken hanswers

end Fills

/-! ## Evict requests -/

namespace Evicts
variable {s s' : Evicts β}

/-- The lines that were given up, as the application knows them. -/
def lines (app : App) (s : Evicts β) : List (Word × Word × β) := s.evicted.map fun e => (app.offset e.1, e.2)

structure Left (s : Evicts β) : Prop where
  isr : s.isr = .idle
  trigger : s.trigger = false

/-- Where an evict request can be. -/
inductive Phase (app : App) (s : Evicts β) : Prop
  | free : s.isr = .idle → s.trigger = true → s.pended = false → s.flag = false → s.thread = none →
      s.lines app = s.written → Phase app s
  | isr {core : Nat} : (s.isr = .asking core ∨ s.isr = .unhandled core) → s.trigger = true → s.pended = false → s.flag = false →
      s.thread = none → s.lines app = s.write app → Phase app s
  | pended : s.Left → s.pended = true → s.flag = false → s.thread = none → s.lines app = s.write app → Phase app s
  | flagged : s.Left → s.pended = false → s.flag = true → s.thread = none → s.lines app = s.write app → Phase app s
  | writing : s.Left → s.pended = false → s.flag = false → s.thread = some .write → s.lines app = s.write app → Phase app s
  | enabling : s.Left → s.pended = false → s.flag = false → s.thread = some .enable → s.lines app = s.written → Phase app s

theorem Phase.isr_in {core : Nat} {slot mask : Word} {buf : β} (h : Phase app s)
    (hs : s.isr_in app core slot mask buf = some s') : Phase app s' := by
  unfold Evicts.isr_in at hs
  split at hs
  · rename_i hin
    cases hs
    cases h with
    | free _ htrigger hpended hflag hthread hlines =>
      have hisr : (if app.write_isr then Isr.asking core else .unhandled core) = .asking core ∨
          (if app.write_isr then Isr.asking core else .unhandled core) = .unhandled core := by
        cases app.write_isr
        · exact .inr rfl
        · exact .inl rfl
      refine .isr hisr htrigger hpended hflag hthread ?_
      simp only [lines, Evicts.write, List.map_append, List.map_cons, List.map_nil]
      exact congrArg (· ++ [(app.offset slot, mask, buf)]) hlines
    | isr hisr => rcases hisr with hisr | hisr <;> cases hisr.symm.trans hin.2
    | pended hleft | flagged hleft | writing hleft | enabling hleft => cases hleft.trigger.symm.trans hin.1
  · cases hs

theorem Phase.isr_answer {handled : Bool} (h : Phase app s) (hs : s.isr_answer app handled = some s') : Phase app s' := by
  unfold Evicts.isr_answer at hs
  split at hs
  · rename_i core hasking
    cases hs
    cases h with
    | isr _ htrigger hpended hflag hthread hlines =>
      cases handled
      · exact .isr (.inr rfl) htrigger hpended hflag hthread hlines
      · exact .free rfl htrigger hpended hflag hthread hlines
    | free hisr => cases hisr.symm.trans hasking
    | pended hleft | flagged hleft | writing hleft | enabling hleft => cases hleft.isr.symm.trans hasking
  · cases hs

theorem Phase.isr_hand (h : Phase app s) (hs : s.isr_hand = some s') : Phase app s' := by
  unfold Evicts.isr_hand at hs
  split at hs
  · rename_i core hunhandled
    cases hs
    cases h with
    | isr _ _ _ hflag hthread hlines => exact .pended ⟨rfl, rfl⟩ rfl hflag hthread hlines
    | free hisr => cases hisr.symm.trans hunhandled
    | pended hleft | flagged hleft | writing hleft | enabling hleft => cases hleft.isr.symm.trans hunhandled
  · cases hs

theorem Phase.timer (h : Phase app s) (hs : s.timer = some s') : Phase app s' := by
  unfold Evicts.timer at hs
  split at hs
  · rename_i hpended
    cases hs
    cases h with
    | pended hleft _ _ hthread hlines => exact .flagged ⟨hleft.isr, hleft.trigger⟩ rfl rfl hthread hlines
    | isr _ _ hnot | free _ _ hnot | flagged _ hnot | writing _ hnot | enabling _ hnot => cases hnot.symm.trans hpended
  · cases hs

theorem Phase.get_bits (h : Phase app s) (hthread : s.thread = none) : Phase app s.get_bits := by
  cases h with
  | free hisr htrigger hpended hflag _ hlines =>
    exact .free hisr htrigger hpended rfl (by simp [Evicts.get_bits, hflag]) hlines
  | isr hisr htrigger hpended hflag _ hlines =>
    exact .isr hisr htrigger hpended rfl (by simp [Evicts.get_bits, hflag]) hlines
  | pended hleft hpended hflag _ hlines =>
    exact .pended ⟨hleft.isr, hleft.trigger⟩ hpended rfl (by simp [Evicts.get_bits, hflag]) hlines
  | flagged hleft hpended hflag _ hlines =>
    exact .writing ⟨hleft.isr, hleft.trigger⟩ hpended rfl (by simp [Evicts.get_bits, hflag]) hlines
  | writing _ _ _ h | enabling _ _ _ h => cases h.symm.trans hthread

theorem Phase.step (h : Phase app s) (hs : s.step app = some s') : Phase app s' := by
  unfold Evicts.step at hs
  cases h with
  | free _ _ _ _ hthread | isr _ _ _ _ hthread | pended _ _ _ hthread | flagged _ _ _ hthread =>
    rw [hthread] at hs
    cases hs
  | writing hleft hpended hflag hthread hlines =>
    rw [hthread] at hs
    cases hs
    exact .enabling ⟨hleft.isr, hleft.trigger⟩ hpended hflag rfl hlines
  | enabling hleft hpended hflag hthread hlines =>
    rw [hthread] at hs
    cases hs
    exact .free hleft.isr rfl hpended hflag rfl hlines

end Evicts

/-! ## Runs -/

variable {s s' : State β}

structure Inv (app : App) (s : State β) : Prop where
  fill : s.fill.Phase app
  evict : s.evict.Phase app
  /-- A request fails for want of a function that could serve it. -/
  failed : s.failed = true → app.read = false ∨ app.write = false

theorem inv_init (h : (driver app).init s) : Inv app s := by
  obtain ⟨hfill, hevict, hfailed⟩ := h
  refine ⟨?_, ?_, fun htrue => ?_⟩
  · rw [hfill]
    exact .free rfl rfl rfl rfl rfl rfl rfl rfl
  · rw [hevict]
    exact .free rfl rfl rfl rfl rfl rfl
  · cases hfailed.symm.trans htrue

theorem Inv.step {a : Act β} (h : Inv app s) (hs : step app s a = some s') : Inv app s' := by
  unfold Swmem.step at hs
  split at hs
  · cases hs
  · cases a with
    | fill_in core slot =>
      obtain ⟨f, hf, rfl⟩ := Option.map_eq_some_iff.1 hs
      exact ⟨h.fill.isr_in hf, h.evict, h.failed⟩
    | evict_in core slot mask buf =>
      obtain ⟨e, he, rfl⟩ := Option.map_eq_some_iff.1 hs
      exact ⟨h.fill, h.evict.isr_in he, h.failed⟩
    | fill_answer handled buf =>
      obtain ⟨f, hf, rfl⟩ := Option.map_eq_some_iff.1 hs
      exact ⟨h.fill.isr_answer hf, h.evict, h.failed⟩
    | evict_answer handled =>
      obtain ⟨e, he, rfl⟩ := Option.map_eq_some_iff.1 hs
      exact ⟨h.fill, h.evict.isr_answer he, h.failed⟩
    | fill_hand =>
      obtain ⟨f, hf, rfl⟩ := Option.map_eq_some_iff.1 hs
      split
      · exact ⟨h.fill.isr_hand hf, h.evict, h.failed⟩
      · rename_i hread
        exact ⟨h.fill, h.evict, fun _ => .inl (Bool.eq_false_iff.2 hread)⟩
    | evict_hand =>
      obtain ⟨e, he, rfl⟩ := Option.map_eq_some_iff.1 hs
      split
      · exact ⟨h.fill, h.evict.isr_hand he, h.failed⟩
      · rename_i hwrite
        exact ⟨h.fill, h.evict, fun _ => .inr (Bool.eq_false_iff.2 hwrite)⟩
    | timer_fill =>
      obtain ⟨f, hf, rfl⟩ := Option.map_eq_some_iff.1 hs
      exact ⟨h.fill.timer hf, h.evict, h.failed⟩
    | timer_evict =>
      obtain ⟨e, he, rfl⟩ := Option.map_eq_some_iff.1 hs
      exact ⟨h.fill, h.evict.timer he, h.failed⟩
    | get_bits =>
      simp only at hs
      split at hs
      · rename_i hwaits
        cases hs
        exact ⟨h.fill.get_bits hwaits.1, h.evict.get_bits hwaits.2.1, h.failed⟩
      · cases hs
    | thread core buf =>
      simp only at hs
      split at hs
      · rename_i hruns
        split at hs
        · obtain ⟨f, hf, rfl⟩ := Option.map_eq_some_iff.1 hs
          exact ⟨h.fill.step hruns.1 hruns.2 hf, h.evict, h.failed⟩
        · obtain ⟨e, he, rfl⟩ := Option.map_eq_some_iff.1 hs
          exact ⟨h.fill, h.evict.step he, h.failed⟩
      · cases hs

/-! ## Requests do not wait forever -/

/-- The steps that are left until a fill request is served, if nothing is in the way. -/
def Fills.work (s : Fills β) : Nat :=
  (match s.isr with
    | .idle => 0
    | .asking _ => 9
    | .unhandled _ => 8) + (if s.pended then 7 else 0) + (if s.flag then 6 else 0) +
  match s.thread with
    | none => 0
    | some .read => 5
    | some .exclude => 4
    | some .populate => 3
    | some .unexclude => 2
    | some .enable => 1

def Evicts.work (s : Evicts β) : Nat :=
  (match s.isr with
    | .idle => 0
    | .asking _ => 6
    | .unhandled _ => 5) + (if s.pended then 4 else 0) + (if s.flag then 3 else 0) +
  match s.thread with
    | none => 0
    | some .write => 2
    | some .enable => 1

def work (s : State β) : Nat := if s.failed then 0 else s.fill.work + s.evict.work

theorem Fills.Phase.work_le {s : Fills β} (h : s.Phase app) : s.work ≤ 9 := by
  unfold Fills.work
  cases h with
  | free hisr _ hpended hflag hthread => simp [hisr, hpended, hflag, hthread]
  | isr hisr _ hpended hflag hthread => rcases hisr with hisr | hisr <;> simp [hisr, hpended, hflag, hthread]
  | pended hleft hpended hflag hthread | flagged hleft hpended hflag hthread | reading hleft hpended hflag hthread =>
    simp [hleft.isr, hpended, hflag, hthread]
  | answered hleft hpended hflag hthread | populated _ hleft hpended hflag hthread =>
    rcases hthread with ⟨hthread, -⟩ | ⟨hthread, -⟩ <;> simp [hleft.isr, hpended, hflag, hthread]

theorem Evicts.Phase.work_le {s : Evicts β} (h : s.Phase app) : s.work ≤ 6 := by
  unfold Evicts.work
  cases h with
  | free hisr _ hpended hflag hthread => simp [hisr, hpended, hflag, hthread]
  | isr hisr _ hpended hflag hthread => rcases hisr with hisr | hisr <;> simp [hisr, hpended, hflag, hthread]
  | pended hleft hpended hflag hthread | flagged hleft hpended hflag hthread | writing hleft hpended hflag hthread
  | enabling hleft hpended hflag hthread => simp [hleft.isr, hpended, hflag, hthread]

theorem Fills.step_work {s s' : Fills β} {core : Nat} {buf : β} (hs : s.step app core buf = some s') : s'.work < s.work := by
  unfold Fills.step at hs
  split at hs
  · cases hs
  all_goals
    rename_i hthread
    cases hs
    simp [Fills.work, hthread]

theorem Evicts.step_work {s s' : Evicts β} (hs : s.step app = some s') : s'.work < s.work := by
  unfold Evicts.step at hs
  split at hs
  · cases hs
  all_goals
    rename_i hthread
    cases hs
    simp [Evicts.work, hthread]

theorem get_bits_work {f : Fills β} {e : Evicts β} (hf : f.thread = none) (he : e.thread = none) (hflag : f.flag ∨ e.flag) :
    f.get_bits.work + e.get_bits.work < f.work + e.work := by
  unfold Fills.work Evicts.work Fills.get_bits Evicts.get_bits
  rw [hf, he]
  cases hfflag : f.flag <;> cases heflag : e.flag
  · rcases hflag with h | h
    · cases hfflag.symm.trans h
    · cases heflag.symm.trans h
  · simp
  · simp
  · simp
    omega

theorem Fills.isr_hand_work {s s' : Fills β} (hs : s.isr_hand = some s') : s'.work < s.work ∧ 0 < s.work := by
  unfold Fills.isr_hand at hs
  split at hs
  · rename_i core hunhandled
    cases hs
    simp only [Fills.work, hunhandled, if_true]
    omega
  · cases hs

theorem Evicts.isr_hand_work {s s' : Evicts β} (hs : s.isr_hand = some s') : s'.work < s.work ∧ 0 < s.work := by
  unfold Evicts.isr_hand at hs
  split at hs
  · rename_i core hunhandled
    cases hs
    simp only [Evicts.work, hunhandled, if_true]
    omega
  · cases hs

theorem Fills.timer_work {s s' : Fills β} (hs : s.timer = some s') : s'.work < s.work := by
  unfold Fills.timer at hs
  split at hs
  · rename_i hpended
    cases hs
    simp only [Fills.work, hpended, if_true, Bool.false_eq_true, if_false]
    omega
  · cases hs

theorem Evicts.timer_work {s s' : Evicts β} (hs : s.timer = some s') : s'.work < s.work := by
  unfold Evicts.timer at hs
  split at hs
  · rename_i hpended
    cases hs
    simp only [Evicts.work, hpended, if_true, Bool.false_eq_true, if_false]
    omega
  · cases hs

/-- Every step of the driver is one of those that are left. -/
theorem step_work {a : Act β} (ha : ¬ a.IsRequest) (hs : step app s a = some s') : work s' < work s := by
  unfold step at hs
  split at hs
  · cases hs
  · rename_i hfailed
    have hwork : work s = s.fill.work + s.evict.work := if_neg hfailed
    rw [hwork]
    cases a with
    | fill_in core slot | evict_in core slot mask buf => exact absurd trivial ha
    | fill_answer handled buf =>
      obtain ⟨f, hf, rfl⟩ := Option.map_eq_some_iff.1 hs
      rw [work, if_neg hfailed, Nat.add_lt_add_iff_right]
      unfold Fills.isr_answer at hf
      split at hf
      · rename_i core hasking
        split at hf <;> cases hf <;> simp [Fills.work, hasking]
      · cases hf
    | evict_answer handled =>
      obtain ⟨e, he, rfl⟩ := Option.map_eq_some_iff.1 hs
      rw [work, if_neg hfailed, Nat.add_lt_add_iff_left]
      unfold Evicts.isr_answer at he
      split at he
      · rename_i core hasking
        cases he
        cases handled <;> simp [Evicts.work, hasking]
      · cases he
    | fill_hand =>
      obtain ⟨f, hf, rfl⟩ := Option.map_eq_some_iff.1 hs
      obtain ⟨hless, hpos⟩ := Fills.isr_hand_work hf
      split
      · rwa [work, if_neg hfailed, Nat.add_lt_add_iff_right]
      · rw [work, if_pos rfl]
        omega
    | evict_hand =>
      obtain ⟨e, he, rfl⟩ := Option.map_eq_some_iff.1 hs
      obtain ⟨hless, hpos⟩ := Evicts.isr_hand_work he
      split
      · rwa [work, if_neg hfailed, Nat.add_lt_add_iff_left]
      · rw [work, if_pos rfl]
        omega
    | timer_fill =>
      obtain ⟨f, hf, rfl⟩ := Option.map_eq_some_iff.1 hs
      rw [work, if_neg hfailed, Nat.add_lt_add_iff_right]
      exact Fills.timer_work hf
    | timer_evict =>
      obtain ⟨e, he, rfl⟩ := Option.map_eq_some_iff.1 hs
      rw [work, if_neg hfailed, Nat.add_lt_add_iff_left]
      exact Evicts.timer_work he
    | get_bits =>
      simp only at hs
      split at hs
      · rename_i hwaits
        cases hs
        rw [work, if_neg hfailed]
        exact get_bits_work hwaits.1 hwaits.2.1 hwaits.2.2
      · cases hs
    | thread core buf =>
      simp only at hs
      split at hs
      · split at hs
        · obtain ⟨f, hf, rfl⟩ := Option.map_eq_some_iff.1 hs
          rw [work, if_neg hfailed, Nat.add_lt_add_iff_right]
          exact Fills.step_work hf
        · obtain ⟨e, he, rfl⟩ := Option.map_eq_some_iff.1 hs
          rw [work, if_neg hfailed, Nat.add_lt_add_iff_left]
          exact Evicts.step_work he
      · cases hs

theorem length_le_work {as : List (Act β)} (h : (driver app).Run (fun _ a => ¬ a.IsRequest) s as s') :
    as.length + work s' ≤ work s := by
  induction h with
  | nil => simp
  | cons ha hs _ ih =>
    have := step_work ha hs
    simp only [List.length_cons]
    omega

/-- No step of the driver is left to do. -/
def Resting (app : App) (s : State β) : Prop := ∀ a, ¬ a.IsRequest → step app s a = none

/-- Nothing is left of the requests. -/
structure Settled (app : App) (s : State β) : Prop where
  fills : s.fill.taken = s.fill.done
  answers : s.fill.answers = s.fill.told app
  evictions : s.evict.lines app = s.evict.written
  fill_trigger : s.fill.trigger = true
  evict_trigger : s.evict.trigger = true

/-- Where the driver rests, its thread waits with no bit set. -/
theorem rests_unless (h : Inv app s) (hfailed : s.failed = false) (hrest : Resting app s) :
    s.fill.thread = none ∧ s.fill.flag = false ∧ s.evict.thread = none ∧ s.evict.flag = false := by
  have hthread : ∀ core < 8, s.fill.exclusion.getLsbD core = false → s.fill.thread = none ∧ s.evict.thread = none := by
    intro core hcore hruns
    have hnone := hrest (.thread core s.fill.fill_buf) id
    simp only [step, hfailed, hcore, hruns] at hnone
    cases hf : s.fill.thread with
    | some stage => cases stage <;> simp [hf, Fills.step] at hnone
    | none =>
      cases he : s.evict.thread with
      | some stage => cases stage <;> simp [hf, he, Evicts.step] at hnone
      | none => exact ⟨rfl, rfl⟩
  obtain ⟨core, hcore, hruns⟩ : ∃ core < 8, s.fill.exclusion.getLsbD core = false := by
    cases h.fill with
    | free _ _ _ _ _ hexcl | isr _ _ _ _ _ hexcl | pended _ _ _ _ hexcl | flagged _ _ _ _ hexcl | reading _ _ _ _ hexcl =>
      exact ⟨0, by omega, by rw [hexcl]; rfl⟩
    | @answered core _ _ _ hthread _ howing =>
      rcases hthread with ⟨-, hexcl⟩ | ⟨-, hexcl⟩
      · exact ⟨0, by omega, by rw [hexcl]; rfl⟩
      · exact ⟨core, howing.core_lt, by rw [hexcl, Fills.exclude_map howing.core_lt]⟩
    | @populated core hcore _ _ _ hthread =>
      rcases hthread with ⟨-, hexcl⟩ | ⟨-, hexcl⟩
      · exact ⟨core, hcore, by rw [hexcl, Fills.exclude_map hcore]⟩
      · exact ⟨0, by omega, by rw [hexcl]; rfl⟩
  obtain ⟨hf, he⟩ := hthread core hcore hruns
  have hbits := hrest .get_bits id
  simp only [step, hfailed, hf, he, true_and] at hbits
  cases hfflag : s.fill.flag <;> cases heflag : s.evict.flag <;> simp [hfflag, heflag] at hbits
  exact ⟨hf, rfl, he, rfl⟩

theorem settled_of_resting (h : Inv app s) (hfailed : s.failed = false) (hrest : Resting app s) : Settled app s := by
  obtain ⟨hfthread, hfflag, hethread, heflag⟩ := rests_unless h hfailed hrest
  obtain ⟨hftaken, hfanswers, hftrigger⟩ : s.fill.taken = s.fill.done ∧ s.fill.answers = s.fill.told app ∧ s.fill.trigger = true := by
    cases h.fill with
    | free _ htrigger _ _ _ _ htaken hanswers => exact ⟨htaken, hanswers, htrigger⟩
    | isr hisr =>
      have hanswer := hrest (.fill_answer true s.fill.fill_buf) id
      have hhand := hrest .fill_hand id
      rcases hisr with hisr | hisr
      · simp [step, hfailed, Fills.isr_answer, hisr] at hanswer
      · simp [step, hfailed, Fills.isr_hand, hisr] at hhand
    | pended _ hpended =>
      have htimer := hrest .timer_fill id
      simp [step, hfailed, Fills.timer, hpended] at htimer
    | flagged _ _ hflag => cases hflag.symm.trans hfflag
    | reading _ _ _ hthread => cases hthread.symm.trans hfthread
    | answered _ _ _ hthread | populated _ _ _ _ hthread =>
      rcases hthread with ⟨hthread, -⟩ | ⟨hthread, -⟩ <;> cases hthread.symm.trans hfthread
  obtain ⟨helines, hetrigger⟩ : s.evict.lines app = s.evict.written ∧ s.evict.trigger = true := by
    cases h.evict with
    | free _ htrigger _ _ _ hlines => exact ⟨hlines, htrigger⟩
    | isr hisr =>
      have hanswer := hrest (.evict_answer true) id
      have hhand := hrest .evict_hand id
      rcases hisr with hisr | hisr
      · simp [step, hfailed, Evicts.isr_answer, hisr] at hanswer
      · simp [step, hfailed, Evicts.isr_hand, hisr] at hhand
    | pended _ hpended =>
      have htimer := hrest .timer_evict id
      simp [step, hfailed, Evicts.timer, hpended] at htimer
    | flagged _ _ hflag => cases hflag.symm.trans heflag
    | writing _ _ _ hthread | enabling _ _ _ hthread => cases hthread.symm.trans hethread
  exact ⟨hftaken, hfanswers, helines, hftrigger, hetrigger⟩

/-- What has been served, but for a last request of either kind. -/
structure Served (app : App) (s : State β) : Prop where
  /-- The lines are populated in order, each on the core of its request. -/
  fills : ∃ rest, s.fill.taken = s.fill.done ++ rest ∧ rest.length ≤ 1
  /-- They have the application's answers to their addresses. -/
  answers : ∃ rest, s.fill.answers = s.fill.told app ++ rest ∧ rest.length ≤ 1
  /-- The application is given every line with its own mask. -/
  evictions : ∃ rest, s.evict.lines app = s.evict.written ++ rest ∧ rest.length ≤ 1

theorem Inv.served (h : Inv app s) : Served app s := by
  refine ⟨?_, ?_, ?_⟩
  · cases h.fill with
    | free _ _ _ _ _ _ htaken | populated _ _ _ _ _ htaken => exact ⟨[], by rw [htaken, List.append_nil], Nat.zero_le 1⟩
    | isr _ _ _ _ _ _ howing | pended _ _ _ _ _ _ howing | flagged _ _ _ _ _ _ howing | reading _ _ _ _ _ _ howing
    | answered _ _ _ _ _ howing => exact ⟨[_], howing.taken, Nat.le_refl 1⟩
  · cases h.fill with
    | answered _ _ _ _ _ _ hanswers => exact ⟨[_], hanswers, Nat.le_refl 1⟩
    | free _ _ _ _ _ _ _ hanswers | isr _ _ _ _ _ _ _ hanswers | pended _ _ _ _ _ _ _ hanswers | flagged _ _ _ _ _ _ _ hanswers
    | reading _ _ _ _ _ _ _ hanswers | populated _ _ _ _ _ _ hanswers =>
      exact ⟨[], by rw [hanswers, List.append_nil], Nat.zero_le 1⟩
  · cases h.evict with
    | free _ _ _ _ _ hlines | enabling _ _ _ _ hlines => exact ⟨[], by rw [hlines, List.append_nil], Nat.zero_le 1⟩
    | isr _ _ _ _ _ hlines | pended _ _ _ _ hlines | flagged _ _ _ _ hlines | writing _ _ _ _ hlines =>
      exact ⟨[_], hlines, Nat.le_refl 1⟩

/-- In any run, requests of both kinds are served in order and once, by the interrupt routines or the thread. The assertion
fails only where the application lacks a function for the thread. Without further requests the driver comes to rest after at
most 15 steps, and then nothing is left. -/
theorem requests_served (app : App) {s : State β} (h : (driver app).Reachable Machine.Free s) :
    Served app s ∧ (s.failed = true → app.read = false ∨ app.write = false) ∧
      ∀ as s', (driver app).Run (fun _ a => ¬ a.IsRequest) s as s' →
        as.length ≤ 15 ∧ (s'.failed = false → Resting app s' → Settled app s') := by
  have hinv : Inv app s := h.inv (fun _ hinit => inv_init hinit) fun _ _ _ hi _ ht => hi.step ht
  refine ⟨hinv.served, hinv.failed, fun as s' hr => ⟨?_, fun hfailed hrest => ?_⟩⟩
  · have hlength := length_le_work hr
    have hwork : work s ≤ 15 := by
      unfold work
      split
      · exact Nat.zero_le 15
      · exact Nat.add_le_add hinv.fill.work_le hinv.evict.work_le
    omega
  · exact settled_of_resting (hr.inv (fun _ _ _ hi _ ht => hi.step ht) hinv) hfailed hrest

/-- The application serves no fill request in the interrupt. -/
def thread_app : App := ⟨false, true, true, true, 0x40000000, 0x1000⟩

/-- A fill request has been taken on core 3, and an evict request on core 2. -/
def both_taken : State Nat :=
  ⟨⟨0x40000040, 0, 0, true, .unhandled 3, false, false, none, 0, [(3, 0x40000040)], [], []⟩,
    ⟨0x40000080, 0xF, 9, true, .asking 2, false, false, none, [(0x40000080, 0xF, 9)], []⟩, false⟩

def both_served : State Nat :=
  ⟨⟨0x40000040, 7, 0xFFFFFFF7, true, .idle, false, false, none, 0, [(3, 0x40000040)], [(0x1040, 7)], [(3, 0x40000040, 7)]⟩,
    ⟨0x40000080, 0xF, 9, true, .idle, false, false, none, [(0x40000080, 0xF, 9)], [(0x1080, 0xF, 9)]⟩, false⟩

/-- The interrupts leave both requests to the thread. -/
def serving : List (Act Nat) :=
  [.evict_answer false, .fill_hand, .evict_hand, .timer_evict, .timer_fill, .get_bits, .thread 0 7, .thread 0 0,
    .thread 3 0, .thread 3 0, .thread 0 0, .thread 1 0, .thread 1 0]

/-- After 13 steps nothing is left. -/
theorem requests_served_thread : (driver thread_app).Reachable Machine.Free both_taken ∧ Served thread_app both_taken ∧
    (driver thread_app).Run (fun _ a => ¬ a.IsRequest) both_taken serving both_served ∧ serving.length ≤ 15 ∧
    Settled thread_app both_served := by
  have hstart : (driver thread_app).exec Machine.Free
      ⟨⟨0, 0, 0, true, .idle, false, false, none, 0, [], [], []⟩, ⟨0, 0, 0, true, .idle, false, false, none, [], []⟩, false⟩
      [.fill_in 3 0x40000040, .evict_in 2 0x40000080 0xF 9] = some both_taken := rfl
  have hreach : (driver thread_app).Reachable Machine.Free both_taken := Machine.exec_reachable ⟨rfl, rfl, rfl⟩ hstart
  have hrun : (driver thread_app).Run (fun _ a => ¬ a.IsRequest) both_taken serving both_served := Machine.exec_run rfl
  have hrest : Resting thread_app both_served := fun a ha => by
    cases a with
    | fill_in core slot | evict_in core slot mask buf => exact absurd trivial ha
    | thread core buf => exact ite_self none
    | _ => rfl
  obtain ⟨hserved, -, hall⟩ := requests_served thread_app hreach
  obtain ⟨hbound, hsettled⟩ := hall serving both_served hrun
  exact ⟨hreach, hserved, hrun, hbound, hsettled rfl hrest⟩

end Swmem
