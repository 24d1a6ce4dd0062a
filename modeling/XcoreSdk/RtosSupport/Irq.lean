import XcoreSdk.Lib.Machine
import Mathlib.Data.BitVec
import Mathlib.Data.Fintype.Sum
/-!
# Interrupts between cores

`rtos_irq` sets a source's bit in the pending word of a core and, if the word
was zero, sends an end token to the core's channel end. The token interrupts the
core, whose handler takes the token and then the pending word. Both sides hold
lock 0, which a core can take again while it holds it.

Each core runs a thread and, above it, the handler, which calls the interrupt
routines; other cores only make calls. The steps are the reads and writes of
what the cores share.
-/

namespace Irq

def RTOS_MAX_CORE_COUNT : Nat := 8
def MAX_ADDITIONAL_SOURCES : Nat := 8
def RTOS_CORE_SOURCE_MASK : BitVec 32 := BitVec.ofNat 32 ((1 <<< RTOS_MAX_CORE_COUNT) - 1)
def MAX_SOURCE_ID : Nat := RTOS_MAX_CORE_COUNT + MAX_ADDITIONAL_SOURCES - 1

/-! ## Sources -/

structure Sources (Ch : Type*) where
  rtos_irq_chanend : Nat → Ch
  peripheral_irq_chanend : Nat → Ch
  peripheral_source_count : Nat
  /-- Whether `isr_info` has a function. -/
  isr_info : Nat → Bool

variable {Ch P : Type*} {n : Nat}

def rtos_irq_register (src : Sources Ch) (isr : Bool) (source_chanend : Ch) : Option (Nat × Sources Ch) :=
  let source_id := src.peripheral_source_count
  if source_id < MAX_ADDITIONAL_SOURCES then some (RTOS_MAX_CORE_COUNT + source_id, { src with
    peripheral_source_count := source_id + 1
    isr_info := Function.update src.isr_info source_id isr
    peripheral_irq_chanend := Function.update src.peripheral_irq_chanend source_id source_chanend })
  else none

/-- The sources after any number of registrations. -/
inductive Registered : Sources Ch → Prop
  | none {src : Sources Ch} : src.peripheral_source_count = 0 → Registered src
  | register {src src' : Sources Ch} {isr : Bool} {source_chanend : Ch} {source_id : Nat} : Registered src →
      rtos_irq_register src isr source_chanend = some (source_id, src') → Registered src'

/-- The ids of the `n` cores, and of the registered sources. -/
def Sources.Valid (src : Sources Ch) (n source_id : Nat) : Prop :=
  source_id < n ∨ RTOS_MAX_CORE_COUNT ≤ source_id ∧ source_id < RTOS_MAX_CORE_COUNT + src.peripheral_source_count

instance (src : Sources Ch) (n source_id : Nat) : Decidable (src.Valid n source_id) :=
  inferInstanceAs (Decidable (_ ∨ _))

def Sources.source_chanend (src : Sources Ch) (num_cores source_id : Nat) : Option Ch :=
  if source_id < num_cores then some (src.rtos_irq_chanend source_id)
  else if RTOS_MAX_CORE_COUNT ≤ source_id ∧ source_id < RTOS_MAX_CORE_COUNT + src.peripheral_source_count then
    some (src.peripheral_irq_chanend (source_id - RTOS_MAX_CORE_COUNT))
  else none

/-! ## State -/

/-- Who makes a call: the thread of a core, an interrupt routine on it, or a core
that is not one of the RTOS. -/
inductive Caller (n : Nat) (P : Type*)
  | thread (k : Fin n)
  | isr (k : Fin n)
  | other (p : P)
deriving DecidableEq

/-- The core that a caller runs on. -/
def Caller.core : Caller n P → Fin n ⊕ P
  | .thread k | .isr k => .inl k
  | .other p => .inr p

/-- Where a call of `rtos_irq` is. -/
inductive Call (n : Nat)
  | idle
  | acquire (core_id : Fin n) (source_id : Nat)
  | read (core_id : Fin n) (source_id : Nat)
  | set (core_id : Fin n) (source_id : Nat) (pending : BitVec 32)
  | set_dest (core_id : Fin n) (source_id : Nat)
  | out (core_id : Fin n) (source_id : Nat)
  | release
deriving DecidableEq

/-- Where `rtos_irq_handler` is. -/
inductive Handler
  | idle
  | enter
  | check_end_token
  | acquire
  | snapshot
  | clear (pending : BitVec 32)
  | release (pending : BitVec 32)
  | mask (pending : BitVec 32)
  /-- At the head of the loop. -/
  | loop (pending : BitVec 32)
  /-- Runs an interrupt routine. -/
  | isr (pending : BitVec 32)
  /-- An assertion has failed. -/
  | failed
deriving DecidableEq

inductive Event (n : Nat)
  /-- A call has set the bit of its source. -/
  | set (core_id : Fin n) (source_id : Nat)
  /-- The handler of a core has read these flags. -/
  | snapshot (core_id : Fin n) (pending : BitVec 32)
deriving DecidableEq

structure State (n : Nat) (P Ch : Type*) where
  irq_pending : Fin n → BitVec 32
  /-- The end tokens at each core's channel end. -/
  tokens : Fin n → Nat
  dest : Ch → Option (Fin n)
  /-- Lock 0: the core that holds it, and its counter. -/
  lock : Option (Fin n ⊕ P)
  lock_counter : Nat
  call : Caller n P → Call n
  handler : Fin n → Handler
  events : List (Event n)

section
variable [DecidableEq P] [DecidableEq Ch]

def State.goto (s : State n P Ch) (x : Caller n P) (c : Call n) : State n P Ch :=
  { s with call := Function.update s.call x c }

def State.handler_goto (s : State n P Ch) (k : Fin n) (h : Handler) : State n P Ch :=
  { s with handler := Function.update s.handler k h }

def rtos_lock_acquire (s : State n P Ch) (core : Fin n ⊕ P) : Option (State n P Ch) :=
  if s.lock = none ∨ s.lock = some core then some { s with lock := some core, lock_counter := s.lock_counter + 1 }
  else none

def rtos_lock_release (s : State n P Ch) : State n P Ch :=
  { s with lock_counter := s.lock_counter - 1, lock := if s.lock_counter - 1 = 0 then none else s.lock }

/-- A call goes on. -/
def rtos_irq (src : Sources Ch) (s : State n P Ch) (x : Caller n P) : Option (State n P Ch) :=
  match s.call x with
  | .idle => none
  | .acquire core_id source_id => (rtos_lock_acquire s x.core).map (·.goto x (.read core_id source_id))
  | .read core_id source_id => some (s.goto x (.set core_id source_id (s.irq_pending core_id)))
  | .set core_id source_id pending =>
    let s := { s with
      irq_pending := Function.update s.irq_pending core_id (s.irq_pending core_id ||| 1#32 <<< source_id)
      events := s.events ++ [Event.set core_id source_id] }
    some (s.goto x (if pending = 0 then .set_dest core_id source_id else .release))
  | .set_dest core_id source_id => (src.source_chanend n source_id).map fun source_chanend =>
    { s with dest := Function.update s.dest source_chanend (some core_id) }.goto x (.out core_id source_id)
  | .out _ source_id => (src.source_chanend n source_id).bind fun source_chanend =>
    (s.dest source_chanend).map fun dest =>
      { s with tokens := Function.update s.tokens dest (s.tokens dest + 1) }.goto x .release
  | .release => some ((rtos_lock_release s).goto x .idle)

/-- `31 - __builtin_clz(pending)`. -/
def source_of (pending : BitVec 32) : Nat := pending.toNat.log2

/-- The handler goes on. -/
def rtos_irq_handler (src : Sources Ch) (s : State n P Ch) (core_id : Fin n) : Option (State n P Ch) :=
  match s.handler core_id with
  | .idle | .failed => none
  | .enter => some (s.handler_goto core_id (if s.irq_pending core_id = 0 then .failed else .check_end_token))
  | .check_end_token =>
    if 0 < s.tokens core_id then some ({ s with
      tokens := Function.update s.tokens core_id (s.tokens core_id - 1) }.handler_goto core_id .acquire)
    else none
  | .acquire => (rtos_lock_acquire s (.inl core_id)).map (·.handler_goto core_id .snapshot)
  | .snapshot => some ({ s with events := s.events ++ [Event.snapshot core_id (s.irq_pending core_id)] }.handler_goto core_id
      (.clear (s.irq_pending core_id)))
  | .clear pending => some ({ s with irq_pending := Function.update s.irq_pending core_id 0 }.handler_goto core_id
      (.release pending))
  | .release pending => some ((rtos_lock_release s).handler_goto core_id (.mask pending))
  | .mask pending => some (s.handler_goto core_id (
      -- `RTOS_INTERCORE_INTERRUPT_ISR` runs as an interrupt routine
      if pending &&& RTOS_CORE_SOURCE_MASK ≠ 0 then .isr (pending &&& ~~~RTOS_CORE_SOURCE_MASK) else .loop pending))
  | .loop pending => some (s.handler_goto core_id (
      if pending = 0 then .idle
      else if RTOS_MAX_CORE_COUNT ≤ source_of pending ∧ source_of pending ≤ MAX_SOURCE_ID then
        let rest := pending &&& ~~~(1#32 <<< source_of pending)
        if src.isr_info (source_of pending - RTOS_MAX_CORE_COUNT) then .isr rest else .loop rest
      else .failed))
  | .isr pending => if s.call (.isr core_id) = .idle then some (s.handler_goto core_id (.loop pending)) else none

/-! ## All together -/

inductive Act (n : Nat) (P : Type*)
  | call (x : Caller n P) (core_id : Fin n) (source_id : Nat)
  | rtos_irq (x : Caller n P)
  /-- The token of a core interrupts it. -/
  | interrupt (k : Fin n)
  | handler (k : Fin n)

/-- Whether it is the caller that its core is running. -/
def State.Running (s : State n P Ch) : Caller n P → Prop
  | .thread k => s.handler k = .idle
  | .isr k => ∃ pending, s.handler k = .isr pending
  | .other _ => True

instance (s : State n P Ch) : ∀ x, Decidable (s.Running x)
  | .thread k => inferInstanceAs (Decidable (s.handler k = .idle))
  | .isr k => match h : s.handler k with
    | .isr pending => isTrue ⟨pending, h⟩
    | .idle | .enter | .check_end_token | .acquire | .snapshot | .clear _ | .release _ | .mask _ | .loop _ | .failed =>
      isFalse (by rintro ⟨pending, h'⟩; rw [h] at h'; cases h')
  | .other _ => isTrue trivial

def irq (src : Sources Ch) : Machine (State n P Ch) (Act n P) where
  init s := (∀ k, s.irq_pending k = 0) ∧ (∀ k, s.tokens k = 0) ∧ s.lock = none ∧ s.lock_counter = 0 ∧
    (∀ x, s.call x = .idle) ∧ (∀ k, s.handler k = .idle) ∧ s.events = []
  step s
    | .call x core_id source_id =>
      if s.Running x ∧ s.call x = .idle ∧ src.Valid n source_id then some (s.goto x (.acquire core_id source_id)) else none
    | .rtos_irq x => if s.Running x then rtos_irq src s x else none
    | .interrupt k => if s.handler k = .idle ∧ 0 < s.tokens k then some (s.handler_goto k .enter) else none
    | .handler k => rtos_irq_handler src s k

/-- A thread is not interrupted inside its call of `rtos_irq`. -/
def Masked (s : State n P Ch) : Act n P → Prop
  | .interrupt k => s.call (.thread k) = .idle
  | _ => True

instance (s : State n P Ch) : ∀ a, Decidable (Masked s a)
  | .interrupt k => inferInstanceAs (Decidable (s.call (.thread k) = .idle))
  | .call .. | .rtos_irq _ | .handler _ => isTrue trivial

end
end Irq
