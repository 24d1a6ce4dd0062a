import XcoreSdk.Lib.Machine
/-!
# The software memory driver

A cache miss in the software memory is a fill request, for which the driver has
to populate a cache line, and a line that the cache gives up is an evict
request. An interrupt routine takes either. The application answers in the
routine or leaves the request to the driver's thread: the routine then turns its
own interrupts off until the thread is done. Setting an event bit from a routine
is left to the timer task. A line has to be populated on the core that the
request was taken on, so the thread has itself excluded from all others.

The thread serves both kinds of request, one after the other; each of the two
records below says what it has still to do with its own.
-/

namespace Swmem

abbrev Word := BitVec 32

/-- What the application provides, its four functions being weak symbols. -/
structure App where
  /-- `rtos_swmem_read_request_isr`, `rtos_swmem_read_request` -/
  read_isr : Bool
  read : Bool
  /-- `rtos_swmem_write_request_isr`, `rtos_swmem_write_request` -/
  write_isr : Bool
  write : Bool
  /-- `XS1_SWMEM_BASE` and `__swmem_address` -/
  base : Word
  swmem_address : Word

/-- The address that the application is asked for. -/
def App.offset (app : App) (slot : Word) : Word := slot - app.base + app.swmem_address

/-- Where an interrupt routine is. -/
inductive Isr
  | idle
  /-- In the application's function. -/
  | asking (core : Nat)
  | unhandled (core : Nat)
deriving DecidableEq

/-! ## Fill requests -/

/-- What the thread has to do about a fill request. -/
inductive FillStage
  | read
  | exclude
  | populate
  | unexclude
  | enable
deriving DecidableEq

variable {β : Type*}

structure Fills (β : Type*) where
  fill_slot : Word
  fill_buf : β
  swmem_core_exclude_map : Word
  /-- The interrupts of `swmem_fill_res` are on. -/
  trigger : Bool
  isr : Isr
  /-- The timer task has been asked to set `RTOS_SWMEM_READ_FLAG`. -/
  pended : Bool
  /-- `RTOS_SWMEM_READ_FLAG` in the event group. -/
  flag : Bool
  thread : Option FillStage
  /-- The cores that the thread does not run on. -/
  exclusion : Word
  /-- The requests, with the cores that they were taken on. -/
  taken : List (Nat × Word)
  /-- The application's answers, with the addresses that it was asked for. -/
  answers : List (Word × β)
  /-- The lines that were populated, with the cores that did it. -/
  populated : List (Nat × Word × β)

/-- `sw_mem_fill_isr`: a request on `core`, which is one of eight. -/
def Fills.isr_in (app : App) (s : Fills β) (core : Nat) (slot : Word) : Option (Fills β) :=
  if s.trigger ∧ s.isr = .idle ∧ core < 8 then
    some { s with
      fill_slot := slot, taken := s.taken ++ [(core, slot)]
      isr := if app.read_isr then .asking core else .unhandled core }
  else none

/-- The application's function returns. Whatever it says, it may have written into the buffer. -/
def Fills.isr_answer (app : App) (s : Fills β) (handled : Bool) (buf : β) : Option (Fills β) :=
  match s.isr with
  | .asking core =>
    if handled then
      some { s with
        fill_buf := buf, answers := s.answers ++ [(app.offset s.fill_slot, buf)]
        populated := s.populated ++ [(core, s.fill_slot, buf)], isr := .idle }
    else some { s with fill_buf := buf, isr := .unhandled core }
  | _ => none

/-- The request is left to the thread. -/
def Fills.isr_hand (s : Fills β) : Option (Fills β) :=
  match s.isr with
  | .unhandled core =>
    some { s with swmem_core_exclude_map := ~~~(1#32 <<< core), trigger := false, pended := true, isr := .idle }
  | _ => none

/-- The timer task. -/
def Fills.timer (s : Fills β) : Option (Fills β) := if s.pended then some { s with pended := false, flag := true } else none

/-- What the thread finds in the event group is cleared there. -/
def Fills.get_bits (s : Fills β) : Fills β :=
  { s with flag := false, thread := if s.flag then some .read else none }

/-- The thread, which is on `core`. The application's function fills the buffer with `buf`. -/
def Fills.step (app : App) (s : Fills β) (core : Nat) (buf : β) : Option (Fills β) :=
  match s.thread with
  | none => none
  | some .read =>
    some { s with fill_buf := buf, answers := s.answers ++ [(app.offset s.fill_slot, buf)], thread := some .exclude }
  | some .exclude => some { s with exclusion := s.swmem_core_exclude_map, thread := some .populate }
  | some .populate => some { s with populated := s.populated ++ [(core, s.fill_slot, s.fill_buf)], thread := some .unexclude }
  | some .unexclude => some { s with exclusion := 0, thread := some .enable }
  | some .enable => some { s with trigger := true, thread := none }

/-! ## Evict requests -/

inductive EvictStage
  | write
  | enable
deriving DecidableEq

structure Evicts (β : Type*) where
  evict_slot : Word
  dirty_mask : Word
  evict_buf : β
  trigger : Bool
  isr : Isr
  pended : Bool
  flag : Bool
  thread : Option EvictStage
  /-- The lines that the cache gave up, with the masks of their dirty bytes. -/
  evicted : List (Word × Word × β)
  /-- What the application has taken, with its addresses. -/
  written : List (Word × Word × β)

/-- `sw_mem_evict_isr`, with the dirty mask and the contents of the line. -/
def Evicts.isr_in (app : App) (s : Evicts β) (core : Nat) (slot mask : Word) (buf : β) : Option (Evicts β) :=
  if s.trigger ∧ s.isr = .idle then
    some { s with
      evict_slot := slot, dirty_mask := mask, evict_buf := buf, evicted := s.evicted ++ [(slot, mask, buf)]
      isr := if app.write_isr then .asking core else .unhandled core }
  else none

def Evicts.write (app : App) (s : Evicts β) : List (Word × Word × β) :=
  s.written ++ [(app.offset s.evict_slot, s.dirty_mask, s.evict_buf)]

def Evicts.isr_answer (app : App) (s : Evicts β) (handled : Bool) : Option (Evicts β) :=
  match s.isr with
  | .asking core => some (if handled then { s with written := s.write app, isr := .idle } else { s with isr := .unhandled core })
  | _ => none

def Evicts.isr_hand (s : Evicts β) : Option (Evicts β) :=
  match s.isr with
  | .unhandled _ => some { s with trigger := false, pended := true, isr := .idle }
  | _ => none

def Evicts.timer (s : Evicts β) : Option (Evicts β) := if s.pended then some { s with pended := false, flag := true } else none

def Evicts.get_bits (s : Evicts β) : Evicts β :=
  { s with flag := false, thread := if s.flag then some .write else none }

def Evicts.step (app : App) (s : Evicts β) : Option (Evicts β) :=
  match s.thread with
  | none => none
  | some .write => some { s with written := s.write app, thread := some .enable }
  | some .enable => some { s with trigger := true, thread := none }

/-! ## The driver -/

structure State (β : Type*) where
  fill : Fills β
  evict : Evicts β
  /-- `xassert(handled)` has failed. -/
  failed : Bool

inductive Act (β : Type*)
  | fill_in (core : Nat) (slot : Word)
  | evict_in (core : Nat) (slot mask : Word) (buf : β)
  | fill_answer (handled : Bool) (buf : β)
  | fill_hand
  | evict_answer (handled : Bool)
  | evict_hand
  | timer_fill
  | timer_evict
  /-- The thread finds a bit set. -/
  | get_bits
  /-- It goes on, on this core. -/
  | thread (core : Nat) (buf : β)

/-- The requests; the other actions are the driver's and the application's. -/
def Act.IsRequest : Act β → Prop
  | .fill_in .. | .evict_in .. => True
  | _ => False

instance (a : Act β) : Decidable a.IsRequest :=
  match a with
  | .fill_in .. | .evict_in .. => isTrue trivial
  | .fill_answer .. | .fill_hand | .evict_answer _ | .evict_hand | .timer_fill | .timer_evict | .get_bits | .thread .. =>
    isFalse id

def step (app : App) (s : State β) (a : Act β) : Option (State β) :=
  if s.failed then none
  else match a with
    | .fill_in core slot => (s.fill.isr_in app core slot).map fun f => { s with fill := f }
    | .evict_in core slot mask buf => (s.evict.isr_in app core slot mask buf).map fun e => { s with evict := e }
    | .fill_answer handled buf => (s.fill.isr_answer app handled buf).map fun f => { s with fill := f }
    | .fill_hand => s.fill.isr_hand.map fun f => if app.read then { s with fill := f } else { s with failed := true }
    | .evict_answer handled => (s.evict.isr_answer app handled).map fun e => { s with evict := e }
    | .evict_hand => s.evict.isr_hand.map fun e => if app.write then { s with evict := e } else { s with failed := true }
    | .timer_fill => s.fill.timer.map fun f => { s with fill := f }
    | .timer_evict => s.evict.timer.map fun e => { s with evict := e }
    | .get_bits =>
      if s.fill.thread = none ∧ s.evict.thread = none ∧ (s.fill.flag ∨ s.evict.flag) then
        some { s with fill := s.fill.get_bits, evict := s.evict.get_bits }
      else none
    | .thread core buf =>
      if core < 8 ∧ s.fill.exclusion.getLsbD core = false then
        -- the read request is served first
        match s.fill.thread with
        | some _ => (s.fill.step app core buf).map fun f => { s with fill := f }
        | none => (s.evict.step app).map fun e => { s with evict := e }
      else none

/-- `rtos_swmem_start`. What is in the buffers does not matter. -/
def driver (app : App) : Machine (State β) (Act β) where
  init s := s.fill = { s.fill with
        trigger := true, isr := .idle, pended := false, flag := false, thread := none, exclusion := 0
        taken := [], answers := [], populated := [] } ∧
    s.evict = { s.evict with
        trigger := true, isr := .idle, pended := false, flag := false, thread := none, evicted := [], written := [] } ∧
    s.failed = false
  step := step app

end Swmem
