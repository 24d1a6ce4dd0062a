import XcoreSdk.Lib.Machine
/-!
# The WF200's receive task

The bus is initialised and deinitialised by application tasks, through `WIFI_On`
and `WIFI_Off`, and by the receive task when it resets the module. Initialising
creates a receive task; deinitialising takes its handle away and asks it, by a bit of
the event group, to delete itself. The driver in between, which is not part of the
repository, calls `sl_wfx_host_init_bus` from `sl_wfx_init`, and `sl_wfx_host_deinit_bus`
from `sl_wfx_deinit` and `sl_wfx_deinit_bus`.
-/

namespace Wfx

/-- The bits of `sl_wfx_event_group` that the receive task has to do with. -/
structure Bits where
  SL_WFX_INTERRUPT : Bool
  SL_WFX_INITIALIZED : Bool
  SL_WFX_DEINITIALIZED : Bool
deriving DecidableEq

namespace Bits

def none : Bits := ⟨false, false, false⟩

def union (b c : Bits) : Bits :=
  ⟨b.SL_WFX_INTERRUPT || c.SL_WFX_INTERRUPT, b.SL_WFX_INITIALIZED || c.SL_WFX_INITIALIZED,
    b.SL_WFX_DEINITIALIZED || c.SL_WFX_DEINITIALIZED⟩

/-- One of the bits that the receive task waits for is set. -/
def awaited (b : Bits) : Bool := b.SL_WFX_INTERRUPT || b.SL_WFX_DEINITIALIZED

/-- The wait of the receive task clears the bits that it waits for. -/
def taken (b : Bits) : Bits := ⟨false, b.SL_WFX_INITIALIZED, false⟩

end Bits

/-- What `sl_wfx_host_receive_frames` returns. -/
inductive Status
  | SL_STATUS_OK
  | SL_STATUS_WIFI_NO_PACKET_TO_RECEIVE
  | SL_STATUS_TIMEOUT
  | other

/-- The variables of the receive task's loop. -/
structure Vars where
  /-- `ticks_to_wait` is `portMAX_DELAY`. -/
  forever : Bool
  error_count : Nat

def max_errors : Nat := 3

/-- Where a task is in `sl_wfx_host_reset`: what it calls next, or what it is in. -/
inductive Reset
  | state
  | deinit_bus
  | init

inductive Task
  /-- Not created. -/
  | none
  /-- At its call of `xEventGroupWaitBits`. -/
  | wait (vars : Vars)
  | waiting (vars : Vars)
  /-- The time of its wait is over. -/
  | timed_out (vars : Vars)
  | woken (vars : Vars) (bits : Bits)
  /-- In `sl_wfx_host_receive_frames`. -/
  | receiving (vars : Vars)
  /-- In `sl_wfx_host_reset`, called by `sl_wfx_host_receive_frames` for an exception of the
  firmware (`within`), or because it returned an error. -/
  | resetting (vars : Vars) (within : Bool) (reset : Reset)
  | deleted

/-- Where a task is in `sl_wfx_host_init_bus` or `sl_wfx_host_deinit_bus`: what it does next. -/
inductive Call
  | init_initialized
  /-- In `sl_wfx_host_task_start`. -/
  | start_handle
  | start_clear
  | start_set
  | start_create
  | init_done
  /-- In `sl_wfx_host_task_stop`, which has taken a handle in the first of these. -/
  | stop_handle
  | stop_clear (handle : Nat)
  | stop_set (handle : Nat)
  | deinit_done
deriving DecidableEq

/-- Where an application task is. -/
inductive App
  | idle
  /-- In `WIFI_On`. -/
  | on_lock
  | on_init
  /-- In `WIFI_Off`. -/
  | off_lock
  | off_started
  | off_deinit
  | off_state
  | off_clear
deriving DecidableEq

/-- Who calls the bus functions. -/
inductive Caller (ι : Type*)
  | app (i : ι)
  | receive_task (t : Nat)
deriving DecidableEq

/-- What the receive tasks share. -/
structure Tasks where
  receive_task_handle : Option Nat
  sl_wfx_event_group : Bits
  created : Nat
  task : Nat → Task
  /-- Whom `sl_wfx_host_task_stop` has asked to delete itself. -/
  stopped : Nat → Bool
  /-- Who has taken an interrupt after that. -/
  late : Nat → Bool

/-- `hif_ctx`, as far as it is set up once. -/
structure Hif where
  spi_dev : Bool
  gpio_dev : Bool
  wirq_gpio_port_valid : Bool
  reset_gpio_port_valid : Bool

structure State (ι : Type*) where
  tasks : Tasks
  /-- `hif_ctx.initialized`. -/
  initialized : Bool
  call : Caller ι → Option Call
  app : ι → App
  /-- `SL_WFX_STARTED` in `sl_wfx_context->state`. -/
  started : Bool
  wifi_lock : Bool
  /-- The bits that interrupt routines have asked the timer task to set. -/
  pended : Nat

variable {ι : Type*} [DecidableEq ι] (hif : Hif)

/-! ## The event group -/

def Task.isWaiting : Task → Bool
  | .waiting _ => true
  | _ => false

def Task.isReceiving : Task → Bool
  | .receiving _ => true
  | _ => false

theorem Task.receiving_of {task : Task} (h : task.isReceiving = true) : ∃ vars, task = .receiving vars := by
  cases task with
  | receiving vars => exact ⟨vars, rfl⟩
  | _ => cases h

def Task.wake (bits : Bits) : Task → Task
  | .waiting vars => .woken vars bits
  | t => t

/-- The tasks that wait get the bits, which are then cleared. -/
def xEventGroupSetBits (c : Tasks) (set : Bits) : Tasks :=
  let bits := c.sl_wfx_event_group.union set
  if bits.awaited ∧ ∃ t < c.created, (c.task t).isWaiting then { c with
    sl_wfx_event_group := bits.taken
    task := fun t => (c.task t).wake bits
    late := fun t => c.late t || ((c.task t).isWaiting && c.stopped t && !bits.SL_WFX_DEINITIALIZED) }
  else { c with sl_wfx_event_group := bits }

/-- A task that does not wait, or no more, gets the bits. -/
def Tasks.take (c : Tasks) (t : Nat) (vars : Vars) : Tasks :=
  { c with
    sl_wfx_event_group := c.sl_wfx_event_group.taken
    task := Function.update c.task t (.woken vars c.sl_wfx_event_group)
    late := Function.update c.late t
      (c.late t || (c.stopped t && !c.sl_wfx_event_group.SL_WFX_DEINITIALIZED)) }

/-! ## Starting and stopping -/

/-- The checks of `sl_wfx_host_init_bus`. -/
def Hif.ready (initialized : Bool) : Bool :=
  !initialized && hif.spi_dev && hif.gpio_dev && hif.wirq_gpio_port_valid && hif.reset_gpio_port_valid

/-- The next step of `sl_wfx_host_init_bus` or `sl_wfx_host_deinit_bus`, with those of
`sl_wfx_host_task_start` and `sl_wfx_host_task_stop`. -/
def call_step (c : Tasks) (initialized : Bool) : Call → Tasks × Bool × Option Call
  | .init_initialized => (c, initialized, if hif.ready initialized then some .start_handle else none)
  | .start_handle => (c, initialized, some (if c.receive_task_handle.isNone then .start_clear else .init_done))
  | .start_clear => ({ c with sl_wfx_event_group := .none }, initialized, some .start_set)
  | .start_set => (xEventGroupSetBits c { Bits.none with SL_WFX_INITIALIZED := true }, initialized, some .start_create)
  | .start_create => ({ c with
      receive_task_handle := some c.created
      created := c.created + 1
      task := Function.update c.task c.created (.wait ⟨true, 0⟩) }, initialized, some .init_done)
  | .init_done => (c, true, none)
  | .stop_handle => ({ c with receive_task_handle := none }, initialized,
      some (match c.receive_task_handle with
        | none => .deinit_done
        | some t => .stop_clear t))
  | .stop_clear t => ({ c with
      sl_wfx_event_group := { c.sl_wfx_event_group with SL_WFX_INITIALIZED := false } }, initialized, some (.stop_set t))
  | .stop_set t =>
    let c := xEventGroupSetBits c { Bits.none with SL_WFX_DEINITIALIZED := true }
    ({ c with stopped := Function.update c.stopped t true }, initialized, some .deinit_done)
  | .deinit_done => (c, false, none)

def State.call_step (s : State ι) (w : Caller ι) : Option (State ι) :=
  (s.call w).map fun call =>
    let r := Wfx.call_step hif s.tasks s.initialized call
    { s with tasks := r.1, initialized := r.2.1, call := Function.update s.call w r.2.2 }

/-- `xTaskCreate` finds no memory; its result is not looked at. -/
def State.create_fails (s : State ι) (w : Caller ι) : Option (State ι) :=
  match s.call w with
  | some .start_create => some { s with call := Function.update s.call w (some .init_done) }
  | _ => none

/-! ## The receive task -/

def State.become (s : State ι) (t : Nat) (task : Task) : State ι :=
  { s with tasks := { s.tasks with task := Function.update s.tasks.task t task } }

/-- What the loop does with the result of `sl_wfx_host_receive_frames`. -/
def received (vars : Vars) : Status → Task
  | .SL_STATUS_OK => .wait ⟨true, 0⟩
  | .SL_STATUS_WIFI_NO_PACKET_TO_RECEIVE | .SL_STATUS_TIMEOUT =>
    if vars.error_count = max_errors then .resetting ⟨true, vars.error_count + 1⟩ false .state
    else .wait ⟨false, vars.error_count + 1⟩
  | .other => .resetting ⟨true, vars.error_count⟩ false .state

/-- `ok` is whether `sl_wfx_init` succeeds, where the task has called it. -/
def reset_step (s : State ι) (t : Nat) (vars : Vars) (within : Bool) (ok : Bool) : Reset → Option (State ι)
  | .state =>
    let s := s.become t (.resetting vars within .deinit_bus)
    some { s with started := false, call := Function.update s.call (.receive_task t) (some .stop_handle) }
  | .deinit_bus =>
    if (s.call (.receive_task t)).isNone then
      let s := s.become t (.resetting vars within .init)
      some { s with call := Function.update s.call (.receive_task t) (some .init_initialized) }
    else none
  | .init =>
    if (s.call (.receive_task t)).isNone then
      if ok then
        let s := s.become t (if within then .receiving vars else .wait vars)
        some { s with started := true }
      else some { s with call := Function.update s.call (.receive_task t) (some .init_initialized) }
    else none

/-- The next step of a receive task; what `sl_wfx_host_receive_frames` does is in `frames`. -/
def sl_wfx_host_receive_task (s : State ι) (t : Nat) (ok : Bool) : Option (State ι) :=
  match s.tasks.task t with
  | .wait vars =>
    if s.tasks.sl_wfx_event_group.awaited then some { s with tasks := s.tasks.take t vars }
    else some (s.become t (.waiting vars))
  | .timed_out vars => some { s with tasks := s.tasks.take t vars }
  | .woken vars bits =>
    if bits.SL_WFX_DEINITIALIZED then some (s.become t .deleted)
    else if bits.SL_WFX_INTERRUPT || !vars.forever then some (s.become t (.receiving vars))
    else some (s.become t (.wait vars))
  | .resetting vars within reset => reset_step s t vars within ok reset
  | .none | .waiting _ | .receiving _ | .deleted => none

/-- `sl_wfx_host_receive_frames` returns. -/
def received_frames (s : State ι) (t : Nat) (status : Status) : Option (State ι) :=
  match s.tasks.task t with
  | .receiving vars => some (s.become t (received vars status))
  | _ => none

/-- It receives an exception or error indication, for which `sl_wfx_host_post_event` resets the module. -/
def received_exception (s : State ι) (t : Nat) : Option (State ι) :=
  match s.tasks.task t with
  | .receiving vars => some (s.become t (.resetting vars true .state))
  | _ => none

def wait_timeout (s : State ι) (t : Nat) : Option (State ι) :=
  match s.tasks.task t with
  | .waiting vars => if vars.forever then none else some (s.become t (.timed_out vars))
  | _ => none

/-- The interrupt routine has the timer task set the bit. -/
def sl_wfx_host_task_rx_notify (s : State ι) : State ι :=
  if s.tasks.receive_task_handle.isSome then { s with pended := s.pended + 1 } else s

def timer_task (s : State ι) : Option (State ι) :=
  match s.pended with
  | 0 => none
  | n + 1 => some { s with
      tasks := xEventGroupSetBits s.tasks { Bits.none with SL_WFX_INTERRUPT := true }
      pended := n }

/-! ## Application tasks -/

def State.goes (s : State ι) (i : ι) (app : App) : State ι := { s with app := Function.update s.app i app }

/-- The next step of `WIFI_On` or `WIFI_Off`; `ok` is whether `sl_wfx_init` succeeds. -/
def app_step (s : State ι) (i : ι) (ok : Bool) : Option (State ι) :=
  match s.app i with
  | .idle => none
  | .on_lock =>
    if s.wifi_lock then none
    else some { s.goes i .on_init with
      wifi_lock := true
      call := Function.update s.call (.app i) (some .init_initialized) }
  | .on_init =>
    if (s.call (.app i)).isNone then some { s.goes i .idle with wifi_lock := false, started := s.started || ok }
    else none
  | .off_lock =>
    if s.wifi_lock then none
    else if s.tasks.sl_wfx_event_group.SL_WFX_INITIALIZED then some { s.goes i .off_started with wifi_lock := true }
    else some (s.goes i .idle)
  | .off_started =>
    if s.started then
      some { s.goes i .off_deinit with call := Function.update s.call (.app i) (some .stop_handle) }
    else some (s.goes i .off_state)
  | .off_deinit => if (s.call (.app i)).isNone then some (s.goes i .off_state) else none
  | .off_state => some { s.goes i .off_clear with started := false }
  | .off_clear =>
    some { s.goes i .idle with
      wifi_lock := false
      tasks := { s.tasks with sl_wfx_event_group := .none } }

def app_on (s : State ι) (i : ι) : Option (State ι) :=
  if s.app i = .idle ∧ !s.started then some (s.goes i .on_lock) else none

def app_off (s : State ι) (i : ι) : Option (State ι) :=
  if s.app i = .idle then some (s.goes i .off_lock) else none

/-- The lock cannot be taken in time. -/
def lock_timeout (s : State ι) (i : ι) : Option (State ι) :=
  if s.app i = .on_lock ∨ s.app i = .off_lock then some (s.goes i .idle) else none

/-! ## Runs -/

inductive Action (ι : Type*)
  | on (i : ι)
  | off (i : ι)
  | lock_timeout (i : ι)
  | app (i : ι) (ok : Bool)
  | call (w : Caller ι)
  | create_fails (w : Caller ι)
  | task (t : Nat) (ok : Bool)
  | frames (t : Nat) (status : Status)
  | exception (t : Nat)
  | wait_timeout (t : Nat)
  | isr
  | timer

def step (s : State ι) : Action ι → Option (State ι)
  | .on i => app_on s i
  | .off i => app_off s i
  | .lock_timeout i => lock_timeout s i
  | .app i ok => app_step s i ok
  | .call w => s.call_step hif w
  | .create_fails w => s.create_fails w
  | .task t ok => sl_wfx_host_receive_task s t ok
  | .frames t status => received_frames s t status
  | .exception t => received_exception s t
  | .wait_timeout t => wait_timeout s t
  | .isr => some (sl_wfx_host_task_rx_notify s)
  | .timer => timer_task s

def State.init : State ι where
  tasks := ⟨none, .none, 0, fun _ => .none, fun _ => false, fun _ => false⟩
  initialized := false
  call := fun _ => none
  app := fun _ => .idle
  started := false
  wifi_lock := false
  pended := 0

/-- The application tasks `ι`, the receive tasks, interrupts and the timer task. -/
def machine : Machine (State ι) (Action ι) where
  init s := s = .init
  step := step hif

end Wfx
