import XcoreSdk.Dispatcher.IsrInit
import XcoreSdk.Dispatcher.IsrLedger
/-!
# Every job of a group once, in ISR mode

`dispatcher_group_add` sends the jobs of a group to the workers 0, 1, 2 and so
on, however many there are.
-/

namespace Dispatcher
namespace Isr
variable {J G ι : Type*} [DecidableEq J] [DecidableEq G] [DecidableEq ι] [Fintype ι]
variable {jobs : G → List J} {worker_count : Nat} {s s' : State J G ι}

/-! ## Every job once -/

/-- No worker, and no task that is adding, can go on. -/
def Rest (worker_count : Nat) (s : State J G ι) : Prop :=
  (∀ k, worker_step worker_count s k = none) ∧ ∀ i, (s.task i).unsent ≠ [] → task_step worker_count s i = none

end Isr
end Dispatcher
