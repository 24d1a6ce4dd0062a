import XcoreSdk.Intertile.TxFraming
import XcoreSdk.Intertile.RxDemux
/-!
# From the tasks of one tile to those of the other

The two ends of the link, one byte at a time: what the sender puts on the
channel is at once there for the other tile, which may begin to take a message
off while it is still being written. The channel holds any number of bytes; a
sender that finds it full waits, which is one of the schedules.

A receiver cannot tell bytes that are there from bytes that are still to come
(`ahead_step`), so its half of a run is a run of `receiver` with all the frames
there from the beginning, and what holds there holds on the link.
-/

namespace Intertile
variable {ι : Type*}

/-- The sending tasks of one tile, and the receiving half of the other tile's link. -/
structure Link (ι : Type*) where
  tx : Sender ι
  rx : Receiver

inductive LinkAct (ι : Type*)
  | tx (i : ι)
  | rx (a : RxAct)

section
variable [DecidableEq ι]

/-- A link over which nothing has been sent yet. -/
def link (progs : ι → List Msg) : Machine (Link ι) (LinkAct ι) where
  init l := (sender progs).init l.tx ∧ (receiver []).init l.rx
  step l
    | .tx i =>
      ((sender progs).step l.tx i).map fun tx =>
        ⟨tx, { l.rx with chan := l.rx.chan ++ tx.chan.drop l.tx.chan.length }⟩
    | .rx a => ((receiver []).step l.rx a).map fun rx => { l with rx }

/-- What has come over the link: the frames of the messages `written` are on the
channel as a whole, and the tasks have obtained the packets `done`. -/
structure Delivered (progs : ι → List Msg) (l : Link ι) (written : List (ι × Msg)) (done : List Packet) : Prop where
  order : ∀ i, sentBy written i <+: progs i
  done_written : done <+: written.map (·.2.packet)
  obtained : ∀ port, l.rx.obtained port = payloads done port
  /-- Behind the whole frames there is at most the beginning of one more, the lock holder's. -/
  chan : ∃ part, l.tx.chan = frames written ++ part ∧ (part ≠ [] → ∃ i m, l.tx.lock = some i ∧
    part <+: m.packet.frame ∧ part ≠ m.packet.frame ∧ sentBy written i ++ [m] <+: progs i)
  /-- The receiving tile alone has only so many steps to take. -/
  bounded : ∃ n, ∀ (as : List RxAct) l', (link progs).Run Machine.Free l (as.map .rx) l' → as.countP RxAct.works ≤ n
  /-- When everything has been sent and the tasks of all its ports receive, the
  link stops only after everything has been obtained. -/
  complete : (∀ i, l.tx.code i = []) → Stuck [] l.rx → (∀ e ∈ written, l.rx.task e.2.packet.port ≠ .idle) →
    (∀ i, sentBy written i = progs i) ∧ done = written.map (·.2.packet)

end

/-! ## The receiver, with bytes that are still to come -/

/-- The receiver, had the bytes `f` been on the channel already. -/
def Receiver.ahead (s : Receiver) (f : List UInt8) (reads : List (List UInt8)) : Receiver :=
  { s with chan := s.chan ++ f, isr_reads := reads }

variable {s s' : Receiver} {f : List UInt8} {reads : List (List UInt8)} {packets packets' : List Packet}

variable [DecidableEq ι] {progs : ι → List Msg} {l l' : Link ι}

/-- Nothing on the receiving tile can go on by itself. -/
def silent (s : Receiver) : Bool :=
  (rtos_intertile_isr s).isNone && s.deferred.isEmpty && s.event_group == 0 &&
    (List.range 256).all fun n => (rtos_intertile_rx s (UInt8.ofNat n)).isNone

end Intertile
