import XcoreSdk.Dhcpd.PoolInit
import XcoreSdk.Dhcpd.Parser
import Mathlib.Data.List.Infix
/-!
# When the server sweeps

`dhcpd_listen` handles what comes in and then compares the tick count with the
one at which the next sweep is due, both of them modulo 2^32. What `recvfrom`
returns is compared as a `size_t`, so that a negative error number passes for a
long message, and what is in the buffer is handled.
-/

namespace Dhcpd
variable (cfg : Config) (env : Env)

/-- The buffer of a round, all its options area included. -/
structure Buffer extends toMessage : dhcp_message_t where
  whole : options.length = DHCP_OPTIONS_LENGTH

/-- What `recvfrom` comes back with, and the buffer then: the bytes received come first,
and the others, all of them after an error, are whatever the memory held. -/
structure Recv where
  ret : Int32
  dhcp_msg : Buffer

def pdFREERTOS_ERRNO_EINTR : Int32 := 4

/-- A round of the loop: the tick count it read, and whether it swept. -/
structure Round where
  now : UInt32
  swept : Bool
deriving DecidableEq

structure Listener where
  /-- `none` when the pool is freed, or a sweep has read what is not there. -/
  server : Option Server
  /-- Whether `dhcpd_socket` is open. -/
  dhcpd_socket : Bool
  last_timeout : UInt32
  /-- The rounds so far. -/
  rounds : List Round

def listen_start (server : Server) (tick : UInt32) : Listener := ⟨some server, true, tick, []⟩

/-- The message that the handler is given: `options_length` is more than the area when `ret` is negative. -/
def Recv.request (r : Recv) : dhcp_message_t :=
  { r.dhcp_msg.toMessage with
    options := r.dhcp_msg.options.take (r.ret.toUInt32 - UInt32.ofNat MESSAGE_LENGTH).toNat }

/-- `-EINTR` comes after `dhcpd_stop`. -/
def receive (l : Listener) (r : Recv) : Listener :=
  if r.ret = -pdFREERTOS_ERRNO_EINTR then { l with server := none, dhcpd_socket := false }
  else if UInt32.ofNat DHCP_REQUEST_MIN_LENGTH ≤ r.ret.toUInt32 ∧ r.dhcp_msg.op = BOOTREQUEST then
    { l with server := l.server.bind fun s => (dhcpd_handle_op_request cfg env s r.request).map Prod.fst }
  else l

/-- The end of a round; the one that closes the socket has it as well. -/
def check_expired (recv_timeout : UInt32) (l : Listener) (now : UInt32) : Listener :=
  if l.last_timeout + recv_timeout ≤ now then
    { l with
      server := l.server.bind (dhcp_client_release_expired_leases cfg env)
      last_timeout := now
      rounds := l.rounds ++ [⟨now, true⟩] }
  else { l with rounds := l.rounds ++ [⟨now, false⟩] }

/-- The loop, from a round's receipt and tick count to the next. -/
def dhcpd_listen (recv_timeout : UInt32) : Machine Listener (Recv × UInt32) where
  init l := ∃ server tick, l = listen_start server tick
  step l round :=
    if l.dhcpd_socket then some (check_expired cfg env recv_timeout (receive cfg env l round.1) round.2) else none

/-! ## The schedule -/

/-- The tick count at the last sweep, or at the start. -/
def last_sweep (start : UInt32) (rounds : List Round) : UInt32 :=
  ((rounds.filter fun r => r.swept).map fun r => r.now).getLast?.getD start

/-- A round sweeps exactly when the interval has elapsed since the last sweep. -/
def Scheduled (recv_timeout start : UInt32) (rounds : List Round) : Prop :=
  ∀ done r, done ++ [r] <+: rounds → (r.swept = true ↔ recv_timeout ≤ r.now - last_sweep start done)

/-- The tick count has wrapped since the last sweep just when the one at which the next is due has. -/
def WrapTogether (recv_timeout start : UInt32) (rounds : List Round) : Prop :=
  ∀ done r, done ++ [r] <+: rounds →
    (2 ^ 32 ≤ (last_sweep start done).toNat + recv_timeout.toNat ↔ r.now < last_sweep start done)

section
variable {cfg env} {recv_timeout start last now : UInt32} {rounds : List Round} {l l' : Listener}

theorem due_iff : ((last + recv_timeout ≤ now) ↔ recv_timeout ≤ now - last) ↔
    (2 ^ 32 ≤ last.toNat + recv_timeout.toNat ↔ now < last) := by
  have hlast := last.toNat_lt
  have htimeout := recv_timeout.toNat_lt
  have hnow := now.toNat_lt
  rw [UInt32.le_iff_toNat_le, UInt32.le_iff_toNat_le, UInt32.lt_iff_toNat_lt, UInt32.toNat_add, UInt32.toNat_sub]
  omega

theorem last_sweep_concat (r : Round) :
    last_sweep start (rounds ++ [r]) = if r.swept then r.now else last_sweep start rounds := by
  unfold last_sweep
  cases hswept : r.swept <;> simp [hswept]

/-- What the loop keeps. -/
structure Listening (recv_timeout start : UInt32) (l : Listener) : Prop where
  last : l.last_timeout = last_sweep start l.rounds
  decided : ∀ done r, done ++ [r] <+: l.rounds → (r.swept = true ↔ last_sweep start done + recv_timeout ≤ r.now)

theorem decided_concat (h : Listening recv_timeout start l) {r : Round}
    (hr : r.swept = true ↔ l.last_timeout + recv_timeout ≤ r.now) :
    ∀ done r', done ++ [r'] <+: l.rounds ++ [r] →
      (r'.swept = true ↔ last_sweep start done + recv_timeout ≤ r'.now) := by
  intro done r' hpre
  rcases List.prefix_concat_iff.1 hpre with heq | hpre'
  · obtain ⟨rfl, hlast⟩ := List.append_inj' heq rfl
    obtain rfl := List.singleton_inj.1 hlast
    rw [← h.last]
    exact hr
  · exact h.decided done r' hpre'

theorem listening_check (h : Listening recv_timeout start l) :
    Listening recv_timeout start (check_expired cfg env recv_timeout l now) := by
  unfold check_expired
  split_ifs with hdue
  · exact ⟨(last_sweep_concat ⟨now, true⟩).symm, decided_concat h (iff_of_true rfl hdue)⟩
  · refine ⟨?_, decided_concat h (iff_of_false Bool.false_ne_true hdue)⟩
    rw [last_sweep_concat]
    exact h.last

theorem listening_step {round : Recv × UInt32} (h : Listening recv_timeout start l)
    (hs : (dhcpd_listen cfg env recv_timeout).step l round = some l') : Listening recv_timeout start l' := by
  obtain ⟨-, hs⟩ := Option.ite_none_right_eq_some.1 hs
  obtain rfl := Option.some.inj hs
  refine listening_check ?_
  unfold receive
  split_ifs <;> exact ⟨h.last, h.decided⟩

/-- Every round sweeps when it is due if and only if the tick counts wrap together in every round. -/
theorem sweep_scheduled_iff {server : Server} {as : List (Recv × UInt32)}
    (hrun : (dhcpd_listen cfg env recv_timeout).Run Machine.Free (listen_start server start) as l) :
    Scheduled recv_timeout start l.rounds ↔ WrapTogether recv_timeout start l.rounds := by
  have hstart : Listening recv_timeout start (listen_start server start) :=
    ⟨rfl, fun done r hpre => absurd (List.prefix_nil.1 hpre) (by simp)⟩
  have hl := hrun.inv (fun _ _ _ h _ => listening_step h) hstart
  have hround : ∀ done r, done ++ [r] <+: l.rounds →
      ((r.swept = true ↔ recv_timeout ≤ r.now - last_sweep start done) ↔
        (2 ^ 32 ≤ (last_sweep start done).toNat + recv_timeout.toNat ↔ r.now < last_sweep start done)) := by
    intro done r hpre
    rw [hl.decided done r hpre]
    exact due_iff
  exact ⟨fun h done r hpre => (hround done r hpre).1 (h done r hpre),
    fun h done r hpre => (hround done r hpre).2 (h done r hpre)⟩

/-! ## What the loop does to the server -/

theorem Recv.request_accepted {r : Recv} (hmin : UInt32.ofNat DHCP_REQUEST_MIN_LENGTH ≤ r.ret.toUInt32)
    (hop : r.dhcp_msg.op = BOOTREQUEST) : Accepted r.request := by
  refine ⟨?_, hop⟩
  have hlen : DHCP_REQUEST_MIN_OPTIONS ≤ (r.ret.toUInt32 - UInt32.ofNat MESSAGE_LENGTH).toNat := by
    have hlt := r.ret.toUInt32.toNat_lt
    have hmin' : 244 ≤ r.ret.toUInt32.toNat := UInt32.le_iff_toNat_le.1 hmin
    have hlength : (UInt32.ofNat MESSAGE_LENGTH).toNat = 240 := rfl
    rw [UInt32.toNat_sub, hlength, DHCP_REQUEST_MIN_OPTIONS]
    omega
  have hwhole : DHCP_REQUEST_MIN_OPTIONS ≤ r.dhcp_msg.options.length := by
    rw [r.dhcp_msg.whole]
    decide
  rw [Recv.request, List.length_take]
  exact Nat.le_min.2 ⟨hlen, hwhole⟩

/-- A round does with the pool what a message and a sweep do. -/
theorem listen_round {s' : Server} {round : Recv × UInt32} (hs : (dhcpd_listen cfg env recv_timeout).step l round = some l')
    (hserver : l'.server = some s') : ∃ s es, l.server = some s ∧ (dhcpd cfg env).Run Machine.Free s es s' := by
  obtain ⟨-, hs⟩ := Option.ite_none_right_eq_some.1 hs
  obtain rfl := Option.some.inj hs
  have hreceive : ∀ t, (receive cfg env l round.1).server = some t →
      ∃ s es, l.server = some s ∧ (dhcpd cfg env).Run Machine.Free s es t := by
    intro t ht
    unfold receive at ht
    split at ht
    · cases ht
    · split at ht
      · rename_i hmsg
        obtain ⟨s, hl, hh⟩ := Option.bind_eq_some_iff.1 ht
        have hrecv : (dhcpd cfg env).step s (.recv round.1.request) = some t := by
          simp only [dhcpd, dhcpd_recv, if_pos (Recv.request_accepted hmsg.1 hmsg.2)]
          exact hh
        exact ⟨s, _, hl, .cons trivial hrecv (.nil _)⟩
      · exact ⟨t, [], ht, .nil _⟩
  unfold check_expired at hserver
  split at hserver
  · obtain ⟨t, ht, hsweep⟩ := Option.bind_eq_some_iff.1 hserver
    obtain ⟨s, es, hl, hr⟩ := hreceive t ht
    have hstep : (dhcpd cfg env).step t .sweep = some s' := hsweep
    exact ⟨s, es ++ [.sweep], hl, hr.snoc trivial hstep⟩
  · exact hreceive s' hserver

/-- The server that the loop leaves behind is one that messages and sweeps lead to. -/
theorem listen_refines {s' : Server} {as : List (Recv × UInt32)}
    (hrun : (dhcpd_listen cfg env recv_timeout).Run Machine.Free l as l') (hserver : l'.server = some s') :
    ∃ s es, l.server = some s ∧ (dhcpd cfg env).Run Machine.Free s es s' := by
  induction hrun with
  | nil => exact ⟨s', [], hserver, .nil _⟩
  | cons _ hs _ ih =>
    obtain ⟨t, es', ht, hr'⟩ := ih hserver
    obtain ⟨s, es, hl, hr⟩ := listen_round hs ht
    exact ⟨s, es ++ es', hl, hr.append hr'⟩

/-! ## A minute's interval around the wrap -/

theorem area_whole (options : List UInt8) :
    ((options ++ List.replicate DHCP_OPTIONS_LENGTH 0).take DHCP_OPTIONS_LENGTH).length = DHCP_OPTIONS_LENGTH := by
  rw [List.length_take, List.length_append, List.length_replicate]
  exact Nat.min_eq_left (Nat.le_add_left _ _)

/-- A message in the buffer, with zeros behind its options. -/
def Buffer.ofMessage (m : dhcp_message_t) : Buffer where
  toMessage := { m with options := (m.options ++ List.replicate DHCP_OPTIONS_LENGTH 0).take DHCP_OPTIONS_LENGTH }
  whole := area_whole m.options

def pdFREERTOS_ERRNO_EWOULDBLOCK : Int32 := 11

/-- A gets 192.168.0.2 and declines it; then two receives time out, with the DECLINE still in the buffer. -/
def declining : List (Recv × UInt32) :=
  [(⟨548, .ofMessage (discover_message 0xA 0xC0A80002)⟩, 5),
    (⟨548, .ofMessage (request_message 0xA 0xC0A80002 0xC0A80001)⟩, 6),
    (⟨548, .ofMessage (decline_message 0xA 0xC0A80002 0xC0A80001)⟩, 7),
    (⟨-pdFREERTOS_ERRNO_EWOULDBLOCK, .ofMessage (decline_message 0xA 0xC0A80002 0xC0A80001)⟩, 30007),
    (⟨-pdFREERTOS_ERRNO_EWOULDBLOCK, .ofMessage (decline_message 0xA 0xC0A80002 0xC0A80001)⟩, 60007)]

/-- The condition, round by round. -/
theorem wrapTogether_of_getElem (h : ∀ i < rounds.length, ∀ r ∈ rounds[i]?,
    (2 ^ 32 ≤ (last_sweep start (rounds.take i)).toNat + recv_timeout.toNat ↔ r.now < last_sweep start (rounds.take i))) :
    WrapTogether recv_timeout start rounds := by
  rintro done r ⟨rest, rfl⟩
  have hr := h done.length (by simp) r
  rw [List.append_assoc, List.take_left] at hr
  exact hr (by simp)

/-- The last sweep was ten ticks before the wrap: the next one comes when its time has elapsed. -/
theorem sweep_scheduled_iff_at_wrap :
    ∃ l s, (dhcpd_listen smallConfig stillEnv 60000).Run Machine.Free
        (listen_start (stateAfter smallConfig stillEnv []) 4294967286) declining l ∧
      l.rounds = [⟨5, false⟩, ⟨6, false⟩, ⟨7, false⟩, ⟨30007, false⟩, ⟨60007, true⟩] ∧ l.server = some s ∧
      (s.dhcp_ip_infos 0).state = .UNAVAILABLE ∧ Scheduled 60000 4294967286 l.rounds := by
  have hrun : ((dhcpd_listen smallConfig stillEnv 60000).exec Machine.Free
      (listen_start (stateAfter smallConfig stillEnv []) 4294967286) declining).map
        (fun l => (l.rounds, l.server.map fun s => (s.dhcp_ip_infos 0).state)) =
      some ([⟨5, false⟩, ⟨6, false⟩, ⟨7, false⟩, ⟨30007, false⟩, ⟨60007, true⟩], some .UNAVAILABLE) := by decide +kernel
  obtain ⟨l, hl, hobs⟩ := Option.map_eq_some_iff.1 hrun
  obtain ⟨hrounds, hserver⟩ := Prod.mk.inj hobs
  obtain ⟨s, hs, hstate⟩ := Option.map_eq_some_iff.1 hserver
  refine ⟨l, s, Machine.exec_run hl, hrounds, hs, hstate, (sweep_scheduled_iff (Machine.exec_run hl)).2 ?_⟩
  rw [hrounds]
  exact wrapTogether_of_getElem (by decide)

/-- The server answers a DISCOVER five ticks after the last sweep, and sweeps again: the time of the next has wrapped. -/
theorem sweeps_after_five_ticks :
    ∃ l, (dhcpd_listen smallConfig stillEnv 60000).Run Machine.Free
        (listen_start (stateAfter smallConfig stillEnv []) 4294967286)
        [(⟨548, .ofMessage (discover_message 0xA 0xC0A80002)⟩, 4294967291)] l ∧ l.server.isSome ∧
      ¬ Scheduled 60000 4294967286 l.rounds := by
  have hrun : ((dhcpd_listen smallConfig stillEnv 60000).exec Machine.Free
      (listen_start (stateAfter smallConfig stillEnv []) 4294967286)
      [(⟨548, .ofMessage (discover_message 0xA 0xC0A80002)⟩, 4294967291)]).map (fun l => (l.rounds, l.server.isSome)) =
      some ([⟨4294967291, true⟩], true) := by decide +kernel
  obtain ⟨l, hl, hobs⟩ := Option.map_eq_some_iff.1 hrun
  obtain ⟨hrounds, hserver⟩ := Prod.mk.inj hobs
  refine ⟨l, Machine.exec_run hl, hserver, fun h => ?_⟩
  rw [hrounds] at h
  have hswept := (h [] ⟨4294967291, true⟩ (List.prefix_refl _)).1 rfl
  exact absurd hswept (by decide)

end

end Dhcpd
