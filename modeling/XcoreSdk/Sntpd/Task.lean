import XcoreSdk.Lib.Bytes
import XcoreSdk.Lib.Machine
import XcoreSdk.RtosSupport.Time
import Mathlib.Tactic.SplitIfs
/-!
# The SNTP task

`sntpd_task` resolves a time server, and sends it a request and waits for a reply
time and again, until too many attempts have failed. What comes in on its socket
may be from anybody, and of any length; the address that it came from is put
where the next request is sent to.
-/

namespace Sntpd
open Time (RtosTime rtos_time_set rtos_time_get)

/-- `SNTPD_RESET_AFTER_X_FAILURES` and `SNTPD_PORT`, which an application may define, and the number of its servers. -/
structure Config where
  reset_after_x_failures : Nat
  port : UInt16
  time_servers : Nat
  time_servers_pos : 0 < time_servers

def EPOCH : UInt32 := 2208988800

def UINT_MAX : UInt32 := 4294967295

/-- `sizeof(rxpacket)`, of a pointer. -/
def sizeof_rxpacket : Nat := 4

/-- `sizeof(sntp_packet_t)` -/
def sizeof_sntp_packet : Nat := 48

def SNTPD_STRATUM_KISS_OF_DEATH : UInt8 := 0

structure freertos_sockaddr where
  sin_addr : UInt32
  sin_port : UInt16

structure Datagram where
  sender : freertos_sockaddr
  bytes : List UInt8

/-- The offsets of `stratum` and `receiveTimestamp` in `sntp_packet_t`. -/
def stratum_offset : Nat := 1
def seconds_offset : Nat := 32
def fraction_offset : Nat := 36

/-- The network buffer, from the payload on: behind the datagram it holds `rest`. -/
def payload (d : Datagram) (rest : Nat → UInt8) (i : Nat) : UInt8 := d.bytes.getD i (rest i)

/-- `FreeRTOS_htonl` of the word at an offset. -/
def word (buf : Nat → UInt8) (offset : Nat) : UInt32 :=
  UInt32.ofNat (Bytes.ofBE [buf offset, buf (offset + 1), buf (offset + 2), buf (offset + 3)])

/-- The time that is taken from a packet. -/
def now_of (buf : Nat → UInt8) : RtosTime :=
  ⟨(word buf seconds_offset - EPOCH).toUInt64, word buf fraction_offset / UINT_MAX⟩

/-- The first server that is found, by what `FreeRTOS_gethostbyname` gives for one after the other. -/
def resolve (ip : UInt32) : List UInt32 → UInt32
  | [] => ip
  | answer :: answers => if 0 < answer then answer else resolve answer answers

inductive Phase
  | lookup
  | socket
  | sendto
  | recvfrom

/-- What the task has done. -/
inductive Event
  | request (dest : freertos_sockaddr)
  | set (time : RtosTime) (d : Datagram)

structure Task where
  phase : Phase
  failed_attempts : Nat
  ip : UInt32
  ntp_addr : freertos_sockaddr
  /-- The system's time. -/
  current_time : RtosTime
  time_synced : Bool
  /-- What was done, with the server that was found before it, if one was. -/
  events : List (Event × Option UInt32)
  resolved : Option UInt32

inductive Act
  | gethostbyname (answers : List UInt32)
  | socket (created : Bool)
  | sendto
  /-- What `FreeRTOS_recvfrom` comes back with: nothing in time, or a datagram. -/
  | recvfrom (received : Option (Datagram × (Nat → UInt8)))

/-- The end of a round. -/
def after_attempt (cfg : Config) (s : Task) : Task :=
  if cfg.reset_after_x_failures ≤ s.failed_attempts then { s with failed_attempts := 0, phase := .lookup }
  else { s with phase := .sendto }

def receive (cfg : Config) (s : Task) (d : Datagram) (rest : Nat → UInt8) : Task :=
  let s := { s with ntp_addr := d.sender }
  if d.bytes.length < sizeof_rxpacket then { s with failed_attempts := s.failed_attempts + 1 }
  else
    let current_time := rtos_time_set (now_of (payload d rest))
    let s := { s with
      current_time, time_synced := true
      events := s.events ++ [(.set (rtos_time_get current_time) d, s.resolved)] }
    if payload d rest stratum_offset = SNTPD_STRATUM_KISS_OF_DEATH then
      { s with failed_attempts := cfg.reset_after_x_failures }
    else s

def sntpd_task (cfg : Config) : Machine Task Act where
  init s := s.phase = .lookup ∧ s.failed_attempts = 0 ∧ s.events = []
  step s a :=
    match s.phase, a with
    | .lookup, .gethostbyname answers =>
      if answers.length = cfg.time_servers then
        let ip := resolve s.ip answers
        some { s with ip, resolved := if ip = 0 then none else some ip, ntp_addr := ⟨ip, cfg.port⟩, phase := .socket }
      else none
    | .socket, .socket created => some { s with phase := if created then .sendto else .lookup }
    | .sendto, .sendto =>
      some { s with events := s.events ++ [(.request s.ntp_addr, s.resolved)], phase := .recvfrom }
    | .recvfrom, .recvfrom none => some (after_attempt cfg { s with failed_attempts := s.failed_attempts + 1 })
    | .recvfrom, .recvfrom (some (d, rest)) => some (after_attempt cfg (receive cfg s d rest))
    | _, _ => none

/-! ## What is required -/

/-- The word of a packet at an offset. -/
def Datagram.word (d : Datagram) (offset : Nat) : Nat := Bytes.ofBE ((d.bytes.drop offset).take 4)

/-- A packet's receive timestamp, counted from the system's epoch and truncated to a microsecond. -/
def Datagram.time (d : Datagram) : RtosTime :=
  ⟨UInt64.ofNat ((d.word seconds_offset + (2 ^ 32 - 2208988800)) % 2 ^ 32),
    UInt32.ofNat (d.word fraction_offset * 1000000 / 2 ^ 32)⟩

/-- A request goes to the server that was found. The time is from a whole packet of that server, and is the packet's. -/
def Event.Proper (resolved : Option UInt32) : Event → Prop
  | .request dest => resolved = some dest.sin_addr
  | .set time d => resolved = some d.sender.sin_addr ∧ sizeof_sntp_packet ≤ d.bytes.length ∧ time = d.time

/-- All that was done is proper, and so is the request that is about to be sent. -/
structure Sound (s : Task) : Prop where
  proper : ∀ e ∈ s.events, e.1.Proper e.2
  next : s.phase = .sendto → s.resolved = some s.ntp_addr.sin_addr

/-- A server is found before the socket is there. A datagram that is long enough to be looked at is a whole packet of that
server, with a fraction of less than a microsecond; a shorter one is from the server, too, or one failure too many. -/
def Safe (cfg : Config) (s : Task) : Act → Prop
  | .socket true => s.resolved.isSome
  | .recvfrom (some (d, _)) =>
    if sizeof_rxpacket ≤ d.bytes.length then
      s.resolved = some d.sender.sin_addr ∧ sizeof_sntp_packet ≤ d.bytes.length ∧
        d.word fraction_offset * 1000000 < 2 ^ 32
    else s.resolved = some d.sender.sin_addr ∨ cfg.reset_after_x_failures ≤ s.failed_attempts + 1
  | _ => True

/-! ## A packet's time -/

variable {cfg : Config} {s s' : Task} {a : Act} {d : Datagram} {rest : Nat → UInt8}

theorem payload_of_lt {i : Nat} (h : i < d.bytes.length) : payload d rest i = d.bytes[i] := by
  unfold payload
  rw [List.getD_eq_getElem?_getD, List.getElem?_eq_getElem h, Option.getD_some]

/-- A word that lies in the datagram. -/
theorem word_payload {offset : Nat} (h : offset + 4 ≤ d.bytes.length) :
    word (payload d rest) offset = UInt32.ofNat (d.word offset) := by
  unfold word Datagram.word
  rw [payload_of_lt (by omega), payload_of_lt (by omega), payload_of_lt (by omega), payload_of_lt (by omega),
    List.drop_eq_getElem_cons (by omega), List.drop_eq_getElem_cons (by omega), List.drop_eq_getElem_cons (by omega),
    List.drop_eq_getElem_cons (by omega)]
  rfl

theorem word_lt (d : Datagram) (offset : Nat) : d.word offset < 2 ^ 32 := by
  have hlt := Bytes.ofLE_lt ((d.bytes.drop offset).take 4).reverse
  have hlen : ((d.bytes.drop offset).take 4).reverse.length ≤ 4 := by
    rw [List.length_reverse, List.length_take]
    exact Nat.min_le_left ..
  exact hlt.trans_le (Nat.pow_le_pow_right (by decide) hlen)

theorem get_set (seconds : UInt64) {microseconds : UInt32} (h : microseconds.toNat ≤ 1) :
    rtos_time_get (rtos_time_set ⟨seconds, microseconds⟩) = ⟨seconds, microseconds⟩ := by
  have hcases : microseconds = 0 ∨ microseconds = 1 := by
    rcases Nat.le_one_iff_eq_zero_or_eq_one.1 h with h | h
    · exact .inl (UInt32.toNat_inj.1 h)
    · exact .inr (UInt32.toNat_inj.1 h)
  have hshift : microseconds <<< Time.US_FRACTIONAL_BITS >>> Time.US_FRACTIONAL_BITS = microseconds := by
    rcases hcases with rfl | rfl <;> decide
  exact RtosTime.ext rfl hshift

theorem seconds_eq {n : Nat} (h : n < 2 ^ 32) :
    (UInt32.ofNat n - EPOCH).toUInt64 = UInt64.ofNat ((n + (2 ^ 32 - 2208988800)) % 2 ^ 32) := by
  refine UInt64.toNat_inj.1 ?_
  have hepoch : EPOCH.toNat = 2208988800 := rfl
  rw [UInt32.toNat_toUInt64, UInt32.toNat_sub, UInt32.toNat_ofNat_of_lt' h, hepoch, UInt64.toNat_ofNat', Nat.add_comm n]
  omega

/-- Dividing by `UINT_MAX` gives the microseconds where there are none. -/
theorem microseconds_iff {n : Nat} (h : n < 2 ^ 32) :
    UInt32.ofNat n / UINT_MAX = UInt32.ofNat (n * 1000000 / 2 ^ 32) ↔ n * 1000000 < 2 ^ 32 := by
  have hmax : UINT_MAX.toNat = 4294967295 := rfl
  have hlt : n * 1000000 / 2 ^ 32 < 2 ^ 32 := by omega
  rw [← UInt32.toNat_inj, UInt32.toNat_div, UInt32.toNat_ofNat_of_lt' h, hmax, UInt32.toNat_ofNat_of_lt' hlt]
  refine ⟨fun heq => ?_, fun hsmall => ?_⟩
  · rcases Nat.lt_or_ge n 4294967295 with hn | hn
    · rw [Nat.div_eq_of_lt hn] at heq
      omega
    · obtain rfl : n = 4294967295 := by omega
      exact absurd heq (by decide)
  · rw [Nat.div_eq_of_lt hsmall]
    exact Nat.div_eq_of_lt (by omega)

theorem time_iff (h : sizeof_sntp_packet ≤ d.bytes.length) :
    rtos_time_get (rtos_time_set (now_of (payload d rest))) = d.time ↔ d.word fraction_offset * 1000000 < 2 ^ 32 := by
  have hle : 48 ≤ d.bytes.length := h
  have hfraction := word_lt d fraction_offset
  have hshort : (word (payload d rest) fraction_offset / UINT_MAX).toNat ≤ 1 := by
    have hmax : UINT_MAX.toNat = 4294967295 := rfl
    have hlt := (word (payload d rest) fraction_offset).toNat_lt
    rw [UInt32.toNat_div, hmax]
    omega
  have hseconds : (word (payload d rest) seconds_offset - EPOCH).toUInt64 = d.time.seconds := by
    rw [word_payload (by unfold seconds_offset; omega)]
    exact seconds_eq (word_lt d seconds_offset)
  rw [← microseconds_iff hfraction, ← @word_payload d rest fraction_offset (by unfold fraction_offset; omega)]
  unfold now_of
  rw [get_set _ hshort, hseconds]
  exact ⟨fun heq => congrArg RtosTime.microseconds heq, fun heq => RtosTime.ext rfl heq⟩

/-! ## The steps -/

/-- What holds between the calls: the request that comes next goes to the server that was found. -/
structure Inv (s : Task) : Prop where
  proper : ∀ e ∈ s.events, e.1.Proper e.2
  found : ∀ ip ∈ s.resolved, s.phase = .socket → s.ntp_addr.sin_addr = ip
  ready : s.phase = .sendto ∨ s.phase = .recvfrom → s.resolved = some s.ntp_addr.sin_addr

theorem Inv.sound (h : Inv s) : Sound s := ⟨h.proper, fun hphase => h.ready (.inl hphase)⟩

theorem proper_concat {events : List (Event × Option UInt32)} (h : ∀ e ∈ events, e.1.Proper e.2) {e : Event}
    {resolved : Option UInt32} (he : e.Proper resolved) : ∀ e' ∈ events ++ [(e, resolved)], e'.1.Proper e'.2 := by
  intro e' he'
  rcases List.mem_append.1 he' with he' | he'
  · exact h e' he'
  · obtain rfl := List.mem_singleton.1 he'
    exact he

/-- After an attempt the task sends to where the last datagram is from, or starts over. -/
theorem Inv.after_attempt (h : ∀ e ∈ s.events, e.1.Proper e.2)
    (hready : s.resolved = some s.ntp_addr.sin_addr ∨ cfg.reset_after_x_failures ≤ s.failed_attempts) :
    Inv (after_attempt cfg s) := by
  unfold Sntpd.after_attempt
  split_ifs with hreset
  · exact ⟨h, nofun, nofun⟩
  · exact ⟨h, nofun, fun _ => hready.resolve_right hreset⟩

/-- What a datagram that is too short to be looked at leaves. -/
theorem receive_short (hshort : d.bytes.length < sizeof_rxpacket) :
    receive cfg s d rest = { s with ntp_addr := d.sender, failed_attempts := s.failed_attempts + 1 } := if_pos hshort

/-- What any other one leaves. -/
theorem receive_long (hlong : ¬ d.bytes.length < sizeof_rxpacket) :
    (receive cfg s d rest).events =
        s.events ++ [(.set (rtos_time_get (rtos_time_set (now_of (payload d rest)))) d, s.resolved)] ∧
      (receive cfg s d rest).ntp_addr = d.sender ∧ (receive cfg s d rest).resolved = s.resolved := by
  unfold receive
  dsimp only
  rw [if_neg hlong]
  split_ifs <;> exact ⟨rfl, rfl, rfl⟩

theorem set_proper_iff : (Event.set (rtos_time_get (rtos_time_set (now_of (payload d rest)))) d).Proper s.resolved ↔
    s.resolved = some d.sender.sin_addr ∧ sizeof_sntp_packet ≤ d.bytes.length ∧
      d.word fraction_offset * 1000000 < 2 ^ 32 :=
  and_congr_right fun _ => and_congr_right fun hlen => time_iff hlen

theorem Inv.step (h : Inv s) (hc : Safe cfg s a) (hs : (sntpd_task cfg).step s a = some s') : Inv s' := by
  unfold sntpd_task at hs
  dsimp only at hs
  split at hs
  · split_ifs at hs with hlen hnone
    · cases hs
      exact ⟨h.proper, (fun ip hip => nomatch hip), nofun⟩
    · cases hs
      exact ⟨h.proper, fun ip hip _ => Option.some.inj hip, nofun⟩
  · rename_i created hphase
    cases hs
    cases created with
    | false => exact ⟨h.proper, nofun, nofun⟩
    | true =>
      obtain ⟨ip, hip⟩ := Option.isSome_iff_exists.1 hc
      exact ⟨h.proper, nofun, fun _ => hip.trans (congrArg some (h.found ip hip hphase).symm)⟩
  · rename_i hphase
    cases hs
    have hready := h.ready (.inl hphase)
    exact ⟨proper_concat h.proper hready, nofun, fun _ => hready⟩
  · rename_i hphase
    cases hs
    exact .after_attempt h.proper (.inl (h.ready (.inr hphase)))
  · rename_i d rest hphase
    cases hs
    unfold Safe at hc
    by_cases hshort : d.bytes.length < sizeof_rxpacket
    · dsimp only at hc
      rw [if_neg (Nat.not_le.2 hshort)] at hc
      rw [receive_short hshort]
      exact .after_attempt h.proper hc
    · dsimp only at hc
      rw [if_pos (Nat.not_lt.1 hshort)] at hc
      obtain ⟨hevents, haddr, hresolved⟩ := @receive_long cfg s d rest hshort
      refine .after_attempt ?_ (.inl ?_)
      · rw [hevents]
        exact proper_concat h.proper (set_proper_iff.2 hc)
      · rw [haddr, hresolved]
        exact hc.1
  · cases hs

theorem after_attempt_sendto (h : ¬ cfg.reset_after_x_failures ≤ s.failed_attempts) :
    after_attempt cfg s = { s with phase := .sendto } := if_neg h

theorem after_attempt_events (cfg : Config) (s : Task) : (after_attempt cfg s).events = s.events := by
  unfold after_attempt
  split_ifs <;> rfl

/-- A step that is not safe shows at once. -/
theorem not_sound (hc : ¬ Safe cfg s a) (hs : (sntpd_task cfg).step s a = some s') : ¬ Sound s' := by
  intro hsound
  unfold sntpd_task at hs
  dsimp only at hs
  split at hs
  · exact hc trivial
  · rename_i created hphase
    cases hs
    cases created with
    | false => exact hc trivial
    | true => exact hc (Option.isSome_iff_exists.2 ⟨_, hsound.next rfl⟩)
  · exact hc trivial
  · exact hc trivial
  · rename_i d rest hphase
    cases hs
    unfold Safe at hc
    by_cases hshort : d.bytes.length < sizeof_rxpacket
    · dsimp only at hc
      rw [if_neg (Nat.not_le.2 hshort), not_or] at hc
      rw [receive_short hshort, after_attempt_sendto hc.2] at hsound
      exact hc.1 (hsound.next rfl)
    · dsimp only at hc
      rw [if_pos (Nat.not_lt.1 hshort)] at hc
      obtain ⟨hevents, -, -⟩ := @receive_long cfg s d rest hshort
      have hmem : (Event.set (rtos_time_get (rtos_time_set (now_of (payload d rest)))) d, s.resolved) ∈
          (after_attempt cfg (receive cfg s d rest)).events := by
        rw [after_attempt_events, hevents]
        exact List.mem_append_right _ List.mem_cons_self
      exact hc (set_proper_iff.1 (hsound.proper _ hmem))
  · cases hs

/-- In a run the time is set and the requests are sent as they should be just where everything that comes in is safe. -/
theorem sntp_sound_iff {as : List Act} {s₀ : Task} (h0 : (sntpd_task cfg).init s₀)
    (h : (sntpd_task cfg).Run Machine.Free s₀ as s) :
    (∀ bs t, bs <+: as → (sntpd_task cfg).Run Machine.Free s₀ bs t → Sound t) ↔ (sntpd_task cfg).Run (Safe cfg) s₀ as s := by
  obtain ⟨hphase, -, hevents⟩ := h0
  have hinv : Inv s₀ := by
    refine ⟨?_, fun _ _ heq => ?_, fun heq => ?_⟩
    · rw [hevents]
      exact nofun
    · rw [hphase] at heq
      cases heq
    · rw [hphase] at heq
      exact heq.elim nofun nofun
  exact Machine.Run.holds_iff (fun _ => Inv.sound) (fun _ _ _ => Inv.step)
    (fun _ _ _ _ => not_sound) hinv h

/-! ## Two runs -/

def one_server : Config := ⟨10, 123, 1, by decide⟩

/-- A whole packet, of stratum 1, with a timestamp of 0. -/
def reply (sender : UInt32) : Datagram := ⟨⟨sender, 123⟩, [36, 1] ++ List.replicate 46 0⟩

/-- The server is found, and somebody replies to the request. -/
def exchange (sender : UInt32) : List Act :=
  [.gethostbyname [10], .socket true, .sendto, .recvfrom (some (reply sender, fun _ => 0))]

def at_start : Task := ⟨.lookup, 0, 0, ⟨0, 0⟩, ⟨0, 0⟩, false, [], none⟩

theorem sntp_sound_exchange : ∃ s, (sntpd_task one_server).Run (Safe one_server) at_start (exchange 10) s ∧
    ∀ bs t, bs <+: exchange 10 → (sntpd_task one_server).Run Machine.Free at_start bs t → Sound t := by
  have hrun : ∃ s, (sntpd_task one_server).Run (Safe one_server) at_start (exchange 10) s :=
    ⟨_, .cons trivial rfl (.cons rfl rfl (.cons trivial rfl (.cons ⟨rfl, by decide, by decide⟩ rfl (.nil _))))⟩
  obtain ⟨s, hrun⟩ := hrun
  exact ⟨s, hrun, (sntp_sound_iff ⟨rfl, rfl, rfl⟩ (hrun.mono fun _ _ _ => trivial)).2 hrun⟩

/-- A reply of somebody else sets the time, and gets the next request. -/
theorem foreign_reply : ∃ s, (sntpd_task one_server).Run Machine.Free at_start (exchange 66) s ∧ ¬ Sound s ∧
    s.current_time = rtos_time_set (reply 66).time ∧ s.phase = .sendto ∧ s.ntp_addr.sin_addr = 66 := by
  refine ⟨_, .cons trivial rfl (.cons trivial rfl (.cons trivial rfl (.cons trivial rfl (.nil _)))), fun h => ?_, by decide,
    rfl, rfl⟩
  exact absurd (h.next rfl) (by decide)

end Sntpd
