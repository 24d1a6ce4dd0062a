import XcoreSdk.Dhcpd.Request
import XcoreSdk.Lib.Loop
/-!
# Reading the options of a datagram

The option loop on the buffer as it is in memory, with the bytes that each call of
`dhcp_option_get_next` reads. All it is promised is the number of bytes that were
received; what lies behind them is left over from before.
-/

namespace Dhcpd

/-! ## The code -/

/-- The length of a message in front of the options. -/
def MESSAGE_LENGTH : Nat := 240

def DHCP_REQUEST_MIN_LENGTH : Nat := MESSAGE_LENGTH + DHCP_REQUEST_MIN_OPTIONS

/-- The options of a message that `dhcpd_listen` hands to `dhcpd_handle_op_request`: the memory from
`dhcp_msg->options` on, and `options_length`. -/
structure Received where
  options : Nat → UInt8
  options_length : Nat
  min_le : DHCP_REQUEST_MIN_OPTIONS ≤ options_length
  le_max : options_length ≤ DHCP_OPTIONS_LENGTH

/-- A datagram of `ret` bytes in the buffer `dhcp_msg`, of which `recvfrom` fills no more than there are. -/
def Received.ofDatagram (dhcp_msg : Nat → UInt8) (ret : Nat) (hmin : DHCP_REQUEST_MIN_LENGTH ≤ ret)
    (hmax : ret ≤ MESSAGE_LENGTH + DHCP_OPTIONS_LENGTH) : Received where
  options i := dhcp_msg (MESSAGE_LENGTH + i)
  options_length := ret - MESSAGE_LENGTH
  min_le := Nat.le_sub_of_add_le' hmin
  le_max := Nat.sub_le_of_le_add (Nat.add_comm .. ▸ hmax)

/-- What a call of `dhcp_option_get_next` returns, and what it reads: indexes into the options. -/
structure GetNext where
  opt : UInt8
  opt_len : Nat
  /-- Where the data begins, if it is not `NULL`. -/
  opt_data : Option Nat
  opt_ptr : Nat
  reads : List Nat

def Received.dhcp_option_get_next (dhcp_msg : Received) (opt_ptr : Nat) : GetNext :=
  let options_length :=
    if dhcp_msg.options_length > DHCP_OPTIONS_LENGTH then DHCP_OPTIONS_LENGTH else dhcp_msg.options_length
  let options_end := options_length - 1
  let opt := dhcp_msg.options opt_ptr
  let opt_tmp := opt_ptr + 1
  if opt = DHCP_OPTION_END then ⟨DHCP_OPTION_END, 0, none, opt_ptr, [opt_ptr]⟩
  else if opt = DHCP_OPTION_PAD then
    if opt_tmp ≤ options_end then ⟨DHCP_OPTION_PAD, 0, none, opt_tmp, [opt_ptr]⟩
    else ⟨DHCP_OPTION_END, 0, none, opt_ptr, [opt_ptr]⟩
  else if opt_tmp > options_end then ⟨DHCP_OPTION_END, 0, none, opt_ptr, [opt_ptr]⟩
  else
    let len := (dhcp_msg.options opt_tmp).toNat
    if opt_tmp + 1 + len ≤ options_end then ⟨opt, len, some (opt_tmp + 1), opt_tmp + 1 + len, [opt_ptr, opt_tmp]⟩
    else ⟨DHCP_OPTION_END, 0, none, opt_ptr, [opt_ptr, opt_tmp]⟩

/-- The bytes of the data. -/
def Received.data (dhcp_msg : Received) (call : GetNext) : List UInt8 :=
  call.opt_data.elim [] fun start => (List.range' start call.opt_len).map dhcp_msg.options

/-- The variables of the option loop, and the calls it has made. -/
structure OptionLoop where
  opt_ptr : Nat
  o : ReqOptions
  calls : List GetNext

/-- One round of the `do … while (opt != DHCP_OPTION_END)` loop. -/
def Received.option_round (dhcp_msg : Received) (s : OptionLoop) : OptionLoop ⊕ OptionLoop :=
  let call := dhcp_msg.dhcp_option_get_next s.opt_ptr
  let s' := ⟨call.opt_ptr, s.o.take ⟨call.opt, dhcp_msg.data call, call.opt_ptr⟩, s.calls ++ [call]⟩
  if call.opt ≠ DHCP_OPTION_END then .inl s' else .inr s'

def OptionLoop.start : OptionLoop := ⟨0, { requested_params := default_params }, []⟩

/-! ## Within the options -/

/-- The call reads received bytes only, and its data are received bytes. -/
def Received.Within (dhcp_msg : Received) (call : GetNext) : Prop :=
  (∀ i ∈ call.reads, i < dhcp_msg.options_length) ∧
    ∀ start, call.opt_data = some start → start + call.opt_len ≤ dhcp_msg.options_length

variable {dhcp_msg : Received} {s s' : OptionLoop} {opt_ptr : Nat}

/-- From a received byte a call stays within the options, and one that is not at the end moves on to
another received byte. -/
theorem get_next_within (h : opt_ptr < dhcp_msg.options_length) :
    dhcp_msg.Within (dhcp_msg.dhcp_option_get_next opt_ptr) ∧
      ((dhcp_msg.dhcp_option_get_next opt_ptr).opt ≠ DHCP_OPTION_END →
        opt_ptr < (dhcp_msg.dhcp_option_get_next opt_ptr).opt_ptr ∧
          (dhcp_msg.dhcp_option_get_next opt_ptr).opt_ptr < dhcp_msg.options_length) := by
  have hone : ∀ i ∈ [opt_ptr], i < dhcp_msg.options_length := List.forall_mem_singleton.2 h
  have hnone : ∀ {n : Nat} start, none = some start → start + n ≤ dhcp_msg.options_length := nofun
  unfold Received.dhcp_option_get_next
  rw [if_neg (Nat.not_lt_of_le dhcp_msg.le_max)]
  simp only
  split
  · exact ⟨⟨hone, hnone⟩, fun hne => absurd rfl hne⟩
  · split
    · split
      · exact ⟨⟨hone, hnone⟩, fun _ => ⟨Nat.lt_succ_self _, by simp only; omega⟩⟩
      · exact ⟨⟨hone, hnone⟩, fun hne => absurd rfl hne⟩
    · split
      · exact ⟨⟨hone, hnone⟩, fun hne => absurd rfl hne⟩
      · have htwo : ∀ i ∈ [opt_ptr, opt_ptr + 1], i < dhcp_msg.options_length :=
          List.forall_mem_cons.2 ⟨h, List.forall_mem_singleton.2 (by omega)⟩
        split
        · refine ⟨⟨htwo, fun start hstart => ?_⟩, fun _ => ⟨by simp only; omega, by simp only; omega⟩⟩
          obtain rfl := Option.some.inj hstart
          simp only
          omega
        · exact ⟨⟨htwo, hnone⟩, fun hne => absurd rfl hne⟩

/-- What holds at the start of each round. -/
structure Reading (dhcp_msg : Received) (s : OptionLoop) : Prop where
  within : s.opt_ptr < dhcp_msg.options_length
  calls : ∀ call ∈ s.calls, dhcp_msg.Within call

theorem reading_start : Reading dhcp_msg .start :=
  ⟨Nat.lt_of_lt_of_le (by decide) dhcp_msg.min_le, fun _ h => absurd h List.not_mem_nil⟩

theorem Reading.calls_append (h : Reading dhcp_msg s) :
    ∀ call ∈ s.calls ++ [dhcp_msg.dhcp_option_get_next s.opt_ptr], dhcp_msg.Within call := by
  intro call hcall
  rcases List.mem_append.1 hcall with hcall | hcall
  · exact h.calls call hcall
  · rw [List.mem_singleton.1 hcall]
    exact (get_next_within h.within).1

/-- A round that is not the last goes on from a later byte. -/
theorem option_round_inl (h : Reading dhcp_msg s) (hround : dhcp_msg.option_round s = .inl s') :
    Reading dhcp_msg s' ∧ dhcp_msg.options_length - s'.opt_ptr < dhcp_msg.options_length - s.opt_ptr := by
  unfold Received.option_round at hround
  simp only at hround
  split at hround
  · rename_i hne
    obtain rfl := Sum.inl.inj hround
    obtain ⟨hlt, hlen⟩ := (get_next_within h.within).2 hne
    refine ⟨⟨hlen, h.calls_append⟩, ?_⟩
    simp only
    omega
  · cases hround

theorem option_round_inr (h : Reading dhcp_msg s) (hround : dhcp_msg.option_round s = .inr s') :
    ∀ call ∈ s'.calls, dhcp_msg.Within call := by
  unfold Received.option_round at hround
  simp only at hround
  split at hround
  · cases hround
  · obtain rfl := Sum.inr.inj hround
    exact h.calls_append

/-- The option loop ends on every message that is received, and reads and returns received bytes only. -/
theorem option_loop_within (dhcp_msg : Received) :
    ∃ s, Loop.Ends dhcp_msg.option_round .start s ∧ ∀ call ∈ s.calls, dhcp_msg.Within call :=
  Loop.ends_of_variant (I := Reading dhcp_msg) (fun s => dhcp_msg.options_length - s.opt_ptr)
    (fun _ _ h hround => option_round_inl h hround) (fun _ _ h hround => option_round_inr h hround) reading_start

/-! ## The bytes that were received -/

def Received.area (dhcp_msg : Received) : List UInt8 := (List.range dhcp_msg.options_length).map dhcp_msg.options

theorem area_getElem? (h : opt_ptr < dhcp_msg.options_length) :
    dhcp_msg.area[opt_ptr]? = some (dhcp_msg.options opt_ptr) := by
  rw [Received.area, List.getElem?_map, List.getElem?_range h, Option.map_some]

theorem area_slice {start len : Nat} (h : start + len ≤ dhcp_msg.options_length) :
    (dhcp_msg.area.drop start).take len = (List.range' start len).map dhcp_msg.options := by
  rw [Received.area, ← List.map_drop, ← List.map_take, List.range_eq_range', List.drop_range',
    List.take_range'_of_length_ge (by omega), Nat.zero_add, Nat.mul_one]

/-- Only the received bytes matter. -/
theorem get_next_area (h : opt_ptr < dhcp_msg.options_length) :
    dhcp_option_get_next dhcp_msg.area opt_ptr = some ⟨(dhcp_msg.dhcp_option_get_next opt_ptr).opt,
      dhcp_msg.data (dhcp_msg.dhcp_option_get_next opt_ptr), (dhcp_msg.dhcp_option_get_next opt_ptr).opt_ptr⟩ := by
  have hlen : min dhcp_msg.area.length DHCP_OPTIONS_LENGTH = dhcp_msg.options_length := by
    rw [Received.area, List.length_map, List.length_range]
    exact Nat.min_eq_left dhcp_msg.le_max
  unfold dhcp_option_get_next Received.dhcp_option_get_next
  rw [if_neg (Nat.not_lt_of_le dhcp_msg.le_max), hlen, area_getElem? h]
  simp only [Option.bind_eq_bind, Option.bind_some]
  split
  · rfl
  · split
    · split <;> rfl
    · split
      · rfl
      · rw [area_getElem? (by omega), Option.bind_some]
        split
        · rw [area_slice (by omega)]
          rfl
        · rfl

theorem option_loop_area {fuel : Nat} {o : ReqOptions} (h : Reading dhcp_msg s)
    (hloop : options_loop dhcp_msg.area fuel s.opt_ptr s.o = some o) :
    ∃ s', Loop.run dhcp_msg.option_round fuel s = some s' ∧ s'.o = o := by
  induction fuel generalizing s with
  | zero => cases hloop
  | succ fuel ih =>
    rw [options_loop, get_next_area h.within, Option.bind_eq_bind, Option.bind_some] at hloop
    rcases hround : dhcp_msg.option_round s with s' | s'
    · rw [Loop.run_inl hround]
      refine ih (option_round_inl h hround).1 ?_
      unfold Received.option_round at hround
      simp only at hround hloop
      split at hround
      · rename_i hne
        obtain rfl := Sum.inl.inj hround
        rwa [if_neg hne] at hloop
      · cases hround
    · rw [Loop.run_inr hround]
      refine ⟨s', rfl, ?_⟩
      unfold Received.option_round at hround
      simp only at hround hloop
      split at hround
      · cases hround
      · rename_i heq
        obtain rfl := Sum.inr.inj hround
        rw [if_pos (Decidable.not_not.1 heq)] at hloop
        exact Option.some.inj hloop

/-- The loop reads the options that `parse_options` gives. -/
theorem option_loop_parse (h : Loop.Ends dhcp_msg.option_round .start s) : parse_options dhcp_msg.area = some s.o := by
  have hlen : 0 < dhcp_msg.area.length := by
    rw [Received.area, List.length_map, List.length_range]
    exact Nat.lt_of_lt_of_le (by decide) dhcp_msg.min_le
  obtain ⟨o, ho⟩ := Option.isSome_iff_exists.1 (parse_options_isSome _ hlen)
  obtain ⟨s', hs', rfl⟩ := option_loop_area (s := .start) reading_start ho
  rw [Loop.Ends.unique h ⟨_, hs'⟩, ho]

end Dhcpd
