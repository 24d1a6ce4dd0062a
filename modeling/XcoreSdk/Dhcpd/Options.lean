import XcoreSdk.Dhcpd.Lease
/-!
# DHCP messages and their options

`dhcp_option_get_next` and `dhcp_option_add` walk the options area by index
instead of by pointer. A read outside the received options is `none`, as is a
failed `configASSERT`.
-/

namespace Dhcpd

structure dhcp_message_t where
  op : UInt8
  htype : UInt8
  hlen : UInt8
  hops : UInt8
  xid : BitVec 32
  secs : BitVec 16
  flags : BitVec 16
  ciaddr : in_addr
  yiaddr : in_addr
  siaddr : in_addr
  giaddr : in_addr
  chaddr : MACAddress_t
  sname : List UInt8
  file : List UInt8
  magic_cookie : in_addr
  /-- The options area: what was received of it, or what was written to it. -/
  options : List UInt8

def DHCP_OPTIONS_LENGTH : Nat := 308

/-- What `DHCP_REQUEST_MIN_LENGTH` leaves for the options: a message type and
the END option. -/
def DHCP_REQUEST_MIN_OPTIONS : Nat := 3 + 1

def BOOTREQUEST : UInt8 := 1
def BOOTREPLY : UInt8 := 2

def DHCP_MAGIC_COOKIE : in_addr := 0x63825363

def DHCP_OPTION_PAD : UInt8 := 0
def DHCP_OPTION_SUBNET_MASK : UInt8 := 1
def DHCP_OPTION_ROUTER : UInt8 := 3
def DHCP_OPTION_DOMAIN_NAME_SERVER : UInt8 := 6
def DHCP_OPTION_INTERFACE_MTU : UInt8 := 26
def DHCP_OPTION_BROADCAST_ADDRESS : UInt8 := 28
def DHCP_OPTION_REQUESTED_IP_ADDRESS : UInt8 := 50
def DHCP_OPTION_IP_ADDRESS_LEASE_TIME : UInt8 := 51
def DHCP_OPTION_DHCP_MESSAGE_TYPE : UInt8 := 53
def DHCP_OPTION_SERVER_IDENTIFIER : UInt8 := 54
def DHCP_OPTION_PARAMETER_REQ_LIST : UInt8 := 55
def DHCP_OPTION_RENEWAL_TIME_VALUE : UInt8 := 58
def DHCP_OPTION_REBINDING_TIME_VALUE : UInt8 := 59
def DHCP_OPTION_END : UInt8 := 255

/-- The octets of an address, in network order. -/
def in_addr.octets (ip : in_addr) : List UInt8 := Bytes.toBE 4 ip.toNat

def in_addr.ofOctets (bs : List UInt8) : in_addr := BitVec.ofNat 32 (Bytes.ofBE bs)

/-! ## Reading options -/

/-- An option as returned by `dhcp_option_get_next`, and the new `opt_ptr`. -/
structure Opt where
  code : UInt8
  data : List UInt8
  opt_ptr : Nat

def dhcp_option_get_next (options : List UInt8) (opt_ptr : Nat) : Option Opt := do
  let options_end := min options.length DHCP_OPTIONS_LENGTH - 1
  let opt ← options[opt_ptr]?
  if opt = DHCP_OPTION_END then
    some ⟨DHCP_OPTION_END, [], opt_ptr⟩
  else if opt = DHCP_OPTION_PAD then
    if opt_ptr + 1 ≤ options_end then some ⟨DHCP_OPTION_PAD, [], opt_ptr + 1⟩
    else some ⟨DHCP_OPTION_END, [], opt_ptr⟩
  else if opt_ptr + 1 > options_end then
    some ⟨DHCP_OPTION_END, [], opt_ptr⟩
  else
    let len ← options[opt_ptr + 1]?
    if opt_ptr + 2 + len.toNat ≤ options_end then
      some ⟨opt, (options.drop (opt_ptr + 2)).take len.toNat, opt_ptr + 2 + len.toNat⟩
    else some ⟨DHCP_OPTION_END, [], opt_ptr⟩

/-- The locals of `dhcpd_handle_op_request` that the options set. -/
structure ReqOptions where
  dhcp_msg_type : Nat := 0
  requested_ip : Option in_addr := none
  server_identifier : Option in_addr := none
  requested_params : List UInt8
deriving DecidableEq

def default_params : List UInt8 :=
  [DHCP_OPTION_SUBNET_MASK, DHCP_OPTION_ROUTER, DHCP_OPTION_DOMAIN_NAME_SERVER, DHCP_OPTION_INTERFACE_MTU,
    DHCP_OPTION_BROADCAST_ADDRESS, DHCP_OPTION_IP_ADDRESS_LEASE_TIME, DHCP_OPTION_RENEWAL_TIME_VALUE,
    DHCP_OPTION_REBINDING_TIME_VALUE]

/-- The `switch (opt)` of the option loop. -/
def ReqOptions.take (o : ReqOptions) (opt : Opt) : ReqOptions :=
  if opt.code = DHCP_OPTION_DHCP_MESSAGE_TYPE then
    if opt.data.length = 1 then { o with dhcp_msg_type := Bytes.ofLE opt.data } else o
  else if opt.code = DHCP_OPTION_REQUESTED_IP_ADDRESS then
    if opt.data.length = 4 then { o with requested_ip := some (.ofOctets opt.data) } else o
  else if opt.code = DHCP_OPTION_SERVER_IDENTIFIER then
    if opt.data.length = 4 then { o with server_identifier := some (.ofOctets opt.data) } else o
  else if opt.code = DHCP_OPTION_PARAMETER_REQ_LIST then
    { o with requested_params := opt.data }
  else o

/-- The `do … while (opt != DHCP_OPTION_END)` loop. -/
def options_loop (options : List UInt8) : Nat → Nat → ReqOptions → Option ReqOptions
  | 0, _, _ => none
  | fuel + 1, opt_ptr, o => do
    let opt ← dhcp_option_get_next options opt_ptr
    if opt.code = DHCP_OPTION_END then some (o.take opt)
    else options_loop options fuel opt.opt_ptr (o.take opt)

/-- Every pass but the last moves the pointer on. -/
def parse_options (options : List UInt8) : Option ReqOptions :=
  options_loop options (options.length + 1) 0 { requested_params := default_params }

/-- Inside the options area an option is read without leaving it, and one that
is not END moves the pointer on to a byte of the area. -/
theorem get_next_spec (options : List UInt8) (opt_ptr : Nat) (h : opt_ptr < min options.length DHCP_OPTIONS_LENGTH) :
    ∃ opt, dhcp_option_get_next options opt_ptr = some opt ∧
      (opt.code ≠ DHCP_OPTION_END →
        opt_ptr < opt.opt_ptr ∧ opt.opt_ptr < min options.length DHCP_OPTIONS_LENGTH) := by
  have h0 : opt_ptr < options.length := by omega
  unfold dhcp_option_get_next
  simp only [List.getElem?_eq_getElem h0, Option.bind_eq_bind, Option.bind_some]
  split
  · exact ⟨_, rfl, fun hc => absurd rfl hc⟩
  · split
    · split
      · exact ⟨_, rfl, fun _ => ⟨by simp, by simp only; omega⟩⟩
      · exact ⟨_, rfl, fun hc => absurd rfl hc⟩
    · split
      · exact ⟨_, rfl, fun hc => absurd rfl hc⟩
      · have h1 : opt_ptr + 1 < options.length := by omega
        simp only [List.getElem?_eq_getElem h1, Option.bind_some]
        split
        · exact ⟨_, rfl, fun _ => ⟨by simp only; omega, by simp only; omega⟩⟩
        · exact ⟨_, rfl, fun hc => absurd rfl hc⟩

theorem options_loop_isSome (options : List UInt8) (fuel opt_ptr : Nat) (o : ReqOptions)
    (hp : opt_ptr < min options.length DHCP_OPTIONS_LENGTH) (hf : options.length < opt_ptr + fuel) :
    (options_loop options fuel opt_ptr o).isSome := by
  induction fuel generalizing opt_ptr o with
  | zero => omega
  | succ fuel ih =>
    obtain ⟨opt, ho, hnext⟩ := get_next_spec options opt_ptr hp
    simp only [options_loop, ho, Option.bind_eq_bind, Option.bind_some]
    split
    · rfl
    · rename_i hc
      obtain ⟨h1, h2⟩ := hnext hc
      exact ih opt.opt_ptr _ h2 (by omega)

/-- The option loop ends on every message that has an options area. -/
theorem parse_options_isSome (options : List UInt8) (h : 0 < options.length) : (parse_options options).isSome :=
  options_loop_isSome options _ 0 _ (by simp only [DHCP_OPTIONS_LENGTH]; omega) (by omega)

/-! ## Writing options -/

/-- Appends an option to the `options` already written. -/
def dhcp_option_add (options : List UInt8) (opt : UInt8 × List UInt8) : Option (List UInt8) :=
  let (code, data) := opt
  let options_end := DHCP_OPTIONS_LENGTH - 1
  if data.length ≤ 255 ∧ options.length ≤ options_end then
    if data.length > 0 then
      if options.length + 1 + data.length ≤ options_end then
        some (options ++ code :: UInt8.ofNat data.length :: data)
      else none
    else some (options ++ [code])
  else none

/-- A sequence of `dhcp_option_add` calls on an empty options area. -/
def options_written (opts : List (UInt8 × List UInt8)) : Option (List UInt8) :=
  opts.foldlM dhcp_option_add []

/-- An upper bound of the bytes the options take. -/
def optionsSize (opts : List (UInt8 × List UInt8)) : Nat := (opts.map fun o => 2 + o.2.length).sum

theorem option_add_isSome (options : List UInt8) (opt : UInt8 × List UInt8) (h : opt.2.length ≤ 255)
    (hs : options.length + 2 + opt.2.length ≤ DHCP_OPTIONS_LENGTH) :
    ∃ options', dhcp_option_add options opt = some options' ∧
      options'.length ≤ options.length + 2 + opt.2.length := by
  obtain ⟨code, data⟩ := opt
  simp only [DHCP_OPTIONS_LENGTH] at h hs
  have h1 : options.length ≤ DHCP_OPTIONS_LENGTH - 1 := by simp only [DHCP_OPTIONS_LENGTH]; omega
  have h2 : options.length + 1 + data.length ≤ DHCP_OPTIONS_LENGTH - 1 := by
    simp only [DHCP_OPTIONS_LENGTH]; omega
  simp only [dhcp_option_add, h, h1, h2, and_self, if_true]
  split
  · exact ⟨_, rfl, by simp; omega⟩
  · exact ⟨_, rfl, by simp; omega⟩

theorem options_written_isSome (opts : List (UInt8 × List UInt8)) (h : ∀ o ∈ opts, o.2.length ≤ 255)
    (hs : optionsSize opts ≤ DHCP_OPTIONS_LENGTH) : (options_written opts).isSome := by
  have main : ∀ (opts : List (UInt8 × List UInt8)) (options : List UInt8), (∀ o ∈ opts, o.2.length ≤ 255) →
      options.length + optionsSize opts ≤ DHCP_OPTIONS_LENGTH → (opts.foldlM dhcp_option_add options).isSome := by
    intro opts
    induction opts with
    | nil => intros; rfl
    | cons opt opts ih =>
      intro options hl hsz
      simp only [optionsSize, List.map_cons, List.sum_cons] at hsz ih
      obtain ⟨options', ho, hlen⟩ := option_add_isSome options opt (hl opt (by simp)) (by omega)
      rw [List.foldlM_cons, ho]
      exact ih options' (fun o ho => hl o (by simp [ho])) (by omega)
  exact main opts [] h (by simpa using hs)

end Dhcpd
