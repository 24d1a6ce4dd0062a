import XcoreSdk.Dhcpd.Parser
import XcoreSdk.Dhcpd.PoolInit
/-!
# Options written and read back

What `dhcp_option_add` writes `dhcp_option_get_next` reads back. The reply to a
request is written over the options of the request, of which the list of requested
parameters is a part; by then all that is needed of it has been read.
-/

namespace Dhcpd

/-! ## Reading a list of options -/

/-- The options in front of the END option, and where that is. -/
def options_read (options : List UInt8) : Nat → Nat → Option (List (UInt8 × List UInt8) × Nat)
  | 0, _ => none
  | fuel + 1, opt_ptr => do
    let opt ← dhcp_option_get_next options opt_ptr
    if opt.code = DHCP_OPTION_END then some ([], opt.opt_ptr)
    else (options_read options fuel opt.opt_ptr).map fun (opts, opt_end) => ((opt.code, opt.data) :: opts, opt_end)

/-- The options of a message. -/
def read_options (options : List UInt8) : Option (List (UInt8 × List UInt8) × Nat) :=
  options_read options (options.length + 1) 0

/-- An option that is neither padding nor the end, with data. -/
structure OptionValid (opt : UInt8 × List UInt8) : Prop where
  not_pad : opt.1 ≠ DHCP_OPTION_PAD
  not_end : opt.1 ≠ DHCP_OPTION_END
  pos : 0 < opt.2.length
  le : opt.2.length ≤ 255

/-- The END option is at the end of the bytes, and these options are in front of it. -/
def DecodesTo (options : List UInt8) (opts : List (UInt8 × List UInt8)) : Prop :=
  ∃ opt_end, read_options options = some (opts, opt_end) ∧ options[opt_end]? = some DHCP_OPTION_END ∧
    options.length = opt_end + 1

/-- The bytes of an option. -/
def encode (opt : UInt8 × List UInt8) : List UInt8 :=
  if opt.2.length > 0 then opt.1 :: UInt8.ofNat opt.2.length :: opt.2 else [opt.1]

variable {opts : List (UInt8 × List UInt8)} {opt : UInt8 × List UInt8} {before after options options' : List UInt8}

theorem OptionValid.encode_eq (h : OptionValid opt) : encode opt = opt.1 :: UInt8.ofNat opt.2.length :: opt.2 :=
  if_pos h.pos

theorem OptionValid.encode_length (h : OptionValid opt) : (encode opt).length = 2 + opt.2.length := by
  rw [h.encode_eq, List.length_cons, List.length_cons]
  omega

theorem option_add_eq (h : dhcp_option_add options opt = some options') : options' = options ++ encode opt := by
  unfold dhcp_option_add at h
  simp only at h
  unfold encode
  split at h
  · split at h
    · rename_i hpos
      rw [if_pos hpos]
      split at h
      · exact (Option.some.inj h).symm
      · cases h
    · rename_i hpos
      rw [if_neg hpos]
      exact (Option.some.inj h).symm
  · cases h

theorem foldlM_option_add (h : opts.foldlM dhcp_option_add options = some options') :
    options' = options ++ opts.flatMap encode := by
  induction opts generalizing options with
  | nil =>
    obtain rfl := Option.some.inj h
    exact (List.append_nil _).symm
  | cons opt opts ih =>
    rw [List.foldlM_cons] at h
    obtain ⟨mid, hmid, h⟩ := Option.bind_eq_some_iff.1 h
    rw [ih h, option_add_eq hmid, List.flatMap_cons, List.append_assoc]

theorem getElem?_between (a : UInt8) : (before ++ a :: after)[before.length]? = some a := by
  rw [List.getElem?_append_right (Nat.le_refl _), Nat.sub_self, List.getElem?_cons_zero]

theorem get_next_end : dhcp_option_get_next (before ++ DHCP_OPTION_END :: after) before.length =
    some ⟨DHCP_OPTION_END, [], before.length⟩ := by
  unfold dhcp_option_get_next
  rw [getElem?_between, Option.bind_eq_bind, Option.bind_some]
  exact if_pos rfl

/-- An option that is followed by another byte is read back. -/
theorem get_next_encode (h : OptionValid opt) (hafter : 0 < after.length)
    (hlen : (before ++ encode opt ++ after).length ≤ DHCP_OPTIONS_LENGTH) :
    dhcp_option_get_next (before ++ encode opt ++ after) before.length =
      some ⟨opt.1, opt.2, before.length + (encode opt).length⟩ := by
  have htotal : (before ++ encode opt ++ after).length = before.length + (2 + opt.2.length) + after.length := by
    rw [List.length_append, List.length_append, h.encode_length]
  rw [htotal] at hlen
  have hcode : (before ++ encode opt ++ after)[before.length]? = some opt.1 := by
    rw [h.encode_eq, List.append_assoc]
    exact getElem?_between _
  have hnext : (before ++ encode opt ++ after)[before.length + 1]? = some (UInt8.ofNat opt.2.length) := by
    rw [h.encode_eq, List.append_assoc, List.getElem?_append_right (Nat.le_succ _), Nat.succ_eq_add_one,
      Nat.add_sub_cancel_left]
    rfl
  have hbyte : (UInt8.ofNat opt.2.length).toNat = opt.2.length := by
    rw [UInt8.toNat_ofNat']
    exact Nat.mod_eq_of_lt (Nat.lt_of_le_of_lt h.le (by decide))
  have hdata : ((before ++ encode opt ++ after).drop (before.length + 2)).take opt.2.length = opt.2 := by
    rw [h.encode_eq, List.append_assoc, List.drop_append, List.drop_eq_nil_of_le (Nat.le_add_right _ _),
      Nat.add_sub_cancel_left]
    exact List.take_left
  unfold dhcp_option_get_next
  rw [hcode, htotal, Nat.min_eq_left hlen, Option.bind_eq_bind, Option.bind_some, if_neg h.not_end, if_neg h.not_pad,
    if_neg (by omega), hnext, Option.bind_some, hbyte, if_pos (by omega), hdata, h.encode_length,
    Nat.add_assoc]

theorem options_read_encode (before : List UInt8) (fuel : Nat) (hvalid : ∀ opt ∈ opts, OptionValid opt) (hfuel : opts.length < fuel)
    (hlen : (before ++ opts.flatMap encode ++ [DHCP_OPTION_END]).length ≤ DHCP_OPTIONS_LENGTH) :
    options_read (before ++ opts.flatMap encode ++ [DHCP_OPTION_END]) fuel before.length =
      some (opts, (before ++ opts.flatMap encode).length) := by
  induction opts generalizing before fuel with
  | nil =>
    obtain ⟨fuel, rfl⟩ := Nat.exists_eq_succ_of_ne_zero (Nat.ne_of_gt hfuel)
    rw [List.flatMap_nil, List.append_nil, options_read, get_next_end, Option.bind_eq_bind, Option.bind_some]
    exact if_pos rfl
  | cons opt opts ih =>
    obtain ⟨fuel, rfl⟩ := Nat.exists_eq_succ_of_ne_zero (Nat.ne_of_gt (Nat.zero_lt_of_lt hfuel))
    obtain ⟨hopt, hvalid⟩ := List.forall_mem_cons.1 hvalid
    have hassoc : before ++ (opt :: opts).flatMap encode ++ [DHCP_OPTION_END] =
        before ++ encode opt ++ (opts.flatMap encode ++ [DHCP_OPTION_END]) := by
      rw [List.flatMap_cons, List.append_assoc, List.append_assoc, List.append_assoc]
    have hassoc' : before ++ encode opt ++ (opts.flatMap encode ++ [DHCP_OPTION_END]) =
        before ++ encode opt ++ opts.flatMap encode ++ [DHCP_OPTION_END] := (List.append_assoc ..).symm
    rw [hassoc] at hlen ⊢
    have hrest := ih (before ++ encode opt) fuel hvalid (Nat.lt_of_succ_lt_succ hfuel) (hassoc' ▸ hlen)
    rw [List.length_append, ← hassoc'] at hrest
    rw [options_read, get_next_encode hopt (by rw [List.length_append]; exact Nat.succ_pos _) hlen, Option.bind_eq_bind,
      Option.bind_some, if_neg hopt.not_end, hrest, List.flatMap_cons, List.append_assoc]
    rfl

/-- Options are at least a byte long. -/
theorem length_le_flatMap_encode (hvalid : ∀ opt ∈ opts, OptionValid opt) : opts.length ≤ (opts.flatMap encode).length := by
  induction opts with
  | nil => exact Nat.le_refl _
  | cons opt opts ih =>
    obtain ⟨hopt, hvalid⟩ := List.forall_mem_cons.1 hvalid
    rw [List.flatMap_cons, List.length_append, List.length_cons, hopt.encode_length]
    have := ih hvalid
    omega

/-- Options that are written with an END option behind them are read back. -/
theorem decodes_of_written (hvalid : ∀ opt ∈ opts, OptionValid opt)
    (hwritten : options_written (opts ++ [(DHCP_OPTION_END, [])]) = some options)
    (hlen : options.length ≤ DHCP_OPTIONS_LENGTH) : DecodesTo options opts := by
  have hbytes : options = opts.flatMap encode ++ [DHCP_OPTION_END] := by
    rw [foldlM_option_add hwritten, List.flatMap_append]
    rfl
  have hread := options_read_encode [] (options.length + 1) hvalid
    (by
      have := length_le_flatMap_encode hvalid
      rw [hbytes, List.length_append]
      omega)
    (by rwa [List.nil_append, ← hbytes])
  rw [List.nil_append, ← hbytes] at hread
  refine ⟨_, hread, ?_, ?_⟩
  · rw [hbytes]
    exact getElem?_between _
  · rw [hbytes, List.length_append]
    rfl

theorem option_add_length (h : dhcp_option_add options opt = some options') : options'.length ≤ DHCP_OPTIONS_LENGTH := by
  have heq := option_add_eq h
  unfold dhcp_option_add at h
  unfold encode at heq
  have hlen : DHCP_OPTIONS_LENGTH = 308 := rfl
  simp only at h
  split at h
  · split at h
    · rename_i hpos
      split at h
      · rw [if_pos hpos] at heq
        rw [heq, List.length_append, List.length_cons, List.length_cons]
        omega
      · cases h
    · rename_i hpos
      rw [if_neg hpos] at heq
      rw [heq, List.length_append, List.length_singleton]
      omega
  · cases h

theorem foldlM_option_add_length (h : opts.foldlM dhcp_option_add options = some options')
    (hlen : options.length ≤ DHCP_OPTIONS_LENGTH) : options'.length ≤ DHCP_OPTIONS_LENGTH := by
  induction opts generalizing options with
  | nil =>
    obtain rfl := Option.some.inj h
    exact hlen
  | cons opt opts ih =>
    rw [List.foldlM_cons] at h
    obtain ⟨mid, hmid, h⟩ := Option.bind_eq_some_iff.1 h
    exact ih h (option_add_length hmid)

theorem options_written_decodes (hvalid : ∀ opt ∈ opts, OptionValid opt)
    (hwritten : options_written (opts ++ [(DHCP_OPTION_END, [])]) = some options) : DecodesTo options opts :=
  decodes_of_written hvalid hwritten (foldlM_option_add_length hwritten (Nat.zero_le _))

/-- Valid options that leave room for the END option can be written. -/
theorem options_written_valid (hvalid : ∀ opt ∈ opts, OptionValid opt) (hfit : optionsSize opts + 1 ≤ DHCP_OPTIONS_LENGTH) :
    ∃ options, options_written (opts ++ [(DHCP_OPTION_END, [])]) = some options := by
  have main : ∀ options : List UInt8, options.length + optionsSize opts + 1 ≤ DHCP_OPTIONS_LENGTH →
      ((opts ++ [(DHCP_OPTION_END, [])]).foldlM dhcp_option_add options).isSome := by
    clear hfit
    induction opts with
    | nil =>
      intro options hlen
      have hend : dhcp_option_add options (DHCP_OPTION_END, []) = some (options ++ [DHCP_OPTION_END]) := by
        simp only [optionsSize, List.map_nil, List.sum_nil] at hlen
        simp only [dhcp_option_add, List.length_nil]
        rw [if_pos ⟨by decide, by omega⟩, if_neg (Nat.lt_irrefl 0)]
      rw [List.nil_append, List.foldlM_cons, hend]
      rfl
    | cons opt opts ih =>
      intro options hlen
      obtain ⟨hopt, hvalid⟩ := List.forall_mem_cons.1 hvalid
      have hsize : optionsSize (opt :: opts) = 2 + opt.2.length + optionsSize opts := rfl
      rw [hsize] at hlen
      obtain ⟨options', hadd, hlen'⟩ := option_add_isSome options opt hopt.le (by omega)
      rw [List.cons_append, List.foldlM_cons, hadd]
      exact ih hvalid options' (by omega)
  exact Option.isSome_iff_exists.1 (main [] (by simpa using hfit))

/-! ## The replies -/

/-- The options an OFFER or ACK may have, with their values. -/
def reply_values (cfg : Config) (state : ClientState) : List (UInt8 × List UInt8) :=
  [(DHCP_OPTION_DHCP_MESSAGE_TYPE, [UInt8.ofNat (if state = .DISCOVER then DHCP_OFFER else DHCP_ACK)]),
    (DHCP_OPTION_SERVER_IDENTIFIER, in_addr.octets cfg.server_ip),
    (DHCP_OPTION_IP_ADDRESS_LEASE_TIME, Bytes.toBE 4 cfg.lease_time),
    (DHCP_OPTION_SUBNET_MASK, in_addr.octets cfg.netmask),
    (DHCP_OPTION_ROUTER, in_addr.octets cfg.gateway),
    (DHCP_OPTION_DOMAIN_NAME_SERVER, in_addr.octets cfg.dns.1 ++ in_addr.octets cfg.dns.2),
    (DHCP_OPTION_INTERFACE_MTU, Bytes.toBE 2 cfg.network_mtu),
    (DHCP_OPTION_BROADCAST_ADDRESS, in_addr.octets INADDR_BROADCAST),
    (DHCP_OPTION_RENEWAL_TIME_VALUE, Bytes.toBE 4 (cfg.lease_time / 2)),
    (DHCP_OPTION_REBINDING_TIME_VALUE, Bytes.toBE 4 (cfg.lease_time * 7 / 8))]

/-- Which of them it has: two always, the lease time but in the answer to an INFORM, the others on request. -/
def Included (state : ClientState) (requested_params : List UInt8) (code : UInt8) : Prop :=
  if code = DHCP_OPTION_DHCP_MESSAGE_TYPE ∨ code = DHCP_OPTION_SERVER_IDENTIFIER then True
  else if code = DHCP_OPTION_IP_ADDRESS_LEASE_TIME then state ≠ .INFORMING
  else code ∈ requested_params

instance (state : ClientState) (requested_params : List UInt8) (code : UInt8) :
    Decidable (Included state requested_params code) := by
  unfold Included
  infer_instance

/-- The options of a reply: each of those it is to have once, and no others. -/
structure ReplyOptions (cfg : Config) (state : ClientState) (requested_params : List UInt8)
    (opts : List (UInt8 × List UInt8)) : Prop where
  once : (opts.map Prod.fst).Nodup
  mem_iff : ∀ opt, opt ∈ opts ↔ opt ∈ reply_values cfg state ∧ Included state requested_params opt.1

variable {cfg : Config} {state : ClientState} {requested_params : List UInt8}

theorem ack_options_eq : ack_options cfg state requested_params =
    (reply_values cfg state).filter (fun opt => Included state requested_params opt.1) ++ [(DHCP_OPTION_END, [])] := by
  have hcons : ∀ (a : UInt8 × List UInt8) (l : List (UInt8 × List UInt8)),
      (a :: l).filter (fun opt => Included state requested_params opt.1) =
        (if Included state requested_params a.1 then [a] else []) ++
          l.filter (fun opt => Included state requested_params opt.1) := by
    intro a l
    rw [List.filter_cons]
    by_cases h : Included state requested_params a.1 <;> simp [h]
  have hrequested : ∀ code : UInt8, code ≠ DHCP_OPTION_DHCP_MESSAGE_TYPE → code ≠ DHCP_OPTION_SERVER_IDENTIFIER →
      code ≠ DHCP_OPTION_IP_ADDRESS_LEASE_TIME → (Included state requested_params code ↔ code ∈ requested_params) := by
    intro code htype hid hlease
    rw [Included, if_neg (not_or.2 ⟨htype, hid⟩), if_neg hlease]
  have htype : Included state requested_params DHCP_OPTION_DHCP_MESSAGE_TYPE := by
    rw [Included, if_pos (.inl rfl)]
    trivial
  have hid : Included state requested_params DHCP_OPTION_SERVER_IDENTIFIER := by
    rw [Included, if_pos (.inr rfl)]
    trivial
  have hlease : Included state requested_params DHCP_OPTION_IP_ADDRESS_LEASE_TIME ↔ state ≠ .INFORMING := by
    rw [Included, if_neg (by decide), if_pos rfl]
  simp only [reply_values, hcons, List.filter_nil, List.append_nil, if_pos htype, if_pos hid, hlease,
    hrequested DHCP_OPTION_SUBNET_MASK (by decide) (by decide) (by decide),
    hrequested DHCP_OPTION_ROUTER (by decide) (by decide) (by decide),
    hrequested DHCP_OPTION_DOMAIN_NAME_SERVER (by decide) (by decide) (by decide),
    hrequested DHCP_OPTION_INTERFACE_MTU (by decide) (by decide) (by decide),
    hrequested DHCP_OPTION_BROADCAST_ADDRESS (by decide) (by decide) (by decide),
    hrequested DHCP_OPTION_RENEWAL_TIME_VALUE (by decide) (by decide) (by decide),
    hrequested DHCP_OPTION_REBINDING_TIME_VALUE (by decide) (by decide) (by decide), ack_options]
  simp only [List.append_assoc, List.cons_append, List.nil_append]

theorem option_valid {code : UInt8} {data : List UInt8} (hcode : code ≠ DHCP_OPTION_PAD ∧ code ≠ DHCP_OPTION_END)
    (hdata : 0 < data.length ∧ data.length ≤ 255) : OptionValid (code, data) :=
  ⟨hcode.1, hcode.2, hdata.1, hdata.2⟩

theorem reply_values_valid : ∀ opt ∈ reply_values cfg state, OptionValid opt := by
  simp only [reply_values, List.forall_mem_cons]
  refine ⟨?_, ?_, ?_, ?_, ?_, ?_, ?_, ?_, ?_, ?_, fun _ h => absurd h List.not_mem_nil⟩ <;>
    exact option_valid (by decide) (by simp)

theorem reply_values_once : ((reply_values cfg state).map Prod.fst).Nodup := by
  have hcodes : (reply_values cfg state).map Prod.fst = [53, 54, 51, 1, 3, 6, 26, 28, 58, 59] := rfl
  rw [hcodes]
  decide

/-- An OFFER or ACK that was written decodes to its options. -/
theorem ack_options_decode (hwritten : options_written (ack_options cfg state requested_params) = some options) :
    ∃ opts, DecodesTo options opts ∧ ReplyOptions cfg state requested_params opts := by
  rw [ack_options_eq] at hwritten
  refine ⟨_, options_written_decodes (fun opt hopt => ?_) hwritten, ?_, fun opt => ?_⟩
  · exact reply_values_valid opt (List.mem_of_mem_filter hopt)
  · exact reply_values_once.sublist ((List.filter_sublist).map Prod.fst)
  · rw [List.mem_filter, decide_eq_true_iff]

/-- A NAK's options. -/
def nak_values (cfg : Config) : List (UInt8 × List UInt8) :=
  [(DHCP_OPTION_DHCP_MESSAGE_TYPE, [UInt8.ofNat DHCP_NAK]), (DHCP_OPTION_SERVER_IDENTIFIER, in_addr.octets cfg.server_ip)]

theorem nak_options_decode (hwritten : options_written (nak_options cfg) = some options) :
    DecodesTo options (nak_values cfg) := by
  refine options_written_decodes ?_ hwritten
  simp only [nak_values, List.forall_mem_cons]
  refine ⟨?_, ?_, fun _ h => absurd h List.not_mem_nil⟩ <;> exact option_valid (by decide) (by simp)

/-! ## In place -/

/-- The buffer that a reply is written to, and how far it has got. -/
structure Area where
  options : Nat → UInt8
  opt_ptr : Nat

/-- `memcpy` to the options. -/
def Area.write (a : Area) (bytes : List UInt8) : Area where
  options i := if a.opt_ptr ≤ i then (bytes[i - a.opt_ptr]?).getD (a.options i) else a.options i
  opt_ptr := a.opt_ptr + bytes.length

/-- `dhcp_option_add` on the buffer. -/
def Area.dhcp_option_add (a : Area) (opt : UInt8 × List UInt8) : Option Area :=
  let (code, data) := opt
  let options_end := DHCP_OPTIONS_LENGTH - 1
  if data.length ≤ 255 ∧ a.opt_ptr ≤ options_end then
    let a := a.write [code]
    if data.length > 0 then
      if a.opt_ptr + data.length ≤ options_end then some ((a.write [UInt8.ofNat data.length]).write data) else none
    else some a
  else none

/-- What has been written. -/
def Area.written (a : Area) : List UInt8 := (List.range a.opt_ptr).map a.options

/-- The last of the calls that returned a list of requested parameters: where `requested_params` points, if not
to `default_params`. -/
def requested_params_at (calls : List GetNext) : Option GetNext :=
  (calls.filter fun call => call.opt = DHCP_OPTION_PARAMETER_REQ_LIST).getLast?

/-- The reply over the options of the request. What is to be included is looked up in the buffer before the
first option is added. -/
def Received.reply_area (dhcp_msg : Received) (cfg : Config) (state : ClientState) (calls : List GetNext) : Option Area :=
  let requested_params := (requested_params_at calls).elim default_params dhcp_msg.data
  (ack_options cfg state requested_params).foldlM Area.dhcp_option_add ⟨dhcp_msg.options, 0⟩

/-- A NAK over the options of the request. -/
def Received.nak_area (dhcp_msg : Received) (cfg : Config) : Option Area :=
  (nak_options cfg).foldlM Area.dhcp_option_add ⟨dhcp_msg.options, 0⟩

/-- How a request is answered, with `yiaddr` the address that the handler has settled on. The options of a
reply are what has been written to the buffer. -/
inductive Answered (cfg : Config) (dhcp_msg : Received) (state : ClientState) (loop : OptionLoop) (yiaddr : in_addr) :
    Option dhcp_message_t → Prop
  | silent : ¬ state.Replies ∨ yiaddr = INADDR_ANY → Answered cfg dhcp_msg state loop yiaddr none
  | nak {msg : dhcp_message_t} : state.Replies → yiaddr = INADDR_BROADCAST →
      (dhcp_msg.nak_area cfg).map Area.written = some msg.options → DecodesTo msg.options (nak_values cfg) →
      Answered cfg dhcp_msg state loop yiaddr (some msg)
  | ack {msg : dhcp_message_t} {opts : List (UInt8 × List UInt8)} : state.Replies → yiaddr ≠ INADDR_ANY →
      yiaddr ≠ INADDR_BROADCAST → (dhcp_msg.reply_area cfg state loop.calls).map Area.written = some msg.options →
      DecodesTo msg.options opts → ReplyOptions cfg state loop.o.requested_params opts →
      Answered cfg dhcp_msg state loop yiaddr (some msg)

variable {a a' : Area} {dhcp_msg : Received} {loop loop' : OptionLoop}

theorem Area.length_written (a : Area) : a.written.length = a.opt_ptr := by
  rw [Area.written, List.length_map, List.length_range]

theorem Area.getElem?_written (a : Area) (i : Nat) :
    a.written[i]? = if i < a.opt_ptr then some (a.options i) else none := by
  rw [Area.written, List.getElem?_map]
  split
  · rename_i h
    rw [List.getElem?_range h, Option.map_some]
  · rename_i h
    rw [List.getElem?_eq_none (by rw [List.length_range]; omega), Option.map_none]

theorem Area.write_written (a : Area) (bytes : List UInt8) : (a.write bytes).written = a.written ++ bytes := by
  apply List.ext_getElem?
  intro i
  rw [Area.getElem?_written, List.getElem?_append, Area.length_written, Area.getElem?_written]
  unfold Area.write
  simp only
  by_cases hlt : i < a.opt_ptr
  · rw [if_pos (by omega), if_neg (by omega), if_pos hlt, if_pos hlt]
  · rw [if_neg hlt]
    by_cases hi : i < a.opt_ptr + bytes.length
    · rw [if_pos hi, if_pos (Nat.le_of_not_lt hlt), List.getElem?_eq_getElem (by omega), Option.getD_some]
    · rw [if_neg hi, List.getElem?_eq_none (by omega)]

/-- Adding an option to the buffer adds it to what has been written. -/
theorem Area.option_add (a : Area) (opt : UInt8 × List UInt8) :
    (a.dhcp_option_add opt).map Area.written = Dhcpd.dhcp_option_add a.written opt := by
  obtain ⟨code, data⟩ := opt
  unfold Area.dhcp_option_add Dhcpd.dhcp_option_add
  simp only [Area.length_written]
  have hptr : (a.write [code]).opt_ptr = a.opt_ptr + 1 := rfl
  rw [hptr]
  split
  · split
    · split
      · rw [Option.map_some, Area.write_written, Area.write_written, Area.write_written, List.append_assoc,
          List.append_assoc]
        rfl
      · rfl
    · rw [Option.map_some, Area.write_written]
  · rfl

theorem Area.foldlM_option_add (opts : List (UInt8 × List UInt8)) (a : Area) :
    (opts.foldlM Area.dhcp_option_add a).map Area.written = opts.foldlM Dhcpd.dhcp_option_add a.written := by
  induction opts generalizing a with
  | nil => rfl
  | cons opt opts ih =>
    rw [List.foldlM_cons, List.foldlM_cons, ← Area.option_add]
    rcases a.dhcp_option_add opt with _ | a'
    · rfl
    · exact ih a'

theorem take_requested_params (o : ReqOptions) (opt : Opt) :
    (o.take opt).requested_params = if opt.code = DHCP_OPTION_PARAMETER_REQ_LIST then opt.data else o.requested_params := by
  unfold ReqOptions.take
  by_cases h : opt.code = DHCP_OPTION_PARAMETER_REQ_LIST
  · rw [if_pos h, h, if_neg (by decide), if_neg (by decide), if_neg (by decide), if_pos rfl]
  · rw [if_neg h, if_neg h]
    split_ifs <;> rfl

theorem requested_params_at_append (calls : List GetNext) (call : GetNext) :
    requested_params_at (calls ++ [call]) =
      if call.opt = DHCP_OPTION_PARAMETER_REQ_LIST then some call else requested_params_at calls := by
  unfold requested_params_at
  rw [List.filter_append, List.filter_cons]
  by_cases h : call.opt = DHCP_OPTION_PARAMETER_REQ_LIST
  · rw [if_pos h, if_pos (decide_eq_true h), List.filter_nil, List.getLast?_concat]
  · rw [if_neg h, if_neg (by simpa using h), List.filter_nil, List.append_nil]

/-- `requested_params` points to the list that was read last. -/
def ParamsRead (dhcp_msg : Received) (loop : OptionLoop) : Prop :=
  loop.o.requested_params = (requested_params_at loop.calls).elim default_params dhcp_msg.data

theorem ParamsRead.round (h : ParamsRead dhcp_msg loop)
    (hround : dhcp_msg.option_round loop = .inl loop' ∨ dhcp_msg.option_round loop = .inr loop') :
    ParamsRead dhcp_msg loop' := by
  have hnext : ParamsRead dhcp_msg ⟨(dhcp_msg.dhcp_option_get_next loop.opt_ptr).opt_ptr,
      loop.o.take ⟨(dhcp_msg.dhcp_option_get_next loop.opt_ptr).opt, dhcp_msg.data (dhcp_msg.dhcp_option_get_next loop.opt_ptr),
        (dhcp_msg.dhcp_option_get_next loop.opt_ptr).opt_ptr⟩,
      loop.calls ++ [dhcp_msg.dhcp_option_get_next loop.opt_ptr]⟩ := by
    unfold ParamsRead
    rw [take_requested_params, requested_params_at_append]
    split
    · rfl
    · exact h
  unfold Received.option_round at hround
  simp only at hround
  split at hround
  · rcases hround with hround | hround
    · obtain rfl := Sum.inl.inj hround
      exact hnext
    · cases hround
  · rcases hround with hround | hround
    · cases hround
    · obtain rfl := Sum.inr.inj hround
      exact hnext

theorem params_read (h : Loop.Ends dhcp_msg.option_round .start loop) : ParamsRead dhcp_msg loop := by
  obtain ⟨rounds, h⟩ := h
  have hstart : ParamsRead dhcp_msg .start := rfl
  exact Loop.run_post (fun _ _ hs hround => ParamsRead.round hs (.inl hround))
    (fun _ _ hs hround => ParamsRead.round hs (.inr hround)) hstart h

/-- The reply in the buffer is the one of the handler. -/
theorem reply_area_written (h : Loop.Ends dhcp_msg.option_round .start loop) :
    (dhcp_msg.reply_area cfg state loop.calls).map Area.written =
      options_written (ack_options cfg state loop.o.requested_params) := by
  rw [params_read h]
  exact Area.foldlM_option_add _ _

/-! ## The replies -/

/-- Every request that is received is answered. -/
theorem handle_answered {env : Env} (s : Server) {m : dhcp_message_t} (hm : m.options = dhcp_msg.area)
    (h : Loop.Ends dhcp_msg.option_round .start loop) : ∃ s' answer, dhcpd_handle_op_request cfg env s m = some (s', answer) ∧
      Answered cfg dhcp_msg (client_state cfg m loop.o).state loop (set_yiaddr cfg env s m loop.o).1 answer := by
  have ho : parse_options m.options = some loop.o := by
    rw [hm]
    exact option_loop_parse h
  simp only [dhcpd_handle_op_request, ho, Option.bind_eq_bind, Option.bind_some]
  split
  · rename_i hfree
    refine ⟨_, _, rfl, .silent (.inl ?_)⟩
    rintro ⟨hd, hr, -⟩
    exact hfree.elim hd hr
  · rename_i hfree
    split
    · rename_i hnone
      exact ⟨_, _, rfl, .silent (.inl fun hr => hr.2.2 hnone)⟩
    · rename_i hnone
      obtain ⟨hd, hr⟩ := not_or.1 hfree
      split
      · rename_i hy
        obtain ⟨options, hwritten⟩ := Option.isSome_iff_exists.1
          (ack_options_written cfg (client_state cfg m loop.o).state loop.o.requested_params)
        obtain ⟨opts, hdecode, hreply⟩ := ack_options_decode hwritten
        rw [hwritten]
        refine ⟨_, _, rfl, .ack ⟨hd, hr, hnone⟩ hy.1 hy.2 ?_ hdecode hreply⟩
        rw [reply_area_written h, hwritten]
        rfl
      · rename_i hy
        split
        · rename_i hbroadcast
          obtain ⟨options, hwritten⟩ := Option.isSome_iff_exists.1 (nak_options_written cfg)
          rw [hwritten]
          refine ⟨_, _, rfl, .nak ⟨hd, hr, hnone⟩ hbroadcast ?_ (nak_options_decode hwritten)⟩
          rw [Received.nak_area, Area.foldlM_option_add]
          exact hwritten
        · rename_i hbroadcast
          exact ⟨_, _, rfl, .silent (.inr (not_not.1 fun hany => hy ⟨hany, hbroadcast⟩))⟩

/-- Valid options that fit are written and read back; and every request is handled without a failed assertion and
answered, over its own options, with those that a reply is to have. -/
theorem options_round_trip (cfg : Config) (env : Env) :
    (∀ opts, (∀ opt ∈ opts, OptionValid opt) → optionsSize opts + 1 ≤ DHCP_OPTIONS_LENGTH →
      ∃ options, options_written (opts ++ [(DHCP_OPTION_END, [])]) = some options ∧ DecodesTo options opts) ∧
    ∀ s m (dhcp_msg : Received), m.options = dhcp_msg.area →
      ∃ loop s' answer, Loop.Ends dhcp_msg.option_round .start loop ∧
        dhcpd_handle_op_request cfg env s m = some (s', answer) ∧
        Answered cfg dhcp_msg (client_state cfg m loop.o).state loop (set_yiaddr cfg env s m loop.o).1 answer := by
  constructor
  · intro opts hvalid hfit
    obtain ⟨options, hwritten⟩ := options_written_valid hvalid hfit
    exact ⟨options, hwritten, options_written_decodes hvalid hwritten⟩
  · intro s m dhcp_msg hm
    obtain ⟨loop, hloop, -⟩ := option_loop_within dhcp_msg
    obtain ⟨s', answer, hh, hanswer⟩ := handle_answered s hm hloop
    exact ⟨loop, s', answer, hloop, hh, hanswer⟩

/-- A DISCOVER that asks for the router, the subnet mask and the router again. -/
def discover_options : List UInt8 := [53, 1, 1, 55, 3, 3, 1, 3, 255]

theorem discover_options_min : DHCP_REQUEST_MIN_OPTIONS ≤ 9 := by decide

theorem discover_options_max : 9 ≤ DHCP_OPTIONS_LENGTH := by decide

def discover_received : Received where
  options i := discover_options.getD i 0xAA
  options_length := 9
  min_le := discover_options_min
  le_max := discover_options_max

/-- An address and a list are written and read back, and the DISCOVER is offered an address with the mask and the router. -/
theorem options_round_trip_discover :
    (∃ options, options_written ([(DHCP_OPTION_REQUESTED_IP_ADDRESS, in_addr.octets 0xC0A80002),
        (DHCP_OPTION_PARAMETER_REQ_LIST, [3, 1, 3])] ++ [(DHCP_OPTION_END, [])]) = some options ∧
      DecodesTo options [(DHCP_OPTION_REQUESTED_IP_ADDRESS, in_addr.octets 0xC0A80002),
        (DHCP_OPTION_PARAMETER_REQ_LIST, [3, 1, 3])]) ∧
    ∃ s' msg opts, dhcpd_handle_op_request smallConfig stillEnv (stateAfter smallConfig stillEnv [])
        { client_message 0xA [] with options := discover_received.area } = some (s', some msg) ∧
      msg.yiaddr = 0xC0A80002 ∧ DecodesTo msg.options opts ∧ ReplyOptions smallConfig .DISCOVER [3, 1, 3] opts ∧
      (DHCP_OPTION_ROUTER, [192, 168, 0, 1]) ∈ opts ∧ ∀ opt ∈ opts, opt.1 ≠ DHCP_OPTION_DOMAIN_NAME_SERVER := by
  obtain ⟨hround, hrequest⟩ := options_round_trip smallConfig stillEnv
  refine ⟨hround _ (List.forall_mem_cons.2 ⟨option_valid (by decide) (by decide),
    List.forall_mem_singleton.2 (option_valid (by decide) (by decide))⟩) (by decide), ?_⟩
  obtain ⟨loop, s', answer, hloop, hh, hanswer⟩ := hrequest (stateAfter smallConfig stillEnv [])
    { client_message 0xA [] with options := discover_received.area } discover_received rfl
  have hparse : parse_options discover_received.area = some ⟨1, none, none, [3, 1, 3]⟩ := by decide +kernel
  have ho : loop.o = ⟨1, none, none, [3, 1, 3]⟩ := Option.some.inj ((option_loop_parse hloop).symm.trans hparse)
  have hyiaddr : (dhcpd_handle_op_request smallConfig stillEnv (stateAfter smallConfig stillEnv [])
      { client_message 0xA [] with options := discover_received.area }).map (fun r => r.2.map (·.yiaddr)) =
      some (some 0xC0A80002) := by decide +kernel
  rw [hh] at hyiaddr
  rw [ho] at hanswer
  cases hanswer with
  | silent => cases hyiaddr
  | nak _ hbroadcast => exact absurd hbroadcast (by decide +kernel)
  | @ack msg opts _ _ _ _ hdecode hreply =>
    rw [ho] at hreply
    refine ⟨s', msg, opts, hh, Option.some.inj (Option.some.inj hyiaddr), hdecode, hreply, ?_, fun opt hopt hdns => ?_⟩
    · exact (hreply.mem_iff _).2 ⟨by decide, by decide⟩
    · obtain ⟨-, hincluded⟩ := (hreply.mem_iff opt).1 hopt
      rw [hdns] at hincluded
      exact absurd hincluded (by decide)

end Dhcpd
