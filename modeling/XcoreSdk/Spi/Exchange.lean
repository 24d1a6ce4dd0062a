import XcoreSdk.Spi.MasterTransfer
import XcoreSdk.Spi.SlaveTransmit
/-!
# The SPI master and the SPI slave on one bus

A transaction is one or more transfers of the master and one run of the slave.
The slave gets the bits on MOSI as words, whatever transfer they are from, and its
bits are on MISO while the master's clock goes through the slots of theirs.
-/

namespace Spi
namespace Exchange
open Bits (toBits ofBits window)
open Slave (Word Mem NULL byte_of out_bit)
open Master (Env Dev byte_slots slots sampled received)

/-- A transfer of at least one byte, with something to send. -/
structure Transfer extends Master.Buffers where
  delay_before_transfer : Bool
  output : data_out ≠ NULL
  pos : 0 < len

/-- The master's transfers one after the other: the slots on MOSI, and the memory. The environment of each is given by the
bytes that were moved before. -/
def run (env : Nat → Env) (dev : Dev) : Nat → Mem → List Transfer → List Bool × Mem
  | _, mem, [] => ([], mem)
  | k, mem, t :: ts =>
    let ctx := Master.spi_master_transfer (env k) dev mem t.delay_before_transfer t.data_out t.data_in t.len
    let (mosi, mem) := run env dev (k + t.len) ctx.mem ts
    (ctx.mosi ++ mosi, mem)

/-- The bytes in which the master sends and receives, where the slave sends `reply`. -/
def exchange (reply : Nat → UInt8) : Nat → Mem → List Transfer → List UInt8 × Mem
  | _, mem, [] => ([], mem)
  | k, mem, t :: ts =>
    let mem' := fun a => if t.data_in ≠ NULL ∧ t.data_in ≤ a ∧ a < t.data_in + t.len then reply (k + (a - t.data_in)) else mem a
    let (sent, mem'') := exchange reply (k + t.len) mem' ts
    ((List.range t.len).map (fun i => mem (t.data_out + i)) ++ sent, mem'')

/-- The output buffer of the slave, and zeros. -/
def out_bytes (mem : Mem) (buffers : Slave.Buffers) (j : Nat) : UInt8 :=
  if j < buffers.out_len then mem (buffers.out_buf + j) else 0

/-- Each bit that is sent takes two slots, and is sampled in either. -/
structure Wired (env : Nat → Env) (mosi miso : List Bool) (words : List Word) (data : Word) : Prop where
  received : Slave.Received (fun i => mosi.getD (2 * i) false) (mosi.length / 2) words data
  sampled : ∀ k i, 8 * k + i < mosi.length / 2 → (env k).miso (2 * i + 1) = miso.getD (8 * k + i) false

/-! ## Bytes and bits -/

theorem byte_slots_getD (b : UInt8) {i : Nat} (hi : i < 8) : (byte_slots b).getD (2 * i) false = b.toBitVec.getLsbD (7 - i) := by
  rw [Master.byte_slots_window, List.getD_eq_getElem?_getD]
  unfold window
  rw [List.getElem?_map, List.getElem?_range (by omega)]
  simp

/-- The bits on MOSI are those of the bytes. -/
theorem slots_bit (bytes : List UInt8) {j i : Nat} (hi : i < 8) :
    (bytes.flatMap byte_slots).getD (2 * (8 * j + i)) false = (bytes.getD j 0).toBitVec.getLsbD (7 - i) := by
  induction bytes generalizing j with
  | nil => simp
  | cons b bytes ih =>
    rw [List.flatMap_cons, List.getD_eq_getElem?_getD, List.getD_eq_getElem?_getD]
    cases j with
    | zero =>
      rw [List.getElem?_append_left (by rw [Master.length_byte_slots]; omega), Nat.mul_zero, Nat.zero_add,
        ← List.getD_eq_getElem?_getD, byte_slots_getD b hi]
      rfl
    | succ j =>
      rw [List.getElem?_append_right (by rw [Master.length_byte_slots]; omega), Master.length_byte_slots,
        show 2 * (8 * (j + 1) + i) - 16 = 2 * (8 * j + i) by omega, ← List.getD_eq_getElem?_getD, ih,
        List.getElem?_cons_succ, List.getD_eq_getElem?_getD]

theorem byte_of_bits (b : UInt8) : byte_of ((List.range 8).map fun i => b.toBitVec.getLsbD (7 - i)) = b := by
  have hbits : (List.range 8).map (fun i => b.toBitVec.getLsbD (7 - i)) = toBits 8 b.toNat := rfl
  apply UInt8.toNat_inj.1
  unfold byte_of
  rw [hbits, Bits.ofBits_toBits, UInt8.toNat_ofNat', Nat.mod_mod, Nat.mod_eq_of_lt b.toNat_lt]

theorem nth_of_slots (bytes : List UInt8) (j : Nat) :
    byte_of (window (fun i => (bytes.flatMap byte_slots).getD (2 * i) false) (8 * j) 8) = bytes.getD j 0 := by
  unfold window
  rw [List.map_congr_left fun i hi => slots_bit bytes (List.mem_range.1 hi)]
  exact byte_of_bits _

theorem out_bit_eq (mem : Mem) (buffers : Slave.Buffers) {j i : Nat} (hi : i < 8) :
    out_bit mem buffers.out_buf buffers.out_len (8 * j + i) = (out_bytes mem buffers j).toBitVec.getLsbD (7 - i) := by
  unfold out_bit out_bytes
  rw [show (8 * j + i) / 8 = j by omega, show (8 * j + i) % 8 = i by omega]
  split_ifs
  · rfl
  · exact (BitVec.getLsbD_zero).symm

/-! ## The master -/

section Master
variable {env : Nat → Env} {dev : Dev} {mem : Mem}

theorem transferred (hmosi : dev.mosi_port = true) (hmiso : dev.miso_port = true) (env : Env) (mem : Mem) (t : Transfer) :
    let ctx := Master.spi_master_transfer env dev mem t.delay_before_transfer t.data_out t.data_in t.len
    ctx.mosi = slots mem t.data_out t.len ∧
      ctx.mem = if t.data_in ≠ NULL then received env.miso mem t.data_in t.len else mem := by
  intro ctx
  have hout : (decide (t.data_out ≠ NULL) && dev.mosi_port) = true := by rw [hmosi, decide_eq_true t.output]; rfl
  have hin : (decide (t.data_in ≠ NULL) && dev.miso_port) = decide (t.data_in ≠ NULL) := by rw [hmiso, Bool.and_true]
  have hstart : Master.Moved env.miso mem true (decide (t.data_in ≠ NULL)) t.data_out t.data_in 0 0 0
      ⟨mem, t.delay_before_transfer, t.data_out, t.data_in, [], [], [], [], [], 0, 32⟩ :=
    ⟨rfl, rfl, rfl, (ite_self 0).symm, List.Perm.of_eq (ite_self []).symm, by rw [Master.received_zero, ite_self]⟩
  have hm := Master.transfer_moved dev hstart t.pos (fun _ => t.len_lt t.output)
    (fun _ h => t.apart t.output (of_decide_eq_true h)) rfl rfl
  have hctx : ctx = Master.transfer env dev true (decide (t.data_in ≠ NULL))
      ⟨mem, t.delay_before_transfer, t.data_out, t.data_in, [], [], [], [], [], 0, 32⟩ t.len := by
    unfold ctx Master.spi_master_transfer
    dsimp only
    rw [if_neg (Nat.ne_of_gt t.pos), hout, hin]
  rw [hctx]
  refine ⟨hm.mosi, ?_⟩
  rw [hm.mem]
  simp only [decide_eq_true_eq]

/-- The number of bytes in a transaction. -/
def total (ts : List Transfer) : Nat := (ts.map (·.len)).sum

theorem length_exchange (reply : Nat → UInt8) (k : Nat) (mem : Mem) (ts : List Transfer) :
    (exchange reply k mem ts).1.length = total ts := by
  induction ts generalizing k mem with
  | nil => rfl
  | cons t ts ih =>
    rw [exchange, List.length_append, List.length_map, List.length_range, ih]
    rfl

/-- The master's transfers, when each byte that it samples is the reply's. -/
theorem run_eq_exchange (hmosi : dev.mosi_port = true) (hmiso : dev.miso_port = true) {reply : Nat → UInt8} {n : Nat}
    (hreply : ∀ k j, k + j < n → sampled (env k).miso (16 * j) = reply (k + j)) (k : Nat) (mem : Mem) (ts : List Transfer)
    (hn : k + total ts ≤ n) : run env dev k mem ts =
      ((exchange reply k mem ts).1.flatMap byte_slots, (exchange reply k mem ts).2) := by
  induction ts generalizing k mem with
  | nil => rfl
  | cons t ts ih =>
    obtain ⟨hout, hin⟩ := transferred hmosi hmiso (env k) mem t
    have htotal : total (t :: ts) = t.len + total ts := rfl
    have hmem : (if t.data_in ≠ NULL then received (env k).miso mem t.data_in t.len else mem) = fun a =>
        if t.data_in ≠ NULL ∧ t.data_in ≤ a ∧ a < t.data_in + t.len then reply (k + (a - t.data_in)) else mem a := by
      funext a
      by_cases hnull : t.data_in = NULL
      · simp [hnull]
      · rw [if_pos hnull]
        unfold received
        by_cases ha : t.data_in ≤ a ∧ a < t.data_in + t.len
        · rw [if_pos ha, if_pos ⟨hnull, ha⟩, hreply k _ (by omega)]
        · rw [if_neg ha, if_neg (fun h => ha h.2)]
    rw [run, exchange]
    dsimp only
    rw [hin, hmem, ih (k + t.len) _ (by omega), hout]
    simp [slots, List.flatMap_map]

end Master

/-! ## Both -/

section Both
variable {env : Nat → Env} {dev : Dev} {mem : Mem} {ts : List Transfer} {ctx : Slave.Ctx} {buffers : Slave.Buffers}
  {words : List Word} {data : Word}

theorem length_run (hmosi : dev.mosi_port = true) (hmiso : dev.miso_port = true) (env : Nat → Env) (k : Nat) (mem : Mem)
    (ts : List Transfer) : (run env dev k mem ts).1.length = 16 * total ts := by
  induction ts generalizing k mem with
  | nil => rfl
  | cons t ts ih =>
    obtain ⟨hout, -⟩ := transferred hmosi hmiso (env k) mem t
    rw [run]
    dsimp only
    rw [List.length_append, ih, hout, Master.length_slots, show total (t :: ts) = t.len + total ts from rfl, Nat.mul_add]

/-- What the master samples is the slave's output buffer. -/
theorem sampled_reply (hport : ctx.p_miso = true)
    (happ : buffers.in_buf ≤ buffers.out_buf ∨ buffers.out_buf + buffers.out_buf_len ≤ buffers.in_buf) {mosi : List Bool}
    {bits : Nat} (h : Wired env mosi (Slave.transaction ctx buffers words data bits).2.miso words data) {k j : Nat}
    (hj : 8 * (k + j + 1) ≤ mosi.length / 2) :
    sampled (env k).miso (16 * j) = out_bytes ctx.mem buffers (k + j) := by
  have hmiso := Slave.miso_bits ctx buffers words data bits hport happ (b := mosi.length / 2)
    (by rw [h.received.count]; exact Nat.le_succ _)
  have hbit : ∀ i < 8, (env k).miso (16 * j + (2 * i + 1)) = (out_bytes ctx.mem buffers (k + j)).toBitVec.getLsbD (7 - i) := by
    intro i hi
    have hlt : 8 * (k + j) + i < mosi.length / 2 := by omega
    have hat := congrArg (fun l : List Bool => l[8 * (k + j) + i]?) hmiso
    unfold window at hat
    rw [List.getElem?_take_of_lt hlt, List.getElem?_map, List.getElem?_range hlt, Option.map_some, Nat.zero_add, out_bit_eq _ _ hi] at hat
    rw [show 16 * j + (2 * i + 1) = 2 * (8 * j + i) + 1 by omega, h.sampled k (8 * j + i) (by omega),
      show 8 * k + (8 * j + i) = 8 * (k + j) + i by omega, List.getD_eq_getElem?_getD, hat]
    rfl
  unfold sampled
  rw [List.map_congr_left fun i hi => hbit i (List.mem_range.1 hi)]
  exact byte_of_bits _

/-- The words that a port makes of the bits. -/
theorem received_exists (mosi : Nat → Bool) (b : Nat) : ∃ words data, Slave.Received mosi b words data := by
  refine ⟨(List.range (b / 32)).map fun q => Bits.word 32 fun i => mosi (32 * q + i),
    Bits.word 32 fun i => mosi (32 * (b / 32) + (i - (32 - b % 32))), by simp, ?_, ?_⟩
  · intro q w hw i hi
    have hq : q < b / 32 := by
      have := (List.getElem?_eq_some_iff.1 hw).1
      rwa [List.length_map, List.length_range] at this
    rw [List.getElem?_map, List.getElem?_range hq] at hw
    obtain rfl := Option.some.inj hw
    rw [Bits.getLsbD_word, decide_eq_true hi, Bool.true_and]
  · intro i hi
    rw [Bits.getLsbD_word, decide_eq_true (by omega), Bool.true_and, Nat.add_sub_cancel_left]

theorem wired_exists (dev : Dev) (mem : Mem) (ts : List Transfer) (ctx : Slave.Ctx) (buffers : Slave.Buffers)
    (hport : ctx.p_miso = true)
    (happ : buffers.in_buf ≤ buffers.out_buf ∨ buffers.out_buf + buffers.out_buf_len ≤ buffers.in_buf) :
    ∃ env words data, Wired env (run env dev 0 mem ts).1 (Slave.transaction ctx buffers words data
      ((run env dev 0 mem ts).1.length / 2 % 32)).2.miso words data := by
  let env : Nat → Env := fun k =>
    ⟨fun s => out_bit ctx.mem buffers.out_buf buffers.out_len (8 * k + s / 2), fun _ => 0, fun _ => 0⟩
  obtain ⟨words, data, hreceived⟩ :=
    received_exists (fun i => (run env dev 0 mem ts).1.getD (2 * i) false) ((run env dev 0 mem ts).1.length / 2)
  refine ⟨env, words, data, hreceived, fun k i hi => ?_⟩
  have hmiso := Slave.miso_bits ctx buffers words data ((run env dev 0 mem ts).1.length / 2 % 32) hport happ
    (b := (run env dev 0 mem ts).1.length / 2) (by rw [hreceived.count]; exact Nat.le_succ _)
  have hat := congrArg (fun l : List Bool => l[8 * k + i]?) hmiso
  unfold window at hat
  rw [List.getElem?_take_of_lt hi, List.getElem?_map, List.getElem?_range hi, Option.map_some, Nat.zero_add] at hat
  rw [List.getD_eq_getElem?_getD, hat]
  show out_bit _ _ _ (8 * k + (2 * i + 1) / 2) = _
  rw [show (2 * i + 1) / 2 = i by omega]
  rfl

/-- What the slave has got: the full bytes in its buffer, and nothing else. -/
structure Got (sent : List UInt8) (mem : Mem) (buffers : Slave.Buffers) (ended : Slave.Ended) (mem' : Mem) : Prop where
  bytes_read : ended.bytes_read = min (if buffers.in_buf = NULL then 0 else buffers.in_buf_len) sent.length
  read_bits : ended.read_bits = 0
  bytes : ∀ j < ended.bytes_read, mem' (buffers.in_buf + j) = sent.getD j 0
  outside : ∀ a, a < buffers.in_buf ∨ buffers.in_buf + buffers.in_buf_len ≤ a → mem' a = mem a

theorem got_of_run (hmosi : dev.mosi_port = true) (hmiso : dev.miso_port = true) (hin : ctx.p_mosi = true)
    (hout : ctx.p_miso = true)
    (happ : buffers.in_buf ≤ buffers.out_buf ∨ buffers.out_buf + buffers.out_buf_len ≤ buffers.in_buf)
    (h : Wired env (run env dev 0 mem ts).1 (Slave.transaction ctx buffers words data
      ((run env dev 0 mem ts).1.length / 2 % 32)).2.miso words data) :
    (run env dev 0 mem ts).2 = (exchange (out_bytes ctx.mem buffers) 0 mem ts).2 ∧
      Got (exchange (out_bytes ctx.mem buffers) 0 mem ts).1 ctx.mem buffers
        (Slave.transaction ctx buffers words data ((run env dev 0 mem ts).1.length / 2 % 32)).1
        (Slave.transaction ctx buffers words data ((run env dev 0 mem ts).1.length / 2 % 32)).2.mem := by
  have hlen := length_run hmosi hmiso env 0 mem ts
  have hrun := run_eq_exchange (n := total ts) hmosi hmiso (fun k j hj => sampled_reply hout happ h (by rw [hlen]; omega)) 0 mem ts
    (by rw [Nat.zero_add])
  have hbits : (run env dev 0 mem ts).1.length / 2 = 8 * total ts := by rw [hlen]; omega
  have hsent := length_exchange (out_bytes ctx.mem buffers) 0 mem ts
  have hf : Slave.Filling (fun i => (run env dev 0 mem ts).1.getD (2 * i) false) _ _ _ (0 + words.length) _ :=
    Slave.filling_words (Slave.filling_start buffers hin) fun k w hk => by
      rw [Nat.zero_add]
      exact h.received.full k w hk
  rw [Nat.zero_add, h.received.count] at hf
  have hp := Slave.released_packed hf h.received.rest
  refine ⟨congrArg Prod.snd hrun, ?_, ?_, ?_, ?_⟩
  · rw [show (Slave.transaction ctx buffers words data _).1.bytes_read = _ from hp.bytes_read, hbits, hsent]
    congr 1
    omega
  · rw [show (Slave.transaction ctx buffers words data _).1.read_bits = _ from hp.read_bits, hbits]
    simp
  · intro j hj
    rw [show (Slave.transaction ctx buffers words data _).1.bytes_read = _ from hp.bytes_read] at hj
    refine (hp.bytes j hj).trans ?_
    rw [show (run env dev 0 mem ts).1 = _ from congrArg Prod.fst hrun]
    exact nth_of_slots _ j
  · intro a ha
    refine hp.outside a (ha.imp_right fun ha => ?_)
    split_ifs <;> omega

/-- A transaction of any transfers: the master gets the slave's output buffer, its transfers one after the other, and the
slave gets what the master sent, as far as it has room. Whatever a transfer sends is what the memory has when it begins. -/
theorem exchanged (dev : Dev) (mem : Mem) (ts : List Transfer) (ctx : Slave.Ctx) (buffers : Slave.Buffers)
    (hmosi : dev.mosi_port = true) (hmiso : dev.miso_port = true) (hin : ctx.p_mosi = true) (hout : ctx.p_miso = true)
    (happ : buffers.in_buf ≤ buffers.out_buf ∨ buffers.out_buf + buffers.out_buf_len ≤ buffers.in_buf) :
    (∃ env words data, Wired env (run env dev 0 mem ts).1 (Slave.transaction ctx buffers words data
      ((run env dev 0 mem ts).1.length / 2 % 32)).2.miso words data) ∧
    ∀ env words data, Wired env (run env dev 0 mem ts).1 (Slave.transaction ctx buffers words data
      ((run env dev 0 mem ts).1.length / 2 % 32)).2.miso words data →
        (run env dev 0 mem ts).2 = (exchange (out_bytes ctx.mem buffers) 0 mem ts).2 ∧
          Got (exchange (out_bytes ctx.mem buffers) 0 mem ts).1 ctx.mem buffers
            (Slave.transaction ctx buffers words data ((run env dev 0 mem ts).1.length / 2 % 32)).1
            (Slave.transaction ctx buffers words data ((run env dev 0 mem ts).1.length / 2 % 32)).2.mem :=
  ⟨wired_exists dev mem ts ctx buffers hout happ, fun _ _ _ h => got_of_run hmosi hmiso hin hout happ h⟩

/-- A command of one byte, for which nothing is received, and two bytes in reply. -/
def command : List Transfer :=
  [⟨⟨16, NULL, 1, fun _ => by decide, fun _ h => absurd rfl h⟩, false, by decide, by decide⟩,
    ⟨⟨32, 48, 2, fun _ => by decide, fun _ _ => .inr (by decide)⟩, false, by decide, by decide⟩]

def four_wires : Dev := ⟨true, true, 0xAAAAAAAA, 0, 3, 1, 0⟩

/-- The slave has the address in each of its bytes, and 100 more. -/
def ready : Slave.Ctx := ⟨fun a => UInt8.ofNat (a + 100), 0, 0, 0, 0, 0, 0, false, true, true, false, []⟩

def three_bytes : Slave.Buffers where
  out_buf := 32
  out_buf_len := 3
  in_buf := 16
  in_buf_len := 3

/-- The master gets the second and the third byte, and the slave gets all that the master sends. -/
theorem exchanged_command : ∃ env words data,
    let master := run env four_wires 0 UInt8.ofNat command
    let slave := Slave.transaction ready three_bytes words data (master.1.length / 2 % 32)
    Wired env master.1 slave.2.miso words data ∧ master.2 48 = 133 ∧ master.2 49 = 134 ∧
      slave.1.bytes_read = 3 ∧ slave.2.mem 16 = 16 ∧ slave.2.mem 17 = 32 ∧ slave.2.mem 18 = 33 := by
  obtain ⟨⟨env, words, data, hwired⟩, hall⟩ :=
    exchanged four_wires UInt8.ofNat command ready three_bytes rfl rfl rfl rfl (.inl (by decide))
  obtain ⟨hmem, hread, -, hbytes, -⟩ := hall env words data hwired
  have hsent : (exchange (out_bytes ready.mem three_bytes) 0 UInt8.ofNat command).1 = [16, 32, 33] := by decide
  rw [hsent] at hread hbytes
  refine ⟨env, words, data, ?_⟩
  intro master slave
  have hcount : slave.1.bytes_read = 3 := hread
  refine ⟨hwired, ?_, ?_, hcount, ?_, ?_, ?_⟩
  · exact (congrFun hmem 48).trans (by decide)
  · exact (congrFun hmem 49).trans (by decide)
  · exact hbytes 0 (hcount ▸ (by decide : 0 < 3))
  · exact hbytes 1 (hcount ▸ (by decide : 1 < 3))
  · exact hbytes 2 (hcount ▸ (by decide : 2 < 3))

end Both

end Exchange
end Spi
