import XcoreSdk.I2c.Registers
/-!
# The bus after a register operation

A read of a register is a write of its address without a stop, and a read. The
helpers of `i2c_reg.h` send the stop themselves when the first half fails.
-/

namespace I2c
variable {m m' : Master}

/-- A register operation, through the RTOS driver or the helpers. -/
inductive RegOp
  | rtos_reg_read (device_addr reg_addr data : UInt8)
  | rtos_reg_write (device_addr reg_addr data : UInt8)
  | read_reg (device_addr reg : UInt8)
  | read_reg8_addr16 (device_addr : UInt8) (reg : UInt16)
  | read_reg16_addr8 (device_addr reg : UInt8)
  | read_reg16 (device_addr : UInt8) (reg : UInt16)
  | write_reg (device_addr reg data : UInt8)
  | write_reg8_addr16 (device_addr : UInt8) (reg : UInt16) (data : UInt8)
  | write_reg16_addr8 (device_addr reg : UInt8) (data : UInt16)
  | write_reg16 (device_addr : UInt8) (reg data : UInt16)

/-- The master after the operation. -/
def RegOp.run (m : Master) : RegOp → Master
  | .rtos_reg_read device_addr reg_addr data => (i2c_master_local_reg_read m device_addr reg_addr data).master
  | .rtos_reg_write device_addr reg_addr data => (i2c_master_local_reg_write m device_addr reg_addr data).2
  | .read_reg device_addr reg => (I2c.read_reg m device_addr reg).master
  | .read_reg8_addr16 device_addr reg => (I2c.read_reg8_addr16 m device_addr reg).master
  | .read_reg16_addr8 device_addr reg => (I2c.read_reg16_addr8 m device_addr reg).master
  | .read_reg16 device_addr reg => (I2c.read_reg16 m device_addr reg).master
  | .write_reg device_addr reg data => (I2c.write_reg m device_addr reg data).2
  | .write_reg8_addr16 device_addr reg data => (I2c.write_reg8_addr16 m device_addr reg data).2
  | .write_reg16_addr8 device_addr reg data => (I2c.write_reg16_addr8 m device_addr reg data).2
  | .write_reg16 device_addr reg data => (I2c.write_reg16 m device_addr reg data).2

/-- The operations of a sequence, each with the master as it finds it. -/
def calls : Master → List RegOp → List (RegOp × Master)
  | _, [] => []
  | m, op :: ops => (op, m) :: calls (op.run m) ops

/-- A stop has been sent. -/
structure Released (m : Master) : Prop where
  stopped : m.stopped = true
  wire : ∃ events, m.wire = events ++ [.stop]

/-- Every operation of the sequence releases the bus, and none but the first
can begin with a repeated start. -/
structure Releases (m : Master) (ops : List RegOp) : Prop where
  released : ∀ c ∈ calls m ops, Released (c.1.run c.2)
  starts : ∀ c ∈ (calls m ops).tail, ∃ events, (c.1.run c.2).wire = c.2.wire ++ .start :: events

/-- The device acknowledges its address and that of the register, when the RTOS driver reads one. -/
def Answered : RegOp × Master → Prop
  | (.rtos_reg_read _ _ _, m) => Acked m 1
  | _ => True

/-! ## One operation -/

/-- What the operation begins with, and its end. -/
structure Operated (m m' : Master) : Prop where
  released : Released m'
  wire : ∃ events, m'.wire = m.wire ++ (if m.stopped then .start else .repeated_start) :: events

theorem Finished.operated (h : Finished m m' true) : Operated m m' := by
  obtain ⟨events, hw⟩ := h.wire
  refine ⟨⟨h.stopped, _, hw⟩, events ++ [.stop], ?_⟩
  rw [hw, List.append_assoc]
  rfl

/-- A write without a stop, and a read. -/
theorem Finished.then {m'' : Master} (h : Finished m m' false) (h' : Finished m' m'' true) : Operated m m'' := by
  obtain ⟨events, hw⟩ := h.wire
  obtain ⟨events', hw'⟩ := h'.wire
  refine ⟨h'.operated.released, events ++ (if m'.stopped then .start else .repeated_start) :: events' ++ [.stop], ?_⟩
  rw [hw', hw]
  simp

theorem Finished.stop (h : Finished m m' false) : Operated m (i2c_master_stop_bit_send m') := by
  obtain ⟨events, hw⟩ := h.wire
  refine ⟨⟨rfl, m'.wire, rfl⟩, events ++ [.stop], ?_⟩
  simp [i2c_master_stop_bit_send, Master.stop_bit, hw]

theorem read_register_operated (m : Master) (device_addr : UInt8) (reg : List UInt8) (size n : Nat) :
    Operated m (read_register m device_addr reg size n).2.2 := by
  have hwrite := write_finished device_addr reg false m
  unfold read_register
  dsimp only
  split
  · exact hwrite.stop
  · exact hwrite.then (read_finished _ _ _ _ _)

theorem rtos_reg_read_acked {device_addr reg_addr : UInt8} (data : UInt8) (h : Acked m 1) :
    Operated m (i2c_master_local_reg_read m device_addr reg_addr data).master := by
  obtain ⟨hres, hnum, -⟩ := write_acked device_addr [reg_addr] false h
  unfold i2c_master_local_reg_read
  simp only [hres, hnum, List.length_singleton, Nat.one_ne_zero, if_false, if_true]
  exact (write_finished device_addr [reg_addr] false m).then (read_finished _ _ _ _ _)

/-- When the first half fails the function returns without a stop. -/
theorem rtos_reg_read_nacked {device_addr reg_addr : UInt8} (data : UInt8) (h : ¬ Acked m 1) :
    (i2c_master_local_reg_read m device_addr reg_addr data).master.stopped = false := by
  have hres : (i2c_master_write m device_addr [reg_addr] false).result = .nack := by
    rcases first_nack h with h0 | ⟨k, hk, hacked, hnack⟩
    · exact (write_address_nacked device_addr [reg_addr] false h0).1
    · exact (write_nacked device_addr [reg_addr] false hk hacked hnack).1
  unfold i2c_master_local_reg_read
  simp only [hres, reduceCtorEq, if_false]
  exact (write_finished device_addr [reg_addr] false m).stopped

theorem operated {c : RegOp × Master} (h : Answered c) : Operated c.2 (c.1.run c.2) := by
  obtain ⟨op, m⟩ := c
  cases op with
  | rtos_reg_read device_addr reg_addr data => exact rtos_reg_read_acked data h
  | rtos_reg_write device_addr reg_addr data => exact (write_finished device_addr [reg_addr, data] true m).operated
  | write_reg device_addr reg data => exact (write_finished device_addr [reg, data] true m).operated
  | write_reg8_addr16 device_addr reg data =>
    exact (write_finished device_addr (bytes16 reg ++ [data]) true m).operated
  | write_reg16_addr8 device_addr reg data => exact (write_finished device_addr (reg :: bytes16 data) true m).operated
  | write_reg16 device_addr reg data =>
    exact (write_finished device_addr (bytes16 reg ++ bytes16 data) true m).operated
  | read_reg | read_reg8_addr16 | read_reg16_addr8 | read_reg16 => exact read_register_operated m _ _ _ _

/-! ## A sequence of them -/

theorem calls_stopped {ops : List RegOp} (h : ∀ c ∈ calls m ops, Answered c) (h0 : m.stopped = true) :
    ∀ c ∈ calls m ops, c.2.stopped = true := by
  induction ops generalizing m with
  | nil => exact fun _ hc => by cases hc
  | cons op ops ih =>
    intro c hc
    rcases List.mem_cons.1 hc with rfl | hc
    · exact h0
    · have hop := operated (h (op, m) List.mem_cons_self)
      exact ih (fun c hc => h c (List.mem_cons_of_mem _ hc)) hop.released.stopped c hc

/-- For every sequence of operations, whatever the devices acknowledge. -/
theorem releases_iff (m : Master) (ops : List RegOp) : Releases m ops ↔ ∀ c ∈ calls m ops, Answered c := by
  constructor
  · rintro h ⟨op, m'⟩ hc
    cases op with
    | rtos_reg_read device_addr reg_addr data =>
      by_contra hnot
      have hstopped := (h.released _ hc).stopped
      rw [RegOp.run, rtos_reg_read_nacked data hnot] at hstopped
      cases hstopped
    | _ => trivial
  · intro h
    refine ⟨fun c hc => (operated (h c hc)).released, fun c hc => ?_⟩
    obtain ⟨events, hw⟩ := (operated (h c (List.mem_of_mem_tail hc))).wire
    cases ops with
    | nil => cases hc
    | cons op ops =>
      have hop := operated (h (op, m) List.mem_cons_self)
      have hstopped := calls_stopped (fun c hc => h c (List.mem_cons_of_mem _ hc)) hop.released.stopped c hc
      rw [hstopped, if_pos rfl] at hw
      exact ⟨events, hw⟩

/-- No device at the address, and then a write to another one. -/
theorem reg_read_no_device : ¬ Releases ⟨true, fun i => i = 0, []⟩ [.rtos_reg_read 0x18 0x2A 0, .write_reg 0x20 1 2] ∧
    (calls ⟨true, fun i => i = 0, []⟩ [.rtos_reg_read 0x18 0x2A 0, .write_reg 0x20 1 2]).tail.map
      (fun c => (c.1.run c.2).wire[c.2.wire.length]?) = [some .repeated_start] := by
  refine ⟨fun h => ?_, by decide +kernel⟩
  have hstopped := (h.released (.rtos_reg_read 0x18 0x2A 0, ⟨true, fun i => i = 0, []⟩) List.mem_cons_self).stopped
  revert hstopped
  decide +kernel

end I2c
