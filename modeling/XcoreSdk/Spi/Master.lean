import XcoreSdk.Spi.Slave
/-!
# The SPI master

`spi_master_transfer` moves two bytes at a time: each bit of them is put out
for two slots, so that they fill a word of the port. The ports move words with
their least significant bit first, and what comes in is a word behind what goes
out.
-/

namespace Spi
namespace Master
open Slave (Word Mem NULL uint8)

/-! ## Words -/

/-- The bits of two words in turns, as the upper and the lower word of the result. -/
def zip (d e : Word) : Word × Word :=
  (Bits.word 32 fun i => if i % 2 = 1 then d.getLsbD (16 + i / 2) else e.getLsbD (16 + i / 2),
    Bits.word 32 fun i => if i % 2 = 1 then d.getLsbD (i / 2) else e.getLsbD (i / 2))

/-- The odd bits of a double word and its even ones. -/
def unzip (d e : Word) : Word × Word :=
  (Bits.word 32 fun i => (d ++ e).getLsbD (2 * i + 1), Bits.word 32 fun i => (d ++ e).getLsbD (2 * i))

/-- A length as an `int`. -/
def int (len : Nat) : Int := (BitVec.ofNat 32 len).toInt

/-! ## Ports -/

inductive Port
  | cs | sclk | mosi | miso
deriving DecidableEq

/-- What is done to the ports and the clock, besides moving words. -/
inductive Op
  | sync (port : Port)
  | clear_trigger_time (port : Port)
  | set_trigger_time (port : Port) (time : Nat)
  | clock_start
  | clock_stop
  | out_cs (value : Nat)
  /-- So many ticks after the trigger time of the port. -/
  | out_cs_after (ticks value : Nat)
deriving DecidableEq

/-- `spi_master_device_t`, with what `spi_master_transfer` uses of its `spi_master_t`: whether the data ports are
there. -/
structure Dev where
  mosi_port : Bool
  miso_port : Bool
  clock_bits : Word
  clock_delay : Nat
  miso_initial_trigger_delay : Nat
  cs_assert_val : Nat
  clk_to_cs_delay_ticks : Nat

/-- What comes from outside. -/
structure Env where
  /-- MISO, slot by slot. -/
  miso : Nat → Bool
  /-- The other bits of an input that is shorter than a word, by what was taken before. -/
  stale : Nat → Word
  /-- `tmp` of `save_data_in` before it is set. -/
  tmp : Nat → Word

/-- The variables of a transfer, the memory, and what the transfer did. -/
structure Ctx where
  mem : Mem
  delay_before_transfer : Bool
  data_out : Nat
  data_in : Nat
  /-- The addresses that were read and written. -/
  read : List Nat
  written : List Nat
  ops : List Op
  /-- The slots that were put out. -/
  sclk : List Bool
  mosi : List Bool
  /-- The slots of MISO that were taken, and how many the next input takes. -/
  taken : Nat
  shift_count : Nat

def start_time : Nat := 1

def SPI_MASTER_MINIMUM_DELAY : Nat := 10

def op (ctx : Ctx) (o : Op) : Ctx := { ctx with ops := ctx.ops ++ [o] }

def outpw_sclk (ctx : Ctx) (word : Word) (n : Nat) : Ctx :=
  { ctx with sclk := ctx.sclk ++ Bits.window (fun i => word.getLsbD i) 0 n }

def outpw_mosi (ctx : Ctx) (word : Word) (n : Nat) : Ctx :=
  { ctx with mosi := ctx.mosi ++ Bits.window (fun i => word.getLsbD i) 0 n }

/-- The trigger time of the input, as the number of slots that it ends. -/
def set_trigger_time_miso (dev : Dev) (ctx : Ctx) (time : Nat) : Ctx :=
  { op ctx (.set_trigger_time .miso time) with
    shift_count := time - (start_time + dev.miso_initial_trigger_delay) + 2 }

/-- `n` slots are in the top `n` bits. -/
def port_in (env : Env) (ctx : Ctx) : Word × Ctx :=
  (Bits.word 32 fun i => if 32 - ctx.shift_count ≤ i then env.miso (ctx.taken + (i - (32 - ctx.shift_count)))
      else (env.stale ctx.taken).getLsbD i,
    { ctx with taken := ctx.taken + ctx.shift_count, shift_count := 32 })

/-! ## The transfer -/

def load_data_out (ctx : Ctx) (data_out : Nat) (len : Int) : Word × Ctx :=
  let tmp := (ctx.mem data_out).toBitVec.setWidth 32 <<< 8
  let tmp := if 1 < len then tmp ||| (ctx.mem (data_out + 1)).toBitVec.setWidth 32 else tmp
  ((zip tmp tmp).2.reverse,
    { ctx with read := ctx.read ++ if 1 < len then [data_out, data_out + 1] else [data_out] })

def save_data_in (env : Env) (ctx : Ctx) (data_in : Nat) (word_in : Word) (bytes : Nat) : Ctx :=
  let word_in := (unzip (env.tmp ctx.taken) word_in.reverse).2
  if bytes = 1 then
    { ctx with mem := Function.update ctx.mem data_in (uint8 word_in), written := ctx.written ++ [data_in] }
  else
    { ctx with
      mem := Function.update (Function.update ctx.mem (data_in + 1) (uint8 word_in)) data_in
        (uint8 ((word_in >>> 8) &&& 0xFF))
      written := ctx.written ++ [data_in + 1, data_in] }

/-- The output of a word, where there is output. -/
def output (do_output : Bool) (ctx : Ctx) (len : Int) (n : Nat) : Ctx :=
  if do_output then
    let (word, ctx) := load_data_out ctx ctx.data_out len
    outpw_mosi ctx word n
  else ctx

/-- The input of a word, where there is input. -/
def input (env : Env) (do_input : Bool) (ctx : Ctx) (bytes : Nat) : Ctx :=
  if do_input then
    let (word, ctx) := port_in env ctx
    save_data_in env ctx ctx.data_in word bytes
  else ctx

/-- What comes before the clock runs. -/
def first_word (dev : Dev) (do_output do_input : Bool) (ctx : Ctx) (len : Nat) : Ctx :=
  let ctx := if ctx.delay_before_transfer then { op ctx (.sync .cs) with delay_before_transfer := false }
    else op ctx (.clear_trigger_time .cs)
  let ctx := op ctx (.set_trigger_time .sclk (start_time + dev.clock_delay))
  let ctx := if do_output then op ctx (.set_trigger_time .mosi start_time) else ctx
  let tw := if len = 1 then 16 else 32
  let ctx := outpw_sclk ctx dev.clock_bits tw
  let ctx := output do_output ctx (int len) tw
  let ctx := if do_output then { ctx with data_out := ctx.data_out + 2 } else ctx
  let ctx := if do_input then
      set_trigger_time_miso dev ctx (start_time + (tw - 2) + dev.miso_initial_trigger_delay)
    else ctx
  op ctx .clock_start

/-- The loop over the words: it goes round `rounds` times. -/
def words (env : Env) (dev : Dev) (do_output do_input : Bool) : Nat → Ctx → Ctx
  | 0, ctx => ctx
  | rounds + 1, ctx =>
    let ctx := outpw_sclk ctx dev.clock_bits 32
    let ctx := output do_output ctx 2 32
    let ctx := input env do_input ctx 2
    words env dev do_output do_input rounds { ctx with data_out := ctx.data_out + 2, data_in := ctx.data_in + 2 }

/-- The last byte of an odd length goes out, and the word before it comes in. -/
def odd_byte (env : Env) (dev : Dev) (do_output do_input : Bool) (ctx : Ctx) : Ctx :=
  let ctx := outpw_sclk ctx dev.clock_bits 16
  let ctx := output do_output ctx 1 16
  if do_input then
    let (word, ctx) := port_in env ctx
    let ctx := { ctx with shift_count := 16 }
    let ctx := save_data_in env ctx ctx.data_in word 2
    { ctx with data_in := ctx.data_in + 2 }
  else ctx

/-- What comes after the last input. -/
def finish (dev : Dev) (ctx : Ctx) : Ctx :=
  let ctx := op (op ctx (.sync .sclk)) .clock_stop
  let ctx := op (op ctx (.out_cs dev.cs_assert_val)) (.sync .cs)
  if SPI_MASTER_MINIMUM_DELAY ≤ dev.clk_to_cs_delay_ticks then
    op ctx (.out_cs_after dev.clk_to_cs_delay_ticks dev.cs_assert_val)
  else ctx

/-- The body of `spi_master_transfer`, from its variables on. -/
def transfer (env : Env) (dev : Dev) (do_output do_input : Bool) (ctx : Ctx) (len : Nat) : Ctx :=
  let word_count := len / 2
  let remainder := len &&& (2 - 1)
  let ctx := first_word dev do_output do_input ctx len
  let ctx := if 0 < word_count then
      let ctx := words env dev do_output do_input (word_count - 1) ctx
      if 0 < remainder then odd_byte env dev do_output do_input ctx else ctx
    else ctx
  finish dev (input env do_input ctx remainder)

def spi_master_transfer (env : Env) (dev : Dev) (mem : Mem) (delay_before_transfer : Bool)
    (data_out data_in len : Nat) : Ctx :=
  let ctx : Ctx := ⟨mem, delay_before_transfer, data_out, data_in, [], [], [], [], [], 0, 32⟩
  let do_output := decide (data_out ≠ NULL) && dev.mosi_port
  let do_input := decide (data_in ≠ NULL) && dev.miso_port
  if len = 0 then ctx else transfer env dev do_output do_input ctx len

end Master
end Spi
