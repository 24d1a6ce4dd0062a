import XcoreSdk.Lib.Bits
import Mathlib.Logic.Function.Basic
/-!
# The SPI slave

The interrupt routine of the chip select starts and ends a transaction. In
between the main loop takes each word that has come in and puts the next one
out. The ports move words with their least significant bit first.
-/

namespace Spi
namespace Slave

abbrev Word := BitVec 32

/-- Bytes by their addresses. -/
abbrev Mem := Nat → UInt8

/-- `internal_ctx_t`, the memory, and what has been output to the MISO port. -/
structure Ctx where
  mem : Mem
  in_buf : Nat
  in_buf_cur : Nat
  in_buf_end : Nat
  out_buf : Nat
  out_buf_cur : Nat
  out_buf_end : Nat
  running : Bool
  /-- Whether the ports are there. -/
  p_miso : Bool
  p_mosi : Bool
  cpha : Bool
  miso : List Bool

def NULL : Nat := 0

/-- `(uint8_t) x` -/
def uint8 (x : Word) : UInt8 := UInt8.ofNat x.toNat

def mkmsk (n : Nat) : Word := BitVec.ofNat 32 (2 ^ n - 1)

/-- Those of the four bytes for which `diff` leaves room. -/
def store (mem : Mem) (cur diff : Nat) (b0 b1 b2 b3 : UInt8) : Mem :=
  let mem := if 1 ≤ diff then Function.update mem (cur + 0) b0 else mem
  let mem := if 2 ≤ diff then Function.update mem (cur + 1) b1 else mem
  let mem := if 3 ≤ diff then Function.update mem (cur + 2) b2 else mem
  if 4 ≤ diff then Function.update mem (cur + 3) b3 else mem

/-- The four bytes that `receive_part_word` makes of the valid bits. -/
def part_bytes (in_word : Word) (valid_bits : Nat) : UInt8 × UInt8 × UInt8 × UInt8 :=
  if valid_bits ≤ 8 then (uint8 (in_word &&& 0xff), 0, 0, 0)
  else if valid_bits ≤ 16 then
    (uint8 ((in_word >>> (valid_bits - 8)) &&& 0xff), uint8 (in_word &&& mkmsk (valid_bits - 8)), 0, 0)
  else if valid_bits ≤ 24 then
    (uint8 ((in_word >>> (valid_bits - 8)) &&& 0xff), uint8 ((in_word >>> (valid_bits - 16)) &&& 0xff),
      uint8 (in_word &&& mkmsk (valid_bits - 16)), 0)
  else
    (uint8 ((in_word >>> (valid_bits - 8)) &&& 0xff), uint8 ((in_word >>> (valid_bits - 16)) &&& 0xff),
      uint8 ((in_word >>> (valid_bits - 24)) &&& 0xff), uint8 (in_word &&& mkmsk (valid_bits - 24)))

/-- The context and `valid_bits` after it. -/
def receive_part_word (ctx : Ctx) (in_word : Word) (valid_bits : Nat) : Ctx × Nat :=
  let diff := ctx.in_buf_end - ctx.in_buf_cur
  if 0 < valid_bits then
    let (b0, b1, b2, b3) := part_bytes (in_word.reverse &&& mkmsk valid_bits) valid_bits
    let mem := store ctx.mem ctx.in_buf_cur diff b0 b1 b2 b3
    let valid_bytes := valid_bits >>> 3
    if valid_bytes < diff then
      ({ ctx with mem, in_buf_cur := ctx.in_buf_cur + valid_bytes }, valid_bits % 8)
    else ({ ctx with mem, in_buf_cur := ctx.in_buf_cur + diff }, 0)
  else (ctx, valid_bits)

def receive_word (ctx : Ctx) (in_word : Word) : Ctx :=
  let diff := ctx.in_buf_end - ctx.in_buf_cur
  let in_word := in_word.reverse
  { ctx with
    mem := store ctx.mem ctx.in_buf_cur diff (uint8 ((in_word >>> 24) &&& 0xff)) (uint8 ((in_word >>> 16) &&& 0xff))
      (uint8 ((in_word >>> 8) &&& 0xff)) (uint8 ((in_word >>> 0) &&& 0xff))
    in_buf_cur := ctx.in_buf_cur + if 4 < diff then 4 else diff }

/-- What a byte of the output buffer contributes to a word. -/
def out_byte (ctx : Ctx) (i shift : Nat) : Word :=
  if i < ctx.out_buf_end - ctx.out_buf_cur then
    ((ctx.mem (ctx.out_buf_cur + i)).toBitVec.setWidth 32 <<< shift).reverse
  else 0

/-- The word, and the context after it. -/
def get_next_word (ctx : Ctx) : Word × Ctx :=
  let diff := ctx.out_buf_end - ctx.out_buf_cur
  (out_byte ctx 3 0 ||| out_byte ctx 2 8 ||| out_byte ctx 1 16 ||| out_byte ctx 0 24,
    { ctx with out_buf_cur := ctx.out_buf_cur + if 4 < diff then 4 else diff })

/-- The bits of a word that goes out. -/
def spi_io_port_outpw (ctx : Ctx) (out_word : Word) (n : Nat) : Ctx :=
  { ctx with miso := ctx.miso ++ Bits.window (fun i => out_word.getLsbD i) 0 n }

def port_out (ctx : Ctx) (out_word : Word) : Ctx := spi_io_port_outpw ctx out_word 32

/-- The buffers of a transaction, as the application gives them. -/
structure Buffers where
  out_buf : Nat
  out_buf_len : Nat
  in_buf : Nat
  in_buf_len : Nat

/-- `cs_isr` when the chip select is asserted. -/
def cs_asserted (ctx : Ctx) (buffers : Buffers) : Ctx :=
  let ctx := { ctx with out_buf := buffers.out_buf, in_buf := buffers.in_buf }
  let ctx := if ctx.p_miso then
      { ctx with
        out_buf_cur := ctx.out_buf
        out_buf_end := if ctx.out_buf = NULL then NULL else ctx.out_buf + buffers.out_buf_len }
    else { ctx with out_buf_cur := NULL, out_buf_end := NULL }
  let ctx := if ctx.p_mosi then
      { ctx with
        in_buf_cur := ctx.in_buf
        in_buf_end := if ctx.in_buf = NULL then NULL else ctx.in_buf + buffers.in_buf_len }
    else { ctx with in_buf_cur := NULL, in_buf_end := NULL }
  let ctx := { ctx with running := true, miso := [] }
  if ctx.p_miso then
    let (out_word, ctx) := get_next_word ctx
    let ctx := if ctx.cpha then port_out ctx out_word
      else spi_io_port_outpw (spi_io_port_outpw ctx out_word 1) (out_word >>> 1) 31
    let (out_word, ctx) := get_next_word ctx
    port_out ctx out_word
  else ctx

/-- A round of the loop of `spi_slave` with a word that has come in. -/
def main_loop (ctx : Ctx) (in_word : Word) : Ctx :=
  if ctx.running then
    let ctx := receive_word ctx in_word
    let (out_word, ctx) := get_next_word ctx
    if ctx.p_miso then port_out ctx out_word else ctx
  else ctx

/-- The arguments of `slave_transaction_ended`. -/
structure Ended where
  bytes_written : Nat
  bytes_read : Nat
  read_bits : Nat
deriving DecidableEq

/-- `cs_isr` when the chip select is released; `data` and `bits` are from `port_force_input`. -/
def cs_released (ctx : Ctx) (data : Word) (bits : Nat) : Ended × Ctx :=
  let (ctx, read_bits, bytes_read) :=
    if ctx.p_mosi then
      let (ctx, read_bits) := receive_part_word ctx data bits
      (ctx, read_bits, ctx.in_buf_cur - ctx.in_buf)
    else (ctx, 0, 0)
  let bytes_written := if ctx.p_miso then ctx.out_buf_cur - ctx.out_buf else 0
  (⟨bytes_written, bytes_read, read_bits⟩, { ctx with running := false })

/-- A transaction in which the main loop gets these words. -/
def transaction (ctx : Ctx) (buffers : Buffers) (words : List Word) (data : Word) (bits : Nat) : Ended × Ctx :=
  cs_released (words.foldl main_loop (cs_asserted ctx buffers)) data bits

end Slave
end Spi
