import XcoreSdk.RtosSupport.Printf
/-!
# The trace formatter

`traceFreeRTOS_to_xscope` puts a text into a buffer on its stack and hands it to
xscope. The buffer is what lies from its first byte on, with the places that
were written to; nothing stops a write behind its end. A format that is read
behind its terminating NUL is a failure.
-/

namespace Trace
open Printf (Args CString tolower)

structure Buf where
  mem : Nat → UInt8
  written : List Nat

def Buf.set (b : Buf) (i : Nat) (c : UInt8) : Buf := ⟨Function.update b.mem i c, b.written ++ [i]⟩

/-- From `buf[begin]` and `buf[end]` inwards. -/
def reverse_array (p : Nat) (b : Buf) (first last : Nat) : Buf :=
  if first < last then
    reverse_array p ((b.set (p + first) (b.mem (p + last))).set (p + last) (b.mem (p + first))) (first + 1) (last - 1)
  else b
termination_by last - first

def digits : String := "0123456789ABCDEF"

/-- The `while` loop of `itoa`. -/
def itoa_digits (base : Nat) (hbase : 1 < base) (p n i : Nat) (fill : Int) (b : Buf) : Nat × Int × Buf :=
  if _ : 0 < n then
    itoa_digits base hbase p (n / base) (i + 1) (fill - 1) (b.set (p + i) (digits.toList.getD (n % base) '0').toUInt8)
  else (i, fill, b)
termination_by n
decreasing_by exact Nat.div_lt_self ‹0 < n› hbase

/-- The `for` loop of `itoa`. -/
def itoa_fill (p : Nat) : Nat → Nat → Buf → Nat × Buf
  | 0, i, b => (i, b)
  | fill + 1, i, b => itoa_fill p fill (i + 1) (b.set (p + i) '0'.toUInt8)

def itoa (n : UInt32) (p base : Nat) (hbase : 1 < base) (fill : Int) (b : Buf) : Nat × Buf :=
  let fill := if n = 0 then fill + 1 else fill
  let (i, fill, b) := itoa_digits base hbase p n.toNat 0 fill b
  let (i, b) := itoa_fill p fill.toNat i b
  (i, reverse_array p b 0 (i - 1))

def MAX_XSCOPE_INT_STRING_SIZE : Nat := 10

structure Ctx where
  fmt : List UInt8
  ap : Nat
  /-- `p - buf` -/
  p : Nat
  buf : Buf

/-- `end - buf`, for a buffer of this size. -/
def limit (size : Nat) : Nat := size - 1 - MAX_XSCOPE_INT_STRING_SIZE

def Ctx.put (s : Ctx) (c : UInt8) : Ctx := { s with p := s.p + 1, buf := s.buf.set s.p c }

def Ctx.number (s : Ctx) (n : UInt32) (base : Nat) (hbase : 1 < base) : Ctx :=
  let done := itoa n s.p base hbase 0 s.buf
  { s with p := s.p + done.1, buf := done.2 }

def memcpy (b : Buf) (p : Nat) : List UInt8 → Buf
  | [] => b
  | c :: cs => memcpy (b.set p c) (p + 1) cs

/-- The labels of the `switch`. -/
inductive Case
  | d | u | p | x | c | s | default
  deriving DecidableEq

def case_of (ch : UInt8) : Case :=
  let ch := tolower ch
  if ch = 'd'.toUInt8 then .d
  else if ch = 'u'.toUInt8 then .u
  else if ch = 'p'.toUInt8 then .p
  else if ch = 'x'.toUInt8 then .x
  else if ch = 'c'.toUInt8 then .c
  else if ch = 's'.toUInt8 then .s
  else .default

/-- `xcoretraceconfigXSCOPE_TRACE_BUFFER` and `xcoretraceconfigXSCOPE_TRACE_RAW_BYTES`. -/
structure Config where
  size : Nat
  raw_bytes : Bool

variable (cfg : Config) (args : Args)

def Ctx.str (s : Ctx) : Ctx :=
  let strArg := args.str s.ap
  let s := { s with ap := s.ap + 1 }
  let len := strArg.chars.length
  if limit cfg.size < len then { s with p := 0 }
  else
    let len := if limit cfg.size < len then limit cfg.size else len
    { s with p := s.p + len, buf := memcpy s.buf s.p (strArg.chars.take len) }

def Ctx.ascii (s : Ctx) : Case → Ctx
  | .d =>
    let intArg := args.int s.ap
    let s := { s with ap := s.ap + 1 }
    if intArg < 0 then (s.put '-'.toUInt8).number (-intArg).toUInt32 10 (by decide)
    else s.number intArg.toUInt32 10 (by decide)
  | .u => { s with ap := s.ap + 1 }.number (args.int s.ap).toUInt32 10 (by decide)
  | .p | .x => { s with ap := s.ap + 1 }.number (args.int s.ap).toUInt32 16 (by decide)
  | .c => { s with ap := s.ap + 1 }.put (args.int s.ap).toUInt32.toUInt8
  | .s => s.str cfg args
  | .default => s

def Ctx.raw (s : Ctx) : Case → Ctx
  | .d | .u | .p | .x =>
    let intArg := (args.int s.ap).toUInt32
    let s := { s with ap := s.ap + 1 }
    (((s.put (intArg >>> 24).toUInt8).put (intArg >>> 16).toUInt8).put (intArg >>> 8).toUInt8).put intArg.toUInt8
  | .c => { s with ap := s.ap + 1 }.put (args.int s.ap).toUInt32.toUInt8
  | .s => s.str cfg args
  | .default => s

def Ctx.convert (s : Ctx) (case : Case) : Ctx := if cfg.raw_bytes then s.raw cfg args case else s.ascii cfg args case

/-- The `while` loop, whose result is `none` where it goes on behind the format's NUL. -/
def trace_round (s : Ctx) : Ctx ⊕ Option Ctx :=
  match s.fmt with
  | [] => .inr (some s)
  | c :: fmt =>
    if limit cfg.size < s.p then .inr (some s)
    else if c = '%'.toUInt8 then
      match fmt with
      | [] => .inr none
      | ch :: fmt => .inl ({ s with fmt }.convert cfg args (case_of ch))
    else if c ≠ 0x20 then .inl ({ s with fmt }.put c)
    else .inl { s with fmt }

/-- At the loop; the buffer holds anything. -/
def Ctx.init (fmt : CString) (mem : Nat → UInt8) : Ctx := ⟨fmt.chars, 0, 0, ⟨mem, []⟩⟩

end Trace
