import XcoreSdk.Lib.Loop
import Mathlib.Logic.Function.Iterate
import Mathlib.Algebra.Order.Ring.Nat
/-!
# The RTOS printf

A format goes from character to character through a scanner with jumps, which
gives the text byte by byte to `outbyte`. What becomes of the bytes is the same
to the scanner, so that it is a parameter here: a buffer that is cut off or
written out, or just the list of all of them. A format that is read behind its
terminating NUL is a failure. Neither `long` nor pointers have 64 bits.
-/

namespace Printf

/-- A string without its NUL. No object has more than `PTRDIFF_MAX` bytes. -/
structure CString where
  chars : List UInt8
  no_nul : 0 ∉ chars
  length_lt : chars.length < 2 ^ 31

/-- The arguments: each as what it is, where it is asked for as that. -/
structure Args where
  int : Nat → Int32
  str : Nat → CString

/-- What `params_t` has about a conversion. -/
structure params_t where
  len : Int32
  num1 : Int32
  num2 : Int32
  do_padding : Bool
  left_flag : Bool
  unsigned_flag : Bool
  pad_character : UInt8

def isdigit (ch : UInt8) : Bool := 48 ≤ ch && ch ≤ 57

def tolower (ch : UInt8) : UInt8 := if 65 ≤ ch && ch ≤ 90 then ch + 32 else ch

section
variable {σ : Type*} (outbyte : UInt8 → σ → σ)

def padding (l_flag : Bool) (par : params_t) (out : σ) : σ :=
  if par.do_padding ∧ l_flag ∧ par.len < par.num1 then
    (outbyte par.pad_character)^[(par.num1.toInt - par.len.toInt).toNat] out
  else out

/-- The loop of `outs`. -/
def outs_loop : List UInt8 → Int32 → σ → σ
  | [], _, out => out
  | c :: lp, num2, out => if num2 ≠ 0 then outs_loop lp (num2 - 1) (outbyte c out) else out

/-- Neither here nor in `outnum` is `par` used afterwards. -/
def outs (lp : CString) (par : params_t) (out : σ) : σ :=
  let par := { par with len := Int32.ofNat lp.chars.length }
  let out := padding outbyte (!par.left_flag) par out
  let out := outs_loop outbyte lp.chars par.num2 out
  padding outbyte par.left_flag par out

def digits : List UInt8 :=
  ['0', '1', '2', '3', '4', '5', '6', '7', '8', '9', 'A', 'B', 'C', 'D', 'E', 'F'].map Char.toUInt8

/-- The digits of a number from the last one on, as many as there is room for. -/
def build_number (base : Nat) : Nat → Nat → List UInt8
  | 0, _ => []
  | room + 1, num =>
    digits.getD (num % base) 0 :: if 0 < num / base then build_number base room (num / base) else []

def outnum (n : Int32) (base : Nat) (par : params_t) (out : σ) : σ :=
  let negative := !par.unsigned_flag && base == 10 && n < 0
  let num := if negative then (-n).toUInt32 else n.toUInt32
  let outbuf := build_number base 32 num.toNat ++ if negative then [ '-'.toUInt8] else []
  let par := { par with len := Int32.ofNat outbuf.length }
  let out := padding outbyte (!par.left_flag) par out
  let out := outbuf.reverse.foldl (fun out c => outbyte c out) out
  padding outbyte par.left_flag par out

/-- The number and how many characters it has. -/
def getnum : List UInt8 → Int32 → Nat → Int32 × Nat
  | [], n, passed => (n, passed)
  | c :: cptr, n, passed =>
    if isdigit c then getnum cptr (n * 10 + (Int32.ofNat c.toNat - 48)) (passed + 1) else (n, passed)

/-- The labels of the `switch`. -/
inductive Case
  | percent | minus | dot | l | u | d | x | s | c | backslash | other
  deriving DecidableEq

/-- `p` falls through to `x`. -/
def case_of (ch : UInt8) : Case :=
  if ch = '%'.toUInt8 then .percent
  else if ch = '-'.toUInt8 then .minus
  else if ch = '.'.toUInt8 then .dot
  else if ch = 'l'.toUInt8 then .l
  else if ch = 'u'.toUInt8 then .u
  else if ch = 'i'.toUInt8 ∨ ch = 'd'.toUInt8 then .d
  else if ch = 'p'.toUInt8 ∨ ch = 'X'.toUInt8 ∨ ch = 'x'.toUInt8 then .x
  else if ch = 's'.toUInt8 then .s
  else if ch = 'c'.toUInt8 then .c
  else if ch = '\\'.toUInt8 then .backslash
  else .other

/-- The `switch` for an escape. `ctrl` points to the backslash itself still. -/
def escape (ch : UInt8) (out : σ) : σ :=
  if ch = 'a'.toUInt8 then outbyte 0x07 out
  else if ch = 'h'.toUInt8 then outbyte 0x08 out
  else if ch = 'r'.toUInt8 then outbyte 0x0D out
  else if ch = 'n'.toUInt8 then outbyte 0x0A (outbyte 0x0D out)
  else outbyte ch out

inductive Label
  | while_test
  | try_next
  deriving DecidableEq

/-- The variables of `rtos_vsnwprintf`. `ap` counts the arguments that have been taken, and `ctrl` is the format from
the pointer on to its NUL, which is there no more. -/
structure Scan (σ : Type*) where
  label : Label
  out : σ
  ap : Nat
  ctrl : List UInt8
  dot_flag : Bool
  par : params_t

def params_init : params_t := ⟨0, 0, 32767, false, false, false, ' '.toUInt8⟩

def Scan.init (out : σ) (ap : Nat) (fmt : List UInt8) : Scan σ := ⟨.while_test, out, ap, fmt, false, params_init⟩

variable (args : Args)

/-- What is done with the character that `ctrl` points to, and `Check`. -/
def switch (ch : UInt8) (s : Scan σ) : Bool × Scan σ :=
  match case_of (tolower ch) with
  | .percent => (true, { s with out := outbyte '%'.toUInt8 s.out })
  | .minus => (false, { s with par := { s.par with left_flag := true } })
  | .dot => (false, { s with dot_flag := true })
  | .l => (false, s)
  | .u =>
    (true, { s with
      out := outnum outbyte (args.int s.ap) 10 { s.par with unsigned_flag := true } s.out
      ap := s.ap + 1 })
  | .d => (true, { s with out := outnum outbyte (args.int s.ap) 10 s.par s.out, ap := s.ap + 1 })
  | .x =>
    (true, { s with
      out := outnum outbyte (args.int s.ap) 16 { s.par with unsigned_flag := true } s.out
      ap := s.ap + 1 })
  | .s => (true, { s with out := outs outbyte (args.str s.ap) s.par s.out, ap := s.ap + 1 })
  | .c => (true, { s with out := outbyte (args.int s.ap).toUInt32.toUInt8 s.out, ap := s.ap + 1 })
  | .backslash => (false, { s with out := escape outbyte (s.ctrl.headD 0) s.out, ctrl := s.ctrl.tail })
  | .other => (true, s)

/-- A number in the format is a precision behind a dot and else a width. -/
def params_t.number (par : params_t) (dot_flag : Bool) (ch : UInt8) (n : Int32) : params_t :=
  if dot_flag then { par with num2 := n }
  else { par with
    pad_character := if ch = '0'.toUInt8 then '0'.toUInt8 else par.pad_character
    num1 := n
    do_padding := true }

/-- What comes behind the `switch`. -/
def after_switch : Bool × Scan σ → Scan σ ⊕ Option σ
  | (true, s) =>
    match s.ctrl with
    | [] => .inr none
    | _ :: ctrl => .inl { s with label := .while_test, ctrl }
  | (false, s) => .inl s

/-- A round: from the test of the loop, or from `try_next`, to where one of them comes next. It leaves with `none` when
the format is read behind its NUL. -/
def scan_round (s : Scan σ) : Scan σ ⊕ Option σ :=
  match s.label, s.ctrl with
  | .while_test, [] => .inr (some s.out)
  | .while_test, c :: ctrl =>
    if c = '%'.toUInt8 then .inl { s with label := .try_next, dot_flag := false, par := params_init }
    else .inl { s with out := outbyte c s.out, ctrl }
  | .try_next, [] => .inr none
  | .try_next, _ :: ctrl =>
    let ch := ctrl.headD 0
    if isdigit ch then
      let (n, passed) := getnum ctrl 0 0
      .inl { s with par := s.par.number s.dot_flag ch n, ctrl := ctrl.drop (passed - 1) }
    else if s.dot_flag ∧ ch = '*'.toUInt8 then
      .inl { s with par := { s.par with num2 := args.int s.ap }, ap := s.ap + 1, ctrl }
    else after_switch (switch outbyte args ch { s with ctrl })

/-- No format has more rounds than twice its characters and one. -/
def scan (out : σ) (ap : Nat) (fmt : List UInt8) : Option σ :=
  (Loop.run (scan_round outbyte args) (2 * fmt.length + 2) (Scan.init out ap fmt)).join

end

/-! ## The buffer -/

/-- What `params_t` has about the buffer, with what has been written of it to the standard output. -/
structure Stream where
  size : UInt32
  pos : UInt32
  str : Nat → UInt8
  writeout : Bool
  written : List (List UInt8)

/-- The first `count` bytes. -/
def block (str : Nat → UInt8) (count : Nat) : List UInt8 := (List.range count).map str

def outbyte (b : UInt8) (par : Stream) : Stream :=
  let str := if par.pos < par.size then Function.update par.str par.pos.toNat b else par.str
  let pos := par.pos + 1
  if par.writeout ∧ par.size ≤ pos then
    { par with str, pos := 0, written := par.written ++ [block str par.size.toNat] }
  else { par with str, pos }

/-- What is returned, and the buffer then. -/
def rtos_vsnwprintf (str : Nat → UInt8) (size : UInt32) (writeout : Bool) (fmt : CString) (args : Args) :
    Option (Int32 × Stream) :=
  (scan outbyte args ⟨size, 0, str, writeout, []⟩ 0 fmt.chars).map fun par =>
    (par.pos.toInt32, if par.pos < par.size then { par with str := Function.update par.str par.pos.toNat 0 } else par)

def rtos_snprintf (str : Nat → UInt8) (size : UInt32) (fmt : CString) (args : Args) : Option (Int32 × (Nat → UInt8)) :=
  (rtos_vsnwprintf str size false fmt args).map fun (len, par) => (len, par.str)

def SIZE_MAX : UInt32 := 0xFFFFFFFF

def rtos_sprintf (str : Nat → UInt8) (fmt : CString) (args : Args) : Option (Int32 × (Nat → UInt8)) :=
  (rtos_vsnwprintf str SIZE_MAX false fmt args).map fun (len, par) => (len, par.str)

/-- What is returned and the blocks that are written. The buffer holds anything at first. -/
def rtos_vprintf (RTOS_PRINTF_BUFSIZE : UInt32) (buf : Nat → UInt8) (fmt : CString) (args : Args) :
    Option (Int32 × List (List UInt8)) :=
  (rtos_vsnwprintf buf RTOS_PRINTF_BUFSIZE true fmt args).map fun (len, par) =>
    (len, par.written ++ [block par.str len.toUInt32.toNat])

end Printf
