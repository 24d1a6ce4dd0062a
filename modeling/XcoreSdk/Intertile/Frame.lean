import XcoreSdk.Lib.Bytes
/-!
# Frames on the intertile channel

A message for a port goes over the channel as the port number, the length as a
big-endian word and the payload.
-/

namespace Intertile

/-- A port and what is sent to it, of a length that fits a word. -/
structure Packet where
  port : UInt8
  payload : List UInt8
  fits : payload.length < 2 ^ 32

/-- The bytes `s_chan_out_word` puts on the channel. -/
def word (v : Nat) : List UInt8 := Bytes.toBE 4 v

def header (port : UInt8) (len : Nat) : List UInt8 := port :: word len

def Packet.frame (p : Packet) : List UInt8 := header p.port p.payload.length ++ p.payload

@[simp] theorem length_word (v : Nat) : (word v).length = 4 := Bytes.length_toBE 4 v

theorem ofBE_word {v : Nat} (h : v < 2 ^ 32) : Bytes.ofBE (word v) = v := Bytes.ofBE_toBE h

end Intertile
