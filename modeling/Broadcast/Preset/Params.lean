/-!
# Codec parameters

The parameters a broadcast group is sent with: how often a data unit is sent,
how large it is, how often it is repeated, and how long it may travel.
-/

namespace Broadcast

inductive Framing where
  | unframed
  | framed
  deriving DecidableEq, Repr, Inhabited

namespace Framing

def all : List Framing := [unframed, framed]

def name : Framing → String
  | unframed => "unframed"
  | framed => "framed"

def ofName? (s : String) : Option Framing :=
  all.find? fun f => f.name == s

end Framing

structure Params where
  sduInterval : UInt32 := 0
  framing : Framing := .unframed
  octetsPerSdu : UInt16 := 0
  rtn : UInt8 := 0
  maxTransportLatency : UInt16 := 0
  presentationDelay : UInt32 := 0
  deriving DecidableEq, Repr, Inhabited

def sduIntervals : List UInt32 := [7500, 10000]

def rtnMin : UInt8 := 0

def rtnMax : UInt8 := 10

end Broadcast
