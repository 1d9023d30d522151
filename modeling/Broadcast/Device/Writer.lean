/-!
# Writers

A writer takes bytes to a device. How its calls end is written down in advance:
one reply for each call to write and one for each flush; when the replies are
used up, everything is accepted. So a statement about all writers is one about
all lists of replies.
-/

namespace Broadcast

/-- Why a call fails. Only an interruption is treated in a way of its own; any other reason is known by its text. -/
inductive WriteFault where
  | interrupted
  | other (text : String)
  deriving DecidableEq, Repr

namespace WriteFault

def text : WriteFault → String
  | interrupted => "operation interrupted"
  | other text => text

abbrev brokenPipe : WriteFault := .other "broken pipe"
abbrev timedOut : WriteFault := .other "timed out"
abbrev wouldBlock : WriteFault := .other "operation would block"
abbrev notConnected : WriteFault := .other "not connected"
abbrev permissionDenied : WriteFault := .other "permission denied"

abbrev nothingWritten : WriteFault := .other "failed to write whole buffer"

abbrev hungUp : WriteFault := .other "Broken pipe"

end WriteFault

inductive WriteReply where
  | all
  | upTo (n : Nat)
  | fault (f : WriteFault)
  deriving DecidableEq, Repr

structure Writer where
  writes : List WriteReply := []
  flushes : List (Option WriteFault) := []
  wire : List UInt8 := []
  writeCalls : Nat := 0
  flushCalls : Nat := 0
  gone : Bool := false
  deriving DecidableEq, Repr

structure Written where
  accepted : List UInt8
  replies : List WriteReply
  calls : Nat
  fault? : Option WriteFault

namespace Written

def afterCall (bytes : List UInt8) (w : Written) : Written :=
  { w with accepted := bytes ++ w.accepted, calls := w.calls + 1 }

end Written

/-- Writing goes on until nothing is left or a call fails. An interrupted call is
made again; a call that accepts nothing is a failure. -/
def writeAll : List WriteReply → List UInt8 → Written
  | replies, [] => ⟨[], replies, 0, none⟩
  | [], bytes => ⟨bytes, [], 1, none⟩
  | .all :: replies, bytes => ⟨bytes, replies, 1, none⟩
  | .fault .interrupted :: replies, bytes => (writeAll replies bytes).afterCall []
  | .fault f :: replies, _ => ⟨[], replies, 1, some f⟩
  | .upTo 0 :: replies, _ => ⟨[], replies, 1, some .nothingWritten⟩
  | .upTo n :: replies, bytes => (writeAll replies (bytes.drop n)).afterCall (bytes.take n)

namespace Writer

def write (w : Writer) (bytes : List UInt8) : Writer × Option WriteFault :=
  if w.gone then ({ w with writeCalls := w.writeCalls + 1 }, some .hungUp)
  else
    let r := writeAll w.writes bytes
    ({ w with writes := r.replies, wire := w.wire ++ r.accepted, writeCalls := w.writeCalls + r.calls }, r.fault?)

def flush (w : Writer) : Writer × Option WriteFault :=
  ({ w with flushes := w.flushes.tail, flushCalls := w.flushCalls + 1 }, w.flushes.head?.getD none)

def send (w : Writer) (bytes : List UInt8) : Writer × Option WriteFault :=
  match w.write bytes with
  | (w, some f) => (w, some f)
  | (w, none) => w.flush

end Writer

end Broadcast
