import Broadcast.Device.Channel
import Broadcast.Settings.Store
import Broadcast.State

/-!
# Problems

Everything that can go wrong, named after the part of the program it happens in.
A problem is shown with the chain of its causes, the nearest first.
-/

namespace Broadcast

inductive Problem where
  | config (e : ConfigError)
  | device (e : DeviceError)
  | header (e : HeaderError)
  | state (e : EditError)
  deriving DecidableEq, Repr

namespace Problem

variable [Wording]

def part : Problem → String
  | config _ => "Configuration error"
  | device _ => "Device error"
  | header _ => "Header error"
  | state _ => "State error"

def detail : Problem → String
  | config e => e.message
  | device e => e.message
  | header e => e.message
  | state e => e.message

def message (p : Problem) : String := p.part ++ ": " ++ p.detail

def cause? : Problem → Option String
  | config e => some e.cause
  | device e => e.cause?
  | header e => e.cause?
  | state _ => none

def chain (p : Problem) : List String := p.detail :: p.cause?.toList

end Problem

end Broadcast
