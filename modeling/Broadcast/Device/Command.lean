import Broadcast.Preset.Catalog

/-!
# Commands

The lines the firmware understands. To start broadcasting takes two of them:
one that sets the preset of the first group, one that starts it.
-/

namespace Broadcast

inductive Command where
  | preset (name : String) (group subgroup : Nat)
  | start (group : Nat)
  deriving DecidableEq, Repr

namespace Command

def text : Command → String
  | preset name group subgroup => "bct preset " ++ name ++ " " ++ Nat.repr group ++ " " ++ Nat.repr subgroup
  | start group => "bct start " ++ Nat.repr group

def line (c : Command) : String := c.text ++ "\n"

end Command

structure StartOrder where
  preset : String
  deriving DecidableEq, Repr

namespace StartOrder

def isReady (o : StartOrder) : Bool := o.preset != "" && o.preset != notSet

def commands (o : StartOrder) : List Command := [.preset o.preset 0 0, .start 0]

end StartOrder

end Broadcast
