import Broadcast.Session.Update
import Broadcast.Session.View

/-!
# The user's hand

What a person can do in the tab in front: type, click, or turn the wheel over a
list. Each of these sends at most one message.
-/

namespace Broadcast

inductive Hand where
  | type (nth : Nat) (text : String) (replace : Bool)
  | arrow (nth : Nat) (up : Bool)
  | pick (label : String) (nth : Nat) (up : Bool)
  | toggle (nth : Nat)
  | press (text : String) (nth : Nat)
  deriving DecidableEq, Repr

namespace Widget

def input? : Widget → Option (String × (String → Edit))
  | input value edit => some (value, edit)
  | _ => none

def number? : Widget → Option (Nat × Nat × Nat × (Nat → Edit))
  | number value low high edit => some (value, low, high, edit)
  | _ => none

def pressed? : Widget → Option (String × Option Message)
  | text s => some (s, none)
  | button label message => some (label, some message)
  | _ => none

/-- What stands behind the `nth` label of a text; `some none` when nothing does. -/
def beside? (label : String) : Nat → List Widget → Option (Option Widget)
  | _, [] => none
  | nth, text s :: ws =>
    if s = label then
      match nth with
      | 0 => some ws.head?
      | nth + 1 => beside? label nth ws
    else beside? label nth ws
  | nth, _ :: ws => beside? label nth ws

def optionAfter? (selected : String) (options : List (String × Edit)) : Option Edit :=
  ((options.dropWhile fun o => o.1 != selected)[1]?).map (·.2)

end Widget

namespace Hand

def typed (text : String) : String :=
  String.ofList (text.toList.filter fun c => !(c.toNat < 0x20 || (0x7F ≤ c.toNat && c.toNat ≤ 0x9F)))

def arrowValue? (value low high : Nat) (up : Bool) : Option Nat :=
  if up then if value < high then some (value + 1) else none
  else if low < value then some (value - 1) else none

open Widget

/-- What the hand sends in a tab: nothing at all when the tab has no such widget,
and otherwise a message or none. -/
def send (ws : List Widget) : Hand → Option (Option Message)
  | type nth words replace =>
    ((ws.filterMap input?)[nth]?).map fun (value, edit) =>
      some (.edit (edit (if replace then typed words else value ++ typed words)))
  | arrow nth up =>
    ((ws.filterMap number?)[nth]?).map fun (value, low, high, edit) =>
      (arrowValue? value low high up).map fun n => .edit (edit n)
  | pick label nth up =>
    (beside? label nth ws).map fun
      | some (.pick options selected) =>
        (optionAfter? selected (if up then options.reverse else options)).map .edit
      | _ => none
  | toggle nth =>
    (beside? "Encryption:" nth ws).map fun
      | some (.toggle on edit) => some (.edit (edit !on))
      | _ => none
  | press words nth => (((ws.filterMap pressed?).filter fun p => p.1 == words)[nth]?).map (·.2)

end Hand

namespace Session

def use [Wording] (s : Session) (h : Hand) : Session × Option Nat :=
  match h.send s.view with
  | none => (s, none)
  | some none => (s, some 0)
  | some (some m) => (s.update m, some 1)

end Session

end Broadcast
