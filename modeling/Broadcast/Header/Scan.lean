import Broadcast.Log.Record
import Broadcast.Text.Fields

/-!
# Names in a header

The header declares presets, contexts and locations, one on a line. A line is a
candidate when it has the keyword of its category and `.name`; its name is the
text behind the first double quote of the third part between equals signs. A
candidate without such a text is reported and contributes nothing.
-/

namespace Broadcast

inductive Category where
  | preset
  | context
  | location
  deriving DecidableEq, Repr

namespace Category

def all : List Category := [preset, context, location]

def keyword : Category → String
  | preset => "preset"
  | context => "context"
  | location => "location"

def ofKeyword? (s : String) : Option Category :=
  all.find? fun c => c.keyword == s

def isCandidate (c : Category) (line : List Char) : Bool :=
  occurs c.keyword.toList line && occurs ".name".toList line

def nameIn? (c : Category) (line : List Char) : Option String :=
  if c.isCandidate line then
    ((field? '=' 2 line).bind (field? '"' 1)).map String.ofList
  else none

inductive Finding where
  | name (s : String)
  | malformed (line : Nat)
  deriving DecidableEq, Repr

def findingIn? (c : Category) (number : Nat) (line : List Char) : Option Finding :=
  match c.nameIn? line with
  | some s => some (.name s)
  | none => if c.isCandidate line then some (.malformed number) else none

def findings (c : Category) : Nat → List (List Char) → List Finding
  | _, [] => []
  | number, line :: rest => (c.findingIn? number line).toList ++ findings c (number + 1) rest

def Finding.name? : Finding → Option String
  | .name s => some s
  | .malformed _ => none

def Finding.record? (c : Category) : Finding → Option Record
  | .name _ => none
  | .malformed line =>
    some ⟨.trace, "bct_core::presets::extract", "Skipping malformed " ++ c.keyword ++ " line",
      [("line", Nat.repr line), ("policy", "SkipSilently")]⟩

def findingsIn (c : Category) (text : String) : List Finding := c.findings 1 (lines text.toList)

def names (c : Category) (text : String) : List String := (c.findingsIn text).filterMap Finding.name?

def reports (c : Category) (text : String) : List Record := (c.findingsIn text).filterMap (Finding.record? c)

end Category

end Broadcast
