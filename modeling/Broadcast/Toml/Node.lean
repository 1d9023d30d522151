import Broadcast.Toml.DateTime

/-!
# Documents as trees

A node keeps what it means together with how it is written, so that a document
can be changed in one place and stays as it was everywhere else. A table keeps
its entries in the order in which their keys first appeared.
-/

namespace Broadcast.Toml

structure Margin where
  before : String := ""
  after : String := ""
  deriving DecidableEq, Repr, Inhabited

/-- A key with its spelling. `margin` stands around the path that ends in the
key, `dots` between the key and the dots of a path. -/
structure Key where
  name : String
  spelling : String
  margin : Margin := {}
  dots : Margin := {}
  deriving DecidableEq, Repr, Inhabited

structure KeyPath where
  parents : List Key
  leaf : Key
  deriving DecidableEq, Repr, Inhabited

def KeyPath.keys (p : KeyPath) : List Key := p.parents ++ [p.leaf]

inductive Scalar where
  | string (s : String)
  | integer (i : Int)
  | float (digits : String)
  | boolean (b : Bool)
  | dateTime (text : String)
  deriving DecidableEq, Repr, Inhabited

/-- How a table came to be. -/
inductive Form where
  /-- Between braces. `comma` says that a comma ends the entries, `tail` is the text after them. -/
  | inline (comma : Bool) (tail : String) (margin : Margin)
  | dotted
  /-- Through the header of a table below it. -/
  | implied
  /-- Through a header of its own, with the header's number in the file if it was read from one. -/
  | header (place : Option Nat) (margin : Option Margin)
  deriving DecidableEq, Repr, Inhabited

inductive Node where
  | scalar (value : Scalar) (text : String) (margin : Margin)
  | array (items : List Node) (comma : Bool) (tail : String) (margin : Margin)
  | table (form : Form) (entries : List (Key × Node))
  /-- The tables under repeated double-bracket headers. -/
  | tables (elements : List Node)
  deriving Repr, Inhabited

abbrev Entries := List (Key × Node)

namespace Entries

def find? (name : String) (es : Entries) : Option Node :=
  (List.find? (fun e => e.1.name == name) es).map (·.2)

def contains (name : String) (es : Entries) : Bool := (find? name es).isSome

def replace (name : String) (n : Node) (es : Entries) : Entries :=
  es.map fun e => if e.1.name == name then (e.1, n) else e

def erase (name : String) (es : Entries) : Entries :=
  es.filter fun e => e.1.name != name

end Entries

namespace Node

def withMargin (m : Margin) : Node → Node
  | scalar v t _ => scalar v t m
  | array items comma tail _ => array items comma tail m
  | table (.inline comma tail _) es => table (.inline comma tail m) es
  | n => n

/-- Values stand behind a key; the other nodes have headers or dotted keys. -/
def isValue : Node → Bool
  | scalar .. => true
  | array .. => true
  | table (.inline ..) _ => true
  | _ => false

def entries : Node → Entries
  | table _ es => es
  | _ => []

end Node

/-! ## Meaning -/

/-- What a node means, however it is written. -/
inductive Value where
  | scalar (s : Scalar)
  | array (items : List Value)
  | table (entries : List (String × Value))
  deriving Repr, Inhabited

mutual
def Node.value : Node → Value
  | .scalar s _ _ => .scalar s
  | .array items _ _ _ => .array (nodeValues items)
  | .table _ es => .table (entryValues es)
  | .tables elements => .array (nodeValues elements)
def nodeValues : List Node → List Value
  | [] => []
  | n :: ns => n.value :: nodeValues ns
def entryValues : List (Key × Node) → List (String × Value)
  | [] => []
  | (k, n) :: es => (k.name, n.value) :: entryValues es
end

structure Document where
  entries : Entries := []
  tail : String := ""
  deriving Repr, Inhabited

def Document.values (d : Document) : List (String × Value) := entryValues d.entries

end Broadcast.Toml
