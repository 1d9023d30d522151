import Broadcast.Toml.Printer

/-!
# Changing documents

A table under a top-level key is exchanged for a new one. The key keeps its
spelling, its place among the other keys and the text around it; everything
that belonged to the old value goes.
-/

namespace Broadcast.Toml

def Scalar.written : Scalar → String
  | string s => quoted s
  | integer i => if i < 0 then "-" ++ Nat.repr i.natAbs else Nat.repr i.natAbs
  | boolean true => "true"
  | boolean false => "false"
  | float digits => digits
  | dateTime text => text

def Key.bare (name : String) : Key := ⟨name, name, {}, {}⟩

def newPair (name : String) (s : Scalar) : Key × Node :=
  ({ Key.bare name with margin := ⟨"", " "⟩ }, .scalar s s.written ⟨" ", ""⟩)

def newEntries (pairs : List (String × Scalar)) : Entries :=
  pairs.map fun (name, s) => newPair name s

def newTable (pairs : List (String × Scalar)) : Node :=
  .table (.header none none) (newEntries pairs)

def Document.setTable (name : String) (pairs : List (String × Scalar)) (d : Document) : Document :=
  { d with entries :=
      if Entries.contains name d.entries then Entries.replace name (newTable pairs) d.entries
      else d.entries ++ [(Key.bare name, newTable pairs)] }

end Broadcast.Toml
