import Broadcast.Toml.Node

/-!
# Printing documents

Values stand in their table's block, dotted keys included; each table with a
header is a block of its own. Blocks come in the order of their headers in the
file they were read from; a new table follows the last block visited before it.
A new header has an empty line before it, unless nothing has been printed yet.
-/

namespace Broadcast.Toml

def pathText (keys : List Key) : String :=
  let margin := (keys.getLast?.map Key.margin).getD {}
  margin.before ++ inner keys ++ margin.after
where
  inner : List Key → String
    | [] => ""
    | [k] => k.spelling
    | k :: next :: ks => k.spelling ++ k.dots.after ++ "." ++ next.dots.before ++ inner (next :: ks)

mutual
def Node.text : Node → String
  | .scalar _ t m => m.before ++ t ++ m.after
  | .array items comma tail m =>
    m.before ++ "[" ++ String.intercalate "," (nodeTexts items) ++ (if comma then "," else "") ++ tail ++ "]" ++ m.after
  | .table (.inline comma tail m) es =>
    m.before ++ "\x7b" ++ String.intercalate "," (pairTexts [] es) ++ (if comma then "," else "") ++ tail ++ "\x7d" ++
      m.after
  | _ => ""
def nodeTexts : List Node → List String
  | [] => []
  | n :: ns => n.text :: nodeTexts ns
def pairTexts (path : List Key) : List (Key × Node) → List String
  | [] => []
  | (k, .table .dotted sub) :: es => pairTexts (path ++ [k]) sub ++ pairTexts path es
  | (k, n) :: es =>
    if n.isValue then (pathText (path ++ [k]) ++ "=" ++ n.text) :: pairTexts path es else pairTexts path es
end

def Entries.text (es : Entries) : String :=
  String.join ((pairTexts [] es).map (· ++ "\n"))

structure Block where
  place : Nat
  path : List Key
  array : Bool
  form : Form
  pairs : List String

/-- A table without a number takes the one of the table visited before it. -/
def Form.place (form : Form) (last : Nat) : Nat :=
  match form with
  | .header (some n) _ => n
  | _ => last

mutual
/-- The blocks of a node at a path, visited from the outside in, and the last number met. -/
def Node.blocks (path : List Key) (array : Bool) (last : Nat) : Node → List Block × Nat
  | .table (.inline ..) _ => ([], last)
  | .table .dotted es => entryBlocks path last es
  | .table form es =>
    let place := form.place last
    let (below, last) := entryBlocks path place es
    (⟨place, path, array, form, pairTexts [] es⟩ :: below, last)
  | .tables elements => elementBlocks path last elements
  | _ => ([], last)
def entryBlocks (path : List Key) (last : Nat) : List (Key × Node) → List Block × Nat
  | [] => ([], last)
  | (k, n) :: es =>
    let (first, last) := n.blocks (path ++ [k]) false last
    let (rest, last) := entryBlocks path last es
    (first ++ rest, last)
def elementBlocks (path : List Key) (last : Nat) : List Node → List Block × Nat
  | [] => ([], last)
  | n :: ns =>
    let (first, last) := n.blocks path true last
    let (rest, last) := elementBlocks path last ns
    (first ++ rest, last)
end

def Block.isShown (b : Block) : Bool :=
  b.array || b.form ≠ .implied || !b.pairs.isEmpty

def Block.header (b : Block) (first : Bool) : String :=
  let margin : Margin := match b.form with
    | .header _ (some m) => m
    | _ => ⟨if first then "" else "\n", ""⟩
  let path := pathText b.path
  margin.before ++ (if b.array then "[[" ++ path ++ "]]" else "[" ++ path ++ "]") ++ margin.after ++ "\n"

def blocksText (first : Bool) : List Block → String
  | [] => ""
  | b :: bs =>
    if b.isShown then
      b.header first ++ String.join (b.pairs.map (· ++ "\n")) ++ blocksText false bs
    else blocksText first bs

/-- Blocks in the order of their places; those of one place stay in the order they are visited in. -/
def sortedBlocks (bs : List Block) : List Block :=
  bs.mergeSort fun a b => a.place ≤ b.place

def Document.text (d : Document) : String :=
  let pairs := pairTexts [] d.entries
  String.join (pairs.map (· ++ "\n")) ++
    blocksText pairs.isEmpty (sortedBlocks (entryBlocks [] 0 d.entries).1) ++ d.tail

end Broadcast.Toml
