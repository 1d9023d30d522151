import Broadcast.Toml.Node

/-!
# Reading documents

A document is a sequence of lines: headers, and keys with values. Reading goes
from the text to these lines, each with the text around it, so nothing that was
written is lost; the tree is built from the lines afterwards. Values nest in
brackets and braces up to a fixed depth.
-/

namespace Broadcast.Toml

/-! ## Keys -/

def isBare (c : Char) : Bool := c.isAlphanum || c = '_' || c = '-'

def key? (cs : List Char) : Option (Key × List Char) :=
  match lineString? cs with
  | some (name, rest) =>
    some (⟨String.ofList name, String.ofList (cs.take (cs.length - rest.length)), {}, {}⟩, rest)
  | none =>
    let name := cs.takeWhile isBare
    if name.isEmpty then none
    else some (⟨String.ofList name, String.ofList name, {}, {}⟩, cs.dropWhile isBare)

def depthLimit : Nat := 80

/-- Keys between dots. The blanks around a dot belong to the keys beside it, those
behind the last key to the path's margin. -/
def path? (fuel : Nat) (before : String) (cs : List Char) : Option (KeyPath × List Char) :=
  match fuel with
  | 0 => none
  | fuel + 1 => do
    let (k, cs) ← key? cs
    let (blank, cs) := blanks cs
    let k := { k with dots := ⟨before, ""⟩ }
    match cs with
    | '.' :: cs =>
      let (next, cs) := blanks cs
      let (p, cs) ← path? fuel (String.ofList next) cs
      some (⟨{ k with dots := ⟨before, String.ofList blank⟩ } :: p.parents, p.leaf⟩, cs)
    | cs => some (⟨[], { k with margin := ⟨"", String.ofList blank⟩ }⟩, cs)

def KeyPath.after (p : KeyPath) (lead : String) : KeyPath :=
  ⟨p.parents, { p.leaf with margin := ⟨lead, p.leaf.margin.after⟩ }⟩

/-! ## Building tables -/

namespace Entries

/-- A value under a path of keys that may create tables, but must not reach into
one that is closed: a table with a header, an inline one, or a value. -/
def addPair (leaf : Key) (n : Node) : List Key → Entries → Option Entries
  | [], es => if contains leaf.name es then none else some (es ++ [(leaf, n)])
  | [k], es =>
    match find? k.name es with
    | none => some (es ++ [(k, .table .dotted [(leaf, n)])])
    | some (.table .dotted sub) =>
      if contains leaf.name sub then none
      else some (replace k.name (.table .dotted (sub ++ [(leaf, n)])) es)
    | _ => none
  | k :: next :: ks, es =>
    match find? k.name es with
    | none => (addPair leaf n (next :: ks) []).map fun sub => es ++ [(k, .table .dotted sub)]
    | some (.table .dotted sub) =>
      (addPair leaf n (next :: ks) sub).map fun sub => replace k.name (.table .dotted sub) es
    | some (.table .implied sub) =>
      (addPair leaf n (next :: ks) sub).map fun sub => replace k.name (.table .implied sub) es
    | some (.tables elements) =>
      match elements.getLast? with
      | some (.table form sub) =>
        (addPair leaf n (next :: ks) sub).map fun sub =>
          replace k.name (.tables (elements.dropLast ++ [.table form sub])) es
      | _ => none
    | _ => none

end Entries

structure Pair where
  path : KeyPath
  value : Node

def addPairs : Entries → List Pair → Option Entries
  | es, [] => some es
  | es, p :: ps => do addPairs (← Entries.addPair p.path.leaf p.value p.path.parents es) ps

/-! ## Values -/

def isTokenChar (c : Char) : Bool :=
  !(c = '=' || c = ',' || c = '[' || c = ']' || c = '\x7b' || c = '\x7d' || c = ' ' || c = '\t' || c = '#' ||
    c = '\r' || c = '\n')

def scalarOf? (token : List Char) : Option Scalar :=
  if token = ['t', 'r', 'u', 'e'] then some (.boolean true)
  else if token = ['f', 'a', 'l', 's', 'e'] then some (.boolean false)
  else if isDateTime token then some (.dateTime (String.ofList token))
  else match integer? token with
    | some i => some (.integer i)
    | none =>
      if isSpecialFloat token || isFloat token then
        some (.float (String.ofList (token.filter fun c => c != '_')))
      else none

/-- The next token. A date takes the time behind one blank with it. -/
def token (cs : List Char) : List Char × List Char :=
  let first := cs.takeWhile isTokenChar
  let rest := cs.dropWhile isTokenChar
  match rest with
  | ' ' :: more =>
    if date? first == some [] && more.head?.any isDigit then
      (first ++ ' ' :: more.takeWhile isTokenChar, more.dropWhile isTokenChar)
    else (first, rest)
  | _ => (first, rest)

def scalar? (cs : List Char) : Option (Node × List Char) :=
  match string? cs with
  | some (s, rest) =>
    some (.scalar (.string (String.ofList s)) (kept (cs.take (cs.length - rest.length))) {}, rest)
  | none =>
    let (text, rest) := token cs
    (scalarOf? text).map fun s => (.scalar s (String.ofList text) {}, rest)

abbrev ReadNode := List Char → Option (Node × List Char)

def items? (node? : ReadNode) : Nat → Option (List Node × Bool × String × List Char) →
    List Char → Option (List Node × Bool × String × List Char)
  | 0, _, _ => none
  | fuel + 1, start, cs => do
    let (before, cs) ← trivia false cs
    match cs with
    | ']' :: rest => start.map fun (items, comma, _, _) => (items, comma, kept before, rest)
    | _ =>
      let (n, cs) ← node? cs
      let (after, cs) ← trivia false cs
      let n := n.withMargin ⟨kept before, kept after⟩
      match cs with
      | ']' :: rest => some ([n], false, "", rest)
      | ',' :: rest => do
        let (ns, comma, tail, rest) ← items? node? fuel (some ([], true, "", [])) rest
        some (n :: ns, comma, tail, rest)
      | _ => none

def pairs? (node? : ReadNode) (comma : Bool) : Nat → List Char → Option (List Pair × Bool × String × List Char)
  | 0, _ => none
  | fuel + 1, cs => do
    let (before, cs) ← trivia false cs
    match cs with
    | '\x7d' :: rest => some ([], comma, kept before, rest)
    | _ =>
      let (path, cs) ← path? depthLimit "" cs
      let (gap, cs) ← trivia false cs
      let path : KeyPath := ⟨path.parents,
        { path.leaf with margin := ⟨kept before, path.leaf.margin.after ++ kept gap⟩ }⟩
      match cs with
      | '=' :: cs => do
        let (lead, cs) ← trivia false cs
        let (n, cs) ← node? cs
        let (after, cs) ← trivia false cs
        let pair : Pair := ⟨path, n.withMargin ⟨kept lead, kept after⟩⟩
        match cs with
        | '\x7d' :: rest => some ([pair], false, "", rest)
        | ',' :: rest => do
          let (ps, comma, tail, rest) ← pairs? node? true fuel rest
          some (pair :: ps, comma, tail, rest)
        | _ => none
      | _ => none

def node? : Nat → ReadNode
  | 0, cs => scalar? cs
  | depth + 1, cs =>
    match cs with
    | '[' :: rest => do
      let (items, comma, tail, rest) ← items? (node? depth) (rest.length + 1) (some ([], false, "", [])) rest
      some (.array items comma tail {}, rest)
    | '\x7b' :: rest => do
      let (pairs, comma, tail, rest) ← pairs? (node? depth) false (rest.length + 1) rest
      let es ← addPairs [] pairs
      some (.table (.inline comma tail {}) es, rest)
    | cs => scalar? cs

/-! ## Lines -/

inductive Line where
  | pair (p : Pair)
  | header (array : Bool) (path : KeyPath) (margin : Margin)

def pairLine? (lead : String) (cs : List Char) : Option (Line × List Char) := do
  let (path, cs) ← path? depthLimit "" cs
  let cs ← expect '=' cs
  let (before, cs) := blanks cs
  let (n, cs) ← node? depthLimit cs
  let (after, cs) ← remark false cs
  some (.pair ⟨path.after lead, n.withMargin ⟨String.ofList before, kept after⟩⟩, cs)

def headerLine? (lead : String) (cs : List Char) : Option (Line × List Char) := do
  let array := cs.head? = some '['
  let (before, cs) := blanks (if array then cs.drop 1 else cs)
  let (path, cs) ← path? depthLimit "" cs
  let cs ← expect ']' cs
  let cs ← if array then expect ']' cs else some cs
  let (after, cs) ← remark false cs
  some (.header array (path.after (String.ofList before)) ⟨lead, kept after⟩, cs)

def lines? : Nat → List Char → Option (List Line × String)
  | 0, _ => none
  | fuel + 1, cs => do
    let (lead, cs) ← trivia false cs
    match cs with
    | [] => some ([], kept lead)
    | '[' :: rest => do
      let (line, cs) ← headerLine? (kept lead) rest
      let (ls, tail) ← lines? fuel cs
      some (line :: ls, tail)
    | cs => do
      let (line, cs) ← pairLine? (kept lead) cs
      let (ls, tail) ← lines? fuel cs
      some (line :: ls, tail)

def skipMark : List Char → List Char
  | '\ufeff' :: cs => cs
  | cs => cs

structure Headed where
  array : Bool
  path : KeyPath
  margin : Margin
  pairs : List Pair

def headed : List Line → List Pair × List Headed
  | [] => ([], [])
  | .pair p :: ls => (p :: (headed ls).1, (headed ls).2)
  | .header array path margin :: ls => ([], ⟨array, path, margin, (headed ls).1⟩ :: (headed ls).2)

/-! ## Documents -/

namespace Entries

/-- A header's own key in the table its path leads to. A table that only a header
below it has created so far gets its own entry now, at the end of its table. -/
def openTable (s : Headed) (place : Nat) (es : Entries) : Option Entries :=
  let form := Form.header (some place) (some s.margin)
  if s.array then
    match find? s.path.leaf.name es with
    | none => (addPairs [] s.pairs).map fun sub => es ++ [(s.path.leaf, .tables [.table form sub])]
    | some (.tables elements) =>
      (addPairs [] s.pairs).map fun sub =>
        replace s.path.leaf.name (.tables (elements ++ [.table form sub])) es
    | _ => none
  else
    match find? s.path.leaf.name es with
    | none => (addPairs [] s.pairs).map fun sub => es ++ [(s.path.leaf, .table form sub)]
    | some (.table .implied sub) =>
      (addPairs sub s.pairs).map fun sub => erase s.path.leaf.name es ++ [(s.path.leaf, .table form sub)]
    | _ => none

/-- A section under the path of its header; the tables on the way may be of any
form but inline. -/
def addHeaded (s : Headed) (place : Nat) : List Key → Entries → Option Entries
  | [], es => openTable s place es
  | k :: ks, es =>
    match find? k.name es with
    | none => (addHeaded s place ks []).map fun sub => es ++ [(k, .table .implied sub)]
    | some (.table (.inline ..) _) => none
    | some (.table form sub) =>
      (addHeaded s place ks sub).map fun sub => replace k.name (.table form sub) es
    | some (.tables elements) =>
      match elements.getLast? with
      | some (.table form sub) =>
        (addHeaded s place ks sub).map fun sub =>
          replace k.name (.tables (elements.dropLast ++ [.table form sub])) es
      | _ => none
    | _ => none

end Entries

def addAllHeaded : Nat → Entries → List Headed → Option Entries
  | _, es, [] => some es
  | place, es, s :: ss => do addAllHeaded (place + 1) (← Entries.addHeaded s place s.path.parents es) ss

def Document.ofLines? (ls : List Line) (tail : String) : Option Document := do
  let (pairs, rest) := headed ls
  let es ← addPairs [] pairs
  let es ← addAllHeaded 1 es rest
  some ⟨es, tail⟩

def Document.read? (text : String) : Option Document := do
  let cs := skipMark text.toList
  let (ls, tail) ← lines? (cs.length + 1) cs
  Document.ofLines? ls tail

end Broadcast.Toml
