import Broadcast.Log.Record
import Broadcast.Text.Fields

/-!
# Log filters

A filter is a list of directives. A directive gives a level to the places whose
name begins with its target; one without a target counts everywhere. For each
place the longest target decides, and of two equal ones the later.
-/

namespace Broadcast

/-- How much passes: everything down to a level, or nothing. -/
abbrev Limit := Option Level

structure Directive where
  target : String := ""
  limit : Limit
  deriving DecidableEq, Repr

abbrev Filter := List Directive

namespace Filter

def ofLevel (l : Level) : Filter := [⟨"", some l⟩]

/-! ## Reading -/

def isBlank (c : Char) : Bool :=
  let n := c.toNat
  (9 ≤ n && n ≤ 13) || n = 0x20 || n = 0x85 || n = 0xA0 || n = 0x1680 || (0x2000 ≤ n && n ≤ 0x200A) ||
    n = 0x2028 || n = 0x2029 || n = 0x202F || n = 0x205F || n = 0x3000

def trimmed (cs : List Char) : List Char :=
  ((cs.dropWhile isBlank).reverse.dropWhile isBlank).reverse

def limits : List Limit := [none, some .error, some .warn, some .info, some .debug, some .trace]

def number? (cs : List Char) : Option Nat :=
  let digits := if cs.head? = some '+' then cs.drop 1 else cs
  if digits.isEmpty || !digits.all Char.isDigit then none
  else some (digits.foldl (fun n c => 10 * n + (c.toNat - '0'.toNat)) 0)

def limit? (cs : List Char) : Option Limit :=
  match number? cs with
  | some n => limits[n]?
  | none =>
    let word := String.ofList (cs.map Char.toLower)
    if word = "off" then some none else (Level.ofWord? word).map some

def opens (c : Char) : Bool := c.isAlphanum || c = '-' || c = ':' || c = '_' || 0x80 ≤ c.toNat

/-- One directive: a limit, a target, or a target with its limit behind an equals
sign. A target alone lets everything pass, and so does an empty limit. -/
def directive? (cs : List Char) : Option Directive :=
  let body := trimmed cs
  if !body.head?.any opens then none
  else if body.contains '=' then
    let n := (body.takeWhile fun c => c != '=').length
    let level := cs.drop (n + 1)
    (if level.isEmpty then some (some .trace) else limit? level).map fun l => ⟨String.ofList (cs.take n), l⟩
  else
    match limit? cs with
    | some l => some ⟨"", l⟩
    | none => some ⟨String.ofList cs, some .trace⟩

def read? (text : String) : Option Filter :=
  ((fields ',' text.toList).filter fun d => !d.isEmpty).mapM directive?

/-! ## Deciding -/

/-- The longer of two directives, the second one if they are equally long. -/
def stronger (best : Option Directive) (d : Directive) : Option Directive :=
  match best with
  | some b => if b.target.utf8ByteSize ≤ d.target.utf8ByteSize then some d else best
  | none => some d

def deciding? (f : Filter) (place : String) : Option Directive :=
  (f.filter fun d => d.target.toList.isPrefixOf place.toList).foldl stronger none

def passes (f : Filter) (r : Record) : Bool :=
  match (f.deciding? r.target).bind Directive.limit with
  | some l => r.isAtLeast l
  | none => false

def choose (request : Option String) (configured : Level) : Filter :=
  (request.bind read?).getD (ofLevel configured)

end Filter

end Broadcast
