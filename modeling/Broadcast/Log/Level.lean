/-!
# Log levels

Levels are ordered from the most talkative to the most severe.
-/

namespace Broadcast

inductive Level where
  | trace
  | debug
  | info
  | warn
  | error
  deriving DecidableEq, Repr, Inhabited

namespace Level

def all : List Level := [trace, debug, info, warn, error]

def standard : Level := info

def rank : Level → Nat
  | trace => 0
  | debug => 1
  | info => 2
  | warn => 3
  | error => 4

instance : Ord Level := ⟨fun a b => compare a.rank b.rank⟩

/-- The word for a level in configuration files and filters. -/
def word : Level → String
  | trace => "trace"
  | debug => "debug"
  | info => "info"
  | warn => "warn"
  | error => "error"

/-- The name of a level in the log file. -/
def name : Level → String
  | trace => "TRACE"
  | debug => "DEBUG"
  | info => "INFO"
  | warn => "WARN"
  | error => "ERROR"

/-- The name of a level in the session log that the user sees. -/
def label : Level → String
  | trace => "TRACE"
  | debug => "DEBUG"
  | info => "INFO"
  | warn => "WARNING"
  | error => "ERROR"

def ofWord? (w : String) : Option Level :=
  all.find? fun l => l.word == w

theorem ofWord?_word (l : Level) : ofWord? l.word = some l := by
  cases l <;> rfl

theorem word_of_ofWord? {w : String} {l : Level} (h : ofWord? w = some l) : w = l.word := by
  have h := List.find?_some h
  simp only [beq_iff_eq] at h
  exact h.symm

end Level

end Broadcast
