import Broadcast.Problem

/-!
# Sessions

A session is everything the window shows and works on: the settings and the
files, the state of both groups, the channel to the device if there is one, the
tab in front, and the session log. The log only ever grows at its end.
-/

namespace Broadcast

inductive Tab where
  | overview
  | group (id : GroupId)
  deriving DecidableEq, Repr

namespace Tab

def all : List Tab := overview :: GroupId.all.map group

def label : Tab → String
  | overview => "Overview"
  | group id => id.name

def ofLabel? (s : String) : Option Tab :=
  all.find? fun t => t.label == s

end Tab

/-- A line of the session log. The lines a session starts with have no level. -/
structure Note where
  level? : Option Level
  message : String
  deriving DecidableEq, Repr

def Note.text (n : Note) : String :=
  match n.level? with
  | none => n.message
  | some l => l.label ++ " - " ++ n.message

inductive Message where
  | showTab (t : Tab)
  | edit (e : Edit)
  | start
  | browse
  /-- The header that was found, or nothing when the search was given up. Paths are taken to be in UTF-8. -/
  | headerChosen (path : Option String)
  deriving DecidableEq, Repr

structure Session where
  store : Store
  files : Files
  state : State
  channel : Option Channel
  tab : Tab := .overview
  notes : List Note := []

namespace Session

def opened (store : Store) (files : Files) (state : State) (channel : Option Channel) (greeting : String) :
    Session where
  store := store
  files := files
  state := state
  channel := channel
  notes := (lines greeting.toList).map fun l => ⟨none, String.ofList l⟩

def note (s : Session) (l : Level) (message : String) : Session :=
  { s with notes := s.notes ++ [⟨some l, message⟩] }

def headerPath (s : Session) : String := s.store.settings.paths.header

def port? (s : Session) : Option String := s.channel.map Channel.port

end Session

end Broadcast
