import Broadcast.Session.Basic

/-!
# What messages do

A refused edit and a failed order leave the state as it was and one line in the
session log. A header that was chosen is read before anything changes; the names
are exchanged even when its path cannot be saved afterwards.
-/

namespace Broadcast.Session

variable [Wording]

def editNote? (s : State) : Edit → Option String
  | .group id (.preset name) =>
    some (id.name ++ " preset: " ++ name ++ " (" ++ (if (s.view id).custom then "custom" else "catalog") ++ ")")
  | .group id (.subgroupCount n) => some (id.name ++ " subgroups: " ++ Nat.repr n.toNat)
  | _ => none

def edit (s : Session) (e : Edit) : Session :=
  match s.state.apply e with
  | .error err => s.note .warn err.message
  | .ok c =>
    let s := { s with state := c.state }
    match editNote? c.state c.outcome.stored with
    | some message => s.note .info message
    | none => s

def start (s : Session) : Session :=
  let order := s.state.startOrder
  if !order.isReady then s.note .warn "Select a preset for BIG0 before starting the broadcast"
  else
    match s.channel with
    | none => s.note .warn "No device connected; start command not sent"
    | some c =>
      let sent := c.send order
      let s := { s with channel := some sent.channel }
      match sent.error? with
      | none => s.note .info ("Broadcast started with preset " ++ order.preset)
      | some e => s.note .error e.message

def adopt (s : Session) (v : Vocabulary) (path : String) : Session :=
  { s.note .info ("Loaded " ++ Nat.repr v.presets.length ++ " presets, " ++ Nat.repr v.contexts.length ++
      " contexts from " ++ path) with
    state := s.state.setVocabulary v
    store := { s.store with settings := { s.store.settings with
      paths := { s.store.settings.paths with header := path } } } }

def savePaths (s : Session) : Session :=
  let r := s.store.update .paths s.files
  let s := { s with store := r.store, files := r.files }
  match r.error? with
  | none => s
  | some e => s.note .warn ("Failed to save header path: " ++ e.message)

def chooseHeader (s : Session) (path : String) : Session :=
  match (Vocabulary.load s.files path).1 with
  | .error e => s.note .warn e.message
  | .ok v => (s.adopt v path).savePaths

def update (s : Session) : Message → Session
  | .showTab t => { s with tab := t }
  | .edit e => s.edit e
  | .start => s.start
  | .browse => s
  | .headerChosen none => s
  | .headerChosen (some path) => s.chooseHeader path

def run (s : Session) (ms : List Message) : Session := ms.foldl update s

end Broadcast.Session
