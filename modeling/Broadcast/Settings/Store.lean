import Broadcast.Settings.Document
import Broadcast.Files.Tree
import Broadcast.Log.Record

/-!
# The settings store

Settings in memory and the file they are kept in. Loading reads the file and
completes it when something is missing; saving writes all sections; an update
writes one section and leaves the rest of the file as it is. Files are replaced
at once, so a failed write leaves the old file.
-/

namespace Broadcast

open Toml

/-- What is said about a text that cannot be used. The words are not those of the program but of whoever reads
documents for it, so they are left open; nothing but messages depends on them. -/
class Wording where
  malformed : String → String
  misfit : String → String

abbrev Wording.plain : Wording where
  malformed _ := "TOML parse error"
  misfit _ := "TOML parse error"

inductive ConfigError where
  | access (fault : Fault)
  /-- The text of the file is no document. -/
  | malformed (text : String)
  /-- It is one with a setting of the wrong kind. -/
  | misfit (text : String)
  deriving DecidableEq, Repr

namespace ConfigError

variable [Wording]

def cause : ConfigError → String
  | access fault => fault.text
  | malformed text => Wording.malformed text
  | misfit text => Wording.misfit text

def message (e : ConfigError) : String :=
  match e with
  | access _ => "Failed to read config file: " ++ e.cause
  | malformed _ => "Failed to parse config for editing: " ++ e.cause
  | misfit _ => "Failed to parse config: " ++ e.cause

end ConfigError

structure Store where
  path : String
  settings : Settings := {}

namespace Store

structure Result where
  store : Store
  files : Files
  log : List Record := []
  error? : Option ConfigError := none

def record (level : Level) (message : String) : Record :=
  ⟨level, "bct_core::config::manager", message, []⟩

def write (s : Store) (fs : Files) (text : String) : Files × Option ConfigError :=
  let (fs, fault) := fs.replace s.path text
  (fs, fault.map .access)

def save (s : Store) (fs : Files) : Result :=
  let (fs, error?) := s.write fs s.settings.document.text
  ⟨s, fs, [], error?⟩

def parse (text : String) : Except ConfigError (Document × Settings) :=
  match Document.read? text with
  | none => .error (.malformed text)
  | some d =>
    match Settings.ofValues? d.values with
    | none => .error (.misfit text)
    | some settings => .ok (d, settings)

def saveNoting (s : Store) (fs : Files) (before after : List Record) : Result :=
  let r := s.save fs
  { r with log := before ++ if r.error?.isNone then after else [] }

/-- The settings are read from the file. A missing file is made, an incomplete one
is written anew. -/
def load (s : Store) (fs : Files) : Result :=
  if fs.exists? s.path then
    match fs.readText s.path with
    | .error fault => ⟨s, fs, [], some (.access fault)⟩
    | .ok text =>
      match parse text with
      | .error e => ⟨s, fs, [], some e⟩
      | .ok (d, settings) =>
        let loaded : Store := { s with settings := settings }
        if d.isComplete then ⟨loaded, fs, [], none⟩
        else loaded.saveNoting fs [record .info ("Rewriting " ++ s.path)] []
  else
    Store.saveNoting { s with settings := {} } fs [] [record .info ("Created default config at " ++ s.path)]

/-- The document in the file; there is none yet when the file is missing or empty. -/
def current (s : Store) (fs : Files) : Except ConfigError Document :=
  if fs.exists? s.path then
    match fs.readText s.path with
    | .error fault => .error (.access fault)
    | .ok "" => .ok {}
    | .ok text =>
      match Document.read? text with
      | some d => .ok d
      | none => .error (.malformed text)
  else .ok {}

/-- One section of the file is written anew, the rest stays as it is. -/
def update (s : Store) (x : Section) (fs : Files) : Result :=
  match s.current fs with
  | .error e => ⟨s, fs, [], some e⟩
  | .ok d =>
    match s.write fs (d.setTable x.name (s.settings.pairs x)).text with
    | (fs, some e) => ⟨s, fs, [], some e⟩
    | (fs, none) => ⟨s, fs, [record .debug ("Updated [" ++ x.name ++ "] in " ++ s.path)], none⟩

def ensureLogs (s : Store) (fs : Files) : Result :=
  if fs.exists? s.settings.paths.logs then ⟨s, fs, [], none⟩
  else
    let (fs, fault) := fs.makeDirectories s.settings.paths.logs
    ⟨s, fs, [], fault.map .access⟩

end Store

end Broadcast
