import Broadcast.Settings.Meaning
import Broadcast.Toml.Edit
import Broadcast.Toml.Reader

/-!
# Settings as a document

The document that a whole set of settings is written as, and the question
whether a document that was read is complete: it has the three sections as
tables with all their keys, and no other top-level key.
-/

namespace Broadcast

open Toml

namespace Settings

def pairs (s : Settings) : Section → List (String × Scalar)
  | .paths => [("structures_header", .string s.paths.header), ("logs_folder", .string s.paths.logs)]
  | .device => [("baud_rate", .integer s.device.baud.toNat), ("connect_on_startup", .boolean s.device.connect)]
  | .logging => [("level", .string s.logging.level.word)]

def remark : Section → String
  | .paths =>
    "# Broadcast Configuration Tool\n" ++
    "# This file is auto-generated. Comments may be preserved on section updates.\n\n" ++
    "# Firmware header and log locations\n"
  | .device => "\n# Serial device\n"
  | .logging => "\n# Logging (RUST_LOG overrides level)\n"

def sectionEntry (s : Settings) (place : Nat) (x : Section) : Key × Node :=
  (Key.bare x.name, .table (.header (some place) (some ⟨remark x, ""⟩)) (newEntries (s.pairs x)))

def document (s : Settings) : Document :=
  ⟨[s.sectionEntry 1 .paths, s.sectionEntry 2 .device, s.sectionEntry 3 .logging], "\n"⟩

end Settings

namespace Toml

def Node.openEntries? : Node → Option Entries
  | .table (.inline ..) _ => none
  | .table _ es => some es
  | _ => none

/-- Whether a section is a table that has all its keys. -/
def Document.hasSection (d : Document) (x : Section) : Bool :=
  match (Entries.find? x.name d.entries).bind Node.openEntries? with
  | some es => (({} : Settings).pairs x).all fun p => Entries.contains p.1 es
  | none => false

/-- Whether a document can stay as it is. -/
def Document.isComplete (d : Document) : Bool :=
  (d.entries.all fun e => Section.all.any fun x => x.name == e.1.name) && Section.all.all d.hasSection

end Toml

end Broadcast
