import Broadcast.Header.Scan
import Broadcast.Preset.Catalog
import Broadcast.Files.Tree

/-!
# Vocabularies

The names a user chooses from. Each list begins with the name for no choice;
the presets go on with the one for a custom preset. Without a header the catalog
supplies the presets, and there is nothing else to choose.
-/

namespace Broadcast

structure Vocabulary where
  presets : List String
  contexts : List String
  locations : List String
  deriving DecidableEq, Repr

inductive HeaderError where
  | unreadable (path : String) (fault : Fault)
  deriving DecidableEq, Repr

namespace HeaderError

def message : HeaderError → String
  | unreadable path fault => "Failed to read header " ++ path ++ ": " ++ fault.text

def cause? : HeaderError → Option String
  | unreadable _ fault => some fault.text

end HeaderError

namespace Vocabulary

def ofText (text : String) : Vocabulary where
  presets := notSet :: customName :: Category.preset.names text
  contexts := notSet :: Category.context.names text
  locations := notSet :: Category.location.names text

def reports (text : String) : List Record :=
  Category.all.flatMap fun c => c.reports text

def builtIn : Vocabulary where
  presets := notSet :: customName :: Preset.catalogNames.filter fun s => s != notSet
  contexts := [notSet]
  locations := [notSet]

def loaded (v : Vocabulary) (path : String) : Record :=
  ⟨.debug, "bct_core::presets::extract", "Loaded names from " ++ path,
    [("presets", Nat.repr v.presets.length), ("contexts", Nat.repr v.contexts.length),
      ("locations", Nat.repr v.locations.length)]⟩

def load (fs : Files) (path : String) : Except HeaderError Vocabulary × List Record :=
  match fs.readText path with
  | .error fault => (.error (.unreadable path fault), [])
  | .ok text =>
    let v := ofText text
    (.ok v, reports text ++ [v.loaded path])

def loadOrBuiltIn (fs : Files) (path : String) : Vocabulary × List Record :=
  match load fs path with
  | (.ok v, log) => (v, log)
  | (.error e, log) =>
    (builtIn, log ++ [⟨.warn, "bct_core::presets::extract", e.message ++ "; using built-in preset names", []⟩])

end Vocabulary

end Broadcast
