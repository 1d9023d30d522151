import Broadcast.Files.Path

/-!
# Files

A tree of files as a map from locations to entries. A path is followed step by
step, and every step but the last must lead into a directory. There are no links.

It is assumed of the machine that a single step that fails leaves the files as
they were. A file is replaced in many steps, and any of them can go wrong: what
will is written down in advance, so a statement about all trees is one about all
such mishaps. Directories made on the way stay, and so does a temporary file of
which only the first bytes were written.
-/

namespace Broadcast

abbrev Location := List String

local instance bytesDecidableEq : DecidableEq ByteArray := ByteArray.instDecidableEq

inductive Entry where
  | file (bytes : ByteArray)
  | directory
  | terminal
  deriving DecidableEq

/-- What goes wrong while a file is replaced. -/
inductive Mishap where
  /-- Only the first few directories on the way are made. -/
  | parents (made : Nat) (fault : Fault)
  | create (fault : Fault)
  /-- Only the first few bytes get into it. -/
  | write (written : Nat) (fault : Fault)
  | sync (fault : Fault)
  | move (fault : Fault)
  deriving DecidableEq, Repr

structure Files where
  entries : List (Location × Entry) := []
  here : Location := []
  /-- What goes wrong with the next replacements; with those after them nothing does. -/
  mishaps : List (Option Mishap) := []

namespace Files

theorem find?_filter_ne {loc other : Location} (h : other ≠ loc) (es : List (Location × Entry)) :
    (es.filter fun old => old.1 != loc).find? (fun e => e.1 == other) = es.find? fun e => e.1 == other := by
  induction es with
  | nil => rfl
  | cons e es ih =>
    by_cases he : e.1 = loc
    · have : ¬ e.1 = other := fun h' => h (h'.symm.trans he)
      simp [he, ih, h.symm]
    · simp only [bne_iff_ne, ne_eq, he, not_false_eq_true, List.filter_cons_of_pos, List.find?_cons]
      split <;> simp [ih]

def empty : Files := ⟨[(["work"], .directory)], ["work"], []⟩

def get? (fs : Files) (loc : Location) : Option Entry :=
  if loc = [] then some .directory else (fs.entries.find? fun e => e.1 == loc).map (·.2)

def put (fs : Files) (loc : Location) (e : Entry) : Files :=
  { fs with entries := (loc, e) :: fs.entries.filter fun old => old.1 != loc }

def erase (fs : Files) (loc : Location) : Files :=
  { fs with entries := fs.entries.filter fun old => old.1 != loc }

theorem get?_put (fs : Files) {loc : Location} (h : loc ≠ []) (e : Entry) : (fs.put loc e).get? loc = some e := by
  simp [get?, put, h]

theorem get?_put_of_ne (fs : Files) {loc other : Location} (h : other ≠ loc) (e : Entry) :
    (fs.put loc e).get? other = fs.get? other := by
  simp only [get?, put]
  split
  · rfl
  · rw [List.find?_cons_of_neg (by simpa using h.symm), find?_filter_ne h]

theorem get?_erase_of_ne (fs : Files) {loc other : Location} (h : other ≠ loc) :
    (fs.erase loc).get? other = fs.get? other := by
  simp only [get?, erase]
  split
  · rfl
  · rw [find?_filter_ne h]

/-! ## Following a path -/

inductive Place where
  | inside (loc : Location)
  | named (loc : Location)

def Place.loc : Place → Location
  | inside loc => loc
  | named loc => loc

def step (fs : Files) (loc : Location) (s : String) : Except Fault Place :=
  match fs.get? loc with
  | some .directory =>
    if s = "." then .ok (.inside loc)
    else if s = ".." then .ok (.inside loc.dropLast)
    else if 255 < s.utf8ByteSize then .error .nameTooLong
    else .ok (.named (loc ++ [s]))
  | some _ => .error .notADirectory
  | none => .error .notFound

def enter (fs : Files) (loc : Location) (s : String) : Except Fault Location := do
  let place ← fs.step loc s
  if (fs.get? place.loc).isSome then .ok place.loc else .error .notFound

def start (fs : Files) (path : String) : Location :=
  if Path.isAbsolute path then [] else fs.here

def locate (fs : Files) (path : String) : Except Fault Location := do
  Path.check path
  let loc ← (Path.steps path).foldlM fs.enter (fs.start path)
  if Path.isOpen path && fs.get? loc != some .directory then .error .notADirectory else .ok loc

/-- The place a path names in its directory, which must be there. -/
def place (fs : Files) (path : String) : Except Fault Place := do
  Path.check path
  match (Path.steps path).getLast? with
  | none => .ok (.inside [])
  | some last =>
    let loc ← (Path.steps path).dropLast.foldlM fs.enter (fs.start path)
    fs.step loc last

def find? (fs : Files) (path : String) : Option Entry :=
  match fs.locate path with
  | .ok loc => fs.get? loc
  | .error _ => none

def exists? (fs : Files) (path : String) : Bool := (fs.find? path).isSome

def isDirectory (fs : Files) (path : String) : Bool := fs.find? path = some .directory

/-! ## Reading -/

def readBytes (fs : Files) (path : String) : Except Fault ByteArray := do
  match fs.get? (← fs.locate path) with
  | some (.file bytes) => .ok bytes
  | some .directory => .error .isADirectory
  | some .terminal => .ok .empty
  | none => .error .notFound

def readText (fs : Files) (path : String) : Except Fault String := do
  match String.fromUTF8? (← fs.readBytes path) with
  | some text => .ok text
  | none => .error .notText

/-! ## Changing -/

def write (fs : Files) (path : String) (bytes : ByteArray) : Except Fault Files := do
  match ← fs.place path with
  | .inside _ => .error .isADirectory
  | .named loc =>
    if Path.isOpen path then .error .isADirectory
    else match fs.get? loc with
      | some .directory => .error .isADirectory
      | some .terminal => .ok fs
      | _ => .ok (fs.put loc (.file bytes))

def move (fs : Files) (source target : String) : Except Fault Files := do
  let source ← fs.place source
  let place ← fs.place target
  match source, place with
  | .named old, .named new =>
    match fs.get? old with
    | none => .error .notFound
    | some entry =>
      if Path.isOpen target then .error .notADirectory
      else if fs.get? new = some .directory then .error .isADirectory
      else .ok ((fs.erase old).put new entry)
  | _, _ => .error .busy

def remove (fs : Files) (path : String) : Except Fault Files := do
  match ← fs.place path with
  | .inside _ => .error .isADirectory
  | .named loc =>
    match fs.get? loc with
    | none => .error .notFound
    | some .directory => .error .isADirectory
    | some _ => if Path.isOpen path then .error .notADirectory else .ok (fs.erase loc)

def makeDirectory (fs : Files) (path : String) : Except Fault Files := do
  match ← fs.place path with
  | .inside _ => .error .alreadyExists
  | .named loc => if (fs.get? loc).isSome then .error .alreadyExists else .ok (fs.put loc .directory)

def ensureDirectory (fs : Files) (path : String) : Except Fault Files :=
  match fs.makeDirectory path with
  | .ok fs => .ok fs
  | .error e => if fs.isDirectory path then .ok fs else .error e

/-- The directories along the parts of a path, given from the last part on, the
outermost made first. -/
def makeParts (fs : Files) (absolute : Bool) : List String → Files × Option Fault
  | [] => (fs, none)
  | last :: before => attempt fs (Path.ofParts absolute (last :: before).reverse) (makeParts fs absolute before)
where
  attempt (fs : Files) (path : String) (before : Files × Option Fault) : Files × Option Fault :=
    match fs.ensureDirectory path with
    | .ok made => (made, none)
    | .error .notFound =>
      match before with
      | (fs, some e) => (fs, some e)
      | (fs, none) =>
        match fs.ensureDirectory path with
        | .ok made => (made, none)
        | .error e => (fs, some e)
    | .error e => (fs, some e)

def makeDirectories (fs : Files) (path : String) : Files × Option Fault :=
  if path = "" then (fs, none)
  else makeParts.attempt fs path (fs.makeParts (Path.isAbsolute path) (Path.parts path).reverse.tail)

def makeParents (fs : Files) (path : String) : Files × Option Fault :=
  match Path.parent? path with
  | some parent => fs.makeDirectories parent
  | none => (fs, none)

def writeWithParents (fs : Files) (path : String) (bytes : ByteArray) : Files × Option Fault :=
  match fs.makeParents path with
  | (fs, some e) => (fs, some e)
  | (fs, none) =>
    match fs.write path bytes with
    | .ok fs => (fs, none)
    | .error e => (fs, some e)

def addTerminal (fs : Files) (path : String) : Files × Option Fault :=
  match fs.makeParents path with
  | (fs, some e) => (fs, some e)
  | (fs, none) =>
    match fs.place path with
    | .ok place => (fs.put place.loc .terminal, none)
    | .error e => (fs, some e)

/-- The path beside another one where its new content is written first. -/
def temporary (path : String) : String := Path.withExtension "toml.tmp" path

/-- Written content is brought to the disk, but there is no disk behind a terminal. -/
def sync (fs : Files) (path : String) : Option Fault :=
  if fs.find? path = some .terminal then some .invalidArgument else none

/-! ## Replacing a file -/

def hasParent (fs : Files) (path : String) : Bool :=
  match Path.parent? path with
  | some parent => parent = "" || fs.isDirectory parent
  | none => true

def makeParentsAmid (m? : Option Mishap) (fs : Files) (path : String) : Files × Option Fault :=
  match m? with
  | some (.parents made e) =>
    match fs.makeParts (Path.isAbsolute path) ((Path.parts path).dropLast.take made).reverse with
    | (fs, some e) => (fs, some e)
    | (fs, none) => (fs, if fs.hasParent path then none else some e)
  | _ => fs.makeParents path

def writeAmid (m? : Option Mishap) (fs : Files) (path : String) (bytes : ByteArray) : Files × Option Fault :=
  match m? with
  | some (.create e) => (fs, some e)
  | some (.write written e) =>
    match fs.write path (bytes.extract 0 written) with
    | .ok fs => (fs, if written < bytes.size then some e else none)
    | .error e => (fs, some e)
  | _ =>
    match fs.write path bytes with
    | .ok fs => (fs, none)
    | .error e => (fs, some e)

def syncAmid (m? : Option Mishap) (fs : Files) (path : String) : Option Fault :=
  match m? with
  | some (.sync e) => some e
  | _ => fs.sync path

def moveAmid (m? : Option Mishap) (fs : Files) (source target : String) : Except Fault Files :=
  match m? with
  | some (.move e) => .error e
  | _ => fs.move source target

def replaceAmid (m? : Option Mishap) (fs : Files) (path content : String) : Files × Option Fault :=
  match fs.makeParentsAmid m? path with
  | (fs, some e) => (fs, some e)
  | (fs, none) =>
    match fs.writeAmid m? (temporary path) content.toUTF8 with
    | (written, some e) => (written, some e)
    | (written, none) =>
      match written.syncAmid m? (temporary path) with
      | some e => (written, some e)
      | none =>
        match written.moveAmid m? (temporary path) path with
        | .error e => (written, some e)
        | .ok moved => (moved, none)

def nextMishap? (fs : Files) : Option Mishap := fs.mishaps.head?.getD none

/-- New content for a file at once: it is written beside the file and then moved. -/
def replace (fs : Files) (path content : String) : Files × Option Fault :=
  replaceAmid fs.nextMishap? { fs with mishaps := fs.mishaps.tail } path content

/-! ## Listing -/

def listing (fs : Files) : List String :=
  let below := fs.entries.filterMap fun (loc, e) =>
    if fs.here.isPrefixOf loc && loc != fs.here then some (loc.drop fs.here.length, e) else none
  let before (a b : Location) : Bool := List.lex a b fun s t => decide (s < t)
  (below.mergeSort fun a b => !before b.1 a.1).map fun (loc, e) =>
    String.intercalate "/" loc ++ (if e = .directory then "/" else "")

end Files

end Broadcast
