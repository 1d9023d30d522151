import Broadcast.Device.Machine
import Broadcast.Log.Filter
import Broadcast.Session.Basic

/-!
# Starting the program

From an empty screen to the window: the settings are read, the log file is
opened, the names are read from the header, and the device is looked for. Only a
log file that cannot be made and a device that is required but missing end the
program before there is a window.
-/

namespace Broadcast

def version : String := "0.1.0"

def logFilePrefix : String := "bct.log"

structure Surroundings where
  files : Files
  machine : Machine
  filter : Option String := none
  date : String

inductive Ending where
  | window (s : Session)
  | failed (p : Problem)
  | panicked

structure Launch where
  ending : Ending
  files : Files
  printed : String
  log : List Record
  requests : List Request := []

namespace Startup

variable [Wording]

def record (level : Level) (message : String) : Record := ⟨level, "broadcast_config_tool", message, []⟩

def warnings (config logs : Option ConfigError) : String :=
  config.elim "" (fun e => "Warning: Failed to load config: " ++ e.message ++ ". Using defaults.\n") ++
    logs.elim "" fun e => "Warning: Failed to create logs folder: " ++ e.message ++ "\n"

def inFolder (folder name : String) : String :=
  if folder = "" || Path.isOpen folder then folder ++ name else folder ++ "/" ++ name

def openFile (fs : Files) (path : String) : Except Fault Files :=
  match fs.readBytes path with
  | .ok bytes => fs.write path bytes
  | .error _ => fs.write path .empty

/-- The log file is opened; if that fails, once more after its folder was made. -/
def openLog (fs : Files) (path : String) : Except Fault Files :=
  match openFile fs path with
  | .ok fs => .ok fs
  | .error _ =>
    match fs.makeParents path with
    | (_, some e) => .error e
    | (fs, none) => openFile fs path

def connect (d : DeviceSettings) (m : Machine) : Connection :=
  if d.connect then
    let c := m.connect d.baud
    match c.outcome with
    | .error e => { c with log := c.log ++ [record .error e.message] }
    | .ok _ => c
  else ⟨.ok none, [], [record .info "Device connection disabled in config"]⟩

def hanging (text : String) : String :=
  String.intercalate "\n       " ((fields '\n' text.toList).map String.ofList)

def report (p : Problem) : String :=
  let causes := (p.message :: p.chain).zipIdx.map fun (text, n) => "    " ++ Nat.repr n ++ ": " ++ hanging text ++ "\n"
  "Error: Cannot start without a serial device\n\nCaused by:\n" ++ String.join causes

def greeting (s : Settings) : String :=
  "Broadcast Configuration Tool started.\nCore version: " ++ version ++ "\nHeader: " ++ s.paths.header ++
    "\nLogs: " ++ s.paths.logs

def proceed (around : Surroundings) (store : Store) (fs : Files) (printed : String) : Launch :=
  let settings := store.settings
  let (names, headerLog) := Vocabulary.loadOrBuiltIn fs settings.paths.header
  let connection := connect settings.device around.machine
  let filter := Filter.choose around.filter settings.logging.level
  let log := [ record .info "Broadcast Configuration Tool starting", record .info ("Config: " ++ store.path),
    record .info ("Core version: " ++ version) ] ++ headerLog ++ connection.log
  match connection.outcome with
  | .error e => ⟨.failed (.device e), fs, printed ++ report (.device e), log.filter filter.passes, connection.requests⟩
  | .ok channel =>
    let ready := record .info "Application initialized, starting iced event loop"
    ⟨.window (.opened store fs ⟨names, ⟨{}, {}⟩, ⟨0, 0⟩⟩ channel (greeting settings)), fs, printed,
      (log ++ [ready]).filter filter.passes, connection.requests⟩

def run (around : Surroundings) : Launch :=
  let loaded := Store.load ⟨Settings.standardPath, {}⟩ around.files
  let folder := loaded.store.ensureLogs loaded.files
  let printed := warnings loaded.error? folder.error?
  let path := inFolder loaded.store.settings.paths.logs (logFilePrefix ++ "." ++ around.date)
  match openLog folder.files path with
  | .error _ => ⟨.panicked, folder.files, printed, [], []⟩
  | .ok fs => proceed around loaded.store fs printed

end Startup

end Broadcast
