import Broadcast.Session.View
import Broadcast.Startup

/-!
# The command

Looks at the files and ports that starting the program depends on, starts it,
and puts the changes back. Instead of a window it prints what the first tab
shows. The date for the name of the log file is the first argument.
-/

namespace Broadcast.Outside

/-- The files with what is really at a path. -/
def look (fs : Files) (path : String) : IO Files := do
  let real := (← IO.currentDir) / path
  if ← real.isDir then return (fs.makeDirectories path).1
  else if ← real.pathExists then return (fs.writeWithParents path (← IO.FS.readBinFile real)).1
  else return fs

def workingDirectory : IO Files := do
  let here := Path.steps (← IO.currentDir).toString
  let above := (List.range here.length).map fun n => (here.take (n + 1), Entry.directory)
  return ⟨above, here, []⟩

def ports : IO (List String) := do
  let devices := (← IO.currentDir) / "/dev"
  let names := (← devices.readDir).toList.map fun e => e.fileName
  return (names.filter fun n => n.startsWith "ttyACM" || n.startsWith "ttyUSB").map fun n => "/dev/" ++ n

def realPath (loc : Location) : String := "/" ++ String.intercalate "/" loc

/-- Every entry that has changed is made anew, and files that have gone are removed. -/
def putBack (before after : Files) : IO Unit := do
  for (loc, entry) in after.entries.reverse do
    if before.get? loc != some entry then
      match entry with
      | .file bytes => IO.FS.writeBinFile (realPath loc) bytes
      | .directory => IO.FS.createDirAll (realPath loc)
      | .terminal => pure ()
  for (loc, _) in before.entries do
    if (after.get? loc).isNone then IO.FS.removeFile (realPath loc)

end Broadcast.Outside

open Broadcast Outside in
def main (args : List String) : IO UInt32 := do
  let config := Settings.standardPath
  let fs ← [config, Files.temporary config].foldlM look (← workingDirectory)
  let settings := (Store.load ⟨config, {}⟩ fs).store.settings
  let date := args.headD "log"
  let logFile := Startup.inFolder settings.paths.logs (logFilePrefix ++ "." ++ date)
  let fs ← [settings.paths.header, settings.paths.logs, logFile].foldlM look fs
  let machine : Machine := ⟨.ok (← ports), fun _ _ => .ok {}⟩
  let launch := @Startup.run .plain ⟨fs, machine, ← IO.getEnv "RUST_LOG", date⟩
  putBack fs launch.files
  (← IO.getStderr).putStr launch.printed
  for record in launch.log do
    IO.println record.line
  match launch.ending with
  | .window session =>
    session.shown.forM IO.println
    return 0
  | .failed _ => return 1
  | .panicked => return 101
