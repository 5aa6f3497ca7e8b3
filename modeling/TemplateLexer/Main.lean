import TemplateLexer.Command.Run
import Std.Time.DateTime.Timestamp

/-!
# The program

The program gathers what a run can see (the arguments, the logging variable, the template, the log
file and the time), does the run, and puts its effects into the world.
-/

namespace TemplateLexer.Program

open Log

/-- The bytes of a text of the outside world. -/
def bytesOf (text : String) : Bytes := text.toUTF8.data.toList

/-- The text of bytes that came from the outside world. -/
def textOf (bytes : Bytes) : String := (String.fromUTF8? ⟨bytes.toArray⟩).getD ""

/-- The time of day, in universal time, of a number of milliseconds since the epoch. -/
def clockOf (millis : Nat) : TimeOfDay :=
  { hour := millis / 3600000 % 24
    minute := millis / 60000 % 60
    second := millis / 1000 % 60
    milli := millis % 1000 }

/-- The content of a file, if it can be read. -/
def readFile? (name : Bytes) : IO (Option Bytes) := do
  try
    let content ← IO.FS.readBinFile (textOf name)
    return some content.data.toList
  catch _ => return none

/-- Makes sure that a file exists, if it can be written. -/
def touchFile (name : Bytes) : IO Bool := do
  try
    let _ ← IO.FS.Handle.mk (textOf name) .append
    return true
  catch _ => return false

/-- Can what the text names be opened for reading? -/
def canOpen (name : Bytes) : IO Bool := do
  try
    let _ ← IO.FS.Handle.mk (textOf name) .read
    return true
  catch _ => return false

/-- The files with what the text names in the outside world, if it can be opened. Where nothing can be
read from it, it is a folder. -/
def addNamed (files : Files) (name : Bytes) : IO Files := do
  match ← readFile? name with
  | some content =>
    return ((Path.parse? name).map fun path => files.write path content).getD files
  | none =>
    match Folder.parse? name, ← canOpen name with
    | some folder, true => return { files with lockedFolders := folder :: files.lockedFolders }
    | _, _ => return files

end TemplateLexer.Program

open TemplateLexer TemplateLexer.Log TemplateLexer.Program in
/-- Runs the program with its command-line arguments. -/
def main (arguments : List String) : IO UInt32 := do
  let args := arguments.map bytesOf
  let environment := (← IO.getEnv "HBS_LOG").map bytesOf
  let millis := (← Std.Time.Timestamp.now).toMillisecondsSinceUnixEpoch.toInt
  let logFile := (Config.ofArguments args environment).file
  let logs := !logFile.isEmpty && (← touchFile logFile)
  let files : Files := { folders := [] }
  let files ← if logs then addNamed files logFile else pure files
  let files ←
    match Command.Arguments.parse (args.drop 1) with
    | .ok a => addNamed files a.path
    | .error _ => pure files
  let host : Host := { files, now := { clock := clockOf millis.toNat, epochMillis := millis } }
  let (code, after) := Command.run { host } args environment
  let after := after.clearSinks
  if logs then
    IO.FS.writeBinFile (textOf logFile) ⟨((after.host.files.load? logFile).getD []).toArray⟩
  let out ← IO.getStdout
  out.write ⟨after.host.stdout⟩
  out.flush
  let err ← IO.getStderr
  err.write ⟨after.host.stderr⟩
  err.flush
  return code.toUInt32
