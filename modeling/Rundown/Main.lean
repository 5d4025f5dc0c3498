import Rundown.Command.Run
import Rundown.Random.Identity
import Rundown.Storage.Content
import Std.Time.DateTime.Timestamp

/-!
# The command

Reads the words, the environment and the files that the command asks for, and
prints what it answers.  Everything that is decided is decided elsewhere.
-/

namespace Rundown.Command

/-- The text of a file, if it can be read. -/
def readText (path : String) : IO (Option String) := do
  try return some (← IO.FS.readFile path) catch _ => return none

/-- The database in a file. -/
def readDatabase (path : String) : IO DatabaseFile := do
  try
    match Storage.database? (← IO.FS.readBinFile path) with
    | some content => return .sound content
    | none => return .damaged
  catch
    | .noFileOrDirectory .. => return .missing
    | _ => return .closed

/-- How a file starts. -/
def readStart (path : String) : IO FileStart := do
  try
    let bytes ← (← IO.FS.Handle.mk path .read).read 1
    return if bytes.isEmpty then .empty else .byte (Storage.byteAt bytes 0)
  catch
    | .noFileOrDirectory .. => return .missing
    | _ => return .unreadable

/-- Make an empty file where there is none, if it can be made. -/
def makeFile (path : String) : IO Unit := do
  try let _ ← IO.FS.Handle.mk path .append catch _ => pure ()

/-- Follow a session with the files of the system. -/
def Session.perform {α : Type} : Session α → IO α
  | .done result => pure result
  | .askText path next => do (next (← readText path)).perform
  | .askDatabase path next => do (next (← readDatabase path)).perform
  | .askStart path next => do (next (← readStart path)).perform
  | .ensure path next => do
      makeFile path
      next.perform

/-- The directory of configuration files: the one that the environment names, or
else the usual one below the home directory. -/
def configDirectory : IO (Option String) := do
  match (← IO.getEnv "XDG_CONFIG_HOME").filter (·.startsWith "/") with
  | some directory => return some directory
  | none => return (← IO.getEnv "HOME").map (· ++ "/.config")

/-- The part of the environment that a command may ask for. -/
def readEnvironment : IO (List (String × String)) := do
  let found ← environmentNames.mapM fun name => do return (name, ← IO.getEnv name)
  return found.filterMap fun (name, value) => value.map (name, ·)

/-- A random seed. -/
def randomSeed : IO Nat := do
  return Storage.numberAt (← IO.getRandomBytes 8) 0 8

/-- What the system tells a command. -/
def readSurroundings : IO Surroundings := do
  let environment ← readEnvironment
  let directory ← configDirectory
  let now := (← Std.Time.Timestamp.now).toNanosecondsSinceUnixEpoch.toInt
  let order ← randomSeed
  let identities := Random.words (← randomSeed)
  return {
    environment := (List.lookup · environment)
    configDirectory := directory
    year := (Moment.date ⟨now / 1000000000, 0⟩).year
    clockSeed := (now / 1000).toNat
    order := .shuffled order
    identity := Random.identity identities }

end Rundown.Command

/-- Run the command. -/
def main (words : List String) : IO UInt32 := do
  let surroundings ← Rundown.Command.readSurroundings
  let outcome ← (Rundown.Command.run surroundings words).perform
  IO.print outcome.output
  match outcome.message with
  | some message => IO.eprintln ("Error: " ++ message)
  | none => pure ()
  return UInt32.ofNat outcome.code
