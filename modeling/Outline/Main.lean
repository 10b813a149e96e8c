import Outline.CommandLine.Run
import Outline.Store.Image

/-!
# The program

Reads the settings and the tables that a command line asks for, runs it, and writes back what
changed.
-/

namespace Outline.CommandLine

/-- The content of a file; `none` if it cannot be read. -/
def readFile? (path : String) : IO (Option String) := do
  try
    return some (← IO.FS.readFile path)
  catch _ =>
    return none

/-- Writes a file together with the directories that lead to it. -/
def writeFile (path content : String) : IO Unit := do
  let directory := String.ofList (path.toList.reverse.dropWhile (· ≠ '/')).reverse
  if !directory.isEmpty then
    IO.FS.createDirAll directory
  IO.FS.writeFile path content

/-- The directory that the environment gives by a name, or the usual one below the home
directory. -/
def directory (name usual : String) : IO String := do
  match ← IO.getEnv name with
  | some path => return path
  | none => return (← IO.getEnv "HOME").getD "" ++ usual

/-- The files as a run finds them. -/
def findHost (args : List String) : IO Host := do
  let settingsPath := (← directory "XDG_CONFIG_HOME" "/.config") ++ "/arrange/config.json"
  let defaultDatabase := (← directory "XDG_DATA_HOME" "/.local/share") ++ "/arrange/arrange.db"
  let host : Host := { settingsPath, settings := ← readFile? settingsPath, defaultDatabase }
  let some invocation := Invocation.ofArguments? args | return host
  let path := host.databasePath invocation
  let some db := (← readFile? path).bind Store.Database.ofImage? | return host
  return host.withDatabase path db

/-- Writes what a run leaves. -/
def keep (before after : Host) : IO Unit := do
  if let some content := after.settings then
    if before.settings ≠ some content then
      writeFile after.settingsPath content
  for (path, db) in after.databases do
    writeFile path db.image

end Outline.CommandLine

/-- Runs the program once. -/
def main (args : List String) : IO UInt32 := do
  let host ← Outline.CommandLine.findHost args
  let supply : Outline.CommandLine.Supply :=
    { fresh := .ofRandom (← IO.rand 0 (Nat.pow 2 122 - 1))
      stamp := toString (← IO.monoNanosNow) }
  let (outcome, left) := host.run supply args
  Outline.CommandLine.keep host left
  IO.print outcome.stdout
  IO.eprint outcome.stderr
  return outcome.code.toUInt32
