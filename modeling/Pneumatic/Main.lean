import Pneumatic.CommandLine.Execution

/-!
# The program

Reads the files that an invocation may look at, carries it out, and writes back what
it changed.  A service answers lines as they come, and its runs go on with the clock.
-/

namespace Pneumatic.CommandLine

/-- A tree without files, in which paths begin in the current folder. -/
def emptyTree : IO Store.Tree := do
  return .within (Store.Path.ofText (← IO.currentDir).toString).names

/-- Read a file, and the folders on the way to it, into a tree of files. -/
def readFile (path : Store.Path) (tree : Store.Tree) : IO Store.Tree := do
  let here ← IO.currentDir
  let mut tree := tree
  for folder in path.chain.tail.reverse do
    if ← (here / folder.text).isDir then
      tree := (tree.makeFolder folder).toOption.getD tree
  let entry? ← try
      pure (some (Store.Entry.file (← IO.FS.readFile path.text)))
    catch
      | .noFileOrDirectory .. => pure none
      | _ => pure (some .folder)
  match entry?, tree.room path with
  | some entry, .ok place => return tree.put place entry
  | _, _ => return tree

/-- The files that an invocation reads. -/
def filesOf (invocation : Invocation) : List Store.Path :=
  let settings := Store.settingsPath (.ofText invocation.root)
  match invocation.task with
  | .init | .simulate _ _ | .serve => [settings]
  | .compile _ _ project _ _ | .components _ project => project.toList.map Store.Path.ofText
  | .validate _ => []

/-- Write what changed among the files. -/
def writeChanges (before after : Store.Tree) : IO Unit := do
  for (place, entry) in after.entries do
    if before.at? place != some entry then
      let path : Store.Path := ⟨"" :: place⟩
      match entry with
      | .folder => IO.FS.createDirAll path.text
      | .file text =>
          let draft := (path.withExtension "tmp").text
          IO.FS.writeFile draft text
          IO.FS.rename draft path.text

/-- A random number. -/
def randomNumber : IO UInt64 := do
  let bytes ← IO.getRandomBytes 8
  return bytes.toList.foldl (fun number byte => number * 256 + byte.toUInt64) 0

/-- Answer lines until the input ends. -/
partial def serveLines (settings : Run.Settings) (begun : Nat)
    (connection : Service.Connection Run.Plant) : IO Unit := do
  let line ← (← IO.getStdin).getLine
  if line.isEmpty then return
  let root := Store.Path.ofText settings.root
  let id := ((Service.Request.read? line).bind (·.text? "project_id")).getD ""
  let files ← match Store.projectPath root id with
    | .ok path => readFile path (← emptyTree)
    | .error _ => pure .empty
  let elapsed := (← IO.monoMsNow) - begun
  let schedule := connection.schedule.sleep Run.Plant.field (elapsed - connection.schedule.clock)
  let site := site settings (← randomNumber) files
  let (reply, connection) := { connection with schedule }.answer site line
  let output ← IO.getStdout
  for reply in reply do
    output.putStrLn reply.toJson.compact
    output.flush
  serveLines settings begun connection

/-- Carry out an invocation among the files of the system. -/
def perform (invocation : Invocation) : IO UInt32 := do
  let files ← (filesOf invocation).foldlM (fun files path => readFile path files)
    (← emptyTree)
  match invocation.task, usableSettings invocation.root files with
  | .serve, .ok settings =>
      serveLines settings (← IO.monoMsNow) (.new (freshSchedule settings))
      return 0
  | _, _ =>
      let outcome := invocation.execute "" (← randomNumber) files
      writeChanges files outcome.files
      IO.print outcome.output
      unless outcome.complaint.isEmpty do IO.eprintln outcome.complaint
      return outcome.code

end Pneumatic.CommandLine

open Pneumatic.CommandLine in
/-- Carry out what the arguments ask for. -/
def main (arguments : List String) : IO UInt32 := do
  match Invocation.read arguments with
  | .ok invocation =>
      try perform invocation
      catch error =>
        IO.eprintln (toString error)
        return 1
  | .error declined =>
      let outcome := execute arguments "" 0 .empty
      IO.print outcome.output
      if declined = .misuse then IO.eprint outcome.complaint
      return outcome.code
