import EntityDiagram.Command.Run
import EntityDiagram.Statement.Grammar
import EntityDiagram.Toml.Printer

/-!
# `EntityDiagram.Main`: the program

Reads the command line, carries the plan out on the files of the disk, prints the report and exits
with its status.
-/

set_option autoImplicit false

namespace EntityDiagram.Command

/-- The error of a file as the plan knows it. -/
def FileError.ofError : IO.Error → FileError
  | .noFileOrDirectory _ code description
  | .permissionDenied (some _) code description
  | .inappropriateType (some _) code description => .system code.toNat description
  | .otherError code description => .system code.toNat description
  | _ => .notText

/-- The files in a folder and below, each as a list of names that follow `names`. -/
partial def filesBelow (folder : String) (names : List String) : IO (List (List String)) := do
  let place := (← IO.currentDir) / folder
  let mut files := []
  for entry in ← place.readDir do
    let below := names ++ [entry.fileName]
    if ← entry.path.isDir then
      files := files ++ (← filesBelow (folder ++ "/" ++ entry.fileName) below)
    else
      files := files ++ [below]
  return files

/-- What is at a path on the disk. -/
def sightOnDisk (path : String) : IO Sighting := do
  let place := (← IO.currentDir) / path
  if ← place.isDir then return .folder (← filesBelow path [])
  try
    return .file (← IO.FS.readFile path)
  catch e =>
    let reason := FileError.ofError e
    return if ← place.pathExists then .unreadable reason else .missing reason

/-- Carries out a plan on the files of the disk. -/
def Plan.perform {α : Type} : Plan α → IO α
  | .done a => return a
  | .look path resume => do perform (resume (← sightOnDisk path))
  | .write path text resume => do
    let failure ← try
      IO.FS.writeFile path text
      pure none
    catch e => pure (some (FileError.ofError e))
    perform (resume failure)

end EntityDiagram.Command

/-- The program. -/
def main (words : List String) : IO UInt32 := do
  let plan := EntityDiagram.Command.run EntityDiagram.Statement.read EntityDiagram.Toml.format words
  let report ← plan.perform
  for line in report.notes do
    IO.eprintln line
  IO.print report.output
  return report.status.toUInt32
