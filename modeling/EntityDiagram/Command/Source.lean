import EntityDiagram.Command.Plan
import EntityDiagram.Text.Casing

/-!
# `EntityDiagram.Command.Source`: the script that a path stands for

A file stands for its text. A folder stands for the texts of all SQL files in it and below, one
after the other in the order of their paths and each followed by a line feed, so that no two
statements of different files run together on a line.

Paths are compared name by name: what is in a folder `a` precedes a file `a.sql` beside it.
-/

set_option autoImplicit false

namespace EntityDiagram.Command

/-- What follows the last point of a file's name, if anything precedes that point. -/
def extension? (name : String) : Option String :=
  let reversed := name.toList.reverse
  match reversed.dropWhile (· != '.') with
  | [] | [_] => none
  | _ => some (String.ofList (reversed.takeWhile (· != '.')).reverse)

/-- Whether a file is an SQL file, by its name. -/
def isSqlFile (path : List String) : Bool :=
  match path.getLast?.bind extension? with
  | some extension => Text.upperAscii extension == "SQL"
  | none => false

/-- Whether a path is at or before another one, by the first names in which they differ. -/
def inPathOrder : List String → List String → Bool
  | [], _ => true
  | _ :: _, [] => false
  | a :: as, b :: bs => if a == b then inPathOrder as bs else a < b

/-- The SQL files among files, in the order of their paths. -/
def sqlFiles (files : List (List String)) : List (List String) :=
  (files.filter isSqlFile).mergeSort inPathOrder

/-- The script that texts make: each of them, followed by a line feed. -/
def joinScripts (texts : List String) : String := String.join (texts.map (· ++ "\n"))

/-- The path of a file below a folder. -/
def pathBelow (folder : String) (names : List String) : String :=
  "/".intercalate (folder :: names)

/-- Reads a file. -/
def readFile (path : String) : Plan (Except FileError String) := do
  match ← Plan.lookAt path with
  | .file text => return .ok text
  | .missing e | .unreadable e => return .error e
  | .folder _ => return .error .isFolder

/-- Why a path stands for no script. -/
inductive SourceError where
  | file (reason : FileError)
  /-- No SQL file is in the folder or below. -/
  | noScripts (path : String)
deriving DecidableEq, Repr

/-- The wording of the error. -/
def SourceError.message : SourceError → String
  | .file reason => reason.message
  | .noScripts path => "No .sql files found under " ++ path

/-- Reads the script that a path stands for. -/
def readScript (path : String) : Plan (Except SourceError String) := do
  match ← Plan.lookAt path with
  | .file text => return .ok text
  | .missing e | .unreadable e => return .error (.file e)
  | .folder files =>
    let files := sqlFiles files
    if files.isEmpty then return .error (.noScripts path)
    let texts ← files.mapM fun names => readFile (pathBelow path names)
    match texts.mapM id with
    | .ok texts => return .ok (joinScripts texts)
    | .error e => return .error (.file e)

end EntityDiagram.Command
