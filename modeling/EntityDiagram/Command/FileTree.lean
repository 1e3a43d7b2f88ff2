import EntityDiagram.Command.Plan
import EntityDiagram.Text.Space

/-!
# `EntityDiagram.Command.FileTree`: files in memory

A `FileTree` is the folder that a command works in: the files in it and below, and the folders
that these need. Paths are followed name by name, as an operating system does: what a path goes
through has to be there, also where `..` leads out of it again. Outside the tree nothing is found.
-/

set_option autoImplicit false

namespace EntityDiagram.Command

/-- The files in a folder and below: paths, as lists of names, with texts. -/
structure FileTree where
  files : List (List String × String)
deriving Repr

namespace FileTree

variable {α : Type}

/-- The names in a path, between the slashes. -/
def names (path : String) : List String :=
  ((Text.splitWhere (· == '/') path.toList).filter (!·.isEmpty)).map String.ofList

/-- The tree of files at paths. -/
def ofFiles (files : List (String × String)) : FileTree :=
  ⟨files.map fun f => (names f.1, f.2)⟩

/-- The text of a file. -/
def text? (t : FileTree) (path : List String) : Option String := t.files.lookup path

/-- The files below a folder, from there. -/
def below (t : FileTree) (folder : List String) : List (List String) :=
  t.files.filterMap fun f =>
    if folder.isPrefixOf f.1 && f.1 != folder then some (f.1.drop folder.length) else none

/-- Whether a folder is there. The tree itself always is. -/
def hasFolder (t : FileTree) (path : List String) : Bool :=
  path.isEmpty || !(t.below path).isEmpty

/-- Follows names from a folder. -/
def follow (t : FileTree) (start : List String) : List String → Except FileError (List String)
  | [] => .ok start
  | name :: more =>
    if !t.hasFolder start then
      .error (if (t.text? start).isSome then .notFolder else .notFound)
    else if name == "." then follow t start more
    else if name == ".." then
      if start.isEmpty then .error .notFound else follow t start.dropLast more
    else follow t (start ++ [name]) more

/-- Where names lead from the tree, if the path does not start outside. -/
def locate (t : FileTree) (path : String) (names : List String) :
    Except FileError (List String) :=
  if path.toList.head? == some '/' then .error .notFound else t.follow [] names

/-- Whether a path ends in a slash, which asks for a folder. -/
def endsInSlash (path : String) : Bool := path.toList.getLast? == some '/'

/-- What is at a path. -/
def sight (t : FileTree) (path : String) : Sighting :=
  match t.locate path (names path ++ if endsInSlash path then ["."] else []) with
  | .error e => .missing e
  | .ok place =>
    match t.text? place with
    | some text => .file text
    | none => if t.hasFolder place then .folder (t.below place) else .missing .notFound

/-- The tree with a text at a path, in a folder that is there. -/
def write (t : FileTree) (path text : String) : Except FileError FileTree := do
  let last := (names path).getLastD "."
  let folder ← t.locate path (names path).dropLast
  let place := folder ++ [last]
  if !t.hasFolder folder then
    throw (if (t.text? folder).isSome then .notFolder else .notFound)
  if endsInSlash path || last == "." || last == ".." || t.hasFolder place then throw .isFolder
  return ⟨t.files.filter (·.1 != place) ++ [(place, text)]⟩

/-- The files that another tree does not have with this text. -/
def without (t old : FileTree) : List (String × String) :=
  (t.files.filter fun f => old.text? f.1 != some f.2).map fun f => ("/".intercalate f.1, f.2)

end FileTree

/-- Carries out a plan on files in memory. -/
def Plan.runOn {α : Type} : Plan α → FileTree → α × FileTree
  | .done a, t => (a, t)
  | .look path resume, t => runOn (resume (t.sight path)) t
  | .write path text resume, t =>
    match t.write path text with
    | .ok t => runOn (resume none) t
    | .error e => runOn (resume (some e)) t

end EntityDiagram.Command
