/-!
# `EntityDiagram.Command.Plan`: what a command wants of files

A command works on files, and what it does next depends on what it finds. A `Plan` says so without
doing it: it ends in a result, or it looks at a path and goes on with what is there, or it writes a
file and goes on. `FileTree` carries a plan out on files in memory, the program on those on disk.
-/

set_option autoImplicit false

namespace EntityDiagram.Command

/-- Why a file cannot be read or written. -/
inductive FileError where
  /-- An error of the operating system, with its number. -/
  | system (code : Nat) (description : String)
  /-- The file is not UTF-8 text. -/
  | notText
deriving DecidableEq, Repr

namespace FileError

/-- Nothing is at the path. -/
def notFound : FileError := .system 2 "No such file or directory"

/-- The path goes through a file. -/
def notFolder : FileError := .system 20 "Not a directory"

/-- A folder is at the path. -/
def isFolder : FileError := .system 21 "Is a directory"

/-- The wording of the error. -/
def message : FileError → String
  | .system code description => description ++ " (os error " ++ toString code ++ ")"
  | .notText => "stream did not contain valid UTF-8"

end FileError

/-- What is found at a path. -/
inductive Sighting where
  /-- Nothing, for this reason. -/
  | missing (reason : FileError)
  /-- A file that cannot be read. -/
  | unreadable (reason : FileError)
  | file (text : String)
  /-- A folder, with the paths of the files in it and below, each as a list of names. -/
  | folder (files : List (List String))
deriving DecidableEq, Repr

/-- What to do with files until there is a result. -/
inductive Plan (α : Type) where
  | done (a : α)
  | look (path : String) (resume : Sighting → Plan α)
  /-- Writes a file. What comes next may depend on why this fails, if it does. -/
  | write (path text : String) (resume : Option FileError → Plan α)

namespace Plan

variable {α β : Type}

/-- One plan after the other. -/
def bind : Plan α → (α → Plan β) → Plan β
  | .done a, f => f a
  | .look path resume, f => .look path fun sighting => bind (resume sighting) f
  | .write path text resume, f => .write path text fun failure => bind (resume failure) f

/-- Plans are put together in `do` blocks: what comes behind a plan is told what it has done. -/
instance : Monad Plan where
  pure := .done
  bind := bind

/-- What is at a path. -/
def lookAt (path : String) : Plan Sighting := .look path .done

/-- Writes a file, and tells why that fails if it does. -/
def writeTo (path text : String) : Plan (Option FileError) := .write path text .done

end Plan

end EntityDiagram.Command
