import EntityDiagram.Toml.Basic

/-!
# `EntityDiagram.Toml.Draft`: tables while a document is read

The lines of a document put a table together piece by piece, and some pieces close others. A
`Draft` is a table in the making, and each table in it remembers how it came about:

* by its own header, which may be given once and closes the table to dotted keys from outside;
* by a longer header that passes through it, in which case its own header may still follow;
* by a dotted key, in which case further dotted keys may add to it, and no header may.

The last table of an array of tables stands for the whole array where a path passes through it.
-/

set_option autoImplicit false

namespace EntityDiagram.Toml

/-- How a table came about. -/
inductive Origin where
  /-- By its own header; also the document itself. -/
  | header
  /-- By a header that passes through it. -/
  | passed
  /-- By a dotted key. -/
  | dotted
deriving DecidableEq, Repr

/-- What stands under a key of a table in the making. -/
inductive Node where
  /-- A value, which is complete. -/
  | value (v : Toml)
  | table (origin : Origin) (entries : List (String × Node))
  /-- An array of tables; only the last one is still in the making. -/
  | tables (earlier : List (List (String × Node))) (last : List (String × Node))

/-- A table in the making. -/
structure Draft where
  origin : Origin := .header
  entries : List (String × Node) := []

namespace Draft

/-- The table with another node under the key. -/
def set (t : Draft) (key : String) (node : Node) : Draft :=
  { t with entries := t.entries.filter (·.1 != key) ++ [(key, node)] }

/-- Changes the table at the end of a path. Tables that are missing on the way come about, by
dotted keys if the path is that of a dotted key. Such a path does not enter a table that has a
header. -/
def modifyAt (isDotted : Bool) (change : Draft → Option Draft) :
    (path : List String) → Draft → Option Draft
  | [], t => change t
  | key :: path, t =>
    match t.entries.lookup key with
    | none => do
      let origin := if isDotted then Origin.dotted else .passed
      let child ← modifyAt isDotted change path { origin }
      return t.set key (.table child.origin child.entries)
    | some (.value _) => none
    | some (.tables earlier last) => do
      let child ← modifyAt isDotted change path { entries := last }
      return t.set key (.tables earlier child.entries)
    | some (.table origin entries) =>
      if isDotted && origin == .header then none
      else do
        let child ← modifyAt isDotted change path { origin, entries }
        return t.set key (.table child.origin child.entries)

/-- Puts a value under a dotted key, `path` and then `key`. Nothing may be there already, and the
last table of a path is one that dotted keys have made. -/
def insert (path : List String) (key : String) (v : Toml) : Draft → Option Draft :=
  modifyAt true (fun t =>
    if !path.isEmpty && t.origin != .dotted then none
    else if (t.entries.lookup key).isSome then none
    else some (t.set key (.value v))) path

/-- Opens the table that a header names. -/
def openTable (path : List String) (key : String) : Draft → Option Draft :=
  modifyAt false (fun t =>
    match t.entries.lookup key with
    | none => some (t.set key (.table .header []))
    | some (.table .passed entries) => some (t.set key (.table .header entries))
    | _ => none) path

/-- Opens one more table of the array that a header names. -/
def appendTable (path : List String) (key : String) : Draft → Option Draft :=
  modifyAt false (fun t =>
    match t.entries.lookup key with
    | none => some (t.set key (.tables [] []))
    | some (.tables earlier last) => some (t.set key (.tables (earlier ++ [last]) []))
    | _ => none) path

end Draft

mutual

/-- The value of a node. -/
def Node.finish : Node → Toml
  | .value v => v
  | .table _ entries => .table (finishEntries entries)
  | .tables earlier last => .array (finishTables earlier ++ [.table (finishEntries last)])

/-- The entries of a table. -/
def finishEntries : List (String × Node) → List (String × Toml)
  | [] => []
  | (key, node) :: entries => (key, node.finish) :: finishEntries entries

/-- The tables of an array. -/
def finishTables : List (List (String × Node)) → List Toml
  | [] => []
  | entries :: tables => .table (finishEntries entries) :: finishTables tables

end

/-- The table as a value. -/
def Draft.finish (t : Draft) : Toml := .table (finishEntries t.entries)

/-- The table that the lines `key = value` between braces make. A key is a path and a last part. -/
def ofInline (entries : List (List String × String × Toml)) : Option Toml :=
  (entries.foldlM (fun (t : Draft) e => t.insert e.1 e.2.1 e.2.2) {}).map Draft.finish

end EntityDiagram.Toml
