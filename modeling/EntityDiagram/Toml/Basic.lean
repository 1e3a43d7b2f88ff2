/-!
# `EntityDiagram.Toml.Basic`: TOML values and reading records from them

`Toml` is the tree of a TOML document. A table is the list of its entries; the order of entries
has no meaning, and no key occurs twice. Numbers with a fraction and dates are only ever stepped
over, so they are kept as they are written.

A record is read from a table by the names of its members, or from an array by their positions. A
member that is absent has its default, and what no member asks for is ignored. A date counts as a
table without entries.
-/

set_option autoImplicit false

namespace EntityDiagram

/-- A TOML value. -/
inductive Toml where
  | text (s : String)
  | integer (n : Int)
  | float (source : String)
  | bool (b : Bool)
  | date (source : String)
  | array (items : List Toml)
  | table (entries : List (String × Toml))
deriving Repr, Inhabited

namespace Toml

variable {α : Type}

/-- Whether a record may be read from the value. -/
def isRecord : Toml → Bool
  | .table _ | .array _ | .date _ => true
  | _ => false

/-- The member of a record that has this position and name, if it is there. -/
def member? : Toml → (position : Nat) → (name : String) → Option Toml
  | .table entries, _, name => entries.lookup name
  | .array items, position, _ => items[position]?
  | _, _, _ => none

/-- Reads the member of a record, or takes the default where it is absent. -/
def memberOr (position : Nat) (name : String) (read : Toml → Option α) (default : α)
    (v : Toml) : Option α :=
  match v.member? position name with
  | none => some default
  | some value => read value

/-- Reads a text. -/
def text? : Toml → Option String
  | .text s => some s
  | _ => none

/-- Reads a truth value. -/
def bool? : Toml → Option Bool
  | .bool b => some b
  | _ => none

/-- Reads every item of an array. -/
def list? (read : Toml → Option α) : Toml → Option (List α)
  | .array items => items.mapM read
  | _ => none

/-- Whether the value holds nothing: an array or a table that is empty. -/
def isEmpty : Toml → Bool
  | .array items => items.isEmpty
  | .table entries => entries.isEmpty
  | _ => false

/-- Reads the name of one of several choices: a text, or the only key of a table that has nothing
under it. -/
def choice? (ofName? : String → Option α) : Toml → Option α
  | .text s => ofName? s
  | .table [(key, value)] => if value.isEmpty then ofName? key else none
  | _ => none

end Toml

end EntityDiagram
