/-!
# `EntityDiagram.Json.Basic`: JSON values and reading records from them

`Json` is the tree of a JSON text. An object is the list of its members; the order of members
has no meaning, and no name occurs twice.

A record is read member by member. `member` reads one that has to be there, `memberOr` falls back
to a default where it is absent, and `memberOpt` also takes `null` for "none". Members that no
reader asks for are ignored.
-/

set_option autoImplicit false

namespace EntityDiagram

/-- A JSON value. -/
inductive Json where
  | null
  | bool (b : Bool)
  /-- An integer. -/
  | int (n : Int)
  /-- A number written with a fraction or an exponent: `mantissa / 10 ^ places`. -/
  | decimal (mantissa : Int) (places : Nat)
  | str (s : String)
  | arr (items : List Json)
  | obj (members : List (String × Json))
deriving Repr, Inhabited

namespace Json

variable {α : Type}

/-- The value of a member, if the value is an object that has it. -/
def member? : Json → String → Option Json
  | .obj members, name => members.lookup name
  | _, _ => none

/-- Reads a member that has to be there. -/
def member (name : String) (read : Json → Option α) (j : Json) : Option α :=
  (j.member? name).bind read

/-- Reads a member, or takes the default where it is absent. -/
def memberOr (name : String) (read : Json → Option α) (default : α) (j : Json) : Option α :=
  match j.member? name with
  | none => some default
  | some value => read value

/-- Reads a truth value. -/
def bool? : Json → Option Bool
  | .bool b => some b
  | _ => none

/-- Reads a string. -/
def str? : Json → Option String
  | .str s => some s
  | _ => none

/-- Reads an integer of 32 bits without sign. -/
def uint32? : Json → Option UInt32
  | .int (.ofNat n) => if n < UInt32.size then some n.toUInt32 else none
  | _ => none

/-- Reads every item of an array. -/
def list? (read : Json → Option α) : Json → Option (List α)
  | .arr items => items.mapM read
  | _ => none

/-- Reads a value that may be missing: `null` stands for none. -/
def opt? (read : Json → Option α) : Json → Option (Option α)
  | .null => some none
  | value => (read value).map some

/-- Reads a member that may be absent or `null`. -/
def memberOpt (name : String) (read : Json → Option α) (j : Json) : Option (Option α) :=
  j.memberOr name (opt? read) none

/-- Reads an object as a table of strings. -/
def strMap? : Json → Option (List (String × String))
  | .obj members => members.mapM fun m => m.2.str?.map (m.1, ·)
  | _ => none

/-- Whether a record may be read from the value: an object. -/
def isObject : Json → Bool
  | .obj _ => true
  | _ => false

/-- A record all of whose members have defaults may also be written as an empty array. -/
def isOptionalRecord : Json → Bool
  | .obj _ | .arr [] => true
  | _ => false

/-- An optional value, with `null` for none. -/
def ofOption (write : α → Json) : Option α → Json
  | none => .null
  | some a => write a

/-- An array. -/
def ofList (write : α → Json) (items : List α) : Json := .arr (items.map write)

/-- An array of strings. -/
def ofStrings (items : List String) : Json := .arr (items.map .str)

/-- A natural number. -/
def ofNat (n : Nat) : Json := .int n

/-- An integer of 32 bits without sign. -/
def ofUInt32 (n : UInt32) : Json := .int n.toNat

end Json

end EntityDiagram
