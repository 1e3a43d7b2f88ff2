import EntityDiagram.Text.Casing
import EntityDiagram.Text.Replace
import EntityDiagram.Text.Space

/-!
# `EntityDiagram.Sql.ColumnType`: declared column types

A declared type such as `decimal (10, 2) unsigned` is split into a base, in upper case with single
spaces, and arguments. One numeric argument is a length; two are a precision and a scale. What
follows the closing parenthesis is dropped, and so are the words that only qualify the sign.

An argument that is no number, such as a label of an enumeration, stays in the text of the type
alone. Three or more arguments are no precision and scale either. A type that is read from its own
text again is the same type.
-/

set_option autoImplicit false

namespace EntityDiagram.Sql

open Text (trim words splitWhere)

/-- A declared column type in its parts. -/
structure ColumnType where
  /-- The base, followed by the arguments in parentheses where there are any. -/
  dataType : String
  baseType : String
  length : Option UInt32 := none
  precision : Option UInt32 := none
  scale : Option UInt32 := none
deriving DecidableEq, Repr, Inhabited

/-- The value of a text of ASCII digits, read from the left onto `value`; none if it reaches
`UInt32.size` or another character occurs. -/
def digitsValue? (value : Nat) : List Char → Option Nat
  | [] => some value
  | c :: rest =>
    if Text.isAsciiDigit c then
      let next := 10 * value + (c.toNat - '0'.toNat)
      if next < UInt32.size then digitsValue? next rest else none
    else none

/-- The number of 32 bits that the text writes: decimal digits after an optional plus sign. -/
def number? (s : List Char) : Option UInt32 :=
  let digits := match s with
    | '+' :: rest => rest
    | _ => s
  if digits.isEmpty then none else (digitsValue? 0 digits).map Nat.toUInt32

namespace ColumnType

/-- Words, in upper case, that say nothing about a type but its sign or padding. -/
def signWords : List String := ["UNSIGNED", "SIGNED", "ZEROFILL"]

/-- The base of a type: its words in upper case, without those about the sign. -/
def baseOf (s : List Char) : List Char :=
  Text.joinWith [' '] (((words s).map Text.upper).filter
    fun w => !signWords.contains (String.ofList w))

/-- The arguments between the parentheses of a type, trimmed; empty ones are left out. -/
def argumentsOf (inner : List Char) : List (List Char) :=
  ((splitWhere (· == ',') inner).map trim).filter (!·.isEmpty)

/-- The type with its base and arguments. -/
def ofParts (base : List Char) (arguments : List (List Char)) : ColumnType :=
  let baseType := String.ofList base
  if arguments.isEmpty then { dataType := baseType, baseType }
  else
    let dataType := String.ofList (base ++ ['('] ++ Text.joinWith [','] arguments ++ [')'])
    match arguments.map number? with
    | [some length] => { dataType, baseType, length := some length }
    | [some precision, some scale] =>
      { dataType, baseType, precision := some precision, scale := some scale }
    -- Arguments that are no numbers, such as those of `ENUM`, stay in the text alone.
    | _ => { dataType, baseType }

/-- The type that a text declares. -/
def ofText (declared : List Char) : ColumnType :=
  let declared := trim declared
  let inner := (declared.dropWhile (· != '(')).drop 1
  ofParts (baseOf (declared.takeWhile (· != '('))) (argumentsOf (inner.takeWhile (· != ')')))

/-- The base types whose columns number themselves. -/
def serialTypes : List String :=
  ["SERIAL", "BIGSERIAL", "SMALLSERIAL", "SERIAL2", "SERIAL4", "SERIAL8"]

/-- Whether columns of the type number themselves. -/
def isSerial (t : ColumnType) : Bool := serialTypes.contains t.baseType

end ColumnType

end EntityDiagram.Sql
