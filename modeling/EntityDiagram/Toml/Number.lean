import EntityDiagram.Text.Space
import EntityDiagram.Toml.Basic
import EntityDiagram.Toml.Scan

/-!
# `EntityDiagram.Toml.Number`: numbers and dates in a document

Integers have 64 bits and a sign, and may be written in four bases. Floats are kept as they are
written, but one that is above the largest double is refused. Dates and times are those of
RFC 3339, with each part in its range. In numbers an underscore may stand between two digits.
-/

set_option autoImplicit false

namespace EntityDiagram.Toml.Scan
open Text (isAsciiDigit)

/-! ### Digits -/

/-- Takes digits of a base, of which underscores may stand between two, and leaves out the
underscores. There is at least one digit. -/
def groupedDigits (base : Nat) : Scan (List Char) := do
  let run ← takeWhile fun c => c == '_' || (digitValue? base c).isSome
  let groups := Text.splitWhere (· == '_') run
  require (groups.all (!·.isEmpty))
  return groups.flatten

/-- Takes decimal digits without a needless zero in front. -/
def wholeDigits : Scan (List Char) := do
  let digits ← groupedDigits 10
  require (digits.length == 1 || digits.head? != some '0')
  return digits

/-- Takes a sign, if there is one, and says whether it is a minus. -/
def sign : Scan Bool := do
  if ← literal "-" then return true
  let _ ← literal "+"
  return false

/-! ### Integers -/

/-- Integers are below this, and negative ones reach it. -/
def integerLimit : Nat := 9223372036854775808

/-- Takes digits of a base that write a number without sign. -/
def magnitude (base : Nat) : Scan Toml := do
  let n ← (ofDigits? base (← groupedDigits base)).elim failure pure
  require (n < integerLimit)
  return .integer n

/-- Takes an integer. -/
def integer : Scan Toml := do
  if ← literal "0x" then magnitude 16
  else if ← literal "0o" then magnitude 8
  else if ← literal "0b" then magnitude 2
  else
    let negative ← sign
    let n ← (ofDigits? 10 (← wholeDigits)).elim failure pure
    require (n < integerLimit || (negative && n == integerLimit))
    return .integer (if negative then -n else n)

/-! ### Floats -/

/-- Whether `digits · 10 ^ exponent` is nearer to `2 ^ 1024` than to the largest double, or as
near. Only numbers of 309 places before the point have to be compared. -/
def exceedsDouble (digits : Nat) (exponent : Int) : Bool :=
  let bound := (Nat.pow 2 54 - 1) * Nat.pow 2 970
  let places := (Nat.toDigits 10 digits).length + exponent
  if digits == 0 || places < 309 then false
  else if 309 < places then true
  else if 0 ≤ exponent then bound ≤ digits * Nat.pow 10 exponent.toNat
  else bound * Nat.pow 10 (-exponent).toNat ≤ digits

/-- Takes the exponent of a float, if there is one. -/
def exponent? : Scan (Option Int) := do
  if ← anyOf ["e", "E"] then
    let negative ← sign
    let n ← (ofDigits? 10 (← groupedDigits 10)).elim failure pure
    return some (if negative then -n else n)
  else return none

/-- Takes a float that is written in digits. -/
def decimal : Scan Unit := do
  let negative ← sign
  let whole ← wholeDigits
  let fraction ← if ← literal "." then (groupedDigits 10 : Scan _) else pure []
  let exponent ← exponent?
  require (!fraction.isEmpty || exponent.isSome)
  let digits ← (ofDigits? 10 (whole ++ fraction)).elim failure pure
  require (negative || !exceedsDouble digits (exponent.getD 0 - fraction.length))

/-- Takes infinity, or what is not a number. -/
def special : Scan Unit := do
  let _ ← sign
  if !(← literal "inf") then expect "nan"

/-- Takes a float. -/
def float : Scan Toml := do
  let (_, source) ← withSource do
    if (← attempt special).isNone then decimal
  return .float source

/-! ### Dates and times -/

/-- Takes a number of exactly so many digits in a range. -/
def fixedNumber (count low high : Nat) : Scan Nat := do
  let digits ← (List.replicate count ()).mapM fun _ => next
  let n ← (ofDigits? 10 digits).elim failure pure
  require (low ≤ n && n ≤ high)
  return n

/-- The number of days of a month. -/
def daysOfMonth (year month : Nat) : Nat :=
  if month == 2 then
    if year % 4 == 0 && (year % 100 != 0 || year % 400 == 0) then 29 else 28
  else if [4, 6, 9, 11].contains month then 30
  else 31

/-- Takes a date. -/
def calendarDate : Scan Unit := do
  let year ← fixedNumber 4 0 9999
  expect "-"
  let month ← fixedNumber 2 1 12
  expect "-"
  let _ ← fixedNumber 2 1 (daysOfMonth year month)

/-- Takes a time of day. A minute may have a second too many. -/
def timeOfDay : Scan Unit := do
  let _ ← fixedNumber 2 0 23
  expect ":"
  let _ ← fixedNumber 2 0 59
  expect ":"
  let _ ← fixedNumber 2 0 60
  if ← literal "." then
    let digits ← takeWhile isAsciiDigit
    require !digits.isEmpty

/-- Takes the distance to universal time. -/
def offset : Scan Unit := do
  if !(← anyOf ["Z", "z"]) then
    require (← anyOf ["+", "-"])
    let _ ← fixedNumber 2 0 23
    expect ":"
    let _ ← fixedNumber 2 0 59

/-- Takes a time of day that follows a date, with or without an offset. -/
def timeAfterDate : Scan Unit := do
  require (← anyOf ["T", "t", " "])
  timeOfDay
  let _ ← attempt offset

/-- Takes a date, a time of day, or both. -/
def date : Scan Toml := do
  let (_, source) ← withSource do
    if (← attempt timeOfDay).isNone then
      calendarDate
      let _ ← attempt timeAfterDate
  return .date source

/-- Takes a date or a number. -/
def dateOrNumber : Scan Toml := date <|> float <|> integer

end EntityDiagram.Toml.Scan
