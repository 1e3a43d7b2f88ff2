/-!
# `EntityDiagram.Text.CodeRange`: sets of code points as closed ranges

A character property of the Unicode standard is stored as the ascending list of its closed
ranges of code points above ASCII. The ASCII part of each property is a short test of its own,
written beside the table, so that nothing about ASCII text ever has to look into a table.
-/

set_option autoImplicit false

namespace EntityDiagram.Text

/-- Closed ranges of code points, ascending and apart. -/
abbrev CodeRanges := List (Nat × Nat)

/-- Whether the code point of `c` lies in one of the ranges. -/
def CodeRanges.has (ranges : CodeRanges) (c : Char) : Bool :=
  ranges.any fun r => r.1 ≤ c.toNat && c.toNat ≤ r.2

/-- Whether `c` is an ASCII letter. -/
def isAsciiLetter (c : Char) : Bool :=
  ('a' ≤ c && c ≤ 'z') || ('A' ≤ c && c ≤ 'Z')

/-- Whether `c` is one of the ten ASCII digits. -/
def isAsciiDigit (c : Char) : Bool :=
  '0' ≤ c && c ≤ '9'

/-- Whether `c` is an ASCII character. -/
def isAscii (c : Char) : Bool :=
  c.toNat < 0x80

end EntityDiagram.Text
