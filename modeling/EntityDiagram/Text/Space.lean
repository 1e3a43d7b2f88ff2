import EntityDiagram.Text.CodeRange

/-!
# `EntityDiagram.Text.Space`: white space, trimming and words

White space is the Unicode property White_Space: 25 code points in ten ranges. Texts are lists
of characters here; `trim` cuts white space off both ends, `splitWhere` cuts at
separator characters, and `words` are the maximal runs between white space.
-/

set_option autoImplicit false

namespace EntityDiagram.Text

/-- The White_Space code points above ASCII. -/
def spaceRanges : CodeRanges :=
  [(0x85, 0x85), (0xA0, 0xA0), (0x1680, 0x1680), (0x2000, 0x200A), (0x2028, 0x2029),
   (0x202F, 0x202F), (0x205F, 0x205F), (0x3000, 0x3000)]

/-- White space: the Unicode property White_Space. -/
def isSpace (c : Char) : Bool :=
  if isAscii c then c == ' ' || ('\t' ≤ c && c ≤ '\r') else spaceRanges.has c

/-- The text without white space at its start. -/
def trimStart (s : List Char) : List Char := s.dropWhile isSpace

/-- The text without the characters at its end that satisfy `p`. -/
def dropEndWhile (p : Char → Bool) (s : List Char) : List Char := (s.reverse.dropWhile p).reverse

/-- The text without white space at its end. -/
def trimEnd (s : List Char) : List Char := dropEndWhile isSpace s

/-- The text without white space at either end. -/
def trim (s : List Char) : List Char := trimEnd (trimStart s)

/-- Whether the text holds nothing but white space. -/
def isBlank (s : List Char) : Bool := s.all isSpace

/-- The pieces of the text between the characters that satisfy `p`. There is always one piece
more than there are such characters. -/
def splitWhere (p : Char → Bool) : List Char → List (List Char)
  | [] => [[]]
  | c :: rest =>
    if p c then [] :: splitWhere p rest
    else match splitWhere p rest with
      | [] => [[c]]
      | piece :: pieces => (c :: piece) :: pieces

/-- The maximal runs of characters that are not white space, in order. -/
def words (s : List Char) : List (List Char) :=
  (splitWhere isSpace s).filter fun piece => !piece.isEmpty

end EntityDiagram.Text
