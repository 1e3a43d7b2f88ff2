import EntityDiagram.Ddl.Token
import EntityDiagram.Text.Alphanumeric
import EntityDiagram.Text.Space

/-!
# `EntityDiagram.Ddl.Token.Lexer`: from text to tokens

`tokens` reads a whole script. It never fails: comments are skipped, an unclosed quote or comment
reaches to the end, and characters that start no token are dropped.

Each scanner below returns what it read and what is left, with a lemma that what is left is no
longer than what it was given; `tokens` ends because every round of it consumes a character.
-/

set_option autoImplicit false

namespace EntityDiagram.Ddl.Token

open Text (isAsciiDigit isAlphabetic isAlphanumeric isSpace)

/-- The text after the end of the current line. -/
def afterLine : List Char → List Char
  | [] => []
  | c :: rest => if c == '\n' then rest else afterLine rest

/-- The text after the end of a block comment whose opening has been read. -/
def afterBlock : List Char → List Char
  | [] => []
  | c :: rest =>
    match c, rest with
    | '*', '/' :: more => more
    | _, _ => afterBlock rest

/-- The character that a backslash and `c` stand for in a string literal. -/
def unescape (c : Char) : Char :=
  match c with
  | 'n' => '\n'
  | 't' => '\t'
  | 'r' => '\r'
  | _ => c

/-- Adds a character to what has been read. -/
def consRead (c : Char) (read : List Char × List Char) : List Char × List Char :=
  (c :: read.1, read.2)

/-- What stands up to the mark `close`, and the text after it. A doubled mark stands for the mark
itself; with `escapes`, a backslash escapes the next character. -/
def readQuoted (close : Char) (escapes : Bool) : List Char → List Char × List Char
  | [] => ([], [])
  | c :: rest =>
    if c == close then
      match rest with
      | [] => ([], [])
      | d :: more =>
        if d == close then consRead c (readQuoted close escapes more) else ([], d :: more)
    else if c == '\\' && escapes then
      match rest with
      | [] => ([], [])
      | d :: more => consRead (unescape d) (readQuoted close escapes more)
    else consRead c (readQuoted close escapes rest)

/-- The digits at the front, with at most one dot unless `dotted` says it has occurred already. -/
def readDigits (dotted : Bool) : List Char → List Char × List Char
  | [] => ([], [])
  | c :: rest =>
    if isAsciiDigit c then consRead c (readDigits dotted rest)
    else if c == '.' && !dotted then consRead c (readDigits true rest)
    else ([], c :: rest)

/-- Whether the character may follow the first one of an unquoted word. -/
def continuesWord (c : Char) : Bool := isAlphanumeric c || c == '_' || c == '$'

/-- Whether an unquoted word may start with the character. -/
def startsWord (c : Char) : Bool := isAlphabetic c || c == '_'

/-- A line comment is taken from the front. -/
theorem length_afterLine_le (s : List Char) : (afterLine s).length ≤ s.length := by
  fun_induction afterLine s <;> grind

/-- A block comment is taken from the front, to the end of the text if it is not closed. -/
theorem length_afterBlock_le (s : List Char) : (afterBlock s).length ≤ s.length := by
  fun_induction afterBlock s <;> grind

/-- Quotes are taken from the front, to the end of the text if they are not closed. -/
theorem length_readQuoted_le (close : Char) (escapes : Bool) (s : List Char) :
    (readQuoted close escapes s).2.length ≤ s.length := by
  fun_induction readQuoted close escapes s <;> grind [consRead]

/-- Digits are taken one by one. -/
theorem length_readDigits_le (dotted : Bool) (s : List Char) :
    (readDigits dotted s).2.length ≤ s.length := by
  fun_induction readDigits dotted s <;> grind [consRead]

/-- The token of one of the five symbols. -/
def symbol? (c : Char) : Option Token :=
  match c with
  | '(' => some .openParen
  | ')' => some .closeParen
  | ',' => some .comma
  | ';' => some .semicolon
  | '.' => some .dot
  | _ => none

/-- The token at the front of the text `-rest`, if one starts there, and the text that is left. -/
def stepDash : List Char → Option Token × List Char
  | [] => (none, [])
  | d :: rest =>
    if d == '-' then (none, afterLine rest)
    else if isAsciiDigit d then
      -- A minus sign at a digit belongs to the number.
      let read := readDigits false (d :: rest)
      (some (.number (String.ofList ('-' :: read.1))), read.2)
    else (none, d :: rest)

/-- What is left of the text `/rest` after a comment, or after the slash alone. -/
def stepSlash : List Char → List Char
  | '*' :: rest => afterBlock rest
  | rest => rest

/-- The name at the front of the text `[rest`: the suffix of an array type, or a name in
brackets. -/
def stepBracket : List Char → String × List Char
  | ']' :: rest => ("[]", rest)
  | rest =>
    let read := readQuoted ']' false rest
    (String.ofList read.1, read.2)

/-- The token at the front of a text whose first character is `c`, if one starts there, and the
text that is left after it, or else after what has to be skipped. -/
def step (c : Char) (rest : List Char) : Option Token × List Char :=
  match symbol? c with
  | some token => (some token, rest)
  | none =>
    if isSpace c then (none, rest)
    else if c == '-' then stepDash rest
    else if c == '/' then (none, stepSlash rest)
    else if c == '#' then (none, afterLine rest)
    else if c == '"' || c == '`' then
      let read := readQuoted c false rest
      (some (.name (String.ofList read.1)), read.2)
    else if c == '[' then
      let read := stepBracket rest
      (some (.name read.1), read.2)
    else if c == '\'' then
      let read := readQuoted '\'' true rest
      (some (.text (String.ofList read.1)), read.2)
    else if isAsciiDigit c then
      let read := readDigits false rest
      (some (.number (String.ofList (c :: read.1))), read.2)
    else if startsWord c then
      (some (ofWord (c :: rest.takeWhile continuesWord)), rest.dropWhile continuesWord)
    -- Any other character starts nothing.
    else (none, rest)

/-- Behind a dash a comment or a number is taken, or nothing. -/
theorem length_stepDash_le (rest : List Char) : (stepDash rest).2.length ≤ rest.length := by
  unfold stepDash
  grind [length_afterLine_le, length_readDigits_le]

/-- Behind a slash a comment is taken, or nothing. -/
theorem length_stepSlash_le (rest : List Char) : (stepSlash rest).length ≤ rest.length := by
  unfold stepSlash
  grind [length_afterBlock_le]

/-- Behind a bracket a name is taken, or the other bracket alone. -/
theorem length_stepBracket_le (rest : List Char) : (stepBracket rest).2.length ≤ rest.length := by
  unfold stepBracket
  grind [length_readQuoted_le]

/-- A round leaves no more than stood behind its first character, so that the rounds come to an
end. -/
theorem length_step_le (c : Char) (rest : List Char) : (step c rest).2.length ≤ rest.length := by
  unfold step
  repeat' split
  all_goals first
    | exact Nat.le_refl _
    | exact length_stepDash_le rest
    | exact length_stepSlash_le rest
    | exact length_afterLine_le rest
    | exact length_readQuoted_le _ _ rest
    | exact length_stepBracket_le rest
    | exact length_readDigits_le _ rest
    | exact (List.dropWhile_sublist _).length_le

/-- The tokens of a text. -/
def tokens (s : List Char) : List Token :=
  match s with
  | [] => [.eof]
  | c :: rest =>
    let read := step c rest
    match read.1 with
    | some token => token :: tokens read.2
    | none => tokens read.2
termination_by s.length
decreasing_by all_goals exact Nat.lt_succ_of_le (length_step_le c rest)

end EntityDiagram.Ddl.Token
