import EntityDiagram.Statement.Token
import EntityDiagram.Sql.Dialect
import EntityDiagram.Text.Alphanumeric

/-!
# `EntityDiagram.Statement.Token.Lexer`: from text to the tokens of the strict grammar

`tokens` reads a whole script in a dialect, or fails: at a quote, comment or literal that is not
closed, and at a dot before an underscore that follows no word. Dialects differ in the characters
of words, in the quotes of names and strings, in escapes and in the operators they know.

A scanner returns what it read with the text that is left, and comes with a lemma that nothing is
added to the text; so `tokens`, which reads at least one character a round, ends.
-/

set_option autoImplicit false

namespace EntityDiagram.Statement.Token

open Text (isAsciiDigit isAlphabetic isAlphanumeric isSpace dropLead?)
open Sql (Dialect)

/-! ### Characters -/

/-- Whether an unquoted word may start with the character. -/
def startsWord (d : Dialect) (c : Char) : Bool :=
  isAlphabetic c || c == '_' ||
    match d with
    | .mySql => c == '$' || c == '@' || (0x80 ≤ c.toNat && c.toNat ≤ 0xFFFF)
    | .postgres => false
    | .generic | .auto => c == '#' || c == '@'

/-- Whether an unquoted word may go on with the character. -/
def continuesWord (d : Dialect) (c : Char) : Bool :=
  startsWord d c || isAsciiDigit c || c == '$'

/-- Whether the character opens a quoted name. -/
def quotesName (d : Dialect) (c : Char) : Bool :=
  match d with
  | .mySql => c == '`'
  | .postgres => c == '"'
  | .generic | .auto => c == '"' || c == '`'

/-- Whether a backslash in a string literal escapes the next character. -/
def escapesStrings (d : Dialect) : Bool := d == .mySql

/-- Whether the character may be part of an operator that users define. -/
def isOperatorChar (d : Dialect) (c : Char) : Bool :=
  d == .postgres && "+-*/<>=~!@#%^&|`?".toList.contains c

/-! ### Quotes -/

/-- Adds a character to what has been read. -/
def consRead (c : Char) (read : List Char × List Char) : List Char × List Char :=
  (c :: read.1, read.2)

/-- The character that a backslash and `c` stand for. -/
def unescape (c : Char) : Char :=
  match c with
  | '0' => '\x00'
  | 'a' => '\x07'
  | 'b' => '\x08'
  | 'f' => '\x0c'
  | 'n' => '\n'
  | 'r' => '\r'
  | 't' => '\t'
  | 'Z' => '\x1a'
  | _ => c

/-- What stands up to the mark `close`, and the text after it. A doubled mark stands for the mark
itself; with `escapes`, a backslash escapes the next character. -/
def readQuoted? (close : Char) (escapes : Bool) : List Char → Option (List Char × List Char)
  | [] => none
  | c :: rest =>
    if c == close then
      match rest with
      | [] => some ([], [])
      | d :: more =>
        if d == close then (readQuoted? close escapes more).map (consRead c)
        else some ([], d :: more)
    else if c == '\\' && escapes then
      match rest with
      | [] => none
      | d :: more => (readQuoted? close escapes more).map (consRead (unescape d))
    else (readQuoted? close escapes rest).map (consRead c)

/-- The value of a digit in a base up to 16. -/
def digitValue? (base : Nat) (c : Char) : Option Nat :=
  let value :=
    if isAsciiDigit c then c.toNat - '0'.toNat
    else if 'a' ≤ c && c ≤ 'f' then c.toNat - 'a'.toNat + 10
    else if 'A' ≤ c && c ≤ 'F' then c.toNat - 'A'.toNat + 10
    else 16
  if value < base then some value else none

/-- The number that digits of a base spell. -/
def ofDigits? (base : Nat) (digits : List Char) : Option Nat :=
  digits.foldlM (fun n c => (digitValue? base c).map (base * n + ·)) 0

/-- The character of a code point. -/
def ofCode? (n : Nat) : Option Char := if n.isValidChar then some (Char.ofNat n) else none

/-- The character that `count` hexadecimal digits spell. -/
def hexChar? (count : Nat) (s : List Char) : Option Char :=
  let digits := s.take count
  if digits.length == count then (ofDigits? 16 digits).bind ofCode? else none

/-- The character of a byte below 128; larger numbers wrap around at 256. -/
def byteChar? (n : Nat) : Option Char :=
  let byte := n % 256
  if 0 < byte && byte < 128 then ofCode? byte else none

/-- The digits of a base at the front, at most so many. -/
def leadingDigits (base most : Nat) (s : List Char) : List Char :=
  (s.take most).takeWhile fun c => (digitValue? base c).isSome

/-- What follows the backslash of an escape in a literal `E'…'`: the character it stands for, and
how many characters it takes. -/
def escape? : List Char → Option (Char × Nat)
  | [] => none
  | c :: rest =>
    match c with
    | 'b' => some ('\x08', 1)
    | 'f' => some ('\x0c', 1)
    | 'n' => some ('\n', 1)
    | 'r' => some ('\r', 1)
    | 't' => some ('\t', 1)
    | 'u' => (hexChar? 4 rest).map (·, 5)
    | 'U' => (hexChar? 8 rest).map (·, 9)
    | 'x' =>
      let digits := leadingDigits 16 2 rest
      if digits.isEmpty then some ('x', 1)
      else ((ofDigits? 16 digits).bind byteChar?).map (·, digits.length + 1)
    | c =>
      if (digitValue? 8 c).isSome then
        let digits := leadingDigits 8 3 (c :: rest)
        ((ofDigits? 8 digits).bind byteChar?).map (·, digits.length)
      else some (c, 1)

/-- What follows the backslash of an escape in a literal `U&'…'`. -/
def unicodeEscape? : List Char → Option (Char × Nat)
  | '\\' :: _ => some ('\\', 1)
  | '+' :: rest => (hexChar? 6 rest).map (·, 7)
  | rest => (hexChar? 4 rest).map (·, 4)

/-- What stands up to a single quote, and the text after it, where `escape?` decodes what follows a
backslash. -/
def readEscaped? (escape? : List Char → Option (Char × Nat)) (s : List Char) :
    Option (List Char × List Char) :=
  match s with
  | [] => none
  | c :: rest =>
    if c == '\'' then
      match rest with
      | [] => some ([], [])
      | d :: more =>
        if d == '\'' then (readEscaped? escape? more).map (consRead c)
        else some ([], d :: more)
    else if c == '\\' then
      match escape? rest with
      | none => none
      | some (e, count) => (readEscaped? escape? (rest.drop count)).map (consRead e)
    else (readEscaped? escape? rest).map (consRead c)
termination_by s.length
decreasing_by all_goals (simp only [List.length_cons, List.length_drop]; omega)

/-! ### Comments -/

/-- The text after the line. A carriage return ends a line too where `returns` says so. -/
def afterLine (returns : Bool) : List Char → List Char
  | [] => []
  | c :: rest => if c == '\n' || (returns && c == '\r') then rest else afterLine returns rest

/-- The text after the end of a block comment; `depth` more are open around it, and `last` is the
character before the text. -/
def afterBlock? (depth : Nat) (last : Char) : List Char → Option (List Char)
  | [] => none
  | c :: rest =>
    if last == '/' && c == '*' then afterBlock? (depth + 1) c rest
    else if last == '*' && c == '/' then
      match depth with
      | 0 => some rest
      | depth + 1 => afterBlock? depth c rest
    else afterBlock? depth c rest

/-! ### Lengths of what is left -/

/-- Quotes are taken from the front. -/
theorem length_readQuoted?_le {close : Char} {escapes : Bool} {s : List Char}
    {r : List Char × List Char} (h : readQuoted? close escapes s = some r) :
    r.2.length ≤ s.length := by
  fun_induction readQuoted? close escapes s generalizing r <;>
    grind [consRead, Option.map_eq_some_iff]

/-- So are quotes with escapes, each of which takes a character at least. -/
theorem length_readEscaped?_le {escape? : List Char → Option (Char × Nat)} {s : List Char}
    {r : List Char × List Char} (h : readEscaped? escape? s = some r) :
    r.2.length ≤ s.length := by
  fun_induction readEscaped? escape? s generalizing r <;> grind [consRead, Option.map_eq_some_iff]

/-- A line comment is taken from the front. -/
theorem length_afterLine_le (returns : Bool) (s : List Char) :
    (afterLine returns s).length ≤ s.length := by
  fun_induction afterLine returns s <;> grind

/-- So is a block comment, at whatever depth it is read. -/
theorem length_afterBlock?_le {depth : Nat} {last : Char} {s r : List Char}
    (h : afterBlock? depth last s = some r) : r.length ≤ s.length := by
  fun_induction afterBlock? depth last s with
  | case1 => cases h
  | case2 _ _ _ _ _ ih => exact Nat.le_succ_of_le (ih h)
  | case3 =>
    cases h
    exact Nat.le_succ _
  | case4 _ _ _ _ _ _ ih => exact Nat.le_succ_of_le (ih h)
  | case5 _ _ _ _ _ _ ih => exact Nat.le_succ_of_le (ih h)

/-- A text at the front leaves what stands behind it. -/
theorem length_dropLead?_le {lead s r : List Char} (h : dropLead? lead s = some r) :
    r.length ≤ s.length := by
  fun_induction dropLead? lead s <;> grind

/-! ### Tokens -/

/-- What a round of reading yields: a token, unless what it read is skipped, and the text that is
left. -/
abbrev Round := Except String (Option Token × List Char)

/-- The token of a literal, if it is closed. -/
def literalRound (token : String → Token) : Option (List Char × List Char) → Round
  | some (value, rest) => .ok (some (token (String.ofList value)), rest)
  | none => .error "unterminated literal"

/-- The unquoted word that starts with `start` and goes on in the text. -/
def wordRound (d : Dialect) (start rest : List Char) : Round :=
  .ok (some (.word (.bare (String.ofList (start ++ rest.takeWhile (continuesWord d))))),
    rest.dropWhile (continuesWord d))

/-- The literal whose kind the letter `c` tells, if the text goes on with its quote. -/
def letteredLiteral? (d : Dialect) (c : Char) (rest : List Char) : Option Round :=
  let plain (letter : String) (mark : Char) (escapes : Bool) (s : List Char) : Option Round :=
    some (literalRound (fun v => .literal (letter ++ mark.toString ++ v ++ mark.toString))
      (readQuoted? mark escapes s))
  match c.toLower, rest with
  | 'b', '\'' :: s => plain "B" '\'' false s
  | 'b', '"' :: s => plain "B" '"' false s
  | 'r', '\'' :: s => if d == .generic then plain "R" '\'' false s else none
  | 'r', '"' :: s => if d == .generic then plain "R" '"' false s else none
  | 'n', '\'' :: s => plain "N" '\'' (escapesStrings d) s
  | 'x', '\'' :: s => plain "X" '\'' true s
  | 'e', '\'' :: s => some (literalRound .escaped (readEscaped? escape? s))
  | 'u', '&' :: '\'' :: s =>
    if d == .mySql then none else some (literalRound .unicode (readEscaped? unicodeEscape? s))
  | _, _ => none

/-- The exponent of a number at the front, and the text after it. -/
def exponent? : List Char → Option (List Char × List Char)
  | [] => none
  | e :: rest =>
    if e == 'e' || e == 'E' then
      let signed := match rest with
        | c :: more => if c == '+' || c == '-' then ([e, c], more) else ([e], rest)
        | [] => ([e], [])
      let digits := signed.2.takeWhile isAsciiDigit
      if digits.isEmpty then none
      else some (signed.1 ++ digits, signed.2.dropWhile isAsciiDigit)
    else none

/-- The number with these digits, and a mark `L` where it follows. -/
def numberRound (digits : List Char) : List Char → Round
  | 'L' :: rest => .ok (some (.number (String.ofList (digits ++ ['L']))), rest)
  | rest => .ok (some (.number (String.ofList digits)), rest)

/-- What starts with these digits: a number, or in MySQL a word that goes on after them. -/
def digitsRound (d : Dialect) (digits s : List Char) : Round :=
  match exponent? s with
  | some (exponent, rest) => numberRound (digits ++ exponent) rest
  | none =>
    if d == .mySql && !(s.takeWhile (continuesWord d)).isEmpty then wordRound d digits s
    else numberRound digits s

/-- What starts with a dot that follows these digits. -/
def fractionRound (d : Dialect) (whole s : List Char) : Round :=
  let digits := s.takeWhile isAsciiDigit
  if whole.isEmpty && digits.isEmpty then .ok (some (.symbol "."), s)
  else digitsRound d (whole ++ '.' :: digits) (s.dropWhile isAsciiDigit)

/-- What starts with the digits `whole`. -/
def wholeRound (d : Dialect) (whole s : List Char) : Round :=
  match s with
  | '.' :: rest => fractionRound d whole rest
  | 'x' :: rest =>
    let isDigit (c : Char) := (digitValue? 16 c).isSome
    if whole == ['0'] then
      .ok (some (.literal ("X'" ++ String.ofList (rest.takeWhile isDigit) ++ "'")),
        rest.dropWhile isDigit)
    else digitsRound d whole s
  | s => digitsRound d whole s

/-- What may follow the first character of a symbol, the longest texts first. -/
def continuations (d : Dialect) (c : Char) : List String :=
  match c with
  | '(' | ')' | ',' | ';' | '\\' | '[' | ']' | '{' | '}' | '+' | '*' | '%' => [""]
  | '/' => if d == .generic then ["/", ""] else [""]
  | '=' => ["=", ">", ""]
  | '!' => ["~~*", "~~", "~*", "~", "=", "!", ""]
  | '<' => ["=>", "=", ">", "<", "@", ""]
  | '>' => ["=", ">", ""]
  | ':' => [":", "=", ""]
  | '&' => ["&", ""]
  | '^' => ["@", ""]
  | '|' => ["|/", "|", "/", ""]
  | '-' => [">>", ">", ""]
  | '~' => ["~*", "~", "*", ""]
  | '#' => [">>", ">", "-", ""]
  | '@' => [">", "?", "@", ""]
  | '?' => ["|", "&", ""]
  | _ => []

/-- The first characters of operators that further operator characters extend. -/
def isExtensible (c : Char) : Bool := "-%|<>&~#".toList.contains c

/-- The symbol at the front, if the character `c` starts one, and the text after it. -/
def symbol? (d : Dialect) (c : Char) (rest : List Char) : Option (Token × List Char) :=
  (continuations d c).findSome? fun more =>
    (dropLead? more.toList rest).map fun after =>
      let isMore (e : Char) := isExtensible c && isOperatorChar d e
      let spelled := String.ofList (c :: more.toList ++ after.takeWhile isMore)
      -- The two spellings of inequality are one token.
      (.symbol (if spelled == "!=" then "<>" else spelled), after.dropWhile isMore)

/-- The round that reads a symbol, or the character alone where it starts none. -/
def symbolRound (d : Dialect) (c : Char) (rest : List Char) : Round :=
  match symbol? d c rest with
  | some (token, after) => .ok (some token, after)
  | none => .ok (some (.symbol c.toString), rest)

/-- What starts with an at or number sign that may start a word: a symbol if it stands alone or in
an operator, or else a word, whatever character comes next. -/
def signRound (d : Dialect) (c : Char) (rest : List Char) : Round :=
  let single : Round := .ok (some (.symbol c.toString), rest)
  match rest with
  | [] => single
  | ' ' :: _ => single
  | e :: more =>
    if c == '@' && e == '@' then
      match more with
      | [] => .ok (some (.symbol "@@"), [])
      | ' ' :: after => .ok (some (.symbol "@@"), ' ' :: after)
      | f :: after => wordRound d [c, e, f] after
    else if (continuations d c).any (·.toList == [e]) then symbolRound d c rest
    else wordRound d [c, e] more

/-- The text before the mark `close`, and the text after it. -/
def readUntil? (close : List Char) : List Char → Option (List Char × List Char)
  | [] => none
  | c :: rest =>
    match dropLead? close (c :: rest) with
    | some after => some ([], after)
    | none => (readUntil? close rest).map (consRead c)

/-- What starts with a dollar sign: a string between tags, or a placeholder. -/
def dollarRound (rest : List Char) : Round :=
  let isTag (c : Char) := isAlphanumeric c || c == '_'
  let tag := rest.takeWhile isTag
  match rest.dropWhile isTag with
  | '$' :: s =>
    let mark := '$' :: tag ++ ['$']
    literalRound (fun v => .literal (String.ofList mark ++ v ++ String.ofList mark))
      (readUntil? mark s)
  | s => .ok (some (.literal (String.ofList ('$' :: tag))), s)

/-- Reads at the character `c`. `afterWord` says whether a word precedes it at once. -/
def step (d : Dialect) (afterWord : Bool) (c : Char) (rest : List Char) : Round :=
  let isNumeric (c : Char) := isAsciiDigit c || Text.numericRanges.has c
  match letteredLiteral? d c rest with
  | some round => round
  | none =>
    if c == ' ' || c == '\t' || c == '\n' || c == '\r' then .ok (none, rest)
    else if quotesName d c then
      match readQuoted? c false rest with
      | some (value, after) =>
        .ok (some (.word { value := String.ofList value, quote := some c }), after)
      | none => .error "unterminated name"
    else if c == '\'' || c == '"' then
      literalRound (.text c) (readQuoted? c (escapesStrings d) rest)
    -- A dot before an underscore is told apart from the start of a number.
    else if c == '.' && rest.head? == some '_' then
      if afterWord then .ok (some (.symbol "."), rest) else .error "unexpected underscore"
    else if c == '.' then fractionRound d [] rest
    else if isAsciiDigit c then
      wholeRound d (c :: rest.takeWhile isAsciiDigit) (rest.dropWhile isAsciiDigit)
    else if c == '-' && rest.head? == some '-' then
      .ok (none, afterLine (d == .postgres) rest)
    else if c == '/' && rest.head? == some '*' then
      match afterBlock? 0 ' ' rest.tail with
      | some after => .ok (none, after)
      | none => .error "unterminated comment"
    else if c == '#' && d == .mySql then .ok (none, afterLine false rest)
    else if (c == '#' || c == '@') && startsWord d c then signRound d c rest
    else if c == '?' && d != .postgres then
      .ok (some (.literal (String.ofList (c :: rest.takeWhile isNumeric))),
        rest.dropWhile isNumeric)
    else if startsWord d c then wordRound d [c] rest
    else if c == '$' then dollarRound rest
    else if isSpace c then .ok (none, rest)
    else symbolRound d c rest

/-! ### A round adds nothing to the text -/

/-- A round leaves at most `n` characters. -/
def Round.LeavesAtMost (r : Round) (n : Nat) : Prop := ∀ read, r = .ok read → read.2.length ≤ n

/-- A round that reads a token is bounded by what it leaves. -/
theorem Round.leavesAtMost_ok {token : Option Token} {rest : List Char} {n : Nat}
    (h : rest.length ≤ n) : Round.LeavesAtMost (.ok (token, rest)) n := by
  rintro _ ⟨⟩
  exact h

/-- A round that fails leaves nothing to read on from, and so is bounded by anything. -/
theorem Round.leavesAtMost_error {reason : String} {n : Nat} :
    Round.LeavesAtMost (.error reason) n := by
  rintro _ ⟨⟩

/-- A literal leaves what its reader leaves, or fails where the reader does. -/
theorem leavesAtMost_literalRound {token : String → Token}
    {read : Option (List Char × List Char)} {n : Nat}
    (h : ∀ r, read = some r → r.2.length ≤ n) : (literalRound token read).LeavesAtMost n := by
  match read with
  | some (value, rest) => exact Round.leavesAtMost_ok (h _ rfl)
  | none => exact Round.leavesAtMost_error

/-- A word goes on through what stands behind its first characters. -/
theorem leavesAtMost_wordRound {d : Dialect} {start rest : List Char} {n : Nat}
    (h : rest.length ≤ n) : (wordRound d start rest).LeavesAtMost n :=
  Round.leavesAtMost_ok (Nat.le_trans (List.dropWhile_sublist _).length_le h)

/-- A literal with a letter in front leaves less than stood behind the letter. -/
theorem leavesAtMost_letteredLiteral? {d : Dialect} {c : Char} {rest : List Char} {r : Round}
    (h : letteredLiteral? d c rest = some r) : r.LeavesAtMost rest.length := by
  unfold letteredLiteral? at h
  split at h <;> (try split at h) <;> cases h <;> refine leavesAtMost_literalRound fun r h => ?_
  all_goals first
    | have := length_readQuoted?_le h; grind
    | have := length_readEscaped?_le h; grind

/-- An exponent takes its letter at least. -/
theorem length_exponent?_le {s : List Char} {r : List Char × List Char}
    (h : exponent? s = some r) : r.2.length ≤ s.length := by
  unfold exponent? at h
  grind [List.dropWhile_sublist, List.Sublist.length_le]

/-- A number takes a mark behind its digits at most. -/
theorem leavesAtMost_numberRound (digits s : List Char) :
    (numberRound digits s).LeavesAtMost s.length := by
  unfold numberRound
  split <;> exact Round.leavesAtMost_ok (by simp)

/-- Digits may belong to a number or start a word, and are bounded in either case. -/
theorem leavesAtMost_digitsRound (d : Dialect) (digits s : List Char) :
    (digitsRound d digits s).LeavesAtMost s.length := by
  unfold digitsRound
  split
  · rename_i h
    intro read hread
    exact Nat.le_trans (leavesAtMost_numberRound _ _ read hread) (length_exponent?_le h)
  · split
    · exact leavesAtMost_wordRound (Nat.le_refl _)
    · exact leavesAtMost_numberRound _ _

/-- A fraction is taken behind the point. -/
theorem leavesAtMost_fractionRound (d : Dialect) (whole s : List Char) :
    (fractionRound d whole s).LeavesAtMost s.length := by
  unfold fractionRound
  dsimp only
  split
  · exact Round.leavesAtMost_ok (Nat.le_refl _)
  · intro read hread
    exact Nat.le_trans (leavesAtMost_digitsRound _ _ _ read hread)
      (List.dropWhile_sublist _).length_le

/-- Behind whole digits a fraction may follow, or the digits of a hexadecimal number. -/
theorem leavesAtMost_wholeRound (d : Dialect) (whole s : List Char) :
    (wholeRound d whole s).LeavesAtMost s.length := by
  unfold wholeRound
  split
  · intro read hread
    exact Nat.le_succ_of_le (leavesAtMost_fractionRound _ _ _ read hread)
  · dsimp only
    split
    · exact Round.leavesAtMost_ok (Nat.le_succ_of_le (List.dropWhile_sublist _).length_le)
    · exact leavesAtMost_digitsRound _ _ _
  · exact leavesAtMost_digitsRound _ _ _

/-- A symbol takes none but its own characters. -/
theorem length_symbol?_le {d : Dialect} {c : Char} {rest : List Char} {r : Token × List Char}
    (h : symbol? d c rest = some r) : r.2.length ≤ rest.length := by
  obtain ⟨more, _, hmore⟩ := List.exists_of_findSome?_eq_some h
  obtain ⟨after, hafter, rfl⟩ := Option.map_eq_some_iff.1 hmore
  exact Nat.le_trans (List.dropWhile_sublist _).length_le (length_dropLead?_le hafter)

/-- A round of a symbol leaves what the symbol leaves. -/
theorem leavesAtMost_symbolRound (d : Dialect) (c : Char) (rest : List Char) :
    (symbolRound d c rest).LeavesAtMost rest.length := by
  unfold symbolRound
  split
  · rename_i h
    exact Round.leavesAtMost_ok (length_symbol?_le h)
  · exact Round.leavesAtMost_ok (Nat.le_refl _)

/-- A sign stands for itself, or starts an operator or a word. -/
theorem leavesAtMost_signRound (d : Dialect) (c : Char) (rest : List Char) :
    (signRound d c rest).LeavesAtMost rest.length := by
  unfold signRound
  dsimp only
  split
  · exact Round.leavesAtMost_ok (Nat.le_refl _)
  · exact Round.leavesAtMost_ok (Nat.le_refl _)
  · split
    · split
      · exact Round.leavesAtMost_ok (by simp)
      · exact Round.leavesAtMost_ok (by simp)
      · exact leavesAtMost_wordRound (by simp; omega)
    · split
      · exact leavesAtMost_symbolRound _ _ _
      · exact leavesAtMost_wordRound (by simp)

/-- A text up to a mark is taken with the mark. -/
theorem length_readUntil?_le {close s : List Char} {r : List Char × List Char}
    (h : readUntil? close s = some r) : r.2.length ≤ s.length := by
  fun_induction readUntil? close s generalizing r <;>
    grind [consRead, Option.map_eq_some_iff, → length_dropLead?_le]

/-- A text between two tags is taken with the second one, and a placeholder is its name alone. -/
theorem leavesAtMost_dollarRound (rest : List Char) :
    (dollarRound rest).LeavesAtMost rest.length := by
  have left : (rest.dropWhile fun c => isAlphanumeric c || c == '_').length ≤ rest.length :=
    (List.dropWhile_sublist _).length_le
  unfold dollarRound
  dsimp only
  split
  · rename_i h
    refine leavesAtMost_literalRound fun r hr => ?_
    have := length_readUntil?_le hr
    grind
  · exact Round.leavesAtMost_ok left

/-- Whichever of two rounds it is, both are bounded. -/
theorem Round.leavesAtMost_ite {p : Prop} [Decidable p] {r s : Round} {n : Nat}
    (hr : r.LeavesAtMost n) (hs : s.LeavesAtMost n) : (if p then r else s).LeavesAtMost n := by
  split
  · exact hr
  · exact hs

/-- A round leaves no more than stood behind its first character, so that the rounds come to an
end. -/
theorem leavesAtMost_step (d : Dialect) (afterWord : Bool) (c : Char) (rest : List Char) :
    (step d afterWord c rest).LeavesAtMost rest.length := by
  unfold step
  dsimp only
  cases h : letteredLiteral? d c rest with
  | some round => exact leavesAtMost_letteredLiteral? h
  | none =>
    dsimp only
    -- Along the alternatives of a round, in the order in which they are tried.
    refine Round.leavesAtMost_ite ?_ ?_
    · exact Round.leavesAtMost_ok (Nat.le_refl _)
    refine Round.leavesAtMost_ite ?_ ?_
    · split
      · exact Round.leavesAtMost_ok (length_readQuoted?_le (by assumption))
      · exact Round.leavesAtMost_error
    refine Round.leavesAtMost_ite ?_ ?_
    · exact leavesAtMost_literalRound fun r => length_readQuoted?_le
    refine Round.leavesAtMost_ite ?_ ?_
    · exact Round.leavesAtMost_ite (Round.leavesAtMost_ok (Nat.le_refl _)) Round.leavesAtMost_error
    refine Round.leavesAtMost_ite ?_ ?_
    · exact leavesAtMost_fractionRound _ _ _
    refine Round.leavesAtMost_ite ?_ ?_
    · exact fun read hread =>
        Nat.le_trans (leavesAtMost_wholeRound _ _ _ read hread) (List.dropWhile_sublist _).length_le
    refine Round.leavesAtMost_ite ?_ ?_
    · exact Round.leavesAtMost_ok (length_afterLine_le _ _)
    refine Round.leavesAtMost_ite ?_ ?_
    · split
      · rename_i after hafter
        have := length_afterBlock?_le hafter
        exact Round.leavesAtMost_ok (by grind)
      · exact Round.leavesAtMost_error
    refine Round.leavesAtMost_ite ?_ ?_
    · exact Round.leavesAtMost_ok (length_afterLine_le _ _)
    refine Round.leavesAtMost_ite ?_ ?_
    · exact leavesAtMost_signRound _ _ _
    refine Round.leavesAtMost_ite ?_ ?_
    · exact Round.leavesAtMost_ok (List.dropWhile_sublist _).length_le
    refine Round.leavesAtMost_ite ?_ ?_
    · exact leavesAtMost_wordRound (Nat.le_refl _)
    refine Round.leavesAtMost_ite ?_ ?_
    · exact leavesAtMost_dollarRound _
    refine Round.leavesAtMost_ite ?_ ?_
    · exact Round.leavesAtMost_ok (Nat.le_refl _)
    · exact leavesAtMost_symbolRound _ _ _

/-- Whether a token is a word. -/
def isWord : Token → Bool
  | .word _ => true
  | _ => false

/-- The tokens of a text; `afterWord` says whether a word precedes it at once. -/
def tokensFrom (d : Dialect) (afterWord : Bool) (s : List Char) : Except String (List Token) :=
  match s with
  | [] => .ok []
  | c :: rest =>
    match h : step d afterWord c rest with
    | .error reason => .error reason
    | .ok (token, after) =>
      have : after.length ≤ rest.length := leavesAtMost_step d afterWord c rest _ h
      (tokensFrom d (token.any isWord) after).map (token.toList ++ ·)
termination_by s.length
decreasing_by simp; omega

/-- The tokens of a script in a dialect, or why there are none. -/
def tokens (d : Dialect) (s : String) : Except String (List Token) := tokensFrom d false s.toList

end EntityDiagram.Statement.Token
