import EntityDiagram.Text.Alphanumeric
import EntityDiagram.Text.Space

/-!
# `EntityDiagram.Text.Pattern`: patterns with ordered alternatives

A pattern reads a text from a place in it and yields every way to match there, the preferred way
first: an alternative prefers its left side, a repetition prefers to go on. A search takes the
first way at the leftmost place that has one. So a pattern is a function from places to the list
of its matches, and sequencing is the monad of lists.

Matches carry `Span`s, pairs of places, and the text between them is cut out only once a match
has been chosen.

## Main definitions

* `Place`: the character before a point of a text, if any, and the text after it.
* `Pattern`: the matches of a pattern at a place.
* `Pattern.search`: the leftmost match.
* `Pattern.replaceAll`: every match replaced, from the left and without overlap.
-/

set_option autoImplicit false

namespace EntityDiagram.Text

/-- A point in a text: the character just before it and the text that follows it. -/
structure Place where
  before : Option Char
  rest : List Char

/-- The start of a text. -/
def Place.start (s : List Char) : Place := ⟨none, s⟩

/-- The stretch of a text from one place to a later one. -/
structure Span where
  start : Place
  stop : Place

/-- The characters of the stretch. -/
def Span.chars (s : Span) : List Char :=
  s.start.rest.take (s.start.rest.length - s.stop.rest.length)

/-- The stretch as a string. -/
def Span.text (s : Span) : String := String.ofList s.chars

/-- A pattern: at each place, the values and ends of its matches, the preferred match first. -/
def Pattern (α : Type) := Place → List (α × Place)

namespace Pattern

variable {α β : Type}

/-- Patterns are put together in `do` blocks: each match of the first is followed by all of the
second. -/
instance : Monad Pattern where
  pure a := fun here => [(a, here)]
  bind p f := fun here => (p here).flatMap fun m => f m.1 m.2

/-- One character that satisfies `p`. -/
def char (p : Char → Bool) : Pattern Unit := fun here =>
  match here.rest with
  | [] => []
  | c :: rest => if p c then [((), ⟨some c, rest⟩)] else []

/-- The places after `0, 1, …` characters that satisfy `p`. -/
def runEnds (p : Char → Bool) : Option Char → List Char → List Place
  | before, [] => [⟨before, []⟩]
  | before, c :: rest => ⟨before, c :: rest⟩ :: if p c then runEnds p (some c) rest else []

/-- Any number of characters that satisfy `p`, the most first. -/
def many (p : Char → Bool) : Pattern Unit := fun here =>
  (runEnds p here.before here.rest).reverse.map ((), ·)

/-- Any number of characters that satisfy `p`, the fewest first. -/
def fewest (p : Char → Bool) : Pattern Unit := fun here =>
  (runEnds p here.before here.rest).map ((), ·)

/-- One or more characters that satisfy `p`, the most first. -/
def some1 (p : Char → Bool) : Pattern Unit := do char p; many p

/-- The matches of `p`, then those of `q`. -/
def orElse (p q : Pattern α) : Pattern α := fun here => p here ++ q here

/-- The matches of the listed patterns, in order. -/
def oneOf (ps : List (Pattern α)) : Pattern α := fun here => ps.flatMap fun p => p here

/-- A match of `p`, or else nothing. -/
def optional (p : Pattern α) : Pattern (Option α) := fun here =>
  (p here).map (fun m => (some m.1, m.2)) ++ [(none, here)]

/-- Any number of matches of `p`, the most first. Each has to consume a character, so `fuel` as
large as the text is enough. -/
def repeatUpTo (p : Pattern Unit) : (fuel : Nat) → Pattern Unit
  | 0 => fun here => [((), here)]
  | fuel + 1 => fun here =>
    ((p here).flatMap fun m => repeatUpTo p fuel m.2) ++ [((), here)]

/-- Any number of matches of a pattern that never matches nothing, the most first. -/
def repeated (p : Pattern Unit) : Pattern Unit := fun here => repeatUpTo p here.rest.length here

/-- The stretch that `p` matches. -/
def span (p : Pattern α) : Pattern Span := fun here =>
  (p here).map fun m => (⟨here, m.2⟩, m.2)

/-- The characters of `s` as they are. -/
def exactly : List Char → Pattern Unit
  | [] => pure ()
  | c :: s => do char (· == c); exactly s

/-- Whether `c` is the upper-case ASCII character `letter` or folds to it: the long s folds to
`S` and the kelvin sign to `K`. -/
def foldsTo (letter c : Char) : Bool :=
  c.toUpper == letter || (letter == 'S' && c == 'ſ') || (letter == 'K' && c == '\u212A')

/-- The upper-case ASCII text `s`, written in any letter case. -/
def anyCase : List Char → Pattern Unit
  | [] => pure ()
  | c :: s => do char (foldsTo c); anyCase s

/-- The upper-case ASCII word `w`, written in any letter case. -/
def word (w : String) : Pattern Unit := anyCase w.toList

/-- White space, possibly none. -/
def spaces : Pattern Unit := many isSpace

/-- White space, at least one character. -/
def spaces1 : Pattern Unit := some1 isSpace

/-- A place between a word character and one that is none, or at an end next to a word character. -/
def boundary : Pattern Unit := fun here =>
  if (here.before.map isWordChar).getD false != (here.rest.head?.map isWordChar).getD false
  then [((), here)] else []

/-- The start of the text. -/
def textStart : Pattern Unit := fun here => if here.before.isNone then [((), here)] else []

/-- The end of the text. -/
def textEnd : Pattern Unit := fun here => if here.rest.isEmpty then [((), here)] else []

/-- The start of the text or of a line. -/
def lineStart : Pattern Unit := fun here =>
  if here.before.isNone || here.before == some '\n' then [((), here)] else []

/-- The end of the text or of a line. -/
def lineEnd : Pattern Unit := fun here =>
  if here.rest.isEmpty || here.rest.head? == some '\n' then [((), here)] else []

/-! ### Choosing a match -/

/-- The preferred match that starts at the place. -/
def matchAt? (p : Pattern α) (here : Place) : Option (α × Place) := (p here).head?

/-- A match found in a text: where it starts, its value and where it ends. -/
structure Found (α : Type) where
  start : Place
  value : α
  stop : Place

/-- The leftmost match in the text `rest` that follows `before`. -/
def searchFrom (p : Pattern α) (before : Option Char) : List Char → Option (Found α)
  -- A pattern may still match nothing at the very end.
  | [] => (p ⟨before, []⟩).head?.map fun m => ⟨⟨before, []⟩, m.1, m.2⟩
  | c :: rest =>
    match (p ⟨before, c :: rest⟩).head? with
    | some m => some ⟨⟨before, c :: rest⟩, m.1, m.2⟩
    | none => searchFrom p (some c) rest

/-- The leftmost match at or after the place. -/
def search (p : Pattern α) (here : Place) : Option (Found α) := searchFrom p here.before here.rest

/-- The value of the leftmost match in the text. -/
def find? (p : Pattern α) (s : List Char) : Option α := (p.search (.start s)).map (·.value)

/-- Whether the pattern matches somewhere in the text. -/
def occursIn (p : Pattern α) (s : List Char) : Bool := (p.search (.start s)).isSome

/-- Every match of a pattern that never matches nothing, from the left and without overlap.
Each round consumes a character, so `fuel` as large as the text is enough. -/
def matchesUpTo (p : Pattern α) : (fuel : Nat) → Place → List (Found α)
  | 0, _ => []
  | fuel + 1, here =>
    match p.search here with
    | none => []
    | some found => found :: matchesUpTo p fuel found.stop

/-- Every match of a pattern that never matches nothing, from the left and without overlap. -/
def allMatches (p : Pattern α) (s : List Char) : List (Found α) :=
  matchesUpTo p (s.length + 1) (.start s)

/-- The text from `here` on, with each of the matches, which follow each other, replaced by
`new`. -/
def substitute (new : List Char) (here : Place) : List (Found α) → List Char
  | [] => here.rest
  | found :: more => (Span.mk here found.start).chars ++ new ++ substitute new found.stop more

/-- The text with every match of a pattern that never matches nothing replaced by `new`. -/
def replaceAll (p : Pattern α) (new s : List Char) : List Char :=
  substitute new (.start s) (p.allMatches s)

end Pattern

end EntityDiagram.Text
