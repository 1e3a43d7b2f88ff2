import EntityDiagram.Command.Option
import EntityDiagram.Text.Replace
import EntityDiagram.Text.Space

/-!
# `EntityDiagram.Command.Arguments`: reading the command line

`Request.ofArguments` reads what a user has typed as a `Request`, or says why there is nothing to
do: help or the version is asked for, or the words make no sense. Words are read from the left,
and the first that settles the matter does.

An option may be given once, but for the two that name tables. The options for the program may
stand before the command and again after it; then the latter counts. A value stands in the same
word, after an equals sign or right after the letter, or in the next word, which must not look
like an option. After two dashes alone no word is an option any more.
-/

set_option autoImplicit false

namespace EntityDiagram.Command

/-! ### Requests -/

/-- What a diagram is asked to show, other than the settings say. -/
structure Overrides where
  viewMode : Option Diagram.ViewMode := none
  direction : Option Diagram.Direction := none
  includeTables : List String := []
  excludeTables : List String := []
  hideComments : Bool := false
deriving DecidableEq, Repr, Inhabited

/-- What is made of a schema. -/
inductive Task where
  | summarize (asJson : Bool)
  /-- Draws a diagram, into a file if one is named. -/
  | draw (overrides : Overrides) (output : Option String)
  | listRelations
deriving DecidableEq, Repr

/-- What a user asks for. -/
structure Request where
  /-- The file of the settings, if it is not the usual one. -/
  config : Option String
  verbose : Bool
  /-- The dialect, if it is not that of the settings. -/
  dialect : Option String
  /-- The file or folder with the schema. -/
  path : String
  task : Task
deriving DecidableEq, Repr

/-- Why words on a command line make no sense. -/
inductive Misuse where
  | unknownOption (word : String)
  | missingValue (option : Opt)
  | needlessValue (option : Opt) (value : String)
  | repeated (option : Opt)
  | invalidValue (usage value : String) (reason : String)
  | unknownCommand (word : String)
  | missingCommand
  | missingPath
  | needlessWord (word : String)
deriving DecidableEq, Repr

/-- The wording of a misuse. -/
def Misuse.message : Misuse → String
  | .unknownOption word | .needlessWord word => "unexpected argument '" ++ word ++ "' found"
  | .missingValue option => "a value is required for '" ++ option.usage ++ "' but none was supplied"
  | .needlessValue option value =>
    "unexpected value '" ++ value ++ "' for '" ++ option.usage ++ "' found; no more were expected"
  | .repeated option => "the argument '" ++ option.usage ++ "' cannot be used multiple times"
  | .invalidValue usage value reason =>
    "invalid value '" ++ value ++ "' for '" ++ usage ++ "': " ++ reason
  | .unknownCommand word => "unrecognized subcommand '" ++ word ++ "'"
  | .missingCommand => "a subcommand is required but one was not provided"
  | .missingPath => "the following required arguments were not provided:\n  <PATH>"

/-- Why there is nothing to do. -/
inductive Stop where
  | help (verb : Option Verb)
  | version
  | misuse (verb : Option Verb) (reason : Misuse)
deriving DecidableEq, Repr

/-! ### Options -/

/-- The options and words that have been read of the program or of a command. -/
structure Given where
  config : Option String := none
  verbose : Bool := false
  dialect : Option String := none
  json : Bool := false
  overrides : Overrides := {}
  output : Option String := none
  path : Option String := none

/-- A path, which is not empty. -/
def pathValue (usage value : String) : Except Misuse String :=
  if value.isEmpty then .error (.invalidValue usage value "a value is required") else .ok value

/-- A value of an option that may be given once. -/
def once {α : Type} (o : Opt) (old : Option α) (value : α) : Except Misuse (Option α) :=
  if old.isSome then .error (.repeated o) else .ok (some value)

/-- An option without value that may be given once. -/
def flag (o : Opt) (old : Bool) : Except Misuse Bool :=
  if old then .error (.repeated o) else .ok true

/-- A word for one of several choices. -/
def wordValue {α : Type} (o : Opt) (value : String) (read : Except Diagram.UnknownWord α) :
    Except Misuse α :=
  read.mapError fun e => .invalidValue o.usage value e.message

/-- The names between commas. -/
def nameList (value : String) : List String :=
  (Text.splitWhere (· == ',') value.toList).map String.ofList

/-- Notes an option with its value, which is empty if the option takes none. -/
def Given.note (g : Given) (o : Opt) (value : String) : Except Misuse Given :=
  let shown := g.overrides
  match o with
  | .config => return { g with config := ← once o g.config (← pathValue o.usage value) }
  | .verbose => return { g with verbose := ← flag o g.verbose }
  | .dialect => return { g with dialect := ← once o g.dialect value }
  | .json => return { g with json := ← flag o g.json }
  | .view => do
    let mode ← wordValue o value (Diagram.ViewMode.ofWord value)
    return { g with overrides := { shown with viewMode := ← once o shown.viewMode mode } }
  | .direction => do
    let direction ← wordValue o value (Diagram.Direction.ofWord value)
    return { g with overrides := { shown with direction := ← once o shown.direction direction } }
  | .including =>
    let names := shown.includeTables ++ nameList value
    return { g with overrides := { shown with includeTables := names } }
  | .excluding =>
    let names := shown.excludeTables ++ nameList value
    return { g with overrides := { shown with excludeTables := names } }
  | .noComments =>
    return { g with overrides := { shown with hideComments := ← flag o shown.hideComments } }
  | .output => return { g with output := ← once o g.output (← pathValue o.usage value) }
  | .help | .version => return g

/-! ### Words -/

/-- A word of a command line. -/
inductive Word where
  /-- Two dashes alone. -/
  | dashes
  /-- An option by its name, with what follows an equals sign. -/
  | long (name : String) (value : Option String)
  /-- Options by their letters. -/
  | cluster (letters : List Char)
  | plain
deriving DecidableEq, Repr

/-- What kind of word this is. A dash alone is a plain word. -/
def Word.of (word : String) : Word :=
  match word.toList with
  | ['-', '-'] => .dashes
  | '-' :: '-' :: rest =>
    let name := String.ofList (rest.takeWhile (· != '='))
    match rest.dropWhile (· != '=') with
    | [] => .long name none
    | _ :: value => .long name (some (String.ofList value))
  | '-' :: c :: letters => .cluster (c :: letters)
  | _ => .plain

/-- What has been read so far, with the option whose value has to follow. -/
abbrev Reading := Given × Option Opt

/-- Reads an option. `value` is what stands in the same word for its value. -/
def readOption (verb : Option Verb) (g : Given) (o : Opt) (value : Option String) :
    Except Stop Reading :=
  let noted (value : String) : Except Stop Reading :=
    match g.note o value with
    | .ok g => .ok (g, none)
    | .error reason => .error (.misuse verb reason)
  match o.takesValue, value with
  | true, none => .ok (g, some o)
  | true, some value => noted value
  | false, some value => .error (.misuse verb (.needlessValue o value))
  | false, none =>
    match o with
    | .help => .error (.help verb)
    | .version => .error .version
    | _ => noted ""

/-- The option among those of the command that satisfies `p`. -/
def optionWhere (verb : Option Verb) (word : String) (p : Opt → Bool) : Except Stop Opt :=
  match (Opt.all verb).find? p with
  | some o => .ok o
  | none => .error (.misuse verb (.unknownOption word))

/-- Reads options by their letters. The letters after that of an option with a value are the
value, with or without an equals sign. -/
def readLetters (verb : Option Verb) (g : Given) : List Char → Except Stop Reading
  | [] => .ok (g, none)
  | c :: letters => do
    let o ← optionWhere verb ("-" ++ String.singleton c) (·.short? == some c)
    if o.takesValue then
      readOption verb g o (match letters with
        | [] => none
        | '=' :: value => some (String.ofList value)
        | value => some (String.ofList value))
    else
      let (g, _) ← readOption verb g o none
      readLetters verb g letters

/-- Reads a word that is not plain. -/
def readWord (verb : Option Verb) (g : Given) (word : String) : Except Stop Reading :=
  match Word.of word with
  | .long name value => do
    let o ← optionWhere verb ("--" ++ name) (·.long == name)
    readOption verb g o value
  | .cluster letters => readLetters verb g letters
  | .dashes | .plain => .ok (g, none)

/-- Reads the value of an option from the word after it. -/
def readValue (verb : Option Verb) (g : Given) (o : Opt) (word : String) : Except Stop Given := do
  if Word.of word != .plain then throw (.misuse verb (.missingValue o))
  return (← readOption verb g o (some word)).1

/-- Reads a path. -/
def readPath (verb : Verb) (g : Given) (word : String) : Except Stop Given :=
  if g.path.isSome then .error (.misuse (some verb) (.needlessWord word))
  else match pathValue "<PATH>" word with
    | .ok path => .ok { g with path := some path }
    | .error reason => .error (.misuse (some verb) reason)

/-! ### The command line -/

/-- Reads the words after a command. `pending` is an option whose value has to follow. -/
def readCommand (verb : Verb) :
    (pending : Option Opt) → Given → List String → Except Stop Given
  | none, g, [] => .ok g
  | some o, _, [] => .error (.misuse (some verb) (.missingValue o))
  | some o, g, word :: words => do
    readCommand verb none (← readValue (some verb) g o word) words
  | none, g, word :: words =>
    match Word.of word with
    | .dashes => words.foldlM (readPath verb) g
    | .plain => do readCommand verb none (← readPath verb g word) words
    | _ => do
      let (g, pending) ← readWord (some verb) g word
      readCommand verb pending g words

/-- What the words of a command ask for. `before` are the options before the command. -/
def request (verb : Verb) (before g : Given) : Except Stop Request :=
  match g.path with
  | none => .error (.misuse (some verb) .missingPath)
  | some path => .ok {
      config := g.config.or before.config
      verbose := g.verbose || before.verbose
      dialect := g.dialect
      path
      task := match verb with
        | .parse => .summarize g.json
        | .render => .draw g.overrides g.output
        | .relations => .listRelations }

/-- The help that the words after `help` ask for. -/
def readHelp : List String → Stop
  | [] | ["help"] => .help none
  | word :: words =>
    match Verb.ofName? word, words with
    | some verb, [] => .help (some verb)
    | some verb, word :: _ => .misuse (some verb) (.unknownCommand word)
    | none, _ => .misuse none (.unknownCommand word)

/-- Reads a whole command line. `pending` is an option whose value has to follow. -/
def readProgram : (pending : Option Opt) → Given → List String → Except Stop Request
  | none, _, [] => .error (.misuse none .missingCommand)
  | some o, _, [] => .error (.misuse none (.missingValue o))
  | some o, g, word :: words => do readProgram none (← readValue none g o word) words
  | none, g, word :: words =>
    match Word.of word with
    | .plain =>
      if word == "help" then .error (readHelp words)
      else match Verb.ofName? word with
        | some verb => (readCommand verb none {} words).bind (request verb g)
        | none => .error (.misuse none (.unknownCommand word))
    | .dashes =>
      .error (.misuse none (match words with
        | [] => .missingCommand
        | word :: _ => .needlessWord word))
    | _ => do
      let (g, pending) ← readWord none g word
      readProgram pending g words

/-- What a command line asks for, or why there is nothing to do. -/
def Request.ofArguments (words : List String) : Except Stop Request := readProgram none {} words

end EntityDiagram.Command
