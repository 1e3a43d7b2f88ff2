import EntityDiagram.Diagram.Options

/-!
# `EntityDiagram.Command.Option`: what can be asked for on the command line

The program has three commands. Each of them takes a path and options, and some options may also
stand before the command. This module holds the names of all of them and the help texts, which
list them.

How options and verbs are read off the words of a command line is told in
`EntityDiagram.Command.Arguments`, and what is done about them in `EntityDiagram.Command.Run`.
-/

set_option autoImplicit false

namespace EntityDiagram.Command

/-! ### Commands -/

/-- A command of the program. -/
inductive Verb where
  /-- Summarizes a schema. -/
  | parse
  /-- Draws a schema. -/
  | render
  /-- Lists the foreign keys of a schema. -/
  | relations
deriving DecidableEq, Repr

namespace Verb

/-- The name of the command. -/
def name : Verb → String
  | .parse => "parse"
  | .render => "render"
  | .relations => "relations"

/-- The command of this name. -/
def ofName? : String → Option Verb
  | "parse" => some .parse
  | "render" => some .render
  | "relations" => some .relations
  | _ => none

/-- What the command does, for the help text. -/
def about : Verb → String
  | .parse => "Parse DDL and summarize the schema"
  | .render => "Render a Mermaid ER diagram"
  | .relations => "List foreign keys with their inferred cardinality"

end Verb

/-! ### Options -/

/-- An option of the program or of a command. -/
inductive Opt where
  | config
  | verbose
  | help
  | version
  | dialect
  | json
  | view
  | direction
  | including
  | excluding
  | noComments
  | output
deriving DecidableEq, Repr

namespace Opt

/-- The name of the option after two dashes. -/
def long : Opt → String
  | .config => "config"
  | .verbose => "verbose"
  | .help => "help"
  | .version => "version"
  | .dialect => "dialect"
  | .json => "json"
  | .view => "view"
  | .direction => "direction"
  | .including => "include"
  | .excluding => "exclude"
  | .noComments => "no-comments"
  | .output => "output"

/-- The letter of the option after one dash, if it has one. -/
def short? : Opt → Option Char
  | .config => some 'c'
  | .verbose => some 'v'
  | .help => some 'h'
  | .version => some 'V'
  | .dialect => some 'd'
  | .output => some 'o'
  | _ => none

/-- Whether a value follows the option. -/
def takesValue : Opt → Bool
  | .verbose | .help | .version | .json | .noComments => false
  | _ => true

/-- What the option is for, for the help text. -/
def about : Opt → String
  | .config => "Path to config file (default: erdviz.toml)"
  | .verbose => "Enable verbose output"
  | .help => "Print help"
  | .version => "Print version"
  | .dialect => "SQL dialect: mysql, postgres, generic or auto"
  | .json => "Print the full parse result as JSON"
  | .view => "View mode: physical, logical or conceptual"
  | .direction => "Layout direction: TB or LR"
  | .including => "Only render these tables"
  | .excluding => "Leave out these tables"
  | .noComments => "Do not render column comments"
  | .output => "Output file (default: stdout)"

/-- The options before the command, or those of a command, in the order of the help text. -/
def all : Option Verb → List Opt
  | none => [.config, .verbose, .help, .version]
  | some .parse => [.config, .dialect, .json, .verbose, .help]
  | some .render =>
    [.config, .dialect, .verbose, .view, .direction, .including, .excluding, .noComments, .output,
      .help]
  | some .relations => [.config, .dialect, .verbose, .help]

/-- The option with its value, as the user writes it. -/
def usage (o : Opt) : String :=
  "--" ++ o.long
    ++ if o.takesValue then " <" ++ String.ofList (Text.upper o.long.toList) ++ ">" else ""

end Opt

/-! ### Help texts -/

/-- Two columns of a help text. -/
def columns (rows : List (String × String)) : String :=
  let width := (rows.map (·.1.length)).foldl max 0
  String.join (rows.map fun row =>
    "  " ++ row.1 ++ String.ofList (List.replicate (width + 2 - row.1.length) ' ') ++ row.2 ++ "\n")

/-- The list of options in a help text. -/
def optionList (verb : Option Verb) : String :=
  let row (o : Opt) : String × String :=
    ((match o.short? with
      | some c => "-" ++ String.singleton c ++ ", "
      | none => "    ") ++ o.usage, o.about)
  "Options:\n" ++ columns ((Opt.all verb).map row)

/-- How the program or a command is called. -/
def usageLine : Option Verb → String
  | none => "Usage: erdviz [OPTIONS] <COMMAND>\n"
  | some verb => "Usage: erdviz " ++ verb.name ++ " [OPTIONS] <PATH>\n"

/-- The help text of the program or of a command. -/
def helpText : Option Verb → String
  | none =>
    let verbs := [Verb.parse, .render, .relations].map fun v => (v.name, v.about)
    let help := ("help", "Print this message or the help of the given subcommand(s)")
    "ErdViz - ER diagrams from SQL DDL\n\n" ++ usageLine none ++ "\nCommands:\n"
      ++ columns (verbs ++ [help]) ++ "\n" ++ optionList none
  | some verb =>
    verb.about ++ "\n\n" ++ usageLine (some verb) ++ "\nArguments:\n"
      ++ columns [("<PATH>", "SQL file or directory of .sql files")] ++ "\n"
      ++ optionList (some verb)

/-- What the program answers when it is asked for its version. -/
def versionText : String := "erdviz 0.1.0\n"

end EntityDiagram.Command
