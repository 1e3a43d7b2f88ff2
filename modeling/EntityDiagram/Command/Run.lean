import EntityDiagram.Command.Arguments
import EntityDiagram.Command.Listing
import EntityDiagram.Command.Source
import EntityDiagram.Diagram.Render
import EntityDiagram.Json.Printer
import EntityDiagram.Parsing.Fallback
import EntityDiagram.Settings.Document

/-!
# `EntityDiagram.Command.Run`: carrying out a request

`run` makes of a command line a plan that ends in a report: what to print, what to note beside it,
and the exit status. Status 1 stands for a failure, which is the last note, and 2 for a command
line that makes no sense.

The grammar of the strict backend is a parameter, as it is for reading scripts, and so is the format
of the file of the settings.
-/

set_option autoImplicit false

namespace EntityDiagram.Command

/-- What a run of the program shows. -/
structure Report where
  status : Nat := 0
  /-- What goes to the standard output. -/
  output : String := ""
  /-- What goes to the standard error, line by line. -/
  notes : List String := []
deriving DecidableEq, Repr, Inhabited

/-- A part of a run: it plans, prints and notes, and ends early with the wording of an error. -/
abbrev Job (α : Type) := ExceptT String (StateT Report Plan) α

namespace Job

/-- Looks at files, or writes them. -/
def plan {α : Type} (p : Plan α) : Job α := (liftM p : StateT Report Plan α)

/-- Prints a text. -/
def print (text : String) : Job Unit :=
  modify fun r => { r with output := r.output ++ text }

/-- Notes lines. -/
def note (lines : List String) : Job Unit :=
  modify fun r => { r with notes := r.notes ++ lines }

/-- The plan of a job, with its report. An error is noted last. -/
def report (job : Job Unit) : Plan Report := do
  let (ended, r) ← (job.run).run {}
  match ended with
  | .ok () => return r
  | .error e => return { r with status := 1, notes := r.notes ++ ["Error: " ++ e] }

end Job

open Job

/-! ### Settings and schemas -/

/-- The usual file of the settings. -/
def usualConfig : String := "erdviz.toml"

/-- Reads settings from a file that is there. -/
def settingsOf (toml : Toml.Format) (path : String) : Job Settings := do
  match ← plan (readFile path) with
  | .error e => throw ("IO error: " ++ e.message)
  | .ok document =>
    match Settings.ofText? toml document with
    | some settings => return settings
    | none => throw "Parse error: invalid settings"

/-- The settings for a request. The usual file need not be there. -/
def settings (toml : Toml.Format) (r : Request) : Job Settings := do
  match r.config with
  | some path => settingsOf toml path
  | none =>
    match ← plan (.lookAt usualConfig) with
    | .missing _ => do
      if r.verbose then note ["No config file found, using defaults"]
      return {}
    | _ => settingsOf toml usualConfig

/-- Reads the script of a request. -/
def parseInput (grammar : Parsing.Grammar) (s : Settings) (r : Request) : Job ParseResult := do
  match ← plan (readScript r.path) with
  | .error e => throw e.message
  | .ok sql =>
    let hint := r.dialect.getD s.dialect.name
    if r.verbose then note ["Parsing " ++ r.path ++ " (" ++ hint ++ ")"]
    return Parsing.parse grammar Parsing.Backend.all sql hint

/-- Ends early because a script was not read. -/
def failWith {α : Type} (result : ParseResult) : Job α := do
  note (failureLines result)
  throw result.message

/-- Reads the script of a request and infers the relations of its schema. -/
def relatedSchema (grammar : Parsing.Grammar) (s : Settings) (r : Request) : Job Schema := do
  let result ← parseInput grammar s r
  if r.verbose then note (result.warnings.map ("  note: " ++ ·))
  match result.schema with
  | some schema => return (Relation.infer s.inference schema).1
  | none => failWith result

/-! ### Tasks -/

/-- Shows what a script declares. -/
def summarize (grammar : Parsing.Grammar) (s : Settings) (r : Request) (asJson : Bool) :
    Job Unit := do
  let result ← parseInput grammar s r
  if asJson then
    print (Json.pretty result.toJson ++ "\n")
    if !result.success then throw result.message
  else
    match result.schema with
    | some schema => print (unlines (summaryLines schema result.warnings))
    | none => failWith result

/-- What a diagram shows: what is asked for on the command line, or else what the settings say.
Tables to exclude are added to those of the settings. -/
def Overrides.apply (o : Overrides) (options : Diagram.Options) : Diagram.Options :=
  let options := { options with
    viewMode := o.viewMode.getD options.viewMode
    direction := o.direction.getD options.direction
    showComments := options.showComments && !o.hideComments }
  (options.including o.includeTables).excluding o.excludeTables

/-- Draws a schema, on the standard output or into a file. -/
def draw (grammar : Parsing.Grammar) (s : Settings) (r : Request) (overrides : Overrides)
    (output : Option String) : Job Unit := do
  let schema ← relatedSchema grammar s r
  let options := { overrides.apply s.diagram.options with dialect := some schema.dbType }
  let diagram := Diagram.render s.inference.suffix options schema
  match output with
  | none => print diagram
  | some path =>
    match ← plan (.writeTo path diagram) with
    | none => note ["Diagram saved to: " ++ path]
    | some e => throw e.message

/-- Carries out a request. -/
def Request.job (grammar : Parsing.Grammar) (toml : Toml.Format) (r : Request) : Job Unit := do
  let s ← settings toml r
  match r.task with
  | .summarize asJson => summarize grammar s r asJson
  | .draw overrides output => draw grammar s r overrides output
  | .listRelations => do
    print (unlines (relationLines (← relatedSchema grammar s r)))

/-- The report on a command line that asks for nothing to be done. -/
def Stop.report : Stop → Report
  | .help verb => { output := helpText verb }
  | .version => { output := versionText }
  | .misuse verb reason =>
    { status := 2
      notes := ["error: " ++ reason.message, "", usageLine verb,
        "For more information, try '--help'."] }

/-- What the program does for a command line. -/
def run (grammar : Parsing.Grammar) (toml : Toml.Format) (words : List String) : Plan Report :=
  match Request.ofArguments words with
  | .ok request => (request.job grammar toml).report
  | .error stop => .done stop.report

end EntityDiagram.Command
