import EntityDiagram.Text.Pattern

/-!
# `EntityDiagram.Sql.ClientCommand`: what only a client understands

Dumps carry commands for the client that runs them, and triggers, which no reader of table
definitions needs: `withoutClientCommands` removes `DELIMITER` lines, `DROP TRIGGER` and
`CREATE TRIGGER … END`, and then tidies up doubled semicolons and runs of blank lines.

The passes work on raw text, one after the other, each by a pattern of its own that is searched for
from the left. They know neither quotes nor comments nor statements, so that they also take what
only looks like a command. The last two passes touch nothing but runs.
-/

set_option autoImplicit false

namespace EntityDiagram.Sql.ClientCommand

open Text (isSpace isWordChar Pattern)
open Text.Pattern

/-- A `DROP TRIGGER` statement with its semicolons. -/
def dropTrigger : Pattern Unit := do
  word "DROP"; spaces1; word "TRIGGER"; spaces1
  let _ ← optional (do word "IF"; spaces1; word "EXISTS"; spaces1)
  some1 fun c => c == '`' || isWordChar c || c == '.'
  spaces
  some1 (· == ';')

/-- The mark after the `END` of a trigger: one or two semicolons, or two dollar signs. -/
def triggerMark : Pattern Unit :=
  oneOf [exactly [';', ';'], exactly [';'], exactly ['$', '$']]

/-- A `CREATE TRIGGER` statement up to its first `END` that is followed by a mark. -/
def createTrigger : Pattern Unit := do
  word "CREATE"; spaces1
  let _ ← optional (do
    word "DEFINER"; spaces; char (· == '='); spaces; some1 fun c => !isSpace c
    spaces1)
  word "TRIGGER"; boundary
  -- Nothing of the body is read: its quotes and statements are characters like any other.
  fewest fun _ => true
  boundary; word "END"; spaces; triggerMark

/-- A line that sets the delimiter of statements, with the white space around it. -/
def delimiterLine : Pattern Unit := do
  lineStart; spaces; word "DELIMITER"; spaces1; some1 fun c => !isSpace c
  spaces; lineEnd

/-- Whether the character is a space or a tab. -/
def isBlankChar (c : Char) : Bool := c == ' ' || c == '\t'

/-- The rest of a blank line, with the line break at its end. -/
def blankLine : Pattern Unit := do many isBlankChar; char (· == '\n')

/-- A line break with two or more blank lines after it. -/
def blankLines : Pattern Unit := do
  char (· == '\n'); blankLine; blankLine; repeated blankLine

/-- The text without client commands and triggers. -/
def remove (sql : List Char) : List Char :=
  let sql := dropTrigger.replaceAll [] sql
  let sql := createTrigger.replaceAll [] sql
  let sql := delimiterLine.replaceAll [] sql
  -- What has been removed may leave doubled semicolons and gaps behind.
  let sql := (exactly [';', ';']).replaceAll [';'] sql
  blankLines.replaceAll ['\n', '\n'] sql

end EntityDiagram.Sql.ClientCommand

namespace EntityDiagram.Sql

/-- The script without client commands and triggers. -/
def withoutClientCommands (sql : String) : String :=
  String.ofList (ClientCommand.remove sql.toList)

end EntityDiagram.Sql
