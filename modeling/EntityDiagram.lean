import EntityDiagram.Command.Arguments
import EntityDiagram.Command.FileTree
import EntityDiagram.Command.Listing
import EntityDiagram.Command.Option
import EntityDiagram.Command.Plan
import EntityDiagram.Command.Run
import EntityDiagram.Command.Source
import EntityDiagram.Ddl.Column
import EntityDiagram.Ddl.Cursor
import EntityDiagram.Ddl.ForeignKey
import EntityDiagram.Ddl.Script
import EntityDiagram.Ddl.TableBody
import EntityDiagram.Ddl.Token
import EntityDiagram.Ddl.Token.Lexer
import EntityDiagram.Diagram.Options
import EntityDiagram.Diagram.Render
import EntityDiagram.Excerpt.Definition
import EntityDiagram.Excerpt.Scan
import EntityDiagram.Excerpt.Script
import EntityDiagram.Json.Basic
import EntityDiagram.Json.Printer
import EntityDiagram.Main
import EntityDiagram.Parsing.Backend
import EntityDiagram.Parsing.Fallback
import EntityDiagram.Parsing.Result
import EntityDiagram.Relation.Inference
import EntityDiagram.Relation.Json
import EntityDiagram.Schema.Assembly
import EntityDiagram.Schema.Basic
import EntityDiagram.Schema.Json
import EntityDiagram.Settings.Basic
import EntityDiagram.Settings.Document
import EntityDiagram.Sql.ClientCommand
import EntityDiagram.Sql.ColumnType
import EntityDiagram.Sql.Dialect
import EntityDiagram.Sql.Literal
import EntityDiagram.Sql.Name
import EntityDiagram.Statement.Basic
import EntityDiagram.Statement.Change
import EntityDiagram.Statement.Definition
import EntityDiagram.Statement.Expression
import EntityDiagram.Statement.Grammar
import EntityDiagram.Statement.Keyword
import EntityDiagram.Statement.Query
import EntityDiagram.Statement.Reader
import EntityDiagram.Statement.Schema
import EntityDiagram.Statement.Token
import EntityDiagram.Statement.Token.Lexer
import EntityDiagram.Statement.TypeName
import EntityDiagram.Text.Alphabetic
import EntityDiagram.Text.Alphanumeric
import EntityDiagram.Text.Casing
import EntityDiagram.Text.CodeRange
import EntityDiagram.Text.Pattern
import EntityDiagram.Text.Replace
import EntityDiagram.Text.Space
import EntityDiagram.Toml.Basic
import EntityDiagram.Toml.Document
import EntityDiagram.Toml.Draft
import EntityDiagram.Toml.Format
import EntityDiagram.Toml.Number
import EntityDiagram.Toml.Printer
import EntityDiagram.Toml.Quoted
import EntityDiagram.Toml.Scan
import EntityDiagram.Proofs.Relation.Classification
import EntityDiagram.Proofs.Relation.Session
import EntityDiagram.Proofs.Sql.ColumnType
import EntityDiagram.Proofs.Ddl.Token.Lexer
import EntityDiagram.Proofs.Ddl.Spelling
import EntityDiagram.Proofs.Ddl.Definition
import EntityDiagram.Proofs.Ddl.Reading
import EntityDiagram.Proofs.Ddl.RoundTrip
import EntityDiagram.Proofs.Ddl.Token.Round
import EntityDiagram.Proofs.Text.Replacement
import EntityDiagram.Proofs.Sql.ClientCommand
import EntityDiagram.Proofs.Ddl.Token.Tidying
import EntityDiagram.Proofs.Ddl.Preprocessing
import EntityDiagram.Proofs.Parsing.Fallback
import EntityDiagram.Proofs.Ddl.Placement
import EntityDiagram.Proofs.Text.FirstMatch
import EntityDiagram.Proofs.Text.Space
import EntityDiagram.Proofs.Text.WordSearch
import EntityDiagram.Proofs.Ddl.PlainLexeme
import EntityDiagram.Proofs.Ddl.PlainTable
import EntityDiagram.Proofs.Excerpt.LexemeSearch
import EntityDiagram.Proofs.Excerpt.Scan
import EntityDiagram.Proofs.Excerpt.Clause
import EntityDiagram.Proofs.Excerpt.Column
import EntityDiagram.Proofs.Excerpt.Script
import EntityDiagram.Proofs.Parsing.Agreement
import EntityDiagram.Proofs.Ddl.Boundary
import EntityDiagram.Proofs.Ddl.Continuation
import EntityDiagram.Proofs.Ddl.Soundness
import EntityDiagram.Proofs.Ddl.Token.LineEnd
import EntityDiagram.Proofs.Diagram.Outline
import EntityDiagram.Proofs.Diagram.Parts
import EntityDiagram.Proofs.Diagram.ReadBack
import EntityDiagram.Proofs.Parsing.Joining
import EntityDiagram.Proofs.Parsing.Soundness
import EntityDiagram.Proofs.Text.Affix
import EntityDiagram.Proofs.Diagram.Comment
import EntityDiagram.Proofs.Diagram.Selection
import EntityDiagram.Proofs.Relation.ImpliedKey
import EntityDiagram.Proofs.Relation.Conservation
import EntityDiagram.Proofs.Relation.ListingOrder
import EntityDiagram.Proofs.Relation.Repetition
import EntityDiagram.Proofs.Schema.Change
import EntityDiagram.Proofs.Schema.Interleaving
import EntityDiagram.Proofs.Schema.LetterCase
import EntityDiagram.Proofs.Relation.Answers
import EntityDiagram.Proofs.Relation.LetterCase
import EntityDiagram.Proofs.Excerpt.Comment
import EntityDiagram.Proofs.Excerpt.Enclosure
import EntityDiagram.Proofs.Excerpt.Layout
import EntityDiagram.Proofs.Excerpt.Literal
import EntityDiagram.Proofs.Excerpt.Progress
import EntityDiagram.Proofs.Excerpt.TableComment
import EntityDiagram.Proofs.Text.Locality
import EntityDiagram.Proofs.Excerpt.ColumnFront
import EntityDiagram.Proofs.Excerpt.LiteralSlot
import EntityDiagram.Proofs.Ddl.KeyPart
import EntityDiagram.Proofs.Parsing.OwnComment
import EntityDiagram.Proofs.Parsing.BareTable
import EntityDiagram.Proofs.Parsing.BareTable.Vendor
import EntityDiagram.Proofs.Parsing.BareTable.Regex
import EntityDiagram.Proofs.Parsing.ColumnNames
import EntityDiagram.Proofs.Sql.NormalType
import EntityDiagram.Proofs.Sql.TopLevel
import EntityDiagram.Proofs.Schema.Json
import EntityDiagram.Proofs.Settings.Partial
import EntityDiagram.Proofs.Ddl.QualifiedName
import EntityDiagram.Proofs.Ddl.Routine
import EntityDiagram.Proofs.Ddl.Routine.Cursor
import EntityDiagram.Proofs.Ddl.Routine.Column
import EntityDiagram.Proofs.Ddl.Routine.TableBody
import EntityDiagram.Proofs.Ddl.Routine.Script
import EntityDiagram.Proofs.Sql.ClientBlock
