import QueryComposer.Calendar.Date
import QueryComposer.Calendar.Stamp
import QueryComposer.Document.Basic
import QueryComposer.Document.Load
import QueryComposer.Edit.Basic
import QueryComposer.Edit.Error
import QueryComposer.Edit.Part
import QueryComposer.Edit.Path
import QueryComposer.Edit.Session
import QueryComposer.Entries
import QueryComposer.Intake.Basic
import QueryComposer.Intake.Issue
import QueryComposer.Json.Basic
import QueryComposer.Json.Names
import QueryComposer.Json.Number
import QueryComposer.Json.Printer
import QueryComposer.Json.Reader
import QueryComposer.Json.Token
import QueryComposer.Query.Basic
import QueryComposer.Query.Encode
import QueryComposer.Query.Field
import QueryComposer.Query.Intake
import QueryComposer.Query.Vocabulary
import QueryComposer.Service.Basic
import QueryComposer.Service.Integer
import QueryComposer.Sql.Complete
import QueryComposer.Sql.Dialect
import QueryComposer.Sql.Grammar
import QueryComposer.Sql.Level
import QueryComposer.Sql.Render
import QueryComposer.Sql.Token
import QueryComposer.Supply
import QueryComposer.Text.Blank
import QueryComposer.Text.Digits
import QueryComposer.Text.Scanner
import QueryComposer.Text.Units
import QueryComposer.Proofs.Sql.CommentLine
import QueryComposer.Proofs.Sql.Placeholder
import QueryComposer.Proofs.Sql.Lexing
import QueryComposer.Proofs.Sql.Literals
import QueryComposer.Proofs.Sql.Language
import QueryComposer.Proofs.Query.Tree
import QueryComposer.Proofs.Sql.Wording
import QueryComposer.Proofs.Sql.Script
import QueryComposer.Proofs.Sql.Parsing
import QueryComposer.Proofs.Sql.Completeness
import QueryComposer.Proofs.Json.Names
import QueryComposer.Proofs.Json.RoundTrip
import QueryComposer.Proofs.Intake.Yields
import QueryComposer.Proofs.Json.Keys
import QueryComposer.Proofs.Query.RoundTrip
import QueryComposer.Proofs.Document.RoundTrip
import QueryComposer.Proofs.Edit.Part
import QueryComposer.Proofs.Edit.Basic
import QueryComposer.Proofs.Edit.Ownership
import QueryComposer.Proofs.Query.Identifiers
import QueryComposer.Proofs.Edit.Identifiers
import QueryComposer.Proofs.Edit.Runs
import QueryComposer.Proofs.Sql.Nesting
import QueryComposer.Proofs.Sql.Indents
import QueryComposer.Proofs.Sql.Quotes
import QueryComposer.Proofs.Sql.Followers
import QueryComposer.Proofs.Sql.Stray
import QueryComposer.Proofs.Sql.Verdict
import QueryComposer.Proofs.Sql.Alike
import QueryComposer.Proofs.Sql.Telling
import QueryComposer.Proofs.Sql.Clauses
import QueryComposer.Proofs.Sql.Decoding
import QueryComposer.Proofs.Sql.Separators
import QueryComposer.Proofs.Edit.Path
import QueryComposer.Proofs.Edit.Depth
import QueryComposer.Proofs.Query.Unnamed
import QueryComposer.Proofs.Service.Agreement
import QueryComposer.Proofs.Sql.Shifting
import QueryComposer.Proofs.Edit.Locality
import QueryComposer.Proofs.Edit.Independence
import QueryComposer.Proofs.Document.Editing
import QueryComposer.Proofs.Intake.Shape
import QueryComposer.Proofs.Intake.Exact
import QueryComposer.Proofs.Intake.Respelling
import QueryComposer.Proofs.Intake.Spelling
import QueryComposer.Proofs.Json.Numeral
import QueryComposer.Proofs.Json.Grammar
import QueryComposer.Proofs.Json.Recognition
import QueryComposer.Proofs.Json.Overlong
import QueryComposer.Proofs.Document.Loading
import QueryComposer.Proofs.Edit.Preview
import QueryComposer.Proofs.Query.Count
import QueryComposer.Proofs.Sql.Parentheses
import QueryComposer.Proofs.Edit.Frame
import QueryComposer.Proofs.Edit.Retention
import QueryComposer.Proofs.Edit.Balance
import QueryComposer.Proofs.Edit.Operators
import QueryComposer.Proofs.Edit.Undoing
import QueryComposer.Proofs.Text.Digits
import QueryComposer.Proofs.Calendar.Date
import QueryComposer.Proofs.Document.Stamps
