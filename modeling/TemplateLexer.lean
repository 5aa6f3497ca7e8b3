import TemplateLexer.Cursor
import TemplateLexer.Main
import TemplateLexer.Token.Rebuild
import TemplateLexer.Proofs.Bytes.Blank
import TemplateLexer.Proofs.Bytes.Lines
import TemplateLexer.Proofs.Bytes.Quoted
import TemplateLexer.Proofs.Bytes.Search
import TemplateLexer.Proofs.Bytes.Words
import TemplateLexer.Proofs.Delimiters
import TemplateLexer.Proofs.LastWins
import TemplateLexer.Proofs.Log.Filter
import TemplateLexer.Proofs.Log.JsonLine
import TemplateLexer.Proofs.Log.Sink
import TemplateLexer.Proofs.Number.Decimal
import TemplateLexer.Proofs.Number.Form
import TemplateLexer.Proofs.Outline.Basic
import TemplateLexer.Proofs.Outline.Composition
import TemplateLexer.Proofs.Outline.Faults
import TemplateLexer.Proofs.Outline.Gettext
import TemplateLexer.Proofs.Outline.Refinement
import TemplateLexer.Proofs.Outline.Shape
import TemplateLexer.Proofs.Outline.Shift
import TemplateLexer.Proofs.Outline.Tokens
import TemplateLexer.Proofs.Outline.Writing
import TemplateLexer.Proofs.Rebuild.Plan
import TemplateLexer.Proofs.Rebuild.Canonical
import TemplateLexer.Proofs.Rebuild.Scanned
import TemplateLexer.Proofs.Rebuild.RoundTrip
import TemplateLexer.Proofs.Rebuild.Escapes
import TemplateLexer.Proofs.Settings.Value
import TemplateLexer.Proofs.Source.Location
import TemplateLexer.Proofs.Scan.Progress
import TemplateLexer.Proofs.Scan.Cursor
import TemplateLexer.Proofs.Scan.Marks
import TemplateLexer.Proofs.Scan.LineEnd
import TemplateLexer.Proofs.Tokens.Origin
import TemplateLexer.Proofs.Tokens.Decoding
import TemplateLexer.Proofs.Tokens.Form
import TemplateLexer.Proofs.Tokens.Tiling
import TemplateLexer.Proofs.Workspace.Levels
import TemplateLexer.Proofs.Workspace.Dispatch
import TemplateLexer.Proofs.Workspace.Independence
import TemplateLexer.Proofs.Workspace.Account
import TemplateLexer.Proofs.Workspace.Output
import TemplateLexer.Proofs.Command.Run
import TemplateLexer.Proofs.Log.JsonLog
import TemplateLexer.Proofs.Command.Grammar
import TemplateLexer.Proofs.Command.LogFlags
import TemplateLexer.Proofs.Log.Config
import TemplateLexer.Proofs.Source.Lines
import TemplateLexer.Proofs.Source.Position
import TemplateLexer.Proofs.Workspace.Settings
