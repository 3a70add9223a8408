import SchemaOutline.Command.Options
import SchemaOutline.Command.Run
import SchemaOutline.Config.Check
import SchemaOutline.Config.Load
import SchemaOutline.Config.Numeral
import SchemaOutline.Display.Tree
import SchemaOutline.File.Disk
import SchemaOutline.Json.Basic
import SchemaOutline.Json.Reader
import SchemaOutline.Log
import SchemaOutline.Main
import SchemaOutline.Outline.Bracket
import SchemaOutline.Outline.Node
import SchemaOutline.Outline.Frame
import SchemaOutline.Outline.Reading
import SchemaOutline.Symbols.Provider
import SchemaOutline.Text.Basic
import SchemaOutline.Text.Columns
import SchemaOutline.Text.Quoted
import SchemaOutline.Text.Utf8
import SchemaOutline.Token.Lexer
import SchemaOutline.Proofs.Outline.Nesting
import SchemaOutline.Proofs.Outline.Steps
import SchemaOutline.Proofs.Outline.Syntax
import SchemaOutline.Proofs.Outline.Scanning
import SchemaOutline.Proofs.Outline.RoundTrip
import SchemaOutline.Proofs.Outline.Lines
import SchemaOutline.Proofs.Outline.Matching
import SchemaOutline.Proofs.Outline.Strictness
import SchemaOutline.Proofs.Symbols.Calls
import SchemaOutline.Proofs.Symbols.Transparency
import SchemaOutline.Proofs.Outline.Prefixes
import SchemaOutline.Proofs.Outline.Concatenation
import SchemaOutline.Proofs.Token.Decomposition
import SchemaOutline.Proofs.Symbols.Eviction
import SchemaOutline.Proofs.Symbols.Independence
import SchemaOutline.Proofs.Outline.FlatScan
import SchemaOutline.Proofs.Outline.Skipping
import SchemaOutline.Proofs.Outline.Mismatches
import SchemaOutline.Proofs.Outline.Kinds
import SchemaOutline.Proofs.Outline.Names
import SchemaOutline.Proofs.Token.Printing
import SchemaOutline.Proofs.Token.CarriageReturns
import SchemaOutline.Proofs.Token.LineBreaks
import SchemaOutline.Proofs.Json.Keys
import SchemaOutline.Proofs.Json.RoundTrip
import SchemaOutline.Proofs.Config.Layers
import SchemaOutline.Proofs.Config.Defaults
import SchemaOutline.Proofs.Config.Precedence
import SchemaOutline.Proofs.Outline.OpenBrackets
import SchemaOutline.Proofs.Outline.Records
import SchemaOutline.Proofs.Command.Files
import SchemaOutline.Proofs.Text.OneLine
import SchemaOutline.Proofs.Text.Tabs
import SchemaOutline.Proofs.Outline.Legibility
import SchemaOutline.Proofs.Display.Drawing
