import PeerExpansion.Association
import PeerExpansion.Attribute
import PeerExpansion.CachedImage
import PeerExpansion.CachedImage.Access
import PeerExpansion.CachedImage.Value
import PeerExpansion.CachedProperty.DecodeStep
import PeerExpansion.CachedProperty.MarkerFlag
import PeerExpansion.CachedProperty.Names
import PeerExpansion.CachedProperty.Peers
import PeerExpansion.CachedProperty.Preset
import PeerExpansion.CachedProperty.Refusal
import PeerExpansion.Checksum
import PeerExpansion.CommandLine.Grammar
import PeerExpansion.CommandLine.Invocation
import PeerExpansion.CommandLine.Read
import PeerExpansion.CommandLine.Run
import PeerExpansion.CommandLine.Usage
import PeerExpansion.Configuration
import PeerExpansion.Configuration.Load
import PeerExpansion.Configuration.Review
import PeerExpansion.Console.Markup
import PeerExpansion.Console.Table
import PeerExpansion.Console.Wrap
import PeerExpansion.Cursor
import PeerExpansion.Declaration
import PeerExpansion.Declaration.Extent
import PeerExpansion.Declaration.Read
import PeerExpansion.Deflate.Inflate
import PeerExpansion.Deflate.PrefixCode
import PeerExpansion.Diagnostic
import PeerExpansion.Edit
import PeerExpansion.Expansion
import PeerExpansion.Expansion.Insertion
import PeerExpansion.Expansion.Source
import PeerExpansion.FilePath
import PeerExpansion.FileStore
import PeerExpansion.Generator
import PeerExpansion.Json
import PeerExpansion.Json.Print
import PeerExpansion.Json.Read
import PeerExpansion.Log
import PeerExpansion.Log.Setup
import PeerExpansion.Main
import PeerExpansion.Misuse
import PeerExpansion.Pattern
import PeerExpansion.Png
import PeerExpansion.Position
import PeerExpansion.Proofs.Attribute.Row
import PeerExpansion.Proofs.CachedImage.Memo
import PeerExpansion.Proofs.CachedImage.Memoization
import PeerExpansion.Proofs.CachedImage.Independence
import PeerExpansion.Proofs.CachedProperty.Declared
import PeerExpansion.Proofs.CachedProperty.Generation
import PeerExpansion.Proofs.CachedProperty.PeerText
import PeerExpansion.Proofs.CachedProperty.Names
import PeerExpansion.Proofs.CachedProperty.Phrases
import PeerExpansion.Proofs.Declaration.Binding
import PeerExpansion.Proofs.Declaration.Span
import PeerExpansion.Proofs.Declaration.Taking
import PeerExpansion.Proofs.Edit.Splice
import PeerExpansion.Proofs.Expansion.Delivery
import PeerExpansion.Proofs.Expansion.Expanded
import PeerExpansion.Proofs.Expansion.Found
import PeerExpansion.Proofs.Expansion.Insertion
import PeerExpansion.Proofs.Expansion.Keeping
import PeerExpansion.Proofs.Expansion.Nesting
import PeerExpansion.Proofs.Expansion.Search
import PeerExpansion.Proofs.Expansion.SpliceLaw
import PeerExpansion.Proofs.Expansion.Uses
import PeerExpansion.Proofs.Expansion.Work
import PeerExpansion.Proofs.Outcome
import PeerExpansion.Proofs.Position
import PeerExpansion.Proofs.Reading.Basic
import PeerExpansion.Proofs.Reading.Forward
import PeerExpansion.Proofs.Reading.Limit
import PeerExpansion.Proofs.Reading.Loops
import PeerExpansion.Proofs.Reading.Place
import PeerExpansion.Proofs.Reading.Sound
import PeerExpansion.Proofs.Reading.Taking
import PeerExpansion.Proofs.Token.Faithful
import PeerExpansion.Proofs.Token.Scan
import PeerExpansion.Proofs.Token.Identifier
import PeerExpansion.Proofs.Token.Order
import PeerExpansion.Proofs.Token.Spelling
import PeerExpansion.Proofs.TypeExpr.Canonical
import PeerExpansion.Proofs.TypeExpr.Formed
import PeerExpansion.Proofs.TypeExpr.Taking
import PeerExpansion.Registry
import PeerExpansion.Registry.Create
import PeerExpansion.SourceText
import PeerExpansion.SyntaxError
import PeerExpansion.Template
import PeerExpansion.Template.Read
import PeerExpansion.Template.Render
import PeerExpansion.Template.Shelf
import PeerExpansion.Text.Blank
import PeerExpansion.Text.CodePoints
import PeerExpansion.Text.DecimalDigit
import PeerExpansion.Text.Identifier
import PeerExpansion.Text.Lines
import PeerExpansion.Text.Printable
import PeerExpansion.Text.Quoted
import PeerExpansion.Text.Repeat
import PeerExpansion.Text.Slice
import PeerExpansion.Text.Split
import PeerExpansion.Text.Tidy
import PeerExpansion.Text.Uppercase
import PeerExpansion.Text.Utf8
import PeerExpansion.Text.WholeNumber
import PeerExpansion.Token
import PeerExpansion.Token.Lexeme
import PeerExpansion.Token.Literal
import PeerExpansion.Token.Scan
import PeerExpansion.TypeExpr
import PeerExpansion.TypeExpr.Read
import PeerExpansion.Url
import PeerExpansion.Proofs.Expansion.Joined
import PeerExpansion.Proofs.Declaration.Parallel
import PeerExpansion.Proofs.Declaration.Spacing
import PeerExpansion.Proofs.Token.Seam
import PeerExpansion.Proofs.Token.Moved
import PeerExpansion.Proofs.Declaration.Carry
import PeerExpansion.Proofs.Declaration.Boundary
import PeerExpansion.Proofs.Declaration.Moved
import PeerExpansion.Proofs.Declaration.SelfContained
import PeerExpansion.Proofs.Declaration.Adjacent
import PeerExpansion.Proofs.Expansion.Inlaid
import PeerExpansion.Proofs.Expansion.Supply
import PeerExpansion.Proofs.Expansion.Adjacent
import PeerExpansion.Proofs.Association
import PeerExpansion.Proofs.Registry.Change
import PeerExpansion.Proofs.Registry.Names
import PeerExpansion.Proofs.Expansion.History
import PeerExpansion.Proofs.Expansion.Session
import PeerExpansion.Proofs.Text.Utf8
import PeerExpansion.Proofs.Json.Consuming
import PeerExpansion.Proofs.Json.Series
import PeerExpansion.Proofs.Json.RoundTrip
import PeerExpansion.Proofs.Json.Keys
import PeerExpansion.Proofs.Settings
import PeerExpansion.Proofs.FileStore
import PeerExpansion.Proofs.Configuration.Layers
import PeerExpansion.Proofs.Configuration.Saving
import PeerExpansion.Proofs.Configuration.Precedence
import PeerExpansion.Proofs.Token.Pieces
import PeerExpansion.Proofs.Token.Stopper
import PeerExpansion.Proofs.Token.Junction
import PeerExpansion.Proofs.Token.Comments
import PeerExpansion.Proofs.Edit.Leftover
import PeerExpansion.Proofs.Attribute.Removal
import PeerExpansion.Proofs.Expansion.Stripping
import PeerExpansion.Proofs.Expansion.Reported
import PeerExpansion.Proofs.Expansion.Comments
import PeerExpansion.Proofs.Registry.Failure
import PeerExpansion.Proofs.Text.Lines
import PeerExpansion.Proofs.Text.Tidy
import PeerExpansion.Proofs.Declaration.Parts
import PeerExpansion.Proofs.Declaration.Clauses
import PeerExpansion.Proofs.Declaration.Initializer
import PeerExpansion.Proofs.Declaration.Located
import PeerExpansion.Proofs.Expansion.LineBreaks
import PeerExpansion.Proofs.Expansion.LineEnds
import PeerExpansion.Proofs.Declaration.Brackets
import PeerExpansion.Proofs.Declaration.Header
import PeerExpansion.Proofs.Declaration.Body
import PeerExpansion.Proofs.Declaration.Stretches
import PeerExpansion.Proofs.Declaration.Framing
import PeerExpansion.Proofs.Declaration.Balance
import PeerExpansion.Proofs.Token.Quotation
import PeerExpansion.Proofs.Token.Literal
import PeerExpansion.Proofs.Token.LineFeeds
import PeerExpansion.Proofs.TypeExpr.Spelling
import PeerExpansion.Proofs.TypeExpr.Loose
import PeerExpansion.Proofs.TypeExpr.Outside
import PeerExpansion.Proofs.TypeExpr.Kind
import PeerExpansion.Proofs.TypeExpr.Rendering
import PeerExpansion.Proofs.CachedProperty.BufferType
import PeerExpansion.Proofs.Attribute.Arguments
import PeerExpansion.Proofs.Attribute.Clause
import PeerExpansion.Proofs.CachedProperty.MarkerFlag
import PeerExpansion.Proofs.CachedProperty.BuildTarget
import PeerExpansion.Proofs.Expansion.Attribution
import PeerExpansion.Proofs.CommandLine.Options
import PeerExpansion.Proofs.Configuration.Faults
import PeerExpansion.Proofs.CommandLine.Words
import PeerExpansion.Proofs.Console.Markup
import PeerExpansion.Proofs.CommandLine.Running
import PeerExpansion.Proofs.CommandLine.Copying
import PeerExpansion.Proofs.CommandLine.Reporting
import PeerExpansion.Proofs.CachedProperty.Misuse
import PeerExpansion.Proofs.Expansion.Interrupted
import PeerExpansion.Proofs.CommandLine.Crashes
import PeerExpansion.Proofs.Edit.Simultaneous
