import CommentTags.CommandLine.Arguments
import CommentTags.CommandLine.Host
import CommentTags.CommandLine.Run
import CommentTags.Comment.Basic
import CommentTags.Comment.Builtin
import CommentTags.Comment.Configuration
import CommentTags.Comment.Directory
import CommentTags.Comment.Resolver
import CommentTags.Comment.Source
import CommentTags.Decimal.Shortest
import CommentTags.Document.Basic
import CommentTags.Document.Lines
import CommentTags.Files.Basic
import CommentTags.Files.Path
import CommentTags.Files.Tree
import CommentTags.Findings.Collected
import CommentTags.Json.Basic
import CommentTags.Json.Commented
import CommentTags.Json.Error
import CommentTags.Json.Number
import CommentTags.Json.Printer
import CommentTags.Json.Reader
import CommentTags.Language.Names
import CommentTags.Language.Path
import CommentTags.Main
import CommentTags.Pattern.Basic
import CommentTags.Pattern.Escape
import CommentTags.Pattern.Match
import CommentTags.Pattern.Search
import CommentTags.Pattern.Source
import CommentTags.Proofs.Effects
import CommentTags.Proofs.Findings.Collection
import CommentTags.Proofs.Language.Names
import CommentTags.Proofs.Pattern.Equivariance
import CommentTags.Proofs.Pattern.LetterCase
import CommentTags.Proofs.Pattern.Parts
import CommentTags.Proofs.Pattern.Places
import CommentTags.Proofs.Scan.Embedding
import CommentTags.Proofs.Scan.Equivariance
import CommentTags.Proofs.Scan.LetterCase
import CommentTags.Proofs.Scan.Placement
import CommentTags.Proofs.Scan.Profiles
import CommentTags.Proofs.Scan.Runs
import CommentTags.Proofs.Scan.Slicing
import CommentTags.Proofs.Scan.Soundness
import CommentTags.Proofs.Scan.Translation
import CommentTags.Proofs.Text.Ascii
import CommentTags.Proofs.Text.Boundaries
import CommentTags.Proofs.Text.Lowercase
import CommentTags.Proofs.Text.Trimming
import CommentTags.Report.Basic
import CommentTags.Scan.Finders
import CommentTags.Scan.Grammar
import CommentTags.Scan.Highlighter
import CommentTags.Scan.Profile
import CommentTags.Scan.Scope
import CommentTags.Settings.Basic
import CommentTags.Settings.Place
import CommentTags.Settings.Printer
import CommentTags.Settings.Reader
import CommentTags.Settings.Storage
import CommentTags.Tag.Basic
import CommentTags.Tag.Registry
import CommentTags.Text.Blank
import CommentTags.Text.Bytes
import CommentTags.Text.CodeRange
import CommentTags.Text.Digits
import CommentTags.Text.Fold
import CommentTags.Text.Lowercase
import CommentTags.Text.Quoted
import CommentTags.Theme.Ansi
import CommentTags.Theme.Color
import CommentTags.Theme.Painter
import CommentTags.Yaml.Alias
import CommentTags.Yaml.Anchor
import CommentTags.Yaml.Block
import CommentTags.Yaml.Character
import CommentTags.Yaml.Document
import CommentTags.Yaml.Error
import CommentTags.Yaml.Gap
import CommentTags.Yaml.Input
import CommentTags.Yaml.Lexer
import CommentTags.Yaml.Node
import CommentTags.Yaml.Plain
import CommentTags.Yaml.Printer
import CommentTags.Yaml.Quoted
import CommentTags.Yaml.Schema
import CommentTags.Yaml.Tag
import CommentTags.Yaml.Token
import CommentTags.Proofs.Scan.Toggles
import CommentTags.Proofs.Scan.Cache
import CommentTags.Proofs.Pattern.Alternatives
import CommentTags.Proofs.Scan.TagOrder
import CommentTags.Proofs.Pattern.LineEnds
import CommentTags.Proofs.Pattern.LineSpans
import CommentTags.Proofs.Pattern.LineSearch
import CommentTags.Proofs.Scan.LineFindings
import CommentTags.Proofs.Scan.LineRegions
import CommentTags.Proofs.Scan.LineEnds
import CommentTags.Proofs.Document.Positions
import CommentTags.Proofs.Findings.Order
import CommentTags.Proofs.Report.Records
import CommentTags.Proofs.Theme.Painting
import CommentTags.Proofs.Json.Tokens
import CommentTags.Proofs.Json.Strings
import CommentTags.Proofs.Json.Numbers
import CommentTags.Proofs.Json.Grammar
import CommentTags.Proofs.Json.Reading
import CommentTags.Proofs.Json.Comments
import CommentTags.Proofs.Json.Literals
import CommentTags.Proofs.Json.Printing
import CommentTags.Proofs.Comment.Configuration
import CommentTags.Proofs.Theme.Replacement
import CommentTags.Proofs.Theme.Colors
import CommentTags.Proofs.Report.Lines
import CommentTags.Proofs.CommandLine.Inputs
import CommentTags.Proofs.Yaml.Characters
import CommentTags.Proofs.Yaml.Plain
import CommentTags.Proofs.Yaml.Quoted
import CommentTags.Proofs.Yaml.Block
import CommentTags.Proofs.Yaml.Lexing
import CommentTags.Proofs.Yaml.Scalars
import CommentTags.Proofs.Yaml.Records
import CommentTags.Proofs.Yaml.Nodes
import CommentTags.Proofs.Keys
import CommentTags.Proofs.Yaml.Walking
import CommentTags.Proofs.Files.ReadBack
import CommentTags.Proofs.Settings.Documents
import CommentTags.Proofs.Settings.Reading
import CommentTags.Proofs.Settings.Storage
import CommentTags.Proofs.Comment.Interleaving
import CommentTags.Proofs.Text.Occurrences
import CommentTags.Proofs.Pattern.Languages
import CommentTags.Proofs.Pattern.Preference
import CommentTags.Proofs.Scan.Regions
import CommentTags.Proofs.Scan.Lines
import CommentTags.Proofs.Scan.LineComments
import CommentTags.Proofs.Scan.BorrowedOpeners
import CommentTags.Proofs.Pattern.Sequences
import CommentTags.Proofs.Scan.TaggedLines
import CommentTags.Proofs.Scan.LineKinds
import CommentTags.Proofs.Scan.FenceLines
import CommentTags.Proofs.Scan.Fences
import CommentTags.Proofs.Scan.DocComments
import CommentTags.Proofs.Text.Joining
import CommentTags.Proofs.Pattern.Escaping
import CommentTags.Proofs.Scan.RepeatedTags
import CommentTags.Proofs.Scan.LeftToRight
import CommentTags.Proofs.Text.Rounding
import CommentTags.Proofs.Document.Lines
import CommentTags.Proofs.Document.RoundTrips
import CommentTags.Proofs.Document.Views
import CommentTags.Proofs.Scan.LanguageKeys
import CommentTags.Proofs.Files.Entries
import CommentTags.Proofs.Comment.Directory
import CommentTags.Proofs.Scan.Consistency
