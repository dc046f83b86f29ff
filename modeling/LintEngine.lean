import LintEngine.Catalog
import LintEngine.CommandLine.Options
import LintEngine.CommandLine.Run
import LintEngine.Config.Basic
import LintEngine.Config.Reader
import LintEngine.Decimal.Fixed
import LintEngine.Decimal.Format
import LintEngine.Decimal.Shortest
import LintEngine.Detector.Basic
import LintEngine.Detector.Registration
import LintEngine.Detector.Schedule
import LintEngine.Discovery.Finder
import LintEngine.Discovery.Glob
import LintEngine.Discovery.IgnoreRules
import LintEngine.Engine.Project
import LintEngine.Engine.Run
import LintEngine.Engine.Unit
import LintEngine.Error
import LintEngine.Escape
import LintEngine.Expr
import LintEngine.Facts
import LintEngine.FileSystem
import LintEngine.Finding
import LintEngine.Folding.Arithmetic
import LintEngine.Folding.Constant
import LintEngine.Issue.Basic
import LintEngine.Issue.Registry
import LintEngine.Java.Declarations
import LintEngine.Java.Expressions
import LintEngine.Java.Grammar
import LintEngine.Java.Literals
import LintEngine.Java.Lowering
import LintEngine.Java.Phrase
import LintEngine.Java.Token
import LintEngine.Json.Reader
import LintEngine.Json.Value
import LintEngine.Literal
import LintEngine.Main
import LintEngine.Path
import LintEngine.Proofs.Bytes
import LintEngine.Proofs.Detector.Acceptance
import LintEngine.Proofs.Detector.Dispatch
import LintEngine.Proofs.Detector.Effects
import LintEngine.Proofs.Detector.Relevance
import LintEngine.Proofs.Detector.Uses
import LintEngine.Proofs.Engine.Answers
import LintEngine.Proofs.Engine.Cancellation
import LintEngine.Proofs.Engine.Conservation
import LintEngine.Proofs.Engine.Containment
import LintEngine.Proofs.Engine.Courses
import LintEngine.Proofs.Engine.Failures
import LintEngine.Proofs.Engine.Independence
import LintEngine.Proofs.Engine.Issues
import LintEngine.Proofs.Engine.Legitimacy
import LintEngine.Proofs.Engine.Reporters
import LintEngine.Proofs.Engine.Settling
import LintEngine.Proofs.Engine.Unit
import LintEngine.Proofs.Engine.Units
import LintEngine.Proofs.Escape.Holders
import LintEngine.Proofs.Escape.Naming
import LintEngine.Proofs.Folding.DeclaredTypes
import LintEngine.Proofs.Folding.IntegerTerms
import LintEngine.Proofs.Folding.Integers
import LintEngine.Proofs.Folding.Lookups
import LintEngine.Proofs.Folding.References
import LintEngine.Proofs.Java.Lowering
import LintEngine.Proofs.Java.Numerals
import LintEngine.Proofs.Java.Positions
import LintEngine.Proofs.Java.Readings
import LintEngine.Proofs.Java.Strings
import LintEngine.Proofs.Literal
import LintEngine.Proofs.Path
import LintEngine.Proofs.Report.Gathering
import LintEngine.Proofs.Report.Interleaving
import LintEngine.Proofs.Report.Selection
import LintEngine.Proofs.Rules.Combinations
import LintEngine.Proofs.Rules.Compatibility
import LintEngine.Proofs.Rules.Duplicates
import LintEngine.Proofs.Rules.Effects
import LintEngine.Proofs.Rules.MissingCases
import LintEngine.Proofs.Rules.NewApi
import LintEngine.Proofs.Rules.RightToLeft
import LintEngine.Proofs.Rules.Sizes
import LintEngine.Proofs.Rules.Switches
import LintEngine.Proofs.Rules.TwoRuns
import LintEngine.Proofs.Suppression
import LintEngine.Proofs.Suppression.CommentLines
import LintEngine.Proofs.Suppression.Directives
import LintEngine.Proofs.Symbols.Hierarchy
import LintEngine.Proofs.Symbols.MetaAnnotations
import LintEngine.Proofs.Symbols.Outward
import LintEngine.Proofs.Symbols.Qualification
import LintEngine.Proofs.Symbols.Subtypes
import LintEngine.Proofs.Symbols.Table
import LintEngine.Proofs.Symbols.WrittenTypes
import LintEngine.Proofs.Text
import LintEngine.Proofs.Text.Digits
import LintEngine.Proofs.Tree.Finishing
import LintEngine.Proofs.Tree.Growth
import LintEngine.Proofs.Tree.Invocations
import LintEngine.Proofs.Tree.Lines
import LintEngine.Proofs.Tree.Parentheses
import LintEngine.Proofs.Tree.PreOrder
import LintEngine.Proofs.Tree.Ranges
import LintEngine.Proofs.Tree.Scopes
import LintEngine.Proofs.Tree.Visibility
import LintEngine.Proofs.Tree.Visits
import LintEngine.Proofs.Versions.Central
import LintEngine.Proofs.Versions.Histories
import LintEngine.Proofs.Versions.Order
import LintEngine.Proofs.View.Annotations
import LintEngine.Proofs.View.Calls
import LintEngine.Proofs.View.Embeddings
import LintEngine.Proofs.View.Naming
import LintEngine.Proofs.View.Precedence
import LintEngine.Proofs.View.Resolution
import LintEngine.Proofs.Xml.Attributes
import LintEngine.Proofs.Xml.Balance
import LintEngine.Proofs.Xml.Spans
import LintEngine.Report.Compact
import LintEngine.Report.Json
import LintEngine.Report.Sink
import LintEngine.Report.Style
import LintEngine.Report.Summary
import LintEngine.Rules.Builtin
import LintEngine.Rules.Contracts
import LintEngine.Rules.Dependencies
import LintEngine.Rules.NewApi
import LintEngine.Rules.Range
import LintEngine.Rules.Recycle
import LintEngine.Rules.RightToLeft
import LintEngine.Rules.Typedef
import LintEngine.SourceFile
import LintEngine.Suppression
import LintEngine.Symbols.Basic
import LintEngine.Symbols.Index
import LintEngine.Symbols.Table
import LintEngine.Symbols.TypeName
import LintEngine.Text.Basic
import LintEngine.Text.Case
import LintEngine.Text.Digits
import LintEngine.Text.Inspect
import LintEngine.Text.Layout
import LintEngine.Text.Scan
import LintEngine.Toml.Reader
import LintEngine.Toml.Value
import LintEngine.Tree.Basic
import LintEngine.Tree.Builder
import LintEngine.Tree.Kind
import LintEngine.Versions.ApiLevels
import LintEngine.Versions.Central
import LintEngine.Versions.Order
import LintEngine.View.Annotations
import LintEngine.View.Basic
import LintEngine.View.Resolve
import LintEngine.Word
import LintEngine.Xml.Entity
import LintEngine.Xml.Lowering
import LintEngine.Xml.Markup
import LintEngine.Yaml.Reader
import LintEngine.Yaml.Value
