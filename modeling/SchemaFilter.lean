import SchemaFilter.Calendar
import SchemaFilter.Compile.Declaration
import SchemaFilter.Compile.Error
import SchemaFilter.Compile.Grouping
import SchemaFilter.Compile.Join
import SchemaFilter.Compile.Json
import SchemaFilter.Compile.Leaf
import SchemaFilter.Compile.Run
import SchemaFilter.Compile.Typing
import SchemaFilter.Configuration.Basic
import SchemaFilter.Configuration.Expansion
import SchemaFilter.Configuration.LogFormat
import SchemaFilter.Configuration.Reader
import SchemaFilter.Diagnostic
import SchemaFilter.ErrorMode
import SchemaFilter.Filter.Accessor
import SchemaFilter.Filter.Restriction
import SchemaFilter.Filter.Rule
import SchemaFilter.Grammar.Basic
import SchemaFilter.Grammar.Failure
import SchemaFilter.Json.Basic
import SchemaFilter.Json.Reader
import SchemaFilter.Json.Record
import SchemaFilter.Json.Source
import SchemaFilter.KeyMap
import SchemaFilter.Logging
import SchemaFilter.NameTable
import SchemaFilter.Number.Binary64
import SchemaFilter.Number.FixedPoint
import SchemaFilter.Number.Shortest
import SchemaFilter.Number.Word
import SchemaFilter.Predicate.Basic
import SchemaFilter.Predicate.Json
import SchemaFilter.Predicate.Sql
import SchemaFilter.Proofs.Compile.Acceptance
import SchemaFilter.Proofs.Compile.Aggregation
import SchemaFilter.Proofs.Compile.Aliases
import SchemaFilter.Proofs.Compile.ErrorMode
import SchemaFilter.Proofs.Compile.Errors
import SchemaFilter.Proofs.Compile.Grouping
import SchemaFilter.Proofs.Compile.Joins
import SchemaFilter.Proofs.Compile.Leaves
import SchemaFilter.Proofs.Compile.Places
import SchemaFilter.Proofs.Compile.Plan
import SchemaFilter.Proofs.Compile.Reads
import SchemaFilter.Proofs.Compile.References
import SchemaFilter.Proofs.Compile.Rule
import SchemaFilter.Proofs.Compile.Run
import SchemaFilter.Proofs.Compile.Sources
import SchemaFilter.Proofs.Compile.Typing
import SchemaFilter.Proofs.Grammar.Matching
import SchemaFilter.Proofs.Predicate.Alike
import SchemaFilter.Proofs.Predicate.Comparisons
import SchemaFilter.Proofs.Predicate.NormalForm
import SchemaFilter.Proofs.Predicate.Placeholders
import SchemaFilter.Proofs.Predicate.Shape
import SchemaFilter.Proofs.Predicate.TokenText
import SchemaFilter.Proofs.Predicate.Tokens
import SchemaFilter.Proofs.Schema.Completeness
import SchemaFilter.Proofs.Schema.Concatenation
import SchemaFilter.Proofs.Schema.Layout
import SchemaFilter.Proofs.Schema.Lexing
import SchemaFilter.Proofs.Schema.Parsing
import SchemaFilter.Proofs.Schema.Reading
import SchemaFilter.Proofs.Schema.Soundness
import SchemaFilter.Proofs.Schema.Spelling
import SchemaFilter.Proofs.Schema.TokenRules
import SchemaFilter.Proofs.Schema.Validation
import SchemaFilter.Schema.Basic
import SchemaFilter.Schema.Error
import SchemaFilter.Schema.Grammar
import SchemaFilter.Schema.Lookup
import SchemaFilter.Schema.Reader
import SchemaFilter.Schema.Types
import SchemaFilter.Schema.Validation
import SchemaFilter.Text.Blank
import SchemaFilter.Text.Hex
import SchemaFilter.Text.Printable
import SchemaFilter.Text.Quoted
import SchemaFilter.Text.Span
import SchemaFilter.Toml.Basic
import SchemaFilter.Toml.Reader
import SchemaFilter.Toml.Record
import SchemaFilter.Toml.Scalar
import SchemaFilter.Uuid
import SchemaFilter.Value.Basic
import SchemaFilter.Value.Json
import SchemaFilter.Value.Text
import SchemaFilter.Proofs.NameTable
import SchemaFilter.Proofs.Schema.Merging
import SchemaFilter.Proofs.Compile.Locality
import SchemaFilter.Proofs.Compile.RuleOrder
import SchemaFilter.Proofs.Schema.History
import SchemaFilter.Proofs.Compile.Walking
import SchemaFilter.Proofs.Grammar.Failing
import SchemaFilter.Proofs.Grammar.Placing
import SchemaFilter.Proofs.Schema.Tails
import SchemaFilter.Proofs.Schema.SyntaxErrors
import SchemaFilter.Proofs.Schema.Spans
import SchemaFilter.Proofs.Number.Finite
import SchemaFilter.Proofs.Json.Documents
import SchemaFilter.Proofs.Json.Scanning
import SchemaFilter.Proofs.Json.Reading
import SchemaFilter.Proofs.Value.Canonical
import SchemaFilter.Proofs.Compile.Accessors
import SchemaFilter.Proofs.Compile.Pushes
import SchemaFilter.Proofs.Compile.TypeNames
import SchemaFilter.Proofs.Configuration.Expansion
import SchemaFilter.Proofs.Configuration.Environments
