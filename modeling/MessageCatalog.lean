import MessageCatalog.Arguments
import MessageCatalog.Bundle
import MessageCatalog.Catalog.Compiler
import MessageCatalog.Catalog.Settings
import MessageCatalog.Catalog.Setup
import MessageCatalog.Catalog.Source
import MessageCatalog.Digest.Hash
import MessageCatalog.Digest.Sha256
import MessageCatalog.Entries
import MessageCatalog.Formatting.Formatter
import MessageCatalog.Formatting.Registry
import MessageCatalog.Json.Form
import MessageCatalog.Json.Printer
import MessageCatalog.Json.Reader
import MessageCatalog.Json.Record
import MessageCatalog.Json.Token
import MessageCatalog.Json.Value
import MessageCatalog.Locale.Id
import MessageCatalog.Locale.Resolver
import MessageCatalog.Message.Compile
import MessageCatalog.Message.Node
import MessageCatalog.Message.Render
import MessageCatalog.Module.Basic
import MessageCatalog.Module.Export
import MessageCatalog.Module.Host
import MessageCatalog.Module.Link
import MessageCatalog.Module.Load
import MessageCatalog.Module.Reader
import MessageCatalog.Module.Writer
import MessageCatalog.Number.Decimal
import MessageCatalog.Number.Exact
import MessageCatalog.Number.Integer
import MessageCatalog.Number.Layout
import MessageCatalog.Number.Shortest
import MessageCatalog.Pattern.Element
import MessageCatalog.Pattern.Escape
import MessageCatalog.Pattern.Parser
import MessageCatalog.Pattern.Span
import MessageCatalog.Pattern.Token
import MessageCatalog.Plural.Category
import MessageCatalog.Plural.Key
import MessageCatalog.Plural.Language
import MessageCatalog.Plural.Rule
import MessageCatalog.Text.Blank
import MessageCatalog.Text.Hexadecimal
import MessageCatalog.Text.Quoted
import MessageCatalog.Toml.Reader
import MessageCatalog.Toml.Scalar
import MessageCatalog.Toml.Token
import MessageCatalog.Toml.Value
import MessageCatalog.Value
import MessageCatalog.Proofs.Bundle
import MessageCatalog.Proofs.Catalog.Compiler
import MessageCatalog.Proofs.Catalog.Declared
import MessageCatalog.Proofs.Catalog.KeyChecks
import MessageCatalog.Proofs.Catalog.Leaves
import MessageCatalog.Proofs.Catalog.Switches
import MessageCatalog.Proofs.Catalog.Verbatim
import MessageCatalog.Proofs.Digest.Hash
import MessageCatalog.Proofs.Digest.Spelling
import MessageCatalog.Proofs.Entries
import MessageCatalog.Proofs.Except
import MessageCatalog.Proofs.Json.Compact
import MessageCatalog.Proofs.Json.Finite
import MessageCatalog.Proofs.Json.Scalar
import MessageCatalog.Proofs.Json.Written
import MessageCatalog.Proofs.Locale.Chain
import MessageCatalog.Proofs.Locale.Fallback
import MessageCatalog.Proofs.Locale.Lineage
import MessageCatalog.Proofs.Message.Answers
import MessageCatalog.Proofs.Message.Binding
import MessageCatalog.Proofs.Message.Branches
import MessageCatalog.Proofs.Message.CaseOrder
import MessageCatalog.Proofs.Message.Choice
import MessageCatalog.Proofs.Message.Compiled
import MessageCatalog.Proofs.Message.Concatenation
import MessageCatalog.Proofs.Message.Isolation
import MessageCatalog.Proofs.Message.Labels
import MessageCatalog.Proofs.Message.Meaning
import MessageCatalog.Proofs.Message.Occurrence
import MessageCatalog.Proofs.Message.Reading
import MessageCatalog.Proofs.Message.Rejection
import MessageCatalog.Proofs.Message.Strictness
import MessageCatalog.Proofs.Message.Switches
import MessageCatalog.Proofs.Module.Admission
import MessageCatalog.Proofs.Module.Canonical
import MessageCatalog.Proofs.Module.Codec
import MessageCatalog.Proofs.Module.Export
import MessageCatalog.Proofs.Module.Finite
import MessageCatalog.Proofs.Module.Headers
import MessageCatalog.Proofs.Module.Imports
import MessageCatalog.Proofs.Module.Keys
import MessageCatalog.Proofs.Module.Labels
import MessageCatalog.Proofs.Module.Link
import MessageCatalog.Proofs.Module.Load
import MessageCatalog.Proofs.Module.Mapping
import MessageCatalog.Proofs.Module.Nesting
import MessageCatalog.Proofs.Module.Readable
import MessageCatalog.Proofs.Module.Reexport
import MessageCatalog.Proofs.Module.Text
import MessageCatalog.Proofs.Number.Bits
import MessageCatalog.Proofs.Number.Comparison
import MessageCatalog.Proofs.Number.Integer
import MessageCatalog.Proofs.Number.Layout
import MessageCatalog.Proofs.Number.Literal
import MessageCatalog.Proofs.Number.Nearest
import MessageCatalog.Proofs.Number.Shortest
import MessageCatalog.Proofs.Number.Whole
import MessageCatalog.Proofs.Pattern.Acceptance
import MessageCatalog.Proofs.Pattern.Braces
import MessageCatalog.Proofs.Pattern.Concatenation
import MessageCatalog.Proofs.Pattern.Duplicates
import MessageCatalog.Proofs.Pattern.Joining
import MessageCatalog.Proofs.Pattern.Keys
import MessageCatalog.Proofs.Pattern.Lexing
import MessageCatalog.Proofs.Pattern.Located
import MessageCatalog.Proofs.Pattern.Lockstep
import MessageCatalog.Proofs.Pattern.Modes
import MessageCatalog.Proofs.Pattern.Position
import MessageCatalog.Proofs.Pattern.Recovery
import MessageCatalog.Proofs.Pattern.Seam
import MessageCatalog.Proofs.Pattern.Spans
import MessageCatalog.Proofs.Pattern.Tiling
import MessageCatalog.Proofs.Pattern.WellFormed
import MessageCatalog.Proofs.Pattern.Written
import MessageCatalog.Proofs.Plural.Key
import MessageCatalog.Proofs.Plural.Language
import MessageCatalog.Proofs.Text.Blank
import MessageCatalog.Proofs.Text.Isolates
import MessageCatalog.Proofs.Traversal
