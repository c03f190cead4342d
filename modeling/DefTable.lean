import DefTable.Main
import DefTable.Proofs.Expr.Named
import DefTable.Proofs.Lowering.Emission
import DefTable.Proofs.Scope.Fresh
import DefTable.Scope.Tree
import DefTable.Proofs.Lowering.Builder
import DefTable.Proofs.Lowering.Resolution
import DefTable.Proofs.Lowering.Correctness
import DefTable.Proofs.Grammar.Basic
import DefTable.Proofs.Grammar.Sound
import DefTable.Proofs.Expr.Chain
import DefTable.Proofs.Grammar.Names
import DefTable.Proofs.Token.Spelling
import DefTable.Proofs.Equality
import DefTable.Proofs.Lowering.Hygiene
import DefTable.Proofs.Semantics.Source
import DefTable.Proofs.Semantics.Table
import DefTable.Proofs.Semantics.Simulation
import DefTable.Proofs.Semantics.Backward
import DefTable.Proofs.Semantics.Preservation
import DefTable.Proofs.Semantics.Memo.Kept
import DefTable.Proofs.Data.Ascending
import DefTable.Proofs.Data.Message
import DefTable.Proofs.Table.Wire
import DefTable.Proofs.Lowering.NameSets
import DefTable.Proofs.Lowering.Steps
import DefTable.Proofs.Lowering.Comparison
import DefTable.Proofs.Lowering.Audit
import DefTable.Proofs.Machine.Recovery
import DefTable.Proofs.Lowering.Regular
import DefTable.Proofs.Cache.Key
import DefTable.Proofs.Table.Json
import DefTable.Proofs.Compilation
import DefTable.Proofs.Cache.Transparency
import DefTable.Proofs.Expr.Alike
import DefTable.Proofs.Grammar.Complete
import DefTable.Proofs.Lowering.Rewritten
import DefTable.Proofs.Number.Rounding
import DefTable.Proofs.Number.Shortest
import DefTable.Proofs.Grammar.Acceptance
import DefTable.Proofs.Lowering.Closed
import DefTable.Proofs.Lowering.Scoping
import DefTable.Proofs.Token.Written
import DefTable.Proofs.Token.Numeral
import DefTable.Proofs.Token.Values
import DefTable.Proofs.Expr.Erased
import DefTable.Proofs.Expr.Writable
import DefTable.Proofs.Expr.Written
import DefTable.Proofs.Grammar.Printed
import DefTable.Proofs.Grammar.RoundTrip
import DefTable.Proofs.Grammar.Formatted
import DefTable.Proofs.Formatting
import DefTable.Proofs.Lowering.Renaming
import DefTable.Proofs.Lowering.Alongside
import DefTable.Proofs.Lowering.Order
import DefTable.Proofs.Data.Faithful
import DefTable.Proofs.Service.Concurrency
import DefTable.Proofs.Workspace
import DefTable.Proofs.Cli.Batch
import DefTable.Proofs.Text.Decode
import DefTable.Proofs.Grammar.Whole
import DefTable.Proofs.Machine.Basic
import DefTable.Proofs.Machine.Scanner
import DefTable.Proofs.Machine.Cursor
import DefTable.Proofs.Machine.Literals
import DefTable.Proofs.Machine.Scanning
import DefTable.Proofs.Machine.Precedence
import DefTable.Proofs.Machine.Parser
import DefTable.Proofs.Machine.Agreement
import DefTable.Proofs.Machine.Parsing
import DefTable.Proofs.Machine.Declarations
import DefTable.Proofs.Machine.Assembler
import DefTable.Proofs.Machine.Assembling
import DefTable.Proofs.Machine.Emitter
import DefTable.Proofs.Machine.Compiler
import DefTable.Proofs.Scope.History
import DefTable.Proofs.Lowering.Numbers
import DefTable.Proofs.Outcome
import DefTable.Proofs.Data.Json.Scalars
import DefTable.Proofs.Data.Depth
import DefTable.Proofs.Data.Json.Values
import DefTable.Proofs.Table.RoundTrip
import DefTable.Proofs.Table.Depth
import DefTable.Proofs.Cache.Store
import DefTable.Proofs.Cache.Refinement
import DefTable.Proofs.Text.Hex
import DefTable.Proofs.Machine.Regrouping
import DefTable.Proofs.Table.Message
import DefTable.Proofs.Cache.Accepted
import DefTable.Proofs.Data.Yaml.Inline
import DefTable.Proofs.Data.Yaml.Quoted
import DefTable.Proofs.Data.Yaml.BlockScalar
import DefTable.Proofs.Data.Yaml.Style
import DefTable.Proofs.Data.Yaml.Characters
import DefTable.Proofs.Data.Yaml.Document
import DefTable.Proofs.Lowering.Identifiers
import DefTable.Proofs.Table.Yaml
import DefTable.Proofs.Table.Reading
import DefTable.Proofs.Token.Shape
import DefTable.Proofs.Token.Layout
import DefTable.Proofs.Token.NumeralGrammar
import DefTable.Proofs.Token.NumeralTokens
import DefTable.Proofs.Token.Spacing
import DefTable.Proofs.Token.Strings
import DefTable.Proofs.Machine.Search
import DefTable.Proofs.Scope.Visibility
import DefTable.Proofs.Expr.Reprinted
import DefTable.Proofs.Expr.Plain
import DefTable.Proofs.Grammar.Resolved
import DefTable.Proofs.Reformatting
import DefTable.Proofs.Text.Told
import DefTable.Proofs.Text.Quoted
import DefTable.Proofs.Number.Text
import DefTable.Proofs.Lowering.Legible
import DefTable.Proofs.Table.Listing
import DefTable.Proofs.Grammar.Depth
