import Criteria.Main
import Criteria.Submission
import Criteria.Proofs.Number.Decimal
import Criteria.Proofs.Json.Exact
import Criteria.Proofs.Text.LineIndex
import Criteria.Proofs.Text.Trim
import Criteria.Proofs.Path
import Criteria.Proofs.Expr.WellFormed
import Criteria.Proofs.Number.Numeral
import Criteria.Proofs.Expr.Alike
import Criteria.Proofs.Token.Lexes
import Criteria.Proofs.Token.Positions
import Criteria.Proofs.Token.Pattern
import Criteria.Proofs.Token.Tiling
import Criteria.Proofs.Token.Separation
import Criteria.Proofs.Expr.Lexemes
import Criteria.Proofs.Expr.Grammar
import Criteria.Proofs.Expr.Spans
import Criteria.Proofs.Expr.Derivation
import Criteria.Proofs.Expr.Enclosures
import Criteria.Proofs.Expr.Stages
import Criteria.Proofs.Expr.EarliestFault
import Criteria.Proofs.Expr.RoundTrip
import Criteria.Proofs.Expr.Relocation
import Criteria.Proofs.Expr.Shift
import Criteria.Proofs.Expr.Faithful
import Criteria.Proofs.Expr.Typing
import Criteria.Proofs.Expr.Sites
import Criteria.Proofs.Expr.Renaming
import Criteria.Proofs.Expr.Outline
import Criteria.Proofs.Expr.AliasNames
import Criteria.Proofs.Expr.Unused
import Criteria.Proofs.Evaluation.Errors
import Criteria.Proofs.Evaluation.Interpreter
import Criteria.Proofs.Evaluation.Scopes
import Criteria.Proofs.Evaluation.Twins
import Criteria.Proofs.Evaluation.Places
import Criteria.Proofs.Evaluation.Forms
import Criteria.Proofs.Evaluation.Checked
import Criteria.Proofs.Evaluation.Renaming
import Criteria.Proofs.Evaluation.Reads
import Criteria.Proofs.Logic.Readable
import Criteria.Proofs.Logic.Everywhere
import Criteria.Proofs.Catalog.Shape
import Criteria.Proofs.Catalog.Paths
import Criteria.Proofs.Condition
import Criteria.Proofs.Layout
import Criteria.Proofs.Diagnostics
import Criteria.Proofs.Dependencies
import Criteria.Proofs.Submission
import Criteria.Proofs.Logic.Chains
import Criteria.Proofs.Logic.Canonical
import Criteria.Proofs.Logic.Flat
import Criteria.Proofs.Logic.Reimport
import Criteria.Proofs.Logic.Normal
import Criteria.Proofs.Evaluation.Import
import Criteria.Proofs.Evaluation.Visits
import Criteria.Proofs.Evaluation.Failures
import Criteria.Proofs.Evaluation.Prefixes
import Criteria.Proofs.Evaluation.Unrolling
import Criteria.Proofs.Evaluation.Duality
import Criteria.Proofs.Evaluation.Renumbering
import Criteria.Proofs.Evaluation.Sessions
import Criteria.Proofs.Number.Nearest
import Criteria.Proofs.Evaluation.Numbers
import Criteria.Proofs.Evaluation.Identity
import Criteria.Proofs.Number.Spelling
import Criteria.Proofs.Number.Written
import Criteria.Proofs.Number.Plain
import Criteria.Proofs.Evaluation.Conversion
import Criteria.Proofs.Catalog.Document
import Criteria.Proofs.Expr.Height
import Criteria.Proofs.Catalog.Label
import Criteria.Proofs.Catalog.Meaning
import Criteria.Proofs.Catalog.Facet
import Criteria.Proofs.Catalog.Reordering
import Criteria.Proofs.Catalog.Export
