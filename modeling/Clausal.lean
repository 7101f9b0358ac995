import Clausal.Clause.Semantics
import Clausal.Conversion.Logger
import Clausal.Formula.Cursor
import Clausal.Formula.Duality
import Clausal.Formula.Grammar
import Clausal.Formula.Nameless
import Clausal.Formula.Shape
import Clausal.Formula.Stepwise
import Clausal.Formula.Subformula
import Clausal.Log.Elapsed
import Clausal.Report
import Clausal.Value.Arguments
import Clausal.Value.Checked
import Clausal.Value.Equality
import Clausal.Value.Operators
import Clausal.Proofs.Members
import Clausal.Proofs.Meaning
import Clausal.Proofs.NegationNormal
import Clausal.Proofs.FreshName
import Clausal.Proofs.Apart
import Clausal.Proofs.Prenex
import Clausal.Proofs.Spine
import Clausal.Proofs.Matrix
import Clausal.Proofs.Substitution
import Clausal.Proofs.Skolem
import Clausal.Proofs.SkolemTerms
import Clausal.Proofs.Stages
import Clausal.Proofs.NormalForms
import Clausal.Proofs.Clauses
import Clausal.Proofs.Rules
import Clausal.Proofs.Unambiguous
import Clausal.Proofs.Recognition
import Clausal.Token.Writing
import Clausal.Proofs.Scan
import Clausal.Proofs.Spelling
import Clausal.Formula.Readable
import Clausal.Proofs.Rendering
import Clausal.Proofs.Shapes
import Clausal.Proofs.Literalwise
import Clausal.Proofs.Refusals
import Clausal.Proofs.LookAhead
import Clausal.Proofs.Viable
import Clausal.Proofs.Totality
import Clausal.Proofs.Expansion
import Clausal.Proofs.Assembly
import Clausal.Proofs.History
import Clausal.Proofs.Variants
import Clausal.Proofs.Stepwise
import Clausal.Proofs.Renaming
import Clausal.Proofs.BoundNames
import Clausal.Proofs.Duality
import Clausal.Proofs.Capture
import Clausal.Proofs.Culprits
import Clausal.Proofs.Regrouping
import Clausal.Proofs.Occurrences
import Clausal.Proofs.Horn
import Clausal.Proofs.Unified
import Clausal.Proofs.Coverage
import Clausal.Proofs.Elapsed
import Clausal.Proofs.Layout
import Clausal.Proofs.FreshOrder
import Clausal.Formula.Descent
import Clausal.Proofs.Progress
import Clausal.Proofs.TruthTable
