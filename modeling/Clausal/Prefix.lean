import Clausal.Formula.Printer
import Clausal.Text.Bracketed

/-!
# Quantifier prefixes

A prefix is a sequence of bindings, each a quantifier with its variable, outermost first. Variables
may repeat.

* `Prefix.quantify` puts a prefix in front of a formula.
* `PrenexForm` is a prefix with a matrix, the formula that it stands in front of.
-/

namespace Clausal

/-- A quantifier with its variable. -/
structure Binding where
  quantifier : Quantifier
  name : String
  deriving Repr, DecidableEq

/-- A sequence of bindings, outermost first. -/
abbrev Prefix := List Binding

namespace Prefix

/-- Puts the prefix in front of a formula. -/
def quantify (bindings : Prefix) (f : Formula) : Formula :=
  bindings.foldr (fun b g => .quant b.quantifier b.name g) f

/-- The symbolic form, `∀x ∃y`. -/
def render (bindings : Prefix) : String :=
  " ".intercalate (bindings.map fun b => b.quantifier.symbol ++ b.name)

/-- The constructor-style form, `Prefix((All, x), (Ex, y))`. -/
def describe (bindings : Prefix) : String :=
  "Prefix(" ++
    ", ".intercalate (bindings.map fun b => "(" ++ b.quantifier.kind.word ++ ", " ++ b.name ++ ")")
    ++ ")"

/-- Putting two prefixes in front one after the other is putting their concatenation in front. -/
theorem quantify_append (outer inner : Prefix) (f : Formula) :
    Prefix.quantify (outer ++ inner) f = outer.quantify (inner.quantify f) := by
  simp [quantify]

end Prefix

/-- A prefix with the formula that it stands in front of. -/
structure PrenexForm where
  quantifiers : Prefix
  matrix : Formula
  deriving Repr, DecidableEq

namespace PrenexForm

/-- The formula that a prenex form stands for. -/
def toFormula (p : PrenexForm) : Formula :=
  p.quantifiers.quantify p.matrix

/-- The symbolic form, with the matrix in parentheses if anything stands in front of it. -/
def render (p : PrenexForm) : String :=
  if p.quantifiers.isEmpty then p.matrix.render
  else p.quantifiers.render ++ " (" ++ p.matrix.render ++ ")"

/-- The constructor-style form. -/
def describe (p : PrenexForm) : String :=
  Text.record "PrenexForm" [("prefix", p.quantifiers.describe), ("matrix", p.matrix.describe)]

end PrenexForm

end Clausal
