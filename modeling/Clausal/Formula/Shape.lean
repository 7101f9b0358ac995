import Clausal.Formula.Negation

/-!
# Shapes of formulas

The classes of formulas between which the steps to clausal form lead, said of the formulas
themselves and not through the steps.

* `Formula.IsQuantifierFree`: no quantifier stands anywhere.
* `Formula.IsPart`: a literal, or a junction of literals with a given operator.
* `Formula.IsFlatMatrix`: a part, or a junction of parts with the dual operator; these are the
  flattened conjunctive and disjunctive normal forms.
-/

namespace Clausal.Formula

/-- An atom or the negation of an atom. -/
def IsLiteral : Formula → Prop
  | .atom _ => True
  | .neg f => ∃ p, f = .atom p
  | _ => False

/-- A formula without quantifiers. -/
def IsQuantifierFree : Formula → Prop
  | .atom _ => True
  | .neg f => f.IsQuantifierFree
  | .junction _ a b rest =>
      a.IsQuantifierFree ∧ b.IsQuantifierFree ∧ ∀ f ∈ rest, f.IsQuantifierFree
  | .imp a b => a.IsQuantifierFree ∧ b.IsQuantifierFree
  | .iff a b => a.IsQuantifierFree ∧ b.IsQuantifierFree
  | .quant _ _ _ => False

/-- A literal, or a junction of literals with the operator `inner`. -/
def IsPart (inner : Junctor) : Formula → Prop
  | .junction op a b rest => op = inner ∧ ∀ f ∈ a :: b :: rest, f.IsLiteral
  | f => f.IsLiteral

/-- A part for the dual of `outer`, or a junction of such parts with the operator `outer`. -/
def IsFlatMatrix (outer : Junctor) : Formula → Prop
  | .junction op a b rest =>
      if op = outer then ∀ f ∈ a :: b :: rest, f.IsPart outer.dual
      else IsPart outer.dual (.junction op a b rest)
  | f => f.IsLiteral

/-- The test for literals decides this class. -/
theorem isLiteral_iff {f : Formula} : f.isLiteral = true ↔ f.IsLiteral := by
  cases f with
  | neg g => cases g <;> simp [isLiteral, IsLiteral]
  | _ => simp [isLiteral, IsLiteral]

end Clausal.Formula
