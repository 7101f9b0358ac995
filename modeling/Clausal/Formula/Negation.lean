import Clausal.Formula.Refusal

/-!
# Negation normal form

In negation normal form a negation stands before atoms only, and there are no implications and no
equivalences. Negations are pushed inwards by the laws of De Morgan, the duality of the quantifiers
and the law of double negation, all at once: below an odd number of negations every operator is
replaced by its dual.

* `Formula.negationNormal` is refused at the first implication or equivalence.
* `Formula.IsNegationNormal` says of a formula that it has this form.
-/

namespace Clausal

/-- Whether an even or an odd number of negations stands before a subformula. -/
inductive Polarity where
  | positive
  | negative
  deriving Repr, DecidableEq

namespace Polarity

/-- The polarity below one more negation. -/
def flip : Polarity → Polarity
  | .positive => .negative
  | .negative => .positive

/-- The operator that stands for `op` in this polarity. -/
def junctor : Polarity → Junctor → Junctor
  | .positive, op => op
  | .negative, op => op.dual

/-- The quantifier that stands for `q` in this polarity. -/
def quantifier : Polarity → Quantifier → Quantifier
  | .positive, q => q
  | .negative, q => q.dual

/-- An atom or its negation. -/
def literal : Polarity → Atom → Formula
  | .positive, p => .atom p
  | .negative, p => .neg (.atom p)

end Polarity

namespace Formula

/-- The negation normal form of a formula, or of its negation if the polarity is negative. -/
def pushNegations (polarity : Polarity) : Formula → Except Refusal Formula
  | .atom p => .ok (polarity.literal p)
  | .neg f => f.pushNegations polarity.flip
  | .junction op a b rest => do
      let a ← a.pushNegations polarity
      let b ← b.pushNegations polarity
      let rest ← rest.mapM (pushNegations polarity)
      return .junction (polarity.junctor op) a b rest
  | .imp _ _ => .error ⟨.imp, .negations⟩
  | .iff _ _ => .error ⟨.iff, .negations⟩
  | .quant q x f => do
      let f ← f.pushNegations polarity
      return .quant (polarity.quantifier q) x f

/-- The negation normal form. -/
def negationNormal (f : Formula) : Except Refusal Formula :=
  f.pushNegations .positive

/-- A formula without implications and equivalences, in which a negation stands before atoms only. -/
def IsNegationNormal : Formula → Prop
  | .atom _ => True
  | .neg f => ∃ p, f = .atom p
  | .junction _ a b rest =>
      a.IsNegationNormal ∧ b.IsNegationNormal ∧ ∀ f ∈ rest, f.IsNegationNormal
  | .imp _ _ => False
  | .iff _ _ => False
  | .quant _ _ f => f.IsNegationNormal

end Formula

end Clausal
