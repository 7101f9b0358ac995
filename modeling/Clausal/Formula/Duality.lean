import Clausal.Formula.Negation

/-!
# Affirmed and denied formulas

Two more descriptions of the negation normal form, each by rules for single operators.

* `Formula.applyLaws` is the way in which negations are pushed inwards by hand: one law, of double
  negation, of De Morgan or of the duality of the quantifiers, at each negation that stands before an
  operator.
* `Formula.affirmed` and `Formula.denied` say the same as a formula and as its negation, with negations
  before atoms only. They are defined for every formula, since they read an implication as a
  disjunction and an equivalence as two implications.
-/

namespace Clausal.Formula

/-- Pushes negations inwards, by one law after the other; refused at the first implication or
equivalence. -/
def applyLaws : Formula → Except Refusal Formula
  | .atom p => .ok (.atom p)
  | .neg (.atom p) => .ok (.neg (.atom p))
  | .neg (.neg f) => f.applyLaws
  | .neg (.junction op a b rest) => do
      let a ← (Formula.neg a).applyLaws
      let b ← (Formula.neg b).applyLaws
      let rest ← rest.mapM fun f => (Formula.neg f).applyLaws
      return .junction op.dual a b rest
  | .neg (.imp _ _) => .error ⟨.imp, .negations⟩
  | .neg (.iff _ _) => .error ⟨.iff, .negations⟩
  | .neg (.quant q x f) => do
      let f ← (Formula.neg f).applyLaws
      return .quant q.dual x f
  | .junction op a b rest => do
      let a ← a.applyLaws
      let b ← b.applyLaws
      let rest ← rest.mapM applyLaws
      return .junction op a b rest
  | .imp _ _ => .error ⟨.imp, .negations⟩
  | .iff _ _ => .error ⟨.iff, .negations⟩
  | .quant q x f => do
      let f ← f.applyLaws
      return .quant q x f

mutual
/-- What a formula says, with negations before atoms only. -/
def affirmed : Formula → Formula
  | .atom p => .atom p
  | .neg f => f.denied
  | .junction op a b rest => .junction op a.affirmed b.affirmed (rest.map affirmed)
  | .imp a b => .disj a.denied b.affirmed
  | .iff a b => .conj (.disj a.denied b.affirmed) (.disj b.denied a.affirmed)
  | .quant q x f => .quant q x f.affirmed

/-- What the negation of a formula says, with negations before atoms only. -/
def denied : Formula → Formula
  | .atom p => .neg (.atom p)
  | .neg f => f.affirmed
  | .junction op a b rest => .junction op.dual a.denied b.denied (rest.map denied)
  | .imp a b => .conj a.affirmed b.denied
  | .iff a b => .disj (.conj a.affirmed b.denied) (.conj b.affirmed a.denied)
  | .quant q x f => .quant q.dual x f.denied
end

end Clausal.Formula
