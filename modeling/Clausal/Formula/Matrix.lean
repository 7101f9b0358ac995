import Clausal.Formula.Refusal
import Clausal.Formula.Spine

/-!
# Conjunctive and disjunctive normal form

A quantifier-free formula in negation normal form is brought into conjunctive or disjunctive normal
form by the distributive laws. Which of the two depends on the operator that comes outermost. Nothing
is simplified: equal clauses and equal literals stay.

* `Formula.distribute` joins two normal forms by the inner operator. The parts of the right operand
  are taken up first, and for each of them those of the left operand.
* `Formula.distributed` is the normal form with operators nested as distribution leaves them.
* `Formula.matrixForm` may also flatten it, which keeps the order of clauses and literals.
-/

namespace Clausal.Formula

/-- Distributes the inner operator, the dual of `outer`, over the parts of both operands. -/
def distribute (outer : Junctor) (left right : Formula) : Formula :=
  right.mapSpine outer fun r => left.mapSpine outer fun l => .junction outer.dual l r []

/-- The normal form with `outer` outermost; refused at the first operator that is not expected in a
quantifier-free negation normal form. -/
def distributed (outer : Junctor) : Formula → Except Refusal Formula
  | .atom p => .ok (.atom p)
  | .neg (.atom p) => .ok (.neg (.atom p))
  | .neg _ => .error ⟨.neg, .matrix outer⟩
  | .junction op a b rest => do
      let a ← a.distributed outer
      let b ← b.distributed outer
      let rest ← rest.mapM (distributed outer)
      return if op = outer then .junction op a b rest
        else rest.foldl (distribute outer) (distribute outer a b)
  | .imp _ _ => .error ⟨.imp, .matrix outer⟩
  | .iff _ _ => .error ⟨.iff, .matrix outer⟩
  | .quant q _ _ => .error ⟨q.kind, .matrix outer⟩

/-- The normal form with `outer` outermost, flattened if `flat` is set. -/
def matrixForm (outer : Junctor) (flat : Bool) (f : Formula) : Except Refusal Formula := do
  let g ← f.distributed outer
  return if flat then g.flatten else g

end Clausal.Formula
