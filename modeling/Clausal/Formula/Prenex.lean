import Clausal.Formula.Refusal
import Clausal.Prefix

/-!
# Pulling quantifiers to the front

The quantifiers of a formula in negation normal form are pulled out in the order in which they stand
in it. This keeps the meaning if the quantifiers have been renamed apart.
-/

namespace Clausal.Formula

/-- Pulls all quantifiers to the front; refused at the first operator that does not belong in a
negation normal form. -/
def prenex : Formula → Except Refusal PrenexForm
  | .atom p => .ok ⟨[], .atom p⟩
  | .neg (.atom p) => .ok ⟨[], .neg (.atom p)⟩
  | .neg _ => .error ⟨.neg, .prenex⟩
  | .junction op a b rest => do
      let a ← a.prenex
      let b ← b.prenex
      let rest ← rest.mapM prenex
      return {
        quantifiers := a.quantifiers ++ b.quantifiers ++ rest.flatMap (·.quantifiers)
        matrix := .junction op a.matrix b.matrix (rest.map (·.matrix)) }
  | .imp _ _ => .error ⟨.imp, .prenex⟩
  | .iff _ _ => .error ⟨.iff, .prenex⟩
  | .quant q x f => do
      let p ← f.prenex
      return { p with quantifiers := ⟨q, x⟩ :: p.quantifiers }

end Clausal.Formula
