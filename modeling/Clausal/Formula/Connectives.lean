import Clausal.Formula.Basic

/-!
# Expanding equivalences and implications

Equivalences are written with implications, and implications with negation and disjunction. The two
steps are independent; since the first makes implications, it comes first when both operators are to
disappear. Neither is ever refused.

* `Formula.expandIff` replaces `A ↔ B` by `(A → B) ∧ (B → A)`.
* `Formula.expandImp` replaces `A → B` by `¬A ∨ B`.
-/

namespace Clausal.Formula

/-- Writes every equivalence as two implications. -/
def expandIff : Formula → Formula
  | .atom p => .atom p
  | .neg f => .neg f.expandIff
  | .junction op a b rest => .junction op a.expandIff b.expandIff (rest.map expandIff)
  | .imp a b => .imp a.expandIff b.expandIff
  | .iff a b => .conj (.imp a.expandIff b.expandIff) (.imp b.expandIff a.expandIff)
  | .quant q x f => .quant q x f.expandIff

/-- Writes every implication as a disjunction. -/
def expandImp : Formula → Formula
  | .atom p => .atom p
  | .neg f => .neg f.expandImp
  | .junction op a b rest => .junction op a.expandImp b.expandImp (rest.map expandImp)
  | .imp a b => .disj (.neg a.expandImp) b.expandImp
  | .iff a b => .iff a.expandImp b.expandImp
  | .quant q x f => .quant q x f.expandImp

end Clausal.Formula
