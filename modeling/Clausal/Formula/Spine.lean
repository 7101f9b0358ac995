import Clausal.Formula.Basic

/-!
# Spines

The spine of a formula for an operator is the part at its root that is built by this operator alone;
the formulas that hang on it are its parts. Conjunction and disjunction are associative, so that only
the parts and their order matter for the meaning.

* `Formula.spine` lists the parts; `Formula.mapSpine` replaces each of them.
* `Formula.flatten` gives every junction the parts of its spine as members, throughout a formula.
-/

namespace Clausal.Formula

/-- The parts that hang on the spine for `op`, from left to right. -/
def spine (op : Junctor) : Formula → List Formula
  | .junction op' a b rest =>
      if op' = op then a.spine op ++ b.spine op ++ rest.flatMap (spine op)
      else [.junction op' a b rest]
  | f => [f]

/-- Replaces the parts that hang on the spine for `op`. -/
def mapSpine (op : Junctor) (change : Formula → Formula) : Formula → Formula
  | .junction op' a b rest =>
      if op' = op then
        .junction op (a.mapSpine op change) (b.mapSpine op change) (rest.map (mapSpine op change))
      else change (.junction op' a b rest)
  | f => change f

/-- The members of a junction with this operator; any other formula is on its own. The first stands
apart, since there always is one. -/
def members (op : Junctor) : Formula → Formula × List Formula
  | .junction op' a b rest =>
      if op' = op then (a, b :: rest) else (.junction op' a b rest, [])
  | f => (f, [])

/-- Gives every junction the parts of its spine as members. -/
def flatten : Formula → Formula
  | .atom p => .atom p
  | .neg f => .neg f.flatten
  | .junction op a b rest =>
      let (first, others) := a.flatten.members op
      joinAll op first
        (others ++ (b.flatten :: rest.map flatten).flatMap fun f =>
          (f.members op).1 :: (f.members op).2)
  | .imp a b => .imp a.flatten b.flatten
  | .iff a b => .iff a.flatten b.flatten
  | .quant q x f => .quant q x f.flatten

end Clausal.Formula
