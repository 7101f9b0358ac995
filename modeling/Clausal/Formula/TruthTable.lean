import Clausal.Formula.Printer
import Clausal.Formula.Occurrence

/-!
# Truth tables

A formula without quantifiers is a function of the truth of its atoms. Atoms are told apart by their
written form, so that a constant and a variable of one name count as the same.

* `Formula.evaluate` is the truth value for given truth values of the atoms.
* `Formula.truthTable` lists the truth values for all combinations, all atoms false first and the
  last atom changing fastest; it is refused at the first quantifier.
-/

namespace Clausal

/-- The truth value of a junction of formulas with the given truth values. -/
def Junctor.truth (op : Junctor) (values : List Bool) : Bool :=
  match op with
  | .conj => values.all id
  | .disj => values.any id

/-- The truth value of a formula without quantifiers; a quantifier is passed over. -/
def Formula.evaluate (truth : Atom → Bool) : Formula → Bool
  | .atom p => truth p
  | .neg f => !f.evaluate truth
  | .junction op a b rest =>
      op.truth (a.evaluate truth :: b.evaluate truth :: rest.map (evaluate truth))
  | .imp a b => !a.evaluate truth || b.evaluate truth
  | .iff a b => a.evaluate truth == b.evaluate truth
  | .quant _ _ f => f.evaluate truth

/-- The quantifiers, in the order in which they stand. -/
def Formula.quantifierSymbols : Formula → List Quantifier
  | .atom _ => []
  | .neg f => f.quantifierSymbols
  | .junction _ a b rest =>
      a.quantifierSymbols ++ b.quantifierSymbols ++ rest.flatMap quantifierSymbols
  | .imp a b => a.quantifierSymbols ++ b.quantifierSymbols
  | .iff a b => a.quantifierSymbols ++ b.quantifierSymbols
  | .quant q _ f => q :: f.quantifierSymbols

/-- All rows of `n` truth values, the first value changing slowest. -/
def truthRows : (n : Nat) → List (List Bool)
  | 0 => [[]]
  | n + 1 => (truthRows n).map (false :: ·) ++ (truthRows n).map (true :: ·)

/-- The written forms of the atoms, in the order of code points, and the truth value of the formula
for each row of truth values of the atoms. -/
structure TruthTable where
  atoms : List String
  values : List Bool
  deriving Repr, DecidableEq

/-- The truth table, or the first quantifier. -/
def Formula.truthTable (f : Formula) : Except Quantifier TruthTable :=
  match f.quantifierSymbols with
  | q :: _ => .error q
  | [] =>
      let atoms := (f.atoms.map Atom.render).eraseDups.mergeSort (· ≤ ·)
      let value (row : List Bool) : Bool :=
        f.evaluate fun p => ((atoms.zip row).lookup p.render).getD false
      .ok ⟨atoms, (truthRows atoms.length).map value⟩

end Clausal
