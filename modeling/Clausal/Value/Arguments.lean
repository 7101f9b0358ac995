import Clausal.Value.Basic

/-!
# Arguments of formulas

The parts that a formula was built from, as values, in the order in which its constructor takes them.
-/

namespace Clausal.Formula

/-- The arguments of the outermost operator; those of an atom are its terms. -/
def arguments : Formula → List Value
  | .atom p => p.terms.map .term
  | .neg f => [.formula f]
  | .junction _ a b rest => .formula a :: .formula b :: rest.map .formula
  | .imp a b => [.formula a, .formula b]
  | .iff a b => [.formula a, .formula b]
  | .quant _ x f => [.term (.var x), .formula f]

/-- What a constructor takes to build the formula again: for an atom its name and a tuple of its
terms, otherwise the arguments. -/
def constructorArguments : Formula → List Value
  | .atom p => [.text p.symbol, .tuple (p.terms.map .term)]
  | f => f.arguments

/-- The first and the last operand of an operator that stands between operands. -/
def sides? : Formula → Option (Formula × Formula)
  | .junction _ a b rest => some (a, rest.getLastD b)
  | .imp a b => some (a, b)
  | .iff a b => some (a, b)
  | .atom _ | .neg _ | .quant .. => none

/-- The formula in the scope of a negation or a quantifier. -/
def scope? : Formula → Option Formula
  | .neg f => some f
  | .quant _ _ f => some f
  | _ => none

end Clausal.Formula
