import Clausal.Value.Construction

/-!
# Operators on values

The operators that stand for connectives build formulas. Whole numbers have them too: there, conjunction,
disjunction and negation act on each binary digit, and an arrow shifts the number that it comes from.

* `Value.combine` applies an operator between two values, `Value.negate` is negation.
-/

namespace Clausal

/-- The operators that stand between two values. -/
inductive BinaryOperator where
  | conj
  | disj
  /-- An arrow to the right. -/
  | imp
  /-- An arrow to the left. -/
  | converse
  deriving Repr, DecidableEq

namespace Value

/-- Applies an operation on binary digits to whole numbers. Both are written with as many digits as the
longer one has and one for the sign. -/
def bitwise (f : (width : Nat) → BitVec width → BitVec width → BitVec width) (m n : Int) : Int :=
  let width := max m.natAbs.log2 n.natAbs.log2 + 2
  (f width (BitVec.ofInt width m) (BitVec.ofInt width n)).toInt

/-- Applies an operator to whole numbers. -/
def combineNumbers (op : BinaryOperator) (m n : Int) : Except ConstructionError Value :=
  match op with
  | .conj => .ok (.integer (bitwise (fun _ => BitVec.and) m n))
  | .disj => .ok (.integer (bitwise (fun _ => BitVec.or) m n))
  | .imp => if n < 0 then .error .negativeShift else .ok (.integer (m >>> n.toNat))
  | .converse => if n < 0 then .error .negativeShift else .ok (.integer (m <<< n.toNat))

/-- Joins formulas by an operator. -/
def combineFormulas (op : BinaryOperator) (a b : Value) : Except ConstructionError Formula :=
  match op with
  | .conj => buildJunction .conj [a, b]
  | .disj => buildJunction .disj [a, b]
  | .imp => buildImplication a b
  | .converse => buildImplication b a

/-- Applies an operator between two values. The conjunction and the disjunction of truth values are
truth values. -/
def combine (op : BinaryOperator) (a b : Value) : Except ConstructionError Value :=
  match op, a, b with
  | .conj, .truth p, .truth q => .ok (.truth (p && q))
  | .disj, .truth p, .truth q => .ok (.truth (p || q))
  | op, a, b =>
      match a.integer?, b.integer? with
      | some m, some n => combineNumbers op m n
      | _, _ => Value.formula <$> combineFormulas op a b

/-- The negation of a formula, or of each binary digit of a whole number. -/
def negate (a : Value) : Except ConstructionError Value :=
  match a.integer? with
  | some n => .ok (.integer (-n - 1))
  | none => Value.formula <$> buildNegation a

end Value

end Clausal
