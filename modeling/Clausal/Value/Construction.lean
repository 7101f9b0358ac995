import Clausal.Formula.Parser
import Clausal.Value.Basic

/-!
# Checked construction

Terms, formulas, prefixes and clause sets are built from unchecked values. Each constructor checks
its arguments in a fixed order, and the first that is wrong is a `ConstructionError`: names before
arguments, the number of members before the members, the body of a quantifier before its variable. The
atom of a literal is not checked before the literal is written as a formula.
-/

namespace Clausal

/-- Why something cannot be built. Each error holds the value that is wrong. -/
inductive ConstructionError where
  | badName (role : NameRole) (given : Value)
  | notTerm (given : Value)
  | tooFew (op : Junctor) (count : Nat)
  | notFormula (given : Value)
  | notVariable (given : Value)
  /-- A pair that is no quantifier with a variable. -/
  | notBinding (head given : Value)
  | notLiteral (given : Value)
  | notClause (given : Value)
  /-- The empty clause was to be written as a formula. -/
  | emptyClause
  /-- A number was to be shifted by less than nothing. -/
  | negativeShift
  /-- A value was looked for in a set that cannot stand there, because it or a part of it changes. -/
  | unhashable (kind : ValueKind)
  deriving Repr

/-- The text of an error. -/
def ConstructionError.message : ConstructionError → String
  | .badName role given => given.describe ++ " is not a valid " ++ role.word ++ " name"
  | .notTerm given =>
      "arguments must be terms; " ++ given.describe ++ " is " ++ given.kind.typeText
  | .tooFew op count =>
      op.kind.word ++ " expects at least two arguments; got " ++ toString count
  | .notFormula given => given.describe ++ " is not a Formula"
  | .notVariable given => given.describe ++ " is not a Variable"
  | .notBinding head given => (Value.pair head given).describe ++ " is not a quantifier binding"
  | .notLiteral given => given.describe ++ " is not a Literal"
  | .notClause given => given.describe ++ " is not a Clause"
  | .emptyClause => "the empty clause has no formula"
  | .negativeShift => "negative shift count"
  | .unhashable kind => "unhashable type: '" ++ kind.word ++ "'"

namespace Value

/-! ## Checks -/

/-- A name is text that is not empty. -/
def checkName (role : NameRole) : Value → Except ConstructionError String
  | .text s => if s.isEmpty then .error (.badName role (.text s)) else .ok s
  | v => .error (.badName role v)

/-- The kind of the first part of a value that can change, so that the value cannot stand in a set. -/
def unhashable? : Value → Option ValueKind
  | .sequence .list _ => some (.sequence .list)
  | .mapping _ => some .mapping
  | .sequence _ elements => (elements.map unhashable?).findSome? id
  | .literal _ atom => atom.unhashable?
  | _ => none

/-- What is looked for in a set can stand there. -/
def checkHashable (v : Value) : Except ConstructionError Unit :=
  match v.unhashable? with
  | some kind => .error (.unhashable kind)
  | none => .ok ()

@[simp] theorem checkHashable_text (s : String) : (Value.text s).checkHashable = .ok () := by
  simp [checkHashable, unhashable?]

/-- An argument of a function or predicate symbol is a term. -/
def checkTerm : Value → Except ConstructionError Term
  | .term t => .ok t
  | v => .error (.notTerm v)

/-- An operand of a formula is a formula. -/
def checkFormula : Value → Except ConstructionError Formula
  | .formula f => .ok f
  | v => .error (.notFormula v)

/-! ## Terms and formulas -/

/-- A variable of a given name. -/
def buildVariable (name : Value) : Except ConstructionError Term := do
  let x ← name.checkName .variable
  return .var x

/-- A function symbol of a given name with its arguments. -/
def buildApplication (name : Value) (args : List Value) : Except ConstructionError Term := do
  let f ← name.checkName .function
  let ts ← args.mapM checkTerm
  return .app f ts

/-- A predicate symbol of a given name with its arguments. -/
def buildAtom (name : Value) (args : List Value) : Except ConstructionError Formula := do
  let p ← name.checkName .predicate
  let ts ← args.mapM checkTerm
  return .atom ⟨p, ts⟩

/-- The negation of an operand. -/
def buildNegation (arg : Value) : Except ConstructionError Formula := do
  let f ← arg.checkFormula
  return .neg f

/-- A junction of two or more operands, whose number is checked first. -/
def buildJunction (op : Junctor) : List Value → Except ConstructionError Formula
  | a :: b :: rest => do
      let a ← a.checkFormula
      let b ← b.checkFormula
      let rest ← rest.mapM checkFormula
      return .junction op a b rest
  | args => .error (.tooFew op args.length)

/-- The implication from `lhs` to `rhs`. -/
def buildImplication (lhs rhs : Value) : Except ConstructionError Formula := do
  let a ← lhs.checkFormula
  let b ← rhs.checkFormula
  return .imp a b

/-- The equivalence of two operands. -/
def buildEquivalence (lhs rhs : Value) : Except ConstructionError Formula := do
  let a ← lhs.checkFormula
  let b ← rhs.checkFormula
  return .iff a b

mutual
/-- Binds the variable that a value is in a formula. A sequence that starts with a variable binds all
its elements, the last one innermost; an element may be a sequence again. -/
def bind (q : Quantifier) (target : Value) (body : Formula) : Except ConstructionError Formula :=
  match target with
  | .term (.var x) => .ok (.quant q x body)
  | .sequence _ (.term (.var x) :: later) => do
      let inner ← bindAll q later body
      return .quant q x inner
  | v => .error (.notVariable v)

/-- Binds every element of a sequence, beginning with the last. -/
def bindAll (q : Quantifier) (targets : List Value) (body : Formula) :
    Except ConstructionError Formula :=
  match targets with
  | [] => .ok body
  | v :: later => do
      let inner ← bindAll q later body
      bind q v inner
end

/-- A quantified formula; its body is checked before its variables. -/
def buildQuantified (q : Quantifier) (target body : Value) : Except ConstructionError Formula := do
  let f ← body.checkFormula
  bind q target f

/-- Joins the arguments; a single argument is returned as it is, whatever it is. -/
def joinAll (op : Junctor) : List Value → Except ConstructionError Value
  | [v] => .ok v
  | args => Value.formula <$> buildJunction op args

/-! ## Prefixes -/

/-- A binding from what was handed over as its quantifier and its variable. -/
def buildBinding (head target : Value) : Except ConstructionError Binding :=
  match head.quantifier?, target.variableName? with
  | some q, some x => .ok ⟨q, x⟩
  | _, _ => .error (.notBinding head target)

/-- A prefix from pairs of values. -/
def buildPrefix (pairs : List (Value × Value)) : Except ConstructionError Prefix :=
  pairs.mapM fun pair => buildBinding pair.1 pair.2

/-- Puts a prefix in front of a value; the empty prefix returns it as it is, whatever it is. -/
def quantifyBy (bindings : Prefix) (body : Value) : Except ConstructionError Value :=
  if bindings.isEmpty then .ok body
  else do
    let f ← body.checkFormula
    return .formula (bindings.quantify f)

/-! ## Clauses -/

/-- A clause is built from literals. -/
def checkLiteral : Value → Except ConstructionError Value
  | .literal negated atom => .ok (.literal negated atom)
  | v => .error (.notLiteral v)

/-- A clause set is built from clauses. -/
def checkClause : Value → Except ConstructionError Value
  | .sequence .clause literals => .ok (.sequence .clause literals)
  | v => .error (.notClause v)

/-- A clause from what was handed over as its literals. -/
def buildClause (given : List Value) : Except ConstructionError Value := do
  let literals ← given.mapM checkLiteral
  return .sequence .clause literals

/-- A clause set from what was handed over as its clauses. -/
def buildClauseSet (given : List Value) : Except ConstructionError Value := do
  let clauses ← given.mapM checkClause
  return .sequence .clauses clauses

/-- A literal is negated or not; other values are neither. -/
def hasSign (negated : Bool) : Value → Bool
  | .literal sign _ => sign == negated
  | _ => false

/-- The literals of a clause with one sign, in order. -/
def signedLiterals (negated : Bool) (literals : List Value) : List Value :=
  literals.filter (hasSign negated)

/-- Whether at most one of the literals of a clause is positive. -/
def isHornClause (literals : List Value) : Bool :=
  (signedLiterals false literals).length ≤ 1

/-- The literals of a clause. -/
def literals : Value → List Value
  | .sequence .clause elements => elements
  | _ => []

/-- Whether all clauses of a clause set are Horn clauses. -/
def isHornClauseSet (clauses : List Value) : Bool :=
  clauses.all fun c => isHornClause c.literals

/-- A literal as a formula. Only a negation checks its atom; a positive literal is its atom. -/
def literalFormula : Value → Except ConstructionError Value
  | .literal true atom => Value.formula <$> buildNegation atom
  | .literal false atom => .ok atom
  | v => .error (.notLiteral v)

/-- The disjunction of the literals of a clause, which must not be empty. -/
def clauseFormula (literals : List Value) : Except ConstructionError Value :=
  if literals.isEmpty then .error .emptyClause
  else do
    let parts ← literals.mapM literalFormula
    joinAll .disj parts

/-! ## Sequences of pairs -/

/-- The two elements of a pair. -/
def pair? : Value → Option (Value × Value)
  | .sequence _ [first, second] => some (first, second)
  | _ => none

end Value

/-- A prefix as pairs that it can be built from. -/
def Prefix.toPairs (bindings : Prefix) : List (Value × Value) :=
  bindings.map fun b => (.operator b.quantifier.kind, .term (.var b.name))

/-- The pairs that a prefix, or any other sequence of pairs, consists of. -/
def Value.pairs? : Value → Option (List (Value × Value))
  | .bindings p => some p.toPairs
  | .sequence _ elements => elements.mapM pair?
  | _ => none

/-! ## Substituting values -/

/-- The value that a substitution by values gives for a variable. A pair whose first element is not a
variable counts for none; of several pairs for one variable the last counts. -/
abbrev ValueSubstitution := List (Value × Value)

namespace ValueSubstitution

/-- The value for a variable. -/
def find? (σ : ValueSubstitution) (x : String) : Option Value :=
  (σ.reverse.find? (·.1.variableName? == some x)).map (·.2)

/-- The substitution by those values that are terms. -/
def terms (σ : ValueSubstitution) : Substitution :=
  fun x => ((σ.find? x).bind Value.term?).getD (.var x)

/-- The value for a variable, if it is not a term. -/
def wrong? (σ : ValueSubstitution) (x : String) : Option Value :=
  (σ.find? x).filter (·.term?.isNone)

end ValueSubstitution

/-- The values that would be placed as arguments inside a term and are not terms. The arguments of
inner function symbols are placed before those of outer ones. -/
def Term.misplaced (wrong? : String → Option Value) : Term → List Value
  | .var _ => []
  | .app _ ts =>
      ts.flatMap (misplaced wrong?) ++ ts.filterMap fun
        | .var x => wrong? x
        | .app _ _ => none

/-- The values that would be placed as arguments inside a formula and are not terms. -/
def Formula.misplaced (wrong? : String → Option Value) : Formula → List Value
  | .atom p => Term.misplaced wrong? (.app p.symbol p.terms)
  | .neg f => f.misplaced wrong?
  | .junction _ a b rest =>
      a.misplaced wrong? ++ b.misplaced wrong? ++ rest.flatMap (misplaced wrong?)
  | .imp a b => a.misplaced wrong? ++ b.misplaced wrong?
  | .iff a b => a.misplaced wrong? ++ b.misplaced wrong?
  | .quant _ x f => f.misplaced fun y => if y = x then none else wrong? y

/-- Substitutes values for variables. A value that is not a term is an error only where it would
become an argument; put for a whole term it is the result. -/
def Value.substitute (σ : ValueSubstitution) : Value → Except ConstructionError Value
  | .term (.var x) => .ok ((σ.find? x).getD (.term (.var x)))
  | .term t =>
      match t.misplaced σ.wrong? with
      | v :: _ => .error (.notTerm v)
      | [] => .ok (.term (t.subst σ.terms))
  | .formula f =>
      match f.misplaced σ.wrong? with
      | v :: _ => .error (.notTerm v)
      | [] => .ok (.formula (f.subst σ.terms))
  | v => .ok v

end Clausal
