import Clausal.Clause.OfMatrix
import Clausal.Formula.Apart
import Clausal.Formula.Connectives
import Clausal.Formula.Matrix
import Clausal.Formula.Negation
import Clausal.Formula.Prenex
import Clausal.Value.Construction

/-!
# Steps on unchecked values

The steps towards the clausal form, for arguments that may be anything. What is not a formula is
refused by every step in the words in which the step refuses an operator, except that the negation
normal form asks for a formula in the first place, and that flattening leaves it alone.
-/

namespace Clausal

/-- Why a step gives no result. -/
inductive StepError where
  | refused (refusal : Refusal)
  | construction (error : ConstructionError)
  /-- The step has no rule for what is no formula. -/
  | unexpected (kind : ValueKind) (stage : Stage)
  /-- A formula is asked for, and something else of this kind was handed over. -/
  | notFormula (kind : ValueKind)
  /-- A quantifier is asked for, and something else was handed over. -/
  | notQuantifier (given : Value)
  deriving Repr

/-- The text of an error. -/
def StepError.message : StepError → String
  | .refused refusal => refusal.message
  | .construction error => error.message
  | .unexpected kind stage => stage.complaint kind.word
  | .notFormula kind => kind.typeText
  | .notQuantifier given => given.render

namespace Value

/-- The formula that a step works on; the step has no rule for anything else. -/
def formulaFor (stage : Stage) : Value → Except StepError Formula
  | .formula f => .ok f
  | v => .error (.unexpected v.kind stage)

/-- Expands equivalences; see `Formula.expandIff`. -/
def expandIff (v : Value) : Except StepError Formula := do
  let f ← v.formulaFor .equivalences
  return f.expandIff

/-- Expands implications; see `Formula.expandImp`. -/
def expandImp (v : Value) : Except StepError Formula := do
  let f ← v.formulaFor .implications
  return f.expandImp

/-- The negation normal form; anything but a formula is refused by its type. -/
def negationNormal : Value → Except StepError Formula
  | .formula f => f.negationNormal.mapError .refused
  | v => .error (.notFormula v.kind)

/-- Renames apart with names made from an unchecked base. The base is looked for among the names in use
and then made a variable when the first quantifier is met, so that a formula without quantifiers takes
any. -/
def renameFormula (base : Value) (f : Formula) : Except ConstructionError Renamed :=
  if f.quantifiers = 0 then .ok ⟨f, []⟩
  else do
    base.checkHashable
    let name ← base.checkName .variable
    return f.renameApart name

/-- Renames all quantifiers apart; see `Formula.renameApart`. -/
def renameApart (v base : Value) : Except StepError Renamed := do
  let f ← v.formulaFor .apart
  (renameFormula base f).mapError .construction

/-- Pulls the quantifiers to the front; see `Formula.prenex`. -/
def prenex (v : Value) : Except StepError PrenexForm := do
  let f ← v.formulaFor .prenex
  f.prenex.mapError .refused

/-- The conjunctive or disjunctive normal form; see `Formula.matrixForm`. -/
def matrixForm (outer : Junctor) (flat : Bool) (v : Value) : Except StepError Formula := do
  let f ← v.formulaFor (.matrix outer)
  (f.matrixForm outer flat).mapError .refused

/-- Flattens a formula, and leaves anything else alone. -/
def flatten : Value → Value
  | .formula f => .formula f.flatten
  | v => v

/-- Reads the clauses off a conjunctive normal form. -/
def clauses (v : Value) : Except StepError ClauseSet := do
  let f ← v.formulaFor .clauses
  (ClauseSet.ofFormula f).mapError .refused

/-! ## Skolem form of unchecked prefixes -/

/-- The Skolem terms for pairs of values, which are not checked before they are reached: the first of a
pair must then be a quantifier, and what stands in a Skolem term must be a term. -/
def skolemTerms (stems : SkolemStems) (universals : List Value) (constants functions : Nat) :
    List (Value × Value) → Except StepError (List (Value × Term))
  | [] => .ok []
  | (head, v) :: inner =>
      match head.quantifier? with
      | none => .error (.notQuantifier head)
      | some .all => skolemTerms stems (universals ++ [v]) constants functions inner
      | some .ex =>
          if universals.isEmpty then do
            let later ← skolemTerms stems universals (constants + 1) functions inner
            return (v, .app (stems.constant ++ toString constants) []) :: later
          else do
            let args ← (universals.mapM checkTerm).mapError .construction
            let later ← skolemTerms stems universals constants (functions + 1) inner
            return (v, .app (stems.function ++ toString functions) args) :: later

/-- The name of the symbol at the root of a value; other values go by their description. -/
def name : Value → String
  | .term t => t.name
  | .formula (.atom p) => p.symbol
  | v => v.describe

/-- Puts Skolem terms for the existential variables of a prefix, and drops the quantifiers. What is
not a variable has a Skolem term, but stands nowhere where it could be replaced. -/
def skolemize (stems : SkolemStems) (pairs : List (Value × Value)) (v : Value) :
    Except StepError SkolemForm := do
  let terms ← skolemTerms stems [] 1 1 pairs
  let replaced ← (terms.foldlM (fun w pair => substitute [(pair.1, .term pair.2)] w) v).mapError
    .construction
  let f ← replaced.formulaFor .skolem
  let dropped ← f.dropQuantifiers.mapError .refused
  return ⟨dropped, terms.map fun pair => (pair.1.name, pair.2)⟩

end Value

end Clausal
