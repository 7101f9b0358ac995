import Clausal.Formula.Basic

/-!
# Refused formulas

A step towards the clausal form is defined on the formulas that the steps before it produce. A
formula outside this class is refused, and the refusal names the operator of the first subformula
that the step has no rule for.
-/

namespace Clausal

/-- The steps that have preconditions. -/
inductive Stage where
  | equivalences
  | implications
  | negations
  | apart
  | prenex
  /-- Distribution with this operator outermost. -/
  | matrix (outer : Junctor)
  | skolem
  | clauses
  deriving Repr, DecidableEq

/-- A step met an operator that it has no rule for. -/
structure Refusal where
  culprit : Kind
  stage : Stage
  deriving Repr, DecidableEq

/-- The matrix form with a given outermost operator: conjunctive or disjunctive normal form. -/
def Junctor.matrixName : Junctor → String
  | .conj => "CNF"
  | .disj => "DNF"

/-- What a step says of something that it has no rule for, known by a word. -/
def Stage.complaint (word : String) : Stage → String
  | .equivalences => "unexpected " ++ word ++ " in biconditional elimination"
  | .implications => "unexpected " ++ word ++ " in implication elimination"
  | .negations => "unexpected " ++ word ++ " in NNF conversion"
  | .apart => "unexpected " ++ word ++ " in standardization"
  | .prenex => "unexpected " ++ word ++ " in prenex extraction; expecting NNF"
  | .matrix outer => "unexpected " ++ word ++ " in " ++ outer.matrixName ++ " matrix"
  | .skolem => "unexpected " ++ word ++ " in Skolemization"
  | .clauses => "invalid literal " ++ word ++ " in CNF"

/-- The text of a refusal. -/
def Refusal.message (r : Refusal) : String :=
  r.stage.complaint r.culprit.word

end Clausal
