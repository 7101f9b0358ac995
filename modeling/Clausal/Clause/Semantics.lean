import Clausal.Clause.Basic
import Clausal.Formula.Semantics

/-!
# Meaning of clauses

A clause holds if one of its literals does, and a clause set if all its clauses do. Under a truth
assignment to atoms this is propositional; under an interpretation the atoms are looked up there.

* `Clause.SatisfiedBy` and `ClauseSet.SatisfiedBy` are truth under a truth assignment.
* `ClauseSet.IsValidIn` is truth in an interpretation for all values of the variables.
* `ClauseLemmas.holds_toFormula`: a literal holds if its formula does.
-/

namespace Clausal

/-- Truth of a literal under a truth assignment to atoms. -/
def Literal.SatisfiedBy (truth : Atom → Prop) (l : Literal) : Prop :=
  if l.negated then ¬ truth l.atom else truth l.atom

/-- Truth of a clause under a truth assignment to atoms. -/
def Clause.SatisfiedBy (truth : Atom → Prop) (c : Clause) : Prop :=
  ∃ l ∈ c, l.SatisfiedBy truth

/-- Truth of a clause set under a truth assignment to atoms. -/
def ClauseSet.SatisfiedBy (truth : Atom → Prop) (cs : ClauseSet) : Prop :=
  ∀ c ∈ cs, Clause.SatisfiedBy truth c

/-- Truth of a clause set in an interpretation: every clause holds for all values of the
variables. -/
def ClauseSet.IsValidIn {D : Type u} (I : Interpretation D) (cs : ClauseSet) : Prop :=
  ∀ s : String → D, cs.SatisfiedBy (Atom.Holds I s)

namespace ClauseLemmas

variable {D : Type u} {I : Interpretation D} {s : String → D}

/-- A literal holds if its formula does. -/
theorem holds_toFormula {l : Literal} :
    l.toFormula.Holds I s ↔ l.SatisfiedBy (Atom.Holds I s) := by
  unfold Literal.toFormula Literal.SatisfiedBy
  split <;> simp [Formula.Holds]

end ClauseLemmas

end Clausal
