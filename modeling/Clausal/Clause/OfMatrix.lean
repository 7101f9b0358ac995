import Clausal.Clause.Basic
import Clausal.Formula.Refusal
import Clausal.Formula.Spine

/-!
# Reading clauses off a formula

The clauses of a formula in conjunctive normal form are the parts of its spine for conjunction, and
the literals of a clause are the parts of the clause's spine for disjunction. It makes no difference
how conjunctions and disjunctions are nested.
-/

namespace Clausal

/-- The literal that a part of a disjunction is; any other part is refused. -/
def Literal.ofPart (f : Formula) : Except Refusal Literal :=
  match Literal.ofFormula? f with
  | some l => .ok l
  | none => .error ⟨f.kind, .clauses⟩

/-- The literals of a disjunction. -/
def Clause.ofFormula (f : Formula) : Except Refusal Clause :=
  (f.spine .disj).mapM Literal.ofPart

/-- The clauses of a conjunction of disjunctions of literals. -/
def ClauseSet.ofFormula (f : Formula) : Except Refusal ClauseSet :=
  (f.spine .conj).mapM Clause.ofFormula

end Clausal
