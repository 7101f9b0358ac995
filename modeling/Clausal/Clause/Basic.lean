import Clausal.Formula.Printer
import Clausal.Text.Bracketed

/-!
# Clauses

A clause is a disjunction of literals and a clause set a conjunction of clauses, in the order of
their occurrence and with duplicates kept. All variables count as universally quantified.

* `Clause.isHorn` holds of a clause with at most one positive literal.
* `Clause.toFormula?` is the disjunction of the literals; the empty clause has none.
-/

namespace Clausal

/-- An atom or its negation. -/
structure Literal where
  negated : Bool
  atom : Atom
  deriving Repr, DecidableEq

/-- A disjunction of literals. -/
abbrev Clause := List Literal

/-- A conjunction of clauses. -/
abbrev ClauseSet := List Clause

namespace Literal

/-- The atom, or its negation, as a formula. -/
def toFormula (l : Literal) : Formula :=
  if l.negated then .neg (.atom l.atom) else .atom l.atom

/-- The literal that a formula is. -/
def ofFormula? : Formula → Option Literal
  | .atom p => some ⟨false, p⟩
  | .neg (.atom p) => some ⟨true, p⟩
  | _ => none

/-- The text of an atom with its sign. -/
def signed (negated : Bool) (atom : String) : String :=
  if negated then "¬" ++ atom else atom

/-- The constructor-style text of an atom with its sign. -/
def record (negated : Bool) (atom : String) : String :=
  Text.record "Literal" [("negated", Text.truth negated), ("atom", atom)]

/-- The symbolic form, `¬P(x)`. -/
def render (l : Literal) : String :=
  signed l.negated l.atom.render

/-- The constructor-style form; its atom is written as in the symbolic form. -/
def describe (l : Literal) : String :=
  record l.negated l.atom.render

end Literal

namespace Clause

/-- The positive literals, in order. -/
def positive (c : Clause) : List Literal :=
  c.filter (!·.negated)

/-- The negative literals, in order. -/
def negative (c : Clause) : List Literal :=
  c.filter (·.negated)

/-- A Horn clause has at most one positive literal. -/
def isHorn (c : Clause) : Bool :=
  c.positive.length ≤ 1

/-- The disjunction of the literals; a single literal stands for itself. -/
def toFormula? : Clause → Option Formula
  | [] => none
  | l :: rest => some (Formula.joinAll .disj l.toFormula (rest.map Literal.toFormula))

/-- The symbolic form: the literals in braces. -/
def render (c : Clause) : String :=
  Text.braces (c.map Literal.render)

/-- The constructor-style form. -/
def describe (c : Clause) : String :=
  callText "Clause" [Text.list (c.map Literal.describe)]

end Clause

namespace ClauseSet

/-- A clause set is Horn if each clause is. -/
def isHorn (cs : ClauseSet) : Bool :=
  cs.all Clause.isHorn

/-- The symbolic form: the clauses in square brackets. -/
def render (cs : ClauseSet) : String :=
  Text.list (cs.map Clause.render)

/-- The constructor-style form. -/
def describe (cs : ClauseSet) : String :=
  callText "ClauseSet" [Text.list (cs.map Clause.describe)]

end ClauseSet

end Clausal
