import Clausal.Clause.Basic
import Clausal.Formula.Apart
import Clausal.SkolemForm
import Clausal.Token.Basic

/-!
# Conversions

A conversion brings a formula, given as text, step by step into clausal form. The results of all steps
are kept, so that each can be looked at.

* `Conversion` holds the results in the order in which they are computed.
* `Conversion.cnfFormula` and `Conversion.dnfFormula` are the normal forms with their quantifiers.
-/

namespace Clausal

/-- The results of all steps, in the order in which they are computed. -/
structure Conversion where
  text : String
  /-- The text with all operators as symbols. -/
  unified : String
  tokens : List Token
  formula : Formula
  withoutIff : Formula
  withoutImp : Formula
  negationNormal : Formula
  /-- The negation normal form with all quantifiers renamed apart. -/
  apart : Renamed
  prenex : PrenexForm
  /-- The conjunctive normal form of the prenex matrix, as distribution leaves it. -/
  nestedCnf : Formula
  cnf : Formula
  /-- The disjunctive normal form of the prenex matrix, as distribution leaves it. -/
  nestedDnf : Formula
  dnf : Formula
  /-- The Skolem form of the prenex form with the conjunctive normal form as matrix. -/
  skolem : SkolemForm
  clauses : ClauseSet
  isHorn : Bool
  deriving Repr, DecidableEq

namespace Conversion

/-- The prenex formula with the conjunctive normal form as matrix. -/
def cnfFormula (c : Conversion) : Formula :=
  c.prenex.quantifiers.quantify c.cnf

/-- The prenex formula with the disjunctive normal form as matrix. -/
def dnfFormula (c : Conversion) : Formula :=
  c.prenex.quantifiers.quantify c.dnf

/-- The constructor-style form. -/
def describe (c : Conversion) : String :=
  Text.record "Steps" [
    ("text", Text.quoted c.text),
    ("normalized", Text.quoted c.unified),
    ("tokens", Text.tuple (c.tokens.map Token.describe)),
    ("formula", c.formula.describe),
    ("without_biconditionals", c.withoutIff.describe),
    ("without_implications", c.withoutImp.describe),
    ("nnf", c.negationNormal.describe),
    ("standardized", c.apart.formula.describe),
    ("renaming", describeRenames c.apart.renames),
    ("prenex", c.prenex.describe),
    ("cnf_raw", c.nestedCnf.describe),
    ("cnf", c.cnf.describe),
    ("dnf_raw", c.nestedDnf.describe),
    ("dnf", c.dnf.describe),
    ("skolemized", c.skolem.matrix.describe),
    ("skolem_substitution", describeTerms c.skolem.terms),
    ("clauses", c.clauses.describe),
    ("horn", Text.truth c.isHorn)]

end Conversion

end Clausal
