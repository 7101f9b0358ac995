import Clausal.Formula.FreshName
import Clausal.Formula.Occurrence
import Clausal.Formula.Printer
import Clausal.Text.Bracketed

/-!
# Renaming variables apart

Every quantifier gets a variable of its own, whether or not its variable occurs elsewhere. The new
names come from one sequence for the whole formula, in the order of the quantifiers, and none of
them is a name that the formula uses. Later steps therefore do not depend on the names that were
chosen for bound variables. Free variables keep their names.

* `Formula.relabel` gives the quantifiers the names of a list.
* `Formula.renameApart` takes fresh names, and tells which variable got which name.
-/

namespace Clausal

/-- A formula with renamed quantifiers, and the old and new variable of each quantifier. -/
structure Renamed where
  formula : Formula
  renames : List (String × String)
  deriving Repr, DecidableEq

/-- The constructor-style form of old and new variables, as pairs. -/
def describeRenames (renames : List (String × String)) : String :=
  Text.tuple (renames.map fun pair => Text.tuple [pair.1, pair.2])

/-- The constructor-style form. -/
def Renamed.describe (r : Renamed) : String :=
  Text.record "Standardization"
    [("formula", r.formula.describe), ("renaming", describeRenames r.renames)]

namespace Formula

mutual
/-- Renames the variable of the `n`-th quantifier to `label n`, counting from `start`. The
substitution `σ` holds the new names of the quantifiers around the formula. -/
def relabel (label : Nat → String) (σ : Substitution) (start : Nat) : Formula → Formula
  | .atom p => .atom (p.subst σ)
  | .neg f => .neg (f.relabel label σ start)
  | .junction op a b rest =>
      .junction op (a.relabel label σ start) (b.relabel label σ (start + a.quantifiers))
        (relabelList label σ (start + a.quantifiers + b.quantifiers) rest)
  | .imp a b => .imp (a.relabel label σ start) (b.relabel label σ (start + a.quantifiers))
  | .iff a b => .iff (a.relabel label σ start) (b.relabel label σ (start + a.quantifiers))
  | .quant q x f =>
      .quant q (label start) (f.relabel label (assign σ x (.var (label start))) (start + 1))

/-- Renames the quantifiers of a list of formulas, counting on from each to the next. -/
def relabelList (label : Nat → String) (σ : Substitution) (start : Nat) :
    List Formula → List Formula
  | [] => []
  | f :: rest =>
      f.relabel label σ start :: relabelList label σ (start + f.quantifiers) rest
end

/-- Renames all quantifiers apart, with new names made from `base`. -/
def renameApart (base : String) (f : Formula) : Renamed :=
  let names := freshNames base f.variableNames 0 f.quantifiers
  { formula := f.relabel (names.getD · base) Substitution.identity 0
    renames := f.quantified.zip names }

end Formula

end Clausal
