import Clausal.Formula.Refusal
import Clausal.Formula.Occurrence
import Clausal.Prefix
import Clausal.Text.Bracketed

/-!
# Skolem form

The existential variables of a prefix are replaced by Skolem terms, and the quantifiers are dropped.
All variables that remain count as universally quantified. An existential variable with no universal
one before it becomes a new constant; any other becomes a new function of the universal variables
before it. Constants and functions are numbered from one, each on their own. Whether the formula
already has a symbol of such a name is not looked at.

* `skolemTerms` gives the Skolem term of each existential variable.
* `skolemize` replaces the variables one after the other, outermost first.
-/

namespace Clausal

/-- The names of Skolem symbols are made from these, followed by a number. -/
structure SkolemStems where
  constant : String := "c"
  function : String := "f"
  deriving Repr, DecidableEq

/-- A formula without quantifiers, and the Skolem term of each existential variable. -/
structure SkolemForm where
  matrix : Formula
  terms : List (String × Term)
  deriving Repr, DecidableEq

/-- The constructor-style form of Skolem terms, as pairs with their variables. -/
def describeTerms (terms : List (String × Term)) : String :=
  Text.tuple (terms.map fun pair => Text.tuple [pair.1, pair.2.render])

/-- The constructor-style form. -/
def SkolemForm.describe (s : SkolemForm) : String :=
  Text.record "Skolemization" [("matrix", s.matrix.describe), ("substitution", describeTerms s.terms)]

/-- The Skolem terms of the existential variables, in the order of the prefix, after the variables
`universals`; `constants` and `functions` are the next numbers. -/
def skolemTerms (stems : SkolemStems) (universals : List String) (constants functions : Nat) :
    Prefix → List (String × Term)
  | [] => []
  | ⟨.all, x⟩ :: inner => skolemTerms stems (universals ++ [x]) constants functions inner
  | ⟨.ex, x⟩ :: inner =>
      if universals.isEmpty then
        (x, .app (stems.constant ++ toString constants) []) ::
          skolemTerms stems universals (constants + 1) functions inner
      else
        (x, .app (stems.function ++ toString functions) (universals.map .var)) ::
          skolemTerms stems universals constants (functions + 1) inner

/-- Drops all quantifiers; refused at the first implication or equivalence. -/
def Formula.dropQuantifiers : Formula → Except Refusal Formula
  | .atom p => .ok (.atom p)
  | .neg f => do
      let f ← f.dropQuantifiers
      return .neg f
  | .junction op a b rest => do
      let a ← a.dropQuantifiers
      let b ← b.dropQuantifiers
      let rest ← rest.mapM dropQuantifiers
      return .junction op a b rest
  | .imp _ _ => .error ⟨.imp, .skolem⟩
  | .iff _ _ => .error ⟨.iff, .skolem⟩
  | .quant _ _ f => f.dropQuantifiers

/-- Replaces the existential variables of a prefix by Skolem terms, and drops the quantifiers. -/
def skolemize (stems : SkolemStems) (bindings : Prefix) (matrix : Formula) :
    Except Refusal SkolemForm := do
  let terms := skolemTerms stems [] 1 1 bindings
  let replaced := terms.foldl (fun f pair => f.subst (Substitution.single pair.1 pair.2)) matrix
  let dropped ← replaced.dropQuantifiers
  return ⟨dropped, terms⟩

end Clausal
