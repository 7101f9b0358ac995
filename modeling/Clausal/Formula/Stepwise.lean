import Clausal.Formula.Apart

/-!
# Renaming one quantifier after the other

Quantifiers can also be renamed in one walk through the formula. At each quantifier the next fresh name
is taken, it is put in for the variable in the whole scope of the quantifier, and the walk goes on in
the scope that was changed. What the walk carries along is which names are in use.

* `NameSupply.fresh` takes a new name: the base, or else the base with the next number that gives an
  unused name.
* `Formula.walk` renames the quantifiers of a formula; `Formula.renameStepwise` starts it.
-/

namespace Clausal

/-- The names in use, the next number to try, and the renamed variables so far. -/
structure NameSupply where
  used : List String
  counter : Nat := 1
  renames : List (String × String) := []
  deriving Repr, DecidableEq

namespace NameSupply

/-- The number of the next fresh candidate. The base itself has number 0. -/
def next (base : String) (s : NameSupply) : Nat :=
  if base ∈ s.used then firstUnused base s.used s.counter else 0

/-- Takes the next fresh name as the new name of `x`. Names met in use are not tried again. -/
def fresh (base x : String) (s : NameSupply) : String × NameSupply :=
  let name := candidate base (s.next base)
  (name,
    { used := name :: s.used
      counter := if base ∈ s.used then s.next base + 1 else s.counter
      renames := s.renames ++ [(x, name)] })

end NameSupply

namespace Formula

mutual
/-- Renames the quantifiers of a formula with the names of a supply, outermost first and from left to
right. -/
def walk (base : String) (s : NameSupply) : Formula → Formula × NameSupply
  | .atom p => (.atom p, s)
  | .neg f =>
      let (f, s) := f.walk base s
      (.neg f, s)
  | .junction op a b rest =>
      let (a, s) := a.walk base s
      let (b, s) := b.walk base s
      let (rest, s) := walkList base s rest
      (.junction op a b rest, s)
  | .imp a b =>
      let (a, s) := a.walk base s
      let (b, s) := b.walk base s
      (.imp a b, s)
  | .iff a b =>
      let (a, s) := a.walk base s
      let (b, s) := b.walk base s
      (.iff a b, s)
  | .quant q x f =>
      let (y, s) := s.fresh base x
      let (f, s) := (f.subst (Substitution.single x (.var y))).walk base s
      (.quant q y f, s)
termination_by f => (f.quantifiers, sizeOf f)
decreasing_by
  all_goals first
    | exact Prod.Lex.left _ _ (by rw [OccurrenceLemmas.quantifiers_subst, quantifiers]; omega)
    | exact Prod.Lex.right' _ (by simp [quantifiers] <;> omega) (by simp <;> omega)

/-- Renames the quantifiers of formulas one after the other. -/
def walkList (base : String) (s : NameSupply) : List Formula → List Formula × NameSupply
  | [] => ([], s)
  | f :: rest =>
      let (f, s) := f.walk base s
      let (rest, s) := walkList base s rest
      (f :: rest, s)
termination_by fs => ((fs.map quantifiers).foldr (· + ·) 0, sizeOf fs)
decreasing_by
  all_goals exact Prod.Lex.right' _ (by simp) (by simp <;> omega)
end

/-- Renames all quantifiers apart, one after the other. -/
def renameStepwise (base : String) (f : Formula) : Renamed :=
  let (g, s) := f.walk base { used := f.variableNames }
  { formula := g, renames := s.renames }

end Formula

end Clausal
