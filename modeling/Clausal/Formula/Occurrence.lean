import Clausal.Formula.Basic

/-!
# Occurrences and substitution

The atoms and the variables of a formula, each listed from left to right with repetitions, and the
replacement of its free variables by terms.

* `Formula.quantified` lists the variables of the quantifiers, whether or not they occur below.
* `Formula.free` and `Formula.bound` split the occurrences in atoms by whether a quantifier around
  them, or the given list, binds them.
* `Formula.subst` leaves a variable alone below a quantifier that binds it. It renames no
  quantifier: that no variable of a substituted term is captured is up to the caller.
-/

namespace Clausal

/-- The occurrences of variables in the terms of an atom. -/
def Atom.variableNames (p : Atom) : List String :=
  p.terms.flatMap Term.variableNames

/-- Replaces the variables in the terms of an atom. -/
def Atom.subst (σ : Substitution) (p : Atom) : Atom :=
  { p with terms := p.terms.map (Term.subst σ) }

namespace Formula

/-- The atoms, from left to right. -/
def atoms : Formula → List Atom
  | .atom p => [p]
  | .neg f => f.atoms
  | .junction _ a b rest => a.atoms ++ b.atoms ++ rest.flatMap atoms
  | .imp a b => a.atoms ++ b.atoms
  | .iff a b => a.atoms ++ b.atoms
  | .quant _ _ f => f.atoms

/-- The greatest number of operators on a path from the root to an atom. -/
def depth : Formula → Nat
  | .atom _ => 0
  | .neg f => f.depth + 1
  | .junction _ a b rest => (rest.map depth).foldl max (max a.depth b.depth) + 1
  | .imp a b => max a.depth b.depth + 1
  | .iff a b => max a.depth b.depth + 1
  | .quant _ _ f => f.depth + 1

/-- The variables of the quantifiers, in the order of the quantifiers. -/
def quantified : Formula → List String
  | .atom _ => []
  | .neg f => f.quantified
  | .junction _ a b rest => a.quantified ++ b.quantified ++ rest.flatMap quantified
  | .imp a b => a.quantified ++ b.quantified
  | .iff a b => a.quantified ++ b.quantified
  | .quant _ x f => x :: f.quantified

/-- The number of quantifiers. -/
def quantifiers : Formula → Nat
  | .atom _ => 0
  | .neg f => f.quantifiers
  | .junction _ a b rest => a.quantifiers + b.quantifiers + (rest.map quantifiers).foldr (· + ·) 0
  | .imp a b => a.quantifiers + b.quantifiers
  | .iff a b => a.quantifiers + b.quantifiers
  | .quant _ _ f => f.quantifiers + 1

/-- The occurrences of variables that neither a quantifier nor `outer` binds. -/
def free (outer : List String) : Formula → List String
  | .atom p => p.variableNames.filter (· ∉ outer)
  | .neg f => f.free outer
  | .junction _ a b rest => a.free outer ++ b.free outer ++ rest.flatMap (free outer)
  | .imp a b => a.free outer ++ b.free outer
  | .iff a b => a.free outer ++ b.free outer
  | .quant _ x f => f.free (x :: outer)

/-- The occurrences of variables that a quantifier or `outer` binds. -/
def bound (outer : List String) : Formula → List String
  | .atom p => p.variableNames.filter (· ∈ outer)
  | .neg f => f.bound outer
  | .junction _ a b rest => a.bound outer ++ b.bound outer ++ rest.flatMap (bound outer)
  | .imp a b => a.bound outer ++ b.bound outer
  | .iff a b => a.bound outer ++ b.bound outer
  | .quant _ x f => f.bound (x :: outer)

/-- All variables: those of the quantifiers and all occurrences in atoms. -/
def variableNames : Formula → List String
  | .atom p => p.variableNames
  | .neg f => f.variableNames
  | .junction _ a b rest => a.variableNames ++ b.variableNames ++ rest.flatMap variableNames
  | .imp a b => a.variableNames ++ b.variableNames
  | .iff a b => a.variableNames ++ b.variableNames
  | .quant _ x f => x :: f.variableNames

/-- Replaces the free occurrences of each variable `x` by `σ x`, all at once. -/
def subst (σ : Substitution) : Formula → Formula
  | .atom p => .atom (p.subst σ)
  | .neg f => .neg (f.subst σ)
  | .junction op a b rest => .junction op (a.subst σ) (b.subst σ) (rest.map (subst σ))
  | .imp a b => .imp (a.subst σ) (b.subst σ)
  | .iff a b => .iff (a.subst σ) (b.subst σ)
  | .quant q x f => .quant q x (f.subst (σ.hide x))

end Formula

/-! ## Counting quantifiers -/

namespace OccurrenceLemmas

/-- `quantifiers` counts the entries of `quantified`. -/
theorem length_quantified (f : Formula) : f.quantified.length = f.quantifiers := by
  induction f using Formula.rec_members with
  | atom p => simp [Formula.quantified, Formula.quantifiers]
  | neg f ih => simpa [Formula.quantified, Formula.quantifiers] using ih
  | junction op a b rest iha ihb ih =>
      simp only [Formula.quantified, Formula.quantifiers, List.length_append, List.length_flatMap,
        List.sum_eq_foldr, iha, ihb]
      rw [List.map_congr_left ih]
  | imp a b iha ihb => simp [Formula.quantified, Formula.quantifiers, iha, ihb]
  | iff a b iha ihb => simp [Formula.quantified, Formula.quantifiers, iha, ihb]
  | quant q x f ih => simp [Formula.quantified, Formula.quantifiers, ih]

/-- Substitution keeps the quantifiers. -/
theorem quantified_subst (f : Formula) (σ : Substitution) : (f.subst σ).quantified = f.quantified := by
  induction f using Formula.rec_members generalizing σ with
  | atom p => rw [Formula.subst, Formula.quantified, Formula.quantified]
  | neg f ih => rw [Formula.subst, Formula.quantified, Formula.quantified, ih]
  | junction op a b rest iha ihb ih =>
      have members : rest.map (Formula.quantified ∘ Formula.subst σ) = rest.map Formula.quantified :=
        List.map_congr_left fun f member => ih f member σ
      rw [Formula.subst, Formula.quantified, Formula.quantified, iha, ihb, List.flatMap, List.map_map,
        members, List.flatMap]
  | imp a b iha ihb | iff a b iha ihb =>
      rw [Formula.subst, Formula.quantified, Formula.quantified, iha, ihb]
  | quant q x f ih => rw [Formula.subst, Formula.quantified, Formula.quantified, ih]

theorem quantifiers_subst (f : Formula) (σ : Substitution) :
    (f.subst σ).quantifiers = f.quantifiers := by
  rw [← length_quantified, ← length_quantified, quantified_subst]

end OccurrenceLemmas

end Clausal
