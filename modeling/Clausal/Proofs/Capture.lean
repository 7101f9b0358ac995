import Clausal.Proofs.Substitution
import Clausal.Value.Checked

/-!
# Substitution without capture

Substitution renames no quantifier, so that a variable of a term that is put in is captured if the term
comes into the scope of a quantifier for it. Where this does not happen, substituting terms is giving
their values to the variables.

* `Formula.freeOccurrences` lists the free occurrences of variables, each with the quantifiers in whose
  scope it stands.
* `Formula.Uncaptured` says of a substitution that no quantifier captures what it puts in.
* `CaptureLemmas.admits_iff_uncaptured`: this is what allows a substitution below each quantifier.
* `subst_assigns_values`: the meaning, the free variables and the quantifiers after a substitution.
-/

namespace Clausal

/-- An occurrence of a variable, with the variables of the quantifiers in whose scope it stands,
outermost first. -/
structure Occurrence where
  name : String
  scope : List String
  deriving Repr, DecidableEq

/-- The free occurrences of variables, from left to right. -/
def Formula.freeOccurrences : Formula → List Occurrence
  | .atom p => p.variableNames.map fun y => ⟨y, []⟩
  | .neg f => f.freeOccurrences
  | .junction _ a b rest =>
      a.freeOccurrences ++ b.freeOccurrences ++ rest.flatMap freeOccurrences
  | .imp a b => a.freeOccurrences ++ b.freeOccurrences
  | .iff a b => a.freeOccurrences ++ b.freeOccurrences
  | .quant _ x f =>
      (f.freeOccurrences.filter (·.name ≠ x)).map fun o => { o with scope := x :: o.scope }

/-- No free occurrence of a variable that `σ` replaces stands in the scope of a quantifier whose variable
occurs in the term for it. -/
def Formula.Uncaptured (σ : Substitution) (f : Formula) : Prop :=
  ∀ o ∈ f.freeOccurrences, σ o.name ≠ .var o.name → ∀ x ∈ o.scope, x ∉ (σ o.name).variableNames

namespace CaptureLemmas

open Formula

variable {f : Formula} {σ : Substitution}

theorem freeOccurrences_junction {op : Junctor} {a b : Formula} {rest : List Formula} :
    (junction op a b rest).freeOccurrences = (a :: b :: rest).flatMap freeOccurrences := by
  simp [freeOccurrences]

/-- The variables of the free occurrences are the free variables. -/
theorem map_name_freeOccurrences (f : Formula) :
    f.freeOccurrences.map Occurrence.name = f.free [] := by
  induction f using Formula.rec_memberList with
  | atom p => simp [freeOccurrences, free, Function.comp_def]
  | neg f ih => rw [freeOccurrences, free, ih]
  | junction op a b rest ih =>
      rw [freeOccurrences_junction, free_junction, List.map_flatMap]
      exact List.flatMap_congr ih
  | imp a b iha ihb | iff a b iha ihb => rw [freeOccurrences, free, List.map_append, iha, ihb]
  | quant q x f ih =>
      rw [freeOccurrences, free, MeaningLemmas.free_eq_filter, ← ih, List.map_map, List.filter_map]
      simp [Function.comp_def]

/-- A free occurrence below a quantifier for another variable is one outside of it. -/
theorem mem_freeOccurrences_quant {q : Quantifier} {x : String} {o : Occurrence}
    (found : o ∈ f.freeOccurrences) (differ : o.name ≠ x) :
    { o with scope := x :: o.scope } ∈ (quant q x f).freeOccurrences := by
  rw [freeOccurrences]
  exact List.mem_map_of_mem (List.mem_filter.mpr ⟨found, decide_eq_true differ⟩)

/-- Below a quantifier its variable is left alone, and no term for another variable may contain it. -/
theorem uncaptured_quant {q : Quantifier} {x : String} :
    (quant q x f).Uncaptured σ ↔
      f.Uncaptured (σ.hide x) ∧ ∀ y ∈ f.free [x], x ∉ (σ y).variableNames := by
  constructor
  · intro uncaptured
    have inner : ∀ o ∈ f.freeOccurrences, o.name ≠ x → σ o.name ≠ .var o.name →
        ∀ z ∈ x :: o.scope, z ∉ (σ o.name).variableNames :=
      fun o found differ => uncaptured _ (mem_freeOccurrences_quant found differ)
    refine ⟨fun o found replaced z inside => ?below, fun y outside captured => ?here⟩
    case below =>
      by_cases same : o.name = x
      · rw [same, Substitution.hide, assign_self] at replaced
        exact absurd rfl replaced
      · rw [Substitution.hide, assign_of_ne same] at replaced ⊢
        exact inner o found same replaced z (List.mem_cons_of_mem _ inside)
    case here =>
      obtain ⟨outside, differ⟩ := MeaningLemmas.mem_free.mp outside
      rw [List.mem_singleton] at differ
      rw [← map_name_freeOccurrences] at outside
      obtain ⟨o, found, rfl⟩ := List.mem_map.mp outside
      refine inner o found differ (fun alone => ?_) x List.mem_cons_self captured
      -- A variable that is left alone stands for itself, and the quantifier binds another one.
      rw [alone, Term.variableNames, List.mem_singleton] at captured
      exact differ captured.symm
  · rintro ⟨below, here⟩ _ outer replaced z inside
    rw [freeOccurrences] at outer
    obtain ⟨o, kept, rfl⟩ := List.mem_map.mp outer
    obtain ⟨found, differ⟩ := List.mem_filter.mp kept
    rw [decide_eq_true_iff] at differ
    have hidden : σ.hide x o.name = σ o.name := assign_of_ne differ
    rcases List.mem_cons.mp inside with rfl | inside
    · refine here o.name (MeaningLemmas.mem_free.mpr ⟨?_, ?_⟩)
      · rw [← map_name_freeOccurrences]
        exact List.mem_map_of_mem found
      · rwa [List.mem_singleton]
    · have uncaptured := below o found
      rw [hidden] at uncaptured
      exact uncaptured replaced z inside

/-- A substitution that no quantifier captures is one that may be carried below each quantifier. -/
theorem admits_iff_uncaptured : f.Admits σ ↔ f.Uncaptured σ := by
  induction f using Formula.rec_memberList generalizing σ with
  | atom p => simp [Admits, Uncaptured, freeOccurrences]
  | neg f ih => rw [Admits, ih, Uncaptured, Uncaptured, freeOccurrences]
  | junction op a b rest ih =>
      simp only [admits_junction, Uncaptured, freeOccurrences_junction, List.forall_mem_flatMap]
      exact forall₂_congr fun f member => ih f member
  | imp a b iha ihb | iff a b iha ihb =>
      rw [Admits, iha, ihb, Uncaptured, Uncaptured, Uncaptured, freeOccurrences, List.forall_mem_append]
  | quant q x f ih => rw [Admits, ih, uncaptured_quant]

end CaptureLemmas

/-! ## Main result -/

open CaptureLemmas in
/-- The substitution lemma. If no quantifier captures what a substitution puts in, a formula is true after
the substitution under `s` if it is true under the values that the terms have under `s`, variables that are
left alone keeping the value that `s` gives them. The variables of the terms stand where the free variables
stood, and the quantifiers stay. A substitution that is given by pairs of unchecked values, each a variable
and a term, is never refused and has this result. -/
theorem subst_assigns_values.{u} {f : Formula} {σ : Substitution} (uncaptured : f.Uncaptured σ) :
    (∀ ⦃D : Type u⦄ (I : Interpretation D) (s : String → D),
      (f.subst σ).Holds I s ↔ f.Holds I fun x => (σ x).value I s) ∧
    (f.subst σ).free [] = (f.free []).flatMap (fun x => (σ x).variableNames) ∧
    (f.subst σ).quantified = f.quantified ∧
    ∀ pairs, σ = Substitution.ofPairs pairs →
      Value.substitute (ValueSubstitution.ofPairs pairs) (.formula f) =
        .ok (.formula (f.subst σ)) := by
  have admits : f.Admits σ := admits_iff_uncaptured.mpr uncaptured
  refine ⟨fun D I s => MeaningLemmas.holds_subst admits, MeaningLemmas.free_subst admits,
    OccurrenceLemmas.quantified_subst f σ, ?_⟩
  rintro pairs rfl
  exact ValueLemmas.substitute_ofPairs pairs f

/-- The variables `x` and `y` are replaced by terms with one another, `y` also below a quantifier for `z`.
Below a quantifier for `y` it is left alone. -/
theorem subst_assigns_values_exchanged :
    let f : Formula := .conj (.atom ⟨"P", [.var "x", .var "y"]⟩)
      (.conj (.quant .all "z" (.atom ⟨"R", [.var "y", .var "z"]⟩))
        (.quant .ex "y" (.atom ⟨"R", [.var "y", .var "z"]⟩)))
    let σ := Substitution.ofPairs [("x", .var "y"), ("y", .app "g" [.var "x"])]
    f.Uncaptured σ ∧ (f.subst σ).free [] = ["y", "x", "x", "z"] ∧
      ∀ (I : Interpretation Nat) (s : String → Nat), (f.subst σ).Holds I s ↔
        f.Holds I fun x => (σ x).value I s := by
  intro f σ
  have uncaptured : f.Uncaptured σ := by
    simp [f, σ, Formula.Uncaptured, Formula.freeOccurrences, Atom.variableNames, Term.variableNames,
      Substitution.ofPairs, Substitution.identity, assign]
  obtain ⟨holds, free, -, -⟩ := subst_assigns_values uncaptured
  refine ⟨uncaptured, ?_, fun I s => holds I s⟩
  rw [free]
  simp [f, σ, Formula.free, Atom.variableNames, Term.variableNames, Substitution.ofPairs,
    Substitution.identity, assign]

end Clausal
