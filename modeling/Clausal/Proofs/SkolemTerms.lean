import Clausal.Proofs.Skolem

/-!
# The terms of a Skolem form

The terms of a Skolem form are read off the prefix: the existential variables in their order, each with
a symbol of its own and with the universal variables before it as arguments. They are put in one after
the other. A term that was put in contains universal variables only, and these differ from the variables
that are still to be replaced, so that the terms might as well be put in all at once.

* `Prefix.existentials`, `constantNames`, `functionNames`, `numberedNames`: what the terms are for, and
  what their symbols are called.
* `SkolemForm.IsMadeFrom` says how a Skolem form is made from a prefix and a matrix.
* `SkolemTermLemmas.names_skolemTerms`: the symbols, numbered from the two counters.
* `SkolemTermLemmas.substEach_eq_subst`: putting in terms one after the other and all at once.
* `skolemize_isMadeFrom`: how each Skolem form is made.
-/

namespace Clausal

/-! ## Definitions -/

/-- The existential variables of a prefix, outermost first. -/
def Prefix.existentials (bindings : Prefix) : List String :=
  (bindings.filter (·.quantifier = .ex)).map (·.name)

@[simp] theorem Prefix.existentials_ex {x : String} {inner : Prefix} :
    Prefix.existentials (⟨.ex, x⟩ :: inner) = x :: inner.existentials := rfl

/-- The names of the constants among the terms for variables. -/
def constantNames (terms : List (String × Term)) : List String :=
  (terms.filter (·.2.isConstant)).map (·.2.name)

/-- The names of the functions, which have arguments, among the terms for variables. -/
def functionNames (terms : List (String × Term)) : List String :=
  (terms.filter (!·.2.isConstant)).map (·.2.name)

/-- `count` names that are made from a stem and the numbers from `start` on. -/
def numberedNames (stem : String) (start count : Nat) : List String :=
  (List.range' start count).map (stem ++ toString ·)

/-- How a Skolem form is made from a prefix and the matrix that the prefix stands in front of. -/
structure SkolemForm.IsMadeFrom (k : SkolemForm) (stems : SkolemStems) (bindings : Prefix)
    (m : Formula) : Prop where
  /-- There is a term for each existential variable, in the order of the prefix. -/
  existentials : k.terms.map (·.1) = bindings.existentials
  /-- A term applies its symbol to the universal variables before the existential one. -/
  arguments : ∀ (outer : Prefix) (x : String) (inner : Prefix), bindings = outer ++ ⟨.ex, x⟩ :: inner →
    ∃ g, (x, .app g (outer.universals.map .var)) ∈ k.terms
  constants : ∃ n, constantNames k.terms = numberedNames stems.constant 1 n
  functions : ∃ n, functionNames k.terms = numberedNames stems.function 1 n
  /-- All terms are put in at once. -/
  matrix : k.matrix = m.subst (Substitution.ofPairs k.terms)
  replaced : ∀ x ∈ bindings.existentials, x ∉ k.matrix.variableNames
  remaining : ∀ x ∈ k.matrix.variableNames,
    x ∈ bindings.universals ∨ x ∈ (bindings.quantify m).free []

namespace SkolemTermLemmas

open Formula

/-! ## The terms along the prefix -/

section
variable {stems : SkolemStems} {universals : List String} {constants functions : Nat}
  {bindings : Prefix}

theorem variables_skolemTerms :
    (skolemTerms stems universals constants functions bindings).map (·.1) = bindings.existentials := by
  induction bindings generalizing universals constants functions with
  | nil => rfl
  | cons b inner ih =>
      obtain ⟨q, x⟩ := b
      cases q with
      | all => exact ih
      | ex =>
          obtain ⟨g, constants', functions', terms, _⟩ :=
            SkolemLemmas.skolemTerms_ex stems universals constants functions x inner
          rw [terms, List.map_cons, ih, Prefix.existentials_ex]

/-- The arguments of a Skolem term are the universal variables before its variable. -/
theorem exists_mem_skolemTerms (universals : List String) (constants functions : Nat)
    (outer : Prefix) (x : String) (inner : Prefix) :
    ∃ g, (x, Term.app g ((universals ++ outer.universals).map .var)) ∈
      skolemTerms stems universals constants functions (outer ++ ⟨.ex, x⟩ :: inner) := by
  induction outer generalizing universals constants functions with
  | nil =>
      obtain ⟨g, constants', functions', terms, _⟩ :=
        SkolemLemmas.skolemTerms_ex stems universals constants functions x inner
      rw [List.nil_append, terms, Prefix.universals, List.filter_nil, List.map_nil, List.append_nil]
      exact ⟨g, List.mem_cons_self⟩
  | cons b outer ih =>
      obtain ⟨q, y⟩ := b
      cases q with
      | all =>
          obtain ⟨g, found⟩ := ih (universals ++ [y]) constants functions
          rw [List.append_assoc, List.singleton_append] at found
          exact ⟨g, found⟩
      | ex =>
          obtain ⟨h, constants', functions', terms, _⟩ := SkolemLemmas.skolemTerms_ex stems universals
            constants functions y (outer ++ ⟨.ex, x⟩ :: inner)
          obtain ⟨g, found⟩ := ih universals constants' functions'
          rw [List.cons_append, terms]
          exact ⟨g, List.mem_cons_of_mem _ found⟩

/-- A Skolem term contains universal variables only. -/
theorem mem_universals_of_skolemTerms {pair : String × Term} {y : String}
    (found : pair ∈ skolemTerms stems universals constants functions bindings)
    (inside : y ∈ pair.2.variableNames) : y ∈ universals ∨ y ∈ bindings.universals := by
  induction bindings generalizing universals constants functions with
  | nil => exact absurd found List.not_mem_nil
  | cons b inner ih =>
      obtain ⟨q, x⟩ := b
      cases q with
      | all =>
          rw [Prefix.universals_all, List.mem_cons, ← or_assoc, ← List.mem_singleton, ← List.mem_append]
          exact ih found
      | ex =>
          obtain ⟨g, constants', functions', terms, _⟩ :=
            SkolemLemmas.skolemTerms_ex stems universals constants functions x inner
          rw [terms, List.mem_cons] at found
          rcases found with rfl | later
          · rw [SkolemLemmas.variableNames_skolem_term] at inside
            exact .inl inside
          · exact ih later

theorem numberedNames_succ (stem : String) (start count : Nat) :
    numberedNames stem start (count + 1) =
      (stem ++ toString start) :: numberedNames stem (start + 1) count := rfl

/-- Constants and functions are numbered each on their own, from the two counters on. -/
theorem names_skolemTerms (stems : SkolemStems) (universals : List String)
    (constants functions : Nat) (bindings : Prefix) :
    (∃ n, constantNames (skolemTerms stems universals constants functions bindings) =
      numberedNames stems.constant constants n) ∧
    ∃ n, functionNames (skolemTerms stems universals constants functions bindings) =
      numberedNames stems.function functions n := by
  induction universals, constants, functions, bindings using skolemTerms.induct with
  | case1 => exact ⟨⟨0, rfl⟩, 0, rfl⟩
  | case2 universals constants functions x inner ih =>
      rw [skolemTerms]
      exact ih
  | case3 universals constants functions x inner empty ih =>
      obtain ⟨⟨n, named⟩, function⟩ := ih
      rw [skolemTerms, if_pos empty]
      refine ⟨⟨n + 1, ?_⟩, function⟩
      rw [numberedNames_succ, ← named]
      rfl
  | case4 universals constants functions x inner nonempty ih =>
      obtain ⟨constant, n, named⟩ := ih
      obtain ⟨y, universals, rfl⟩ := List.exists_cons_of_ne_nil (mt List.isEmpty_iff.mpr nonempty)
      rw [skolemTerms, if_neg nonempty]
      refine ⟨constant, n + 1, ?_⟩
      rw [numberedNames_succ, ← named]
      rfl

end

/-! ## All terms at once -/

/-- Terms that contain none of the variables that are replaced may be put in one after the other or all
at once. The induction is on the terms: the first to be put in is left alone by the others. -/
theorem substEach_eq_subst {m : Formula} {terms : List (String × Term)}
    (quantifierFree : m.IsQuantifierFree) (distinct : (terms.map (·.1)).Nodup)
    (apart : ∀ pair ∈ terms, ∀ y ∈ pair.2.variableNames, y ∉ terms.map (·.1)) :
    m.substEach terms = m.subst (Substitution.ofPairs terms) := by
  induction terms generalizing m with
  | nil => exact (SubstitutionLemmas.subst_identity m).symm
  | cons pair terms ih =>
      rw [List.map_cons, List.nodup_cons] at distinct
      rw [List.forall_mem_cons] at apart
      simp only [List.map_cons, List.mem_cons, not_or] at apart
      obtain ⟨own, others⟩ := apart
      have kept : pair.2.subst (Substitution.ofPairs terms) = pair.2 :=
        (TermLemmas.subst_congr fun y inside =>
          SubstitutionLemmas.ofPairs_of_not_mem (own y inside).2).trans (TermLemmas.subst_identity _)
      calc m.substEach (pair :: terms)
          = (m.subst (Substitution.single pair.1 pair.2)).substEach terms := rfl
        _ = (m.subst (Substitution.single pair.1 pair.2)).subst (Substitution.ofPairs terms) :=
            ih (SubstitutionLemmas.isQuantifierFree_subst quantifierFree) distinct.2
              fun other member y inside => (others other member y inside).2
        _ = m.subst fun y =>
              (Substitution.single pair.1 pair.2 y).subst (Substitution.ofPairs terms) :=
            SubstitutionLemmas.subst_subst quantifierFree
        _ = m.subst (Substitution.ofPairs (pair :: terms)) := by
            refine SubstitutionLemmas.subst_congr fun y _ => ?_
            rw [SubstitutionLemmas.ofPairs_cons distinct.1]
            by_cases same : y = pair.1
            · rw [same, SubstitutionLemmas.single_self, kept, assign_self]
            · rw [SubstitutionLemmas.single_of_ne same, Term.subst, assign_of_ne same]

theorem mem_existentials {bindings : Prefix} {x : String} :
    x ∈ bindings.existentials ↔ ⟨.ex, x⟩ ∈ bindings := by
  rw [Prefix.existentials, List.mem_map]
  constructor
  · rintro ⟨⟨q, x⟩, found, rfl⟩
    obtain ⟨member, quantifier⟩ := List.mem_filter.mp found
    obtain rfl : q = .ex := of_decide_eq_true quantifier
    exact member
  · exact fun member => ⟨⟨.ex, x⟩, List.mem_filter.mpr ⟨member, rfl⟩, rfl⟩

/-- The Skolem terms for a prefix with different variables may be put in all at once: they contain
universal variables only. -/
theorem substEach_skolemTerms {stems : SkolemStems} {bindings : Prefix} {m : Formula}
    (quantifierFree : m.IsQuantifierFree) (distinct : bindings.names.Nodup) :
    m.substEach (skolemTerms stems [] 1 1 bindings) =
      m.subst (Substitution.ofPairs (skolemTerms stems [] 1 1 bindings)) := by
  refine substEach_eq_subst quantifierFree ?_ fun pair found y inside => ?_
  · rw [variables_skolemTerms]
    exact (List.filter_sublist.map _).nodup distinct
  · rw [variables_skolemTerms]
    have universal := (mem_universals_of_skolemTerms found inside).resolve_left List.not_mem_nil
    exact fun existential =>
      SkolemLemmas.not_mem_universals distinct (mem_existentials.mp existential) rfl universal

end SkolemTermLemmas

/-! ## How a Skolem form is made -/

open SkolemTermLemmas in
/-- Below a prefix with different variables, a matrix without quantifiers, implications and
equivalences has a Skolem form. Its terms are those that the prefix calls for, under numbered names,
and they are put into the matrix all at once. -/
theorem skolemize_isMadeFrom (stems : SkolemStems) {bindings : Prefix} {m : Formula}
    (distinct : bindings.names.Nodup) (quantifierFree : m.IsQuantifierFree) (arrowFree : m.IsArrowFree) :
    ∃ k, skolemize stems bindings m = .ok k ∧ k.IsMadeFrom stems bindings m := by
  obtain ⟨constants, functions⟩ := names_skolemTerms stems [] 1 1 bindings
  refine ⟨_, SkolemLemmas.skolemize_eq quantifierFree arrowFree, ?_⟩
  exact {
    existentials := variables_skolemTerms
    arguments := by
      rintro outer x inner rfl
      exact exists_mem_skolemTerms [] 1 1 outer x inner
    constants := constants
    functions := functions
    matrix := substEach_skolemTerms quantifierFree distinct
    replaced := fun x existential => SkolemLemmas.not_mem_variableNames_substEach quantifierFree distinct
      (mem_existentials.mp existential) rfl
    remaining := fun x => SkolemLemmas.mem_variableNames_substEach quantifierFree }

/-- A constant and two functions are made below `∃u ∀x ∃y ∀z ∃w`; the functions get one and two
arguments, and the free variable of the matrix stays. -/
theorem skolemize_isMadeFrom_alternating :
    ∃ k, skolemize {} [⟨.ex, "u"⟩, ⟨.all, "x"⟩, ⟨.ex, "y"⟩, ⟨.all, "z"⟩, ⟨.ex, "w"⟩]
        (.atom ⟨"R", [.app "g" [.var "u", .var "w"], .var "y", .var "v"]⟩) = .ok k ∧
      k.terms = [("u", .app "c1" []), ("y", .app "f1" [.var "x"]),
        ("w", .app "f2" [.var "x", .var "z"])] ∧
      k.IsMadeFrom {} [⟨.ex, "u"⟩, ⟨.all, "x"⟩, ⟨.ex, "y"⟩, ⟨.all, "z"⟩, ⟨.ex, "w"⟩]
        (.atom ⟨"R", [.app "g" [.var "u", .var "w"], .var "y", .var "v"]⟩) := by
  let bindings : Prefix := [⟨.ex, "u"⟩, ⟨.all, "x"⟩, ⟨.ex, "y"⟩, ⟨.all, "z"⟩, ⟨.ex, "w"⟩]
  let matrix : Formula := .atom ⟨"R", [.app "g" [.var "u", .var "w"], .var "y", .var "v"]⟩
  have distinct : bindings.names.Nodup := by decide
  have quantifierFree : matrix.IsQuantifierFree := by simp [matrix, Formula.IsQuantifierFree]
  have arrowFree : matrix.IsArrowFree := by simp [matrix, Formula.IsArrowFree]
  obtain ⟨k, made, terms⟩ := skolemize_isMadeFrom {} distinct quantifierFree arrowFree
  refine ⟨k, made, ?_, terms⟩
  rw [SkolemLemmas.skolemize_eq quantifierFree arrowFree] at made
  cases made
  decide

end Clausal
