import Clausal.Proofs.NegationNormal
import Clausal.Proofs.Prenex

/-!
# Substitution below a prefix

Terms put in for variables leave the operators and the quantifiers of a formula as they are, and
bring in their own symbols only. Below a prefix that binds neither the variable nor the variables of
the term, a term may be put in for a variable before or after the prefix is put in front.

* `SubstitutionLemmas.holds_single_of_isQuantifierFree`: without quantifiers nothing is captured.
* `SubstitutionLemmas.quantify_single`, `SubstitutionLemmas.holds_quantify_single`: below a prefix.
* `SubstitutionLemmas.symbols_of_symbols_subst`: where the symbols come from.
* `SubstitutionLemmas.ofPairs_cons`: one more pair for a variable of its own.
-/

namespace Clausal.SubstitutionLemmas

open Formula

variable {f : Formula} {σ : Substitution} {x : String} {t : Term}

/-! ## Shape -/

theorem isQuantifierFree_subst (quantifierFree : f.IsQuantifierFree) : (f.subst σ).IsQuantifierFree := by
  induction f using Formula.rec_memberList with
  | atom p => rw [subst, IsQuantifierFree]; trivial
  | neg f ih =>
      rw [IsQuantifierFree] at quantifierFree
      rw [subst, IsQuantifierFree]
      exact ih quantifierFree
  | junction op a b rest ih =>
      rw [isQuantifierFree_junction] at quantifierFree
      rw [subst_junction, isQuantifierFree_junction, ← List.map_cons, ← List.map_cons,
        List.forall_mem_map]
      exact fun f member => ih f member (quantifierFree f member)
  | imp a b iha ihb | iff a b iha ihb =>
      rw [IsQuantifierFree] at quantifierFree
      rw [subst, IsQuantifierFree]
      exact ⟨iha quantifierFree.1, ihb quantifierFree.2⟩
  | quant q x f _ =>
      rw [IsQuantifierFree] at quantifierFree
      exact quantifierFree.elim

theorem isArrowFree_subst (arrowFree : f.IsArrowFree) : (f.subst σ).IsArrowFree := by
  induction f using Formula.rec_memberList generalizing σ with
  | atom p => rw [subst, IsArrowFree]; trivial
  | neg f ih | quant q x f ih =>
      rw [IsArrowFree] at arrowFree
      rw [subst, IsArrowFree]
      exact ih arrowFree
  | junction op a b rest ih =>
      rw [isArrowFree_junction] at arrowFree
      rw [subst_junction, isArrowFree_junction, ← List.map_cons, ← List.map_cons,
        List.forall_mem_map]
      exact fun f member => ih f member (arrowFree f member)
  | imp a b _ _ | iff a b _ _ =>
      rw [IsArrowFree] at arrowFree
      exact arrowFree.elim

/-- Without quantifiers nothing is captured. -/
theorem admits_of_isQuantifierFree (quantifierFree : f.IsQuantifierFree) : f.Admits σ := by
  induction f using Formula.rec_memberList with
  | atom p => rw [Admits]; trivial
  | neg f ih =>
      rw [IsQuantifierFree] at quantifierFree
      rw [Admits]
      exact ih quantifierFree
  | junction op a b rest ih =>
      rw [isQuantifierFree_junction] at quantifierFree
      rw [admits_junction]
      exact fun f member => ih f member (quantifierFree f member)
  | imp a b iha ihb | iff a b iha ihb =>
      rw [IsQuantifierFree] at quantifierFree
      rw [Admits]
      exact ⟨iha quantifierFree.1, ihb quantifierFree.2⟩
  | quant q x f _ =>
      rw [IsQuantifierFree] at quantifierFree
      exact quantifierFree.elim

/-! ## Symbols -/

theorem symbols_of_symbols_subst_term {u : Term} {g : String × Nat}
    (found : g ∈ (u.subst σ).symbols) : g ∈ u.symbols ∨ ∃ y, g ∈ (σ y).symbols := by
  induction u using Term.variableNames.induct with
  | case1 x => exact .inr ⟨x, by simpa [Term.subst] using found⟩
  | case2 h ts ih =>
      rw [Term.subst, Term.symbols, List.length_map, List.flatMap_map, List.mem_cons,
        List.mem_flatMap] at found
      rw [Term.symbols, List.mem_cons, List.mem_flatMap]
      rcases found with root | ⟨u, member, found⟩
      · exact .inl (.inl root)
      · rcases ih u member found with old | new
        · exact .inl (.inr ⟨u, member, old⟩)
        · exact .inr new

/-- A symbol of a substituted formula was there before or comes with a term. -/
theorem symbols_of_symbols_subst {g : String × Nat} (found : g ∈ (f.subst σ).symbols) :
    g ∈ f.symbols ∨ ∃ y, g ∈ (σ y).symbols := by
  induction f using Formula.rec_memberList generalizing σ with
  | atom p =>
      simp only [subst, Formula.symbols, atoms, List.flatMap_singleton, Atom.symbols, Atom.subst,
        List.flatMap_map, List.mem_flatMap] at found ⊢
      obtain ⟨u, member, found⟩ := found
      exact (symbols_of_symbols_subst_term found).imp (fun old => ⟨u, member, old⟩) id
  | neg f ih =>
      rw [subst, symbols_neg] at found
      rw [symbols_neg]
      exact ih found
  | junction op a b rest ih =>
      rw [subst_junction, symbols_junction, ← List.map_cons, ← List.map_cons, List.flatMap_map,
        List.mem_flatMap] at found
      obtain ⟨f, member, found⟩ := found
      rw [symbols_junction, List.mem_flatMap]
      exact (ih f member found).imp (fun old => ⟨f, member, old⟩) id
  | imp a b iha ihb | iff a b iha ihb =>
      simp only [subst, symbols_imp, symbols_iff, List.mem_append] at found ⊢
      rcases found with left | right
      · exact (iha left).imp .inl id
      · exact (ihb right).imp .inr id
  | quant q x f ih =>
      rw [subst, symbols_quant] at found
      rw [symbols_quant]
      rcases ih found with old | ⟨y, new⟩
      · exact .inl old
      · by_cases same : y = x
        · rw [same, Substitution.hide, assign_self, Term.symbols] at new
          exact absurd new List.not_mem_nil
        · rw [Substitution.hide, assign_of_ne same] at new
          exact .inr ⟨y, new⟩

/-! ## One variable -/

theorem single_self : Substitution.single x t x = t :=
  assign_self ..

theorem single_of_ne {y : String} (differ : y ≠ x) : Substitution.single x t y = .var y :=
  assign_of_ne differ

theorem symbols_of_symbols_single {g : String × Nat}
    (found : g ∈ (f.subst (Substitution.single x t)).symbols) : g ∈ f.symbols ∨ g ∈ t.symbols := by
  rcases symbols_of_symbols_subst found with old | ⟨y, new⟩
  · exact .inl old
  · by_cases same : y = x
    · rw [same, single_self] at new
      exact .inr new
    · rw [single_of_ne same, Term.symbols] at new
      exact absurd new List.not_mem_nil

/-- A variable of a formula with a term put in was there before, or comes with the term. -/
theorem mem_free_single (quantifierFree : f.IsQuantifierFree) {y : String}
    (found : y ∈ (f.subst (Substitution.single x t)).free []) :
    (y ∈ f.free [] ∧ y ≠ x) ∨ y ∈ t.variableNames := by
  rw [MeaningLemmas.free_subst (admits_of_isQuantifierFree quantifierFree), List.mem_flatMap] at found
  obtain ⟨z, old, inside⟩ := found
  by_cases same : z = x
  · rw [same, single_self] at inside
    exact .inr inside
  · rw [single_of_ne same, Term.variableNames, List.mem_singleton] at inside
    exact .inl ⟨inside ▸ old, inside ▸ same⟩

theorem value_single {D : Type u} {I : Interpretation D} {s : String → D} :
    (fun y => (Substitution.single x t y).value I s) = assign s x (t.value I s) := by
  funext y
  by_cases same : y = x
  · rw [same, single_self, assign_self]
  · rw [single_of_ne same, assign_of_ne same, Term.value]

/-! ## Several variables at once -/

/-- A list of pairs leaves a variable alone that it has no pair for. -/
theorem ofPairs_of_not_mem {pairs : List (String × Term)} (absent : x ∉ pairs.map (·.1)) :
    Substitution.ofPairs pairs x = .var x := by
  have unchanged (σ : Substitution) :
      pairs.foldl (fun σ pair => assign σ pair.1 pair.2) σ x = σ x := by
    induction pairs generalizing σ with
    | nil => rfl
    | cons pair pairs ih =>
        rw [List.map_cons, List.mem_cons, not_or] at absent
        rw [List.foldl_cons, ih absent.2, assign_of_ne absent.1]
  exact unchanged Substitution.identity

/-- Of pairs for different variables the first need not come first. -/
theorem ofPairs_cons {pair : String × Term} {pairs : List (String × Term)}
    (absent : pair.1 ∉ pairs.map (·.1)) :
    Substitution.ofPairs (pair :: pairs) = assign (Substitution.ofPairs pairs) pair.1 pair.2 := by
  unfold Substitution.ofPairs
  rw [List.foldl_cons]
  generalize Substitution.identity = σ
  induction pairs generalizing σ with
  | nil => rfl
  | cons other pairs ih =>
      rw [List.map_cons, List.mem_cons, not_or] at absent
      rw [List.foldl_cons, List.foldl_cons, ← ih absent.2, assign_comm (Ne.symm absent.1)]

/-! ## One substitution after another -/

/-- Of two substitutions in a term, the second acts on the terms that the first puts in. -/
theorem subst_subst_term {σ τ : Substitution} {u : Term} :
    (u.subst σ).subst τ = u.subst fun y => (σ y).subst τ := by
  induction u using Term.subst.induct with
  | case1 x => rw [Term.subst, Term.subst]
  | case2 g ts ih =>
      rw [Term.subst, Term.subst, Term.subst, List.map_map]
      exact congrArg _ (List.map_congr_left ih)

theorem subst_congr_atom {σ τ : Substitution} {p : Atom}
    (agree : ∀ y ∈ p.variableNames, σ y = τ y) : p.subst σ = p.subst τ := by
  have terms : p.terms.map (Term.subst σ) = p.terms.map (Term.subst τ) := by
    refine List.map_congr_left fun u member => TermLemmas.subst_congr fun y inside => agree y ?_
    exact List.mem_flatMap.mpr ⟨u, member, inside⟩
  rw [Atom.subst, Atom.subst, terms]

theorem subst_subst_atom {σ τ : Substitution} {p : Atom} :
    (p.subst σ).subst τ = p.subst fun y => (σ y).subst τ := by
  have terms : p.terms.map (Term.subst τ ∘ Term.subst σ) =
      p.terms.map (Term.subst fun y => (σ y).subst τ) :=
    List.map_congr_left fun _ _ => subst_subst_term
  rw [Atom.subst, Atom.subst, Atom.subst, List.map_map, terms]

theorem hide_single {y : String} (differ : y ≠ x) :
    (Substitution.single x t).hide y = Substitution.single x t := by
  funext z
  by_cases same : z = y
  · rw [same, Substitution.hide, assign_self, single_of_ne differ]
  · rw [Substitution.hide, assign_of_ne same]

/-- Substitutions that agree on the free variables have the same result. -/
theorem subst_congr {σ τ : Substitution} (agree : ∀ y ∈ f.free [], σ y = τ y) :
    f.subst σ = f.subst τ := by
  induction f using Formula.rec_memberList generalizing σ τ with
  | atom p => rw [subst, subst, subst_congr_atom fun y inside => agree y (by simpa [free] using inside)]
  | neg f ih =>
      rw [free] at agree
      rw [subst, subst, ih agree]
  | junction op a b rest ih =>
      rw [subst_junction, subst_junction]
      exact junction_congr fun f member => ih f member fun y found =>
        agree y (mem_free_junction member found)
  | imp a b iha ihb | iff a b iha ihb =>
      rw [free, List.forall_mem_append] at agree
      rw [subst, subst, iha agree.1, ihb agree.2]
  | quant q x f ih =>
      rw [subst, subst, ih fun y found => ?_]
      by_cases same : y = x
      · rw [same, Substitution.hide, Substitution.hide, assign_self, assign_self]
      · rw [Substitution.hide, Substitution.hide, assign_of_ne same, assign_of_ne same]
        exact agree y (MeaningLemmas.mem_free_quant.mpr ⟨found, same⟩)

/-- Of two substitutions without a quantifier between them, the second acts on the terms that the
first puts in. -/
theorem subst_subst {σ τ : Substitution} (quantifierFree : f.IsQuantifierFree) :
    (f.subst σ).subst τ = f.subst fun y => (σ y).subst τ := by
  induction f using Formula.rec_memberList with
  | atom p => rw [subst, subst, subst, subst_subst_atom]
  | neg f ih =>
      rw [IsQuantifierFree] at quantifierFree
      rw [subst, subst, subst, ih quantifierFree]
  | junction op a b rest ih =>
      rw [isQuantifierFree_junction] at quantifierFree
      rw [subst_junction, subst_junction, subst_junction, List.map_map]
      exact junction_congr fun f member => ih f member (quantifierFree f member)
  | imp a b iha ihb | iff a b iha ihb =>
      rw [IsQuantifierFree] at quantifierFree
      rw [subst, subst, subst, iha quantifierFree.1, ihb quantifierFree.2]
  | quant q x f _ =>
      rw [IsQuantifierFree] at quantifierFree
      exact quantifierFree.elim

/-- Nothing is put in for a variable that does not occur. -/
theorem subst_single_of_not_mem {u : Term} (absent : x ∉ u.variableNames) :
    u.subst (Substitution.single x t) = u := by
  have unchanged : u.subst (Substitution.single x t) = u.subst Substitution.identity :=
    TermLemmas.subst_congr fun y inside => single_of_ne fun same => absent (same ▸ inside)
  rw [unchanged, TermLemmas.subst_identity]

/-- The identity substitution changes no formula. -/
theorem subst_identity (f : Formula) : f.subst Substitution.identity = f := by
  induction f using Formula.rec_memberList with
  | atom p =>
      rw [subst, Atom.subst, TermLemmas.map_subst_identity fun u _ => TermLemmas.subst_identity u]
  | neg f ih => rw [subst, ih]
  | junction op a b rest ih =>
      rw [List.forall_mem_cons, List.forall_mem_cons] at ih
      rw [subst_junction, ih.1, ih.2.1, List.map_congr_left ih.2.2, List.map_id']
  | imp a b iha ihb | iff a b iha ihb => rw [subst, iha, ihb]
  | quant q x f ih =>
      have hidden : Substitution.identity.hide x = Substitution.identity := assign_eq_self rfl
      rw [subst, hidden, ih]

/-- A term that is put in for a variable which a substitution leaves alone might as well have been put
in by this substitution, if the other terms do not contain the variable. -/
theorem subst_hide_single (absent : ∀ y ∈ f.free [], y ≠ x → x ∉ (σ y).variableNames) :
    (f.subst (σ.hide x)).subst (Substitution.single x t) = f.subst (assign σ x t) := by
  induction f using Formula.rec_memberList generalizing σ with
  | atom p =>
      rw [subst, subst, subst, subst_subst_atom]
      refine congrArg _ (subst_congr_atom fun y inside => ?_)
      by_cases same : y = x
      · rw [same, Substitution.hide, assign_self, assign_self, Term.subst, single_self]
      · rw [Substitution.hide, assign_of_ne same, assign_of_ne same]
        exact subst_single_of_not_mem (absent y (by simpa [free] using inside) same)
  | neg f ih =>
      rw [free] at absent
      rw [subst, subst, subst, ih absent]
  | junction op a b rest ih =>
      rw [subst_junction, subst_junction, subst_junction, List.map_map]
      exact junction_congr fun f member => ih f member fun y found =>
        absent y (mem_free_junction member found)
  | imp a b iha ihb | iff a b iha ihb =>
      rw [free, List.forall_mem_append] at absent
      rw [subst, subst, subst, iha absent.1, ihb absent.2]
  | quant q y f ih =>
      rw [subst, subst, subst]
      by_cases same : y = x
      · -- Below a quantifier for `x` nothing is put in for it.
        subst same
        have hidden : (Substitution.single y t).hide y = Substitution.identity := by
          rw [Substitution.single, Substitution.hide, assign_assign]
          exact assign_eq_self rfl
        have twice : (σ.hide y).hide y = Substitution.hide (assign σ y t) y := by
          rw [Substitution.hide, Substitution.hide, Substitution.hide, assign_assign, assign_assign]
        rw [hidden, subst_identity, twice]
      · have outer : (σ.hide x).hide y = (σ.hide y).hide x := assign_comm same
        have inner : Substitution.hide (assign σ x t) y = assign (σ.hide y) x t := assign_comm same
        rw [hide_single same, outer, inner, ih fun z found differ => ?_]
        by_cases again : z = y
        · rw [again, Substitution.hide, assign_self, Term.variableNames, List.mem_singleton]
          exact Ne.symm same
        · rw [Substitution.hide, assign_of_ne again]
          exact absent z (MeaningLemmas.mem_free_quant.mpr ⟨found, again⟩) differ

/-! ## Below a prefix -/

section
variable {bindings : Prefix}

/-- A term may be put in below a prefix that does not bind the variable. -/
theorem quantify_single (unbound : x ∉ bindings.names) :
    (bindings.quantify f).subst (Substitution.single x t) =
      bindings.quantify (f.subst (Substitution.single x t)) := by
  induction bindings with
  | nil => rfl
  | cons b inner ih =>
      rw [Prefix.names_cons, List.mem_cons, not_or] at unbound
      rw [Prefix.quantify_cons, subst, hide_single (Ne.symm unbound.1)]
      exact congrArg _ (ih unbound.2)

theorem admits_quantify_single (quantifierFree : f.IsQuantifierFree) (unbound : x ∉ bindings.names)
    (uncaptured : ∀ y ∈ t.variableNames, y ∉ bindings.names) :
    (bindings.quantify f).Admits (Substitution.single x t) := by
  induction bindings with
  | nil => exact admits_of_isQuantifierFree quantifierFree
  | cons b inner ih =>
      simp only [Prefix.names_cons, List.mem_cons, not_or] at unbound uncaptured
      rw [Prefix.quantify_cons, Admits, hide_single (Ne.symm unbound.1)]
      refine ⟨ih unbound.2 fun y inside => (uncaptured y inside).2, fun y found captured => ?_⟩
      by_cases same : y = x
      · rw [same, single_self] at captured
        exact (uncaptured _ captured).1 rfl
      · rw [single_of_ne same, Term.variableNames, List.mem_singleton] at captured
        exact (MeaningLemmas.mem_free.mp found).2 (captured ▸ List.mem_singleton_self _)

/-- Putting in a term gives its value to the variable, also below a prefix. -/
theorem holds_quantify_single (quantifierFree : f.IsQuantifierFree) (unbound : x ∉ bindings.names)
    (uncaptured : ∀ y ∈ t.variableNames, y ∉ bindings.names) {D : Type u} {I : Interpretation D}
    {s : String → D} :
    (bindings.quantify (f.subst (Substitution.single x t))).Holds I s ↔
      (bindings.quantify f).Holds I (assign s x (t.value I s)) := by
  rw [← quantify_single unbound,
    MeaningLemmas.holds_subst (admits_quantify_single quantifierFree unbound uncaptured), value_single]

end

end Clausal.SubstitutionLemmas
