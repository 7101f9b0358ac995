import Clausal.Proofs.Members

/-!
# What the meaning depends on

The truth of a formula depends on the values of its free variables and on the meaning of the symbols
that occur in it, and on nothing else. Substituting terms for variables changes the assignment,
unless a quantifier captures a variable of a substituted term.

* `Formula.SameMeaning` is equality of truth in every interpretation and under every assignment.
* `Term.symbols` and `Formula.symbols` list function symbols, each with its number of arguments.
* `Formula.Admits` says that a substitution puts no variable where a quantifier captures it.
* `Formula.IsListing`: a list of atoms or variables that is read off a formula from left to right, and
  that no exchange of operators changes.
* `MeaningLemmas.holds_congr`, `MeaningLemmas.holds_congr_symbols`: what truth depends on.
* `MeaningLemmas.holds_subst`: the truth of a formula after a substitution.
-/

namespace Clausal

/-! ## Definitions -/

/-- Two formulas are true in the same interpretations under the same assignments. -/
def Formula.SameMeaning.{u} (f g : Formula) : Prop :=
  ∀ ⦃D : Type u⦄ (I : Interpretation D) (s : String → D), f.Holds I s ↔ g.Holds I s

/-- The function symbols of a term, each with its number of arguments. -/
def Term.symbols : Term → List (String × Nat)
  | .var _ => []
  | .app f ts => (f, ts.length) :: ts.flatMap symbols

/-- The function symbols of the terms of an atom. -/
def Atom.symbols (p : Atom) : List (String × Nat) :=
  p.terms.flatMap Term.symbols

/-- The function symbols of a formula. -/
def Formula.symbols (f : Formula) : List (String × Nat) :=
  f.atoms.flatMap Atom.symbols

/-- `J` gives the same meaning as `I` to everything but the listed function symbols. A symbol is a
name with a number of arguments. -/
def Interpretation.AgreesOutside {D : Type u} (J I : Interpretation D)
    (symbols : List (String × Nat)) : Prop :=
  J.predicate = I.predicate ∧
    ∀ f args, (f, args.length) ∉ symbols → J.function f args = I.function f args

/-- No variable of a term `σ y` comes below a quantifier for it where `σ` is put for a free
occurrence of `y`. -/
def Formula.Admits (σ : Substitution) : Formula → Prop
  | .atom _ => True
  | .neg f => f.Admits σ
  | .junction _ a b rest => a.Admits σ ∧ b.Admits σ ∧ ∀ f ∈ rest, f.Admits σ
  | .imp a b => a.Admits σ ∧ b.Admits σ
  | .iff a b => a.Admits σ ∧ b.Admits σ
  | .quant _ x f => f.Admits (σ.hide x) ∧ ∀ y ∈ f.free [x], x ∉ (σ y).variableNames

/-- `list` goes through a formula from left to right and looks at no operator. Below the quantifiers for
the variables `outer` it lists what it finds at atoms, and `binder x` where a quantifier binds `x`. -/
structure Formula.IsListing {α : Type u} (binder : String → List α)
    (list : List String → Formula → List α) : Prop where
  neg : ∀ outer f, list outer (.neg f) = list outer f
  junction : ∀ outer op a b rest,
    list outer (.junction op a b rest) = (a :: b :: rest).flatMap (list outer)
  imp : ∀ outer a b, list outer (.imp a b) = list outer a ++ list outer b
  iff : ∀ outer a b, list outer (.iff a b) = list outer a ++ list outer b
  quant : ∀ outer q x f, list outer (.quant q x f) = binder x ++ list (x :: outer) f

namespace Formula

@[simp] theorem admits_junction {op : Junctor} {a b : Formula} {rest : List Formula}
    {σ : Substitution} :
    (junction op a b rest).Admits σ ↔ ∀ f ∈ a :: b :: rest, f.Admits σ := by
  simp [Admits]

section
variable {op : Junctor} {q : Quantifier} {x : String} {a b f : Formula} {rest : List Formula}

@[simp] theorem symbols_neg : (neg f).symbols = f.symbols := by
  rw [symbols, symbols, atoms]

@[simp] theorem symbols_junction :
    (junction op a b rest).symbols = (a :: b :: rest).flatMap symbols := by
  rw [symbols, atoms_junction, List.flatMap_assoc]
  rfl

@[simp] theorem symbols_imp : (imp a b).symbols = a.symbols ++ b.symbols := by
  rw [symbols, atoms, List.flatMap_append, symbols, symbols]

@[simp] theorem symbols_iff : (iff a b).symbols = a.symbols ++ b.symbols := by
  rw [symbols, atoms, List.flatMap_append, symbols, symbols]

@[simp] theorem symbols_quant : (quant q x f).symbols = f.symbols := by
  rw [symbols, symbols, atoms]

end

@[simp] theorem subst_junction {op : Junctor} {a b : Formula} {rest : List Formula}
    {σ : Substitution} :
    (junction op a b rest).subst σ = .junction op (a.subst σ) (b.subst σ) (rest.map (subst σ)) := by
  rw [subst]

/-! ## Equality of meaning -/

namespace SameMeaning

theorem refl (f : Formula) : f.SameMeaning f :=
  fun _ _ _ => Iff.rfl

theorem trans.{u} {f g h : Formula} (first : SameMeaning.{u} f g) (second : SameMeaning.{u} g h) :
    SameMeaning.{u} f h :=
  fun _ I s => (first I s).trans (second I s)

end SameMeaning

end Formula

/-! ## Lists that are read off a formula -/

namespace ListingLemmas

open Formula

theorem isListing_atoms : IsListing (fun _ => []) fun _ => atoms where
  neg _ _ := by rw [atoms]
  junction _ _ _ _ _ := atoms_junction
  imp _ _ _ := by rw [atoms]
  iff _ _ _ := by rw [atoms]
  quant _ _ _ _ := by rw [atoms, List.nil_append]

theorem isListing_quantified : IsListing (fun x => [x]) fun _ => quantified where
  neg _ _ := by rw [quantified]
  junction _ _ _ _ _ := quantified_junction
  imp _ _ _ := by rw [quantified]
  iff _ _ _ := by rw [quantified]
  quant _ _ _ _ := by rw [quantified, List.singleton_append]

theorem isListing_free : IsListing (fun _ => []) free where
  neg _ _ := by rw [free]
  junction _ _ _ _ _ := free_junction
  imp _ _ _ := by rw [free]
  iff _ _ _ := by rw [free]
  quant _ _ _ _ := by rw [free, List.nil_append]

theorem isListing_bound : IsListing (fun _ => []) bound where
  neg _ _ := by rw [bound]
  junction _ _ _ _ _ := bound_junction
  imp _ _ _ := by rw [bound]
  iff _ _ _ := by rw [bound]
  quant _ _ _ _ := by rw [bound, List.nil_append]

theorem isListing_variableNames : IsListing (fun x => [x]) fun _ => variableNames where
  neg _ _ := by rw [variableNames]
  junction _ _ _ _ _ := variableNames_junction
  imp _ _ _ := by rw [variableNames]
  iff _ _ _ := by rw [variableNames]
  quant _ _ _ _ := by rw [variableNames, List.singleton_append]

/-- Without quantifiers, a list is made of what it lists at the atoms. -/
theorem listing_of_isQuantifierFree {α : Type u} {binder : String → List α}
    {list : List String → Formula → List α} (listing : IsListing binder list) {f : Formula}
    (quantifierFree : f.IsQuantifierFree) (outer : List String) :
    list outer f = f.atoms.flatMap fun p => list outer (.atom p) := by
  induction f using Formula.rec_memberList with
  | atom p => rw [atoms, List.flatMap_singleton]
  | neg f ih =>
      rw [IsQuantifierFree] at quantifierFree
      rw [listing.neg, atoms, ih quantifierFree]
  | junction op a b rest ih =>
      rw [isQuantifierFree_junction] at quantifierFree
      rw [listing.junction, atoms_junction, List.flatMap_assoc]
      exact List.flatMap_congr fun f member => ih f member (quantifierFree f member)
  | imp a b iha ihb =>
      rw [IsQuantifierFree] at quantifierFree
      rw [listing.imp, atoms, List.flatMap_append, iha quantifierFree.1, ihb quantifierFree.2]
  | iff a b iha ihb =>
      rw [IsQuantifierFree] at quantifierFree
      rw [listing.iff, atoms, List.flatMap_append, iha quantifierFree.1, ihb quantifierFree.2]
  | quant q x f _ =>
      rw [IsQuantifierFree] at quantifierFree
      exact quantifierFree.elim

end ListingLemmas

namespace MeaningLemmas

open Formula

/-! ## Free variables -/

/-- Binding the variables `outer` from outside removes them from the free ones. -/
theorem free_eq_filter (f : Formula) (outer : List String) :
    f.free outer = (f.free []).filter (· ∉ outer) := by
  induction f using Formula.rec_memberList generalizing outer with
  | atom p => simp [free]
  | neg f ih => rw [free, free, ih outer]
  | junction op a b rest ih =>
      rw [free_junction, free_junction, List.filter_flatMap]
      exact List.flatMap_congr fun f member => ih f member outer
  | imp a b iha ihb | iff a b iha ihb => rw [free, free, List.filter_append, ← iha, ← ihb]
  | quant q x f ih =>
      rw [free, free, ih (x :: outer), ih [x], List.filter_filter]
      simp [Bool.and_comm]

theorem mem_free {f : Formula} {outer : List String} {x : String} :
    x ∈ f.free outer ↔ x ∈ f.free [] ∧ x ∉ outer := by
  rw [free_eq_filter, List.mem_filter, decide_eq_true_iff]

theorem mem_free_quant {q : Quantifier} {x y : String} {f : Formula} :
    y ∈ (Formula.quant q x f).free [] ↔ y ∈ f.free [] ∧ y ≠ x := by
  rw [free, mem_free, List.mem_singleton]

/-- Free variables occur in the formula. -/
theorem mem_variableNames_of_free {f : Formula} {x : String} (found : x ∈ f.free []) :
    x ∈ f.variableNames := by
  induction f using Formula.rec_memberList with
  | atom p => simpa [free, variableNames] using found
  | neg f ih =>
      rw [free] at found
      rw [variableNames]
      exact ih found
  | junction op a b rest ih =>
      rw [free_junction, List.mem_flatMap] at found
      obtain ⟨f, part, found⟩ := found
      rw [variableNames_junction, List.mem_flatMap]
      exact ⟨f, part, ih f part found⟩
  | imp a b iha ihb | iff a b iha ihb =>
      rw [free, List.mem_append] at found
      rw [variableNames, List.mem_append]
      exact found.imp iha ihb
  | quant q y f ih =>
      rw [variableNames]
      exact List.mem_cons_of_mem _ (ih (mem_free_quant.mp found).1)

/-- Without quantifiers, every occurrence in an atom is free. -/
theorem free_of_isQuantifierFree {f : Formula} (quantifierFree : f.IsQuantifierFree) :
    f.free [] = f.atoms.flatMap Atom.variableNames := by
  rw [ListingLemmas.listing_of_isQuantifierFree ListingLemmas.isListing_free quantifierFree]
  exact List.flatMap_congr fun p _ => by simp [free]

/-- Without quantifiers, all variables occur in atoms. -/
theorem variableNames_of_isQuantifierFree {f : Formula} (quantifierFree : f.IsQuantifierFree) :
    f.variableNames = f.atoms.flatMap Atom.variableNames := by
  refine (ListingLemmas.listing_of_isQuantifierFree
    ListingLemmas.isListing_variableNames quantifierFree []).trans ?_
  exact List.flatMap_congr fun p _ => by rw [variableNames]

/-! ## What truth depends on -/

section
variable {D : Type u} {I J : Interpretation D} {s s' : String → D}

theorem value_congr {t : Term} (agree : ∀ x ∈ t.variableNames, s x = s' x) :
    t.value I s = t.value I s' := by
  induction t using Term.variableNames.induct with
  | case1 x =>
      rw [Term.value, Term.value]
      exact agree x (by rw [Term.variableNames, List.mem_singleton])
  | case2 f ts ih =>
      rw [Term.value, Term.value]
      refine congrArg _ (List.map_congr_left fun t member => ih t member fun x inside => ?_)
      exact agree x (by rw [Term.variableNames]; exact List.mem_flatMap.mpr ⟨t, member, inside⟩)

/-- Assignments that agree on the free variables of a formula give it the same truth value. -/
theorem holds_congr {f : Formula} (agree : ∀ x ∈ f.free [], s x = s' x) :
    f.Holds I s ↔ f.Holds I s' := by
  induction f using Formula.rec_memberList generalizing s s' with
  | atom p =>
      rw [Holds, Holds, Atom.Holds, Atom.Holds]
      suffices same : p.terms.map (Term.value I s) = p.terms.map (Term.value I s') by rw [same]
      exact List.map_congr_left fun t member => value_congr fun x inside =>
        agree x (mem_free_atom member inside)
  | neg f ih =>
      rw [free] at agree
      rw [Holds, Holds, ih agree]
  | junction op a b rest ih =>
      rw [holds_junction_iff, holds_junction_iff]
      exact JoinLemmas.joins_congr fun f member => ih f member fun x found =>
        agree x (mem_free_junction member found)
  | imp a b iha ihb | iff a b iha ihb =>
      rw [free, List.forall_mem_append] at agree
      rw [Holds, Holds, iha agree.1, ihb agree.2]
  | quant q x f ih =>
      rw [Holds, Holds]
      refine BindLemmas.binds_congr fun d => ih fun y found => ?_
      by_cases same : y = x
      · rw [same, assign_self, assign_self]
      · rw [assign_of_ne same, assign_of_ne same]
        exact agree y (mem_free_quant.mpr ⟨found, same⟩)

/-- The value of a term does not depend on symbols that do not occur in it. -/
theorem value_congr_symbols {t : Term} {symbols : List (String × Nat)}
    (agrees : J.AgreesOutside I symbols) (fresh : ∀ g ∈ symbols, g ∉ t.symbols) :
    t.value J s = t.value I s := by
  induction t using Term.variableNames.induct with
  | case1 x => rw [Term.value, Term.value]
  | case2 f ts ih =>
      have same : ts.map (Term.value J s) = ts.map (Term.value I s) := by
        refine List.map_congr_left fun t member => ih t member fun g listed inside => ?_
        refine fresh g listed ?_
        rw [Term.symbols]
        exact List.mem_cons_of_mem _ (List.mem_flatMap.mpr ⟨t, member, inside⟩)
      rw [Term.value, Term.value, same]
      refine agrees.2 f _ fun listed => fresh _ listed ?_
      rw [Term.symbols, List.length_map]
      exact List.mem_cons_self

/-- The truth of a formula does not depend on symbols that do not occur in it. -/
theorem holds_congr_symbols {f : Formula} {symbols : List (String × Nat)}
    (agrees : J.AgreesOutside I symbols) (fresh : ∀ g ∈ symbols, g ∉ f.symbols) :
    f.Holds J s ↔ f.Holds I s := by
  induction f using Formula.rec_memberList generalizing s with
  | atom p =>
      rw [Holds, Holds, Atom.Holds, Atom.Holds, agrees.1]
      suffices same : p.terms.map (Term.value J s) = p.terms.map (Term.value I s) by rw [same]
      refine List.map_congr_left fun t member => value_congr_symbols agrees fun g listed inside => ?_
      refine fresh g listed ?_
      simpa [Formula.symbols, atoms, Atom.symbols] using ⟨t, member, inside⟩
  | neg f ih =>
      rw [symbols_neg] at fresh
      rw [Holds, Holds, ih fresh]
  | junction op a b rest ih =>
      rw [holds_junction_iff, holds_junction_iff]
      refine JoinLemmas.joins_congr fun f member => ih f member fun g listed inside => ?_
      refine fresh g listed ?_
      rw [symbols_junction, List.mem_flatMap]
      exact ⟨f, member, inside⟩
  | imp a b iha ihb | iff a b iha ihb =>
      simp only [symbols_imp, symbols_iff, List.mem_append, not_or] at fresh
      have left : a.Holds J s ↔ a.Holds I s := iha fun g listed => (fresh g listed).1
      have right : b.Holds J s ↔ b.Holds I s := ihb fun g listed => (fresh g listed).2
      rw [Holds, Holds, left, right]
  | quant q x f ih =>
      rw [symbols_quant] at fresh
      rw [Holds, Holds]
      exact BindLemmas.binds_congr fun d => ih fresh

/-! ## Substitution -/

/-- A substituted term has the value that the term had under the values of what was put in. -/
theorem value_subst {σ : Substitution} {t : Term} :
    (t.subst σ).value I s = t.value I fun x => (σ x).value I s := by
  induction t using Term.variableNames.induct with
  | case1 x => rw [Term.subst, Term.value]
  | case2 f ts ih =>
      rw [Term.subst, Term.value, Term.value, List.map_map]
      exact congrArg _ (List.map_congr_left fun t member => ih t member)

theorem holds_subst_atom {σ : Substitution} {p : Atom} :
    (p.subst σ).Holds I s ↔ p.Holds I fun x => (σ x).value I s := by
  rw [Atom.Holds, Atom.Holds, Atom.subst, List.map_map]
  suffices same : p.terms.map (Term.value I s ∘ Term.subst σ) =
      p.terms.map (Term.value I fun x => (σ x).value I s) by rw [same]
  exact List.map_congr_left fun t _ => value_subst

/-- The substitution lemma: after a substitution that no quantifier captures, a formula is true
under `s` if it was true under the values that the substituted terms have under `s`. -/
theorem holds_subst {σ : Substitution} {f : Formula} (admits : f.Admits σ) :
    (f.subst σ).Holds I s ↔ f.Holds I fun x => (σ x).value I s := by
  induction f using Formula.rec_memberList generalizing σ s with
  | atom p =>
      rw [subst, Holds, Holds]
      exact holds_subst_atom
  | neg f ih =>
      rw [Admits] at admits
      rw [subst, Holds, Holds, ih admits]
  | junction op a b rest ih =>
      rw [admits_junction] at admits
      rw [subst_junction, holds_junction_iff, holds_junction_iff, ← List.map_cons, ← List.map_cons,
        List.map_map]
      exact JoinLemmas.joins_congr fun f member => ih f member (admits f member)
  | imp a b iha ihb | iff a b iha ihb =>
      rw [Admits] at admits
      rw [subst, Holds, Holds, iha admits.1, ihb admits.2]
  | quant q x f ih =>
      rw [Admits] at admits
      rw [subst, Holds, Holds]
      refine BindLemmas.binds_congr fun d => (ih admits.1).trans (holds_congr fun y found => ?_)
      by_cases same : y = x
      · simp [same, Substitution.hide, Term.value]
      · rw [Substitution.hide, assign_of_ne same, assign_of_ne same]
        -- No variable of `σ y` is `x`, so that the value of `σ y` is the one from outside.
        refine value_congr fun z inside => assign_of_ne fun captured => ?_
        have outside := admits.2 y (mem_free.mpr ⟨found, by simpa using same⟩)
        exact outside (captured ▸ inside)

end

/-! ## Free variables after a substitution -/

theorem variableNames_subst (σ : Substitution) (t : Term) :
    (t.subst σ).variableNames = t.variableNames.flatMap fun y => (σ y).variableNames := by
  induction t using Term.variableNames.induct with
  | case1 x => simp [Term.subst, Term.variableNames]
  | case2 f ts ih =>
      rw [Term.subst, Term.variableNames, Term.variableNames, List.flatMap_map, List.flatMap_assoc]
      exact List.flatMap_congr ih

theorem atom_variableNames_subst (σ : Substitution) (p : Atom) :
    (p.subst σ).variableNames = p.variableNames.flatMap fun y => (σ y).variableNames := by
  rw [Atom.subst, Atom.variableNames, Atom.variableNames, List.flatMap_map, List.flatMap_assoc]
  exact List.flatMap_congr fun t _ => variableNames_subst σ t

/-- What a substitution puts in below a quantifier for `x` that is now one for `l`: the variable of
the quantifier is bound in both, and no other term brings in `l`. -/
theorem filter_flatMap_bound {xs : List String} {x l : String} {σ τ : Substitution}
    (bound : τ x = .var l)
    (others : ∀ y ∈ xs, y ≠ x → τ y = σ y ∧ l ∉ (σ y).variableNames) :
    (xs.flatMap fun y => (τ y).variableNames).filter (· ∉ [l]) =
      (xs.filter (· ∉ [x])).flatMap fun y => (σ y).variableNames := by
  induction xs with
  | nil => rfl
  | cons y ys ih =>
      have tail := ih fun z member => others z (List.mem_cons_of_mem _ member)
      rw [List.flatMap_cons, List.filter_append, tail]
      by_cases same : y = x
      · rw [List.filter_cons_of_neg (by simpa using same), same, bound]
        simp [Term.variableNames]
      · obtain ⟨outside, free⟩ := others y List.mem_cons_self same
        rw [List.filter_cons_of_pos (by simpa using same), List.flatMap_cons, outside]
        refine congrArg (· ++ _) (List.filter_eq_self.mpr fun z inside => ?_)
        have differ : z ≠ l := fun equal => free (equal ▸ inside)
        simpa using differ

/-- After a substitution that no quantifier captures, the variables of the terms that were put in
stand where the free variables stood. -/
theorem free_subst {σ : Substitution} {f : Formula} (admits : f.Admits σ) :
    (f.subst σ).free [] = (f.free []).flatMap fun y => (σ y).variableNames := by
  induction f using Formula.rec_memberList generalizing σ with
  | atom p => simpa [free, subst] using atom_variableNames_subst σ p
  | neg f ih =>
      rw [Admits] at admits
      rw [subst, free, free, ih admits]
  | junction op a b rest ih =>
      rw [admits_junction] at admits
      rw [subst_junction, free_junction, free_junction, ← List.map_cons, ← List.map_cons,
        List.flatMap_map, List.flatMap_assoc]
      exact List.flatMap_congr fun f member => ih f member (admits f member)
  | imp a b iha ihb | iff a b iha ihb =>
      rw [Admits] at admits
      rw [subst, free, free, List.flatMap_append, iha admits.1, ihb admits.2]
  | quant q x f ih =>
      rw [Admits] at admits
      rw [subst, free, free, free_eq_filter _ [x], free_eq_filter f [x], ih admits.1]
      refine filter_flatMap_bound (assign_self ..) fun y found differ => ⟨assign_of_ne differ, ?_⟩
      exact admits.2 y (mem_free.mpr ⟨found, by simpa using differ⟩)

end MeaningLemmas

end Clausal
