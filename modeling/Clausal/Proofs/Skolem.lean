import Clausal.SkolemForm
import Clausal.Proofs.FreshName
import Clausal.Proofs.Substitution

/-!
# Skolem forms are conservative

The value of a Skolem term is a value that the existential quantifier asks for, whatever the Skolem
symbol means. Conversely, if the Skolem symbols are new, they can be given a meaning that chooses such
a value for each choice of values of the universal variables.

* `Formula.substEach` puts in terms one after the other; `skolemSymbols` are their symbols.
* `SkolemLemmas.skolemTerms_ex`: the symbol of a Skolem term differs from those of later ones.
* `SkolemLemmas.holds_quantify_of_holds_substEach`: from the Skolem form back to the prefix.
* `SkolemLemmas.exists_choice` gives a new symbol the meaning that chooses values.
* `SkolemLemmas.exists_interpretation_substEach`: from the prefix to the Skolem form.
* `SkolemLemmas.mem_variableNames_substEach`: which variables remain.
* `holds_quantify_iff_exists_skolemize` puts the two directions together.
-/

namespace Clausal

/-! ## Definitions -/

/-- The universal variables of a prefix, outermost first. -/
def Prefix.universals (bindings : Prefix) : List String :=
  (bindings.filter (·.quantifier = .all)).map (·.name)

@[simp] theorem Prefix.universals_all {x : String} {inner : Prefix} :
    Prefix.universals (⟨.all, x⟩ :: inner) = x :: inner.universals := rfl

/-- Puts in terms for variables, one after the other. -/
def Formula.substEach (terms : List (String × Term)) (f : Formula) : Formula :=
  terms.foldl (fun f pair => f.subst (Substitution.single pair.1 pair.2)) f

/-- The function symbols of the terms that stand for existential variables. -/
def skolemSymbols (terms : List (String × Term)) : List (String × Nat) :=
  terms.flatMap fun pair => pair.2.symbols

/-- Gives the values of a list to the variables of a list. -/
def assignAll {D : Type u} (s : String → D) : List String → List D → String → D
  | x :: xs, d :: ds => assign (assignAll s xs ds) x d
  | _, _ => s

namespace Interpretation.AgreesOutside

variable {D : Type u} {I J K : Interpretation D} {first second : List (String × Nat)}

theorem refl (I : Interpretation D) (symbols : List (String × Nat)) : I.AgreesOutside I symbols :=
  ⟨rfl, fun _ _ _ => rfl⟩

/-- Of two changes one after the other, the symbols of both may have changed. -/
theorem trans (later : K.AgreesOutside J second) (earlier : J.AgreesOutside I first) :
    K.AgreesOutside I (first ++ second) := by
  refine ⟨later.1.trans earlier.1, fun f args outside => ?_⟩
  rw [List.mem_append, not_or] at outside
  exact (later.2 f args outside.2).trans (earlier.2 f args outside.1)

end Interpretation.AgreesOutside

namespace SkolemLemmas

open Formula

/-! ## Skolem terms and their symbols -/

section
variable {stems : SkolemStems} {universals : List String} {constants functions : Nat}
  {bindings inner : Prefix}

theorem symbols_skolem_term (g : String) (universals : List String) :
    (Term.app g (universals.map .var)).symbols = [(g, universals.length)] := by
  have without : (universals.map Term.var).flatMap Term.symbols = [] := by
    rw [List.flatMap_eq_nil_iff]
    intro t member
    obtain ⟨x, _, rfl⟩ := List.mem_map.mp member
    rw [Term.symbols]
  rw [Term.symbols, List.length_map, without]

theorem variableNames_skolem_term (g : String) (universals : List String) :
    (Term.app g (universals.map .var)).variableNames = universals := by
  rw [Term.variableNames, List.flatMap_map]
  simp only [Term.variableNames]
  exact List.flatMap_singleton' universals

theorem skolemSymbols_cons (x g : String) (universals : List String) (terms : List (String × Term)) :
    skolemSymbols ((x, .app g (universals.map .var)) :: terms) =
      (g, universals.length) :: skolemSymbols terms := by
  rw [skolemSymbols, List.flatMap_cons, symbols_skolem_term]
  rfl

/-- The symbols of Skolem terms are numbered, constants and functions each on their own. -/
theorem numbered_of_mem_skolemSymbols {g : String} {n : Nat}
    (found : (g, n) ∈ skolemSymbols (skolemTerms stems universals constants functions bindings)) :
    (n = 0 ∧ ∃ i, constants ≤ i ∧ g = stems.constant ++ toString i) ∨
      (n ≠ 0 ∧ ∃ i, functions ≤ i ∧ g = stems.function ++ toString i) := by
  induction universals, constants, functions, bindings using skolemTerms.induct with
  | case1 => exact absurd found List.not_mem_nil
  | case2 universals constants functions x inner ih =>
      rw [skolemTerms] at found
      exact ih found
  | case3 universals constants functions x inner empty ih =>
      rw [skolemTerms, if_pos empty] at found
      have split := skolemSymbols_cons x (stems.constant ++ toString constants) []
        (skolemTerms stems universals (constants + 1) functions inner)
      rw [List.map_nil] at split
      rw [split, List.mem_cons] at found
      rcases found with root | later
      · cases root
        exact .inl ⟨rfl, constants, Nat.le_refl _, rfl⟩
      · rcases ih later with ⟨constant, i, above, named⟩ | function
        · exact .inl ⟨constant, i, Nat.le_of_succ_le above, named⟩
        · exact .inr function
  | case4 universals constants functions x inner nonempty ih =>
      rw [skolemTerms, if_neg nonempty, skolemSymbols_cons, List.mem_cons] at found
      rcases found with root | later
      · cases root
        refine .inr ⟨fun constant => nonempty ?_, functions, Nat.le_refl _, rfl⟩
        exact List.isEmpty_iff_length_eq_zero.mpr constant
      · rcases ih later with constant | ⟨nonempty, i, above, named⟩
        · exact .inl constant
        · exact .inr ⟨nonempty, i, Nat.le_of_succ_le above, named⟩

/-- An existential variable has a Skolem term over the universal variables before it, with a symbol
that differs from those of the later Skolem terms. -/
theorem skolemTerms_ex (stems : SkolemStems) (universals : List String) (constants functions : Nat)
    (x : String) (inner : Prefix) :
    ∃ g constants' functions',
      skolemTerms stems universals constants functions (⟨.ex, x⟩ :: inner) =
        (x, .app g (universals.map .var)) ::
          skolemTerms stems universals constants' functions' inner ∧
      (g, universals.length) ∉
        skolemSymbols (skolemTerms stems universals constants' functions' inner) := by
  cases universals with
  | nil =>
      refine ⟨stems.constant ++ toString constants, constants + 1, functions, rfl, fun again => ?_⟩
      rcases numbered_of_mem_skolemSymbols again with ⟨_, i, above, same⟩ | ⟨nonempty, _⟩
      · have := FreshNameLemmas.numbered_injective same
        omega
      · exact nonempty rfl
  | cons y universals =>
      refine ⟨stems.function ++ toString functions, constants, functions + 1, rfl, fun again => ?_⟩
      rcases numbered_of_mem_skolemSymbols again with ⟨constant, _⟩ | ⟨_, i, above, same⟩
      · exact absurd constant (Nat.succ_ne_zero _)
      · have := FreshNameLemmas.numbered_injective same
        omega

end

/-! ## From the Skolem form back to the prefix -/

section
variable {stems : SkolemStems} {universals : List String} {constants functions : Nat}
  {bindings : Prefix} {m : Formula} {D : Type u} {I : Interpretation D} {s : String → D}

/-- If the Skolem form holds for all values of the universal variables, the prefix holds: the value
of a Skolem term is one that the existential quantifier asks for. Skolem symbols need not be new. -/
theorem holds_quantify_of_holds_substEach (quantifierFree : m.IsQuantifierFree)
    (distinct : bindings.names.Nodup) (apart : ∀ y ∈ universals, y ∉ bindings.names)
    (holds : ∀ t, (∀ y, y ∉ bindings.universals → t y = s y) →
      (m.substEach (skolemTerms stems universals constants functions bindings)).Holds I t) :
    (bindings.quantify m).Holds I s := by
  induction bindings generalizing universals constants functions m s with
  | nil => exact holds s fun _ _ => rfl
  | cons b inner ih =>
      obtain ⟨q, x⟩ := b
      rw [Prefix.names_cons, List.nodup_cons] at distinct
      simp only [Prefix.names_cons, List.mem_cons, not_or] at apart
      rw [Prefix.quantify_cons, Holds]
      cases q with
      | all =>
          intro d
          have later : ∀ y ∈ universals ++ [x], y ∉ Prefix.names inner := by
            rw [List.forall_mem_append, List.forall_mem_singleton]
            exact ⟨fun y before => (apart y before).2, distinct.1⟩
          refine ih quantifierFree distinct.2 later fun t agree => holds t fun y outside => ?_
          rw [Prefix.universals_all, List.mem_cons, not_or] at outside
          rw [agree y outside.2, assign_of_ne outside.1]
      | ex =>
          obtain ⟨g, constants', functions', terms, _⟩ :=
            skolemTerms_ex stems universals constants functions x inner
          rw [terms] at holds
          -- The value of the Skolem term is the one that is asked for.
          refine ⟨(Term.app g (universals.map .var)).value I s, ?_⟩
          have uncaptured : ∀ y ∈ (Term.app g (universals.map .var)).variableNames,
              y ∉ Prefix.names inner := by
            rw [variableNames_skolem_term]
            exact fun y before => (apart y before).2
          refine (SubstitutionLemmas.holds_quantify_single quantifierFree distinct.1 uncaptured).mp ?_
          exact ih (SubstitutionLemmas.isQuantifierFree_subst quantifierFree) distinct.2
            (fun y before => (apart y before).2) holds

/-- The variables of a Skolem form are universal or were free already. -/
theorem mem_free_substEach (quantifierFree : m.IsQuantifierFree) {z : String}
    (found : z ∈
      (m.substEach (skolemTerms stems universals constants functions bindings)).free []) :
    z ∈ universals ∨ z ∈ bindings.universals ∨ z ∈ (bindings.quantify m).free [] := by
  induction bindings generalizing universals constants functions m with
  | nil => exact .inr (.inr found)
  | cons b inner ih =>
      obtain ⟨q, x⟩ := b
      have unquantified : z ∈ (Prefix.quantify inner m).free [] → z ≠ x →
          z ∈ (Prefix.quantify (⟨q, x⟩ :: inner) m).free [] := by
        intro free differ
        rw [Prefix.quantify_cons]
        exact MeaningLemmas.mem_free_quant.mpr ⟨free, differ⟩
      cases q with
      | all =>
          rcases ih quantifierFree found with before | after | free
          · rcases List.mem_append.mp before with earlier | last
            · exact .inl earlier
            · rw [List.mem_singleton.mp last]
              exact .inr (.inl List.mem_cons_self)
          · exact .inr (.inl (List.mem_cons_of_mem _ after))
          · by_cases same : z = x
            · rw [same]
              exact .inr (.inl List.mem_cons_self)
            · exact .inr (.inr (unquantified free same))
      | ex =>
          obtain ⟨g, constants', functions', terms, _⟩ :=
            skolemTerms_ex stems universals constants functions x inner
          rw [terms] at found
          rcases ih (SubstitutionLemmas.isQuantifierFree_subst quantifierFree) found with
            before | after | free
          · exact .inl before
          · exact .inr (.inl after)
          · obtain ⟨inside, unbound⟩ := PrefixLemmas.mem_free_quantify.mp free
            rcases SubstitutionLemmas.mem_free_single quantifierFree inside with ⟨old, differ⟩ | new
            · have below := PrefixLemmas.mem_free_quantify.mpr ⟨old, unbound⟩
              exact .inr (.inr (unquantified below differ))
            · rw [variableNames_skolem_term] at new
              exact .inl new

/-! ## From the prefix to the Skolem form -/

theorem assignAll_of_not_mem {args : List D} {y : String} (outside : y ∉ universals) :
    assignAll s universals args y = s y := by
  induction universals generalizing args with
  | nil => rfl
  | cons x universals ih =>
      rw [List.mem_cons, not_or] at outside
      cases args with
      | nil => rfl
      | cons d args => rw [assignAll, assign_of_ne outside.1, ih outside.2]

theorem assignAll_map_of_mem {t : String → D} {y : String} (inside : y ∈ universals) :
    assignAll s universals (universals.map t) y = t y := by
  induction universals with
  | nil => exact absurd inside List.not_mem_nil
  | cons x universals ih =>
      rw [List.map_cons, assignAll]
      by_cases same : y = x
      · rw [same, assign_self]
      · rw [assign_of_ne same]
        exact ih ((List.mem_cons.mp inside).resolve_left same)

/-- Giving the variables the values that they have in `t` makes `t` of what agrees with it elsewhere. -/
theorem assignAll_map {t : String → D} (agree : ∀ y, y ∉ universals → t y = s y) :
    assignAll s universals (universals.map t) = t := by
  funext y
  by_cases inside : y ∈ universals
  · exact assignAll_map_of_mem inside
  · rw [assignAll_of_not_mem inside, agree y inside]

/-- If for all values of the universal variables there is a value with some property, a symbol can be
given a meaning that chooses such values. -/
theorem exists_choice (I : Interpretation D) (g x : String) (property : (String → D) → Prop)
    (each : ∀ t, (∀ y, y ∉ universals → t y = s y) → ∃ d, property (assign t x d)) :
    ∃ J : Interpretation D, J.AgreesOutside I [(g, universals.length)] ∧
      ∀ t, (∀ y, y ∉ universals → t y = s y) →
        property (assign t x ((Term.app g (universals.map .var)).value J t)) := by
  have possible : ∀ args, ∃ d, property (assign (assignAll s universals args) x d) :=
    fun args => each _ fun _ outside => assignAll_of_not_mem outside
  choose value chosen using possible
  let J : Interpretation D :=
    { function := fun h args =>
        if h = g ∧ args.length = universals.length then value args else I.function h args
      predicate := I.predicate }
  refine ⟨J, ⟨rfl, fun h args outside => ?_⟩, fun t agree => ?_⟩
  · have other : ¬ (h = g ∧ args.length = universals.length) := by simpa using outside
    exact if_neg other
  · have evaluated : (Term.app g (universals.map .var)).value J t = value (universals.map t) := by
      have arguments : (universals.map Term.var).map (Term.value J t) = universals.map t := by
        rw [List.map_map]
        exact List.map_congr_left fun y _ => by rw [Function.comp_apply, Term.value]
      rw [Term.value, arguments]
      exact if_pos ⟨rfl, List.length_map t⟩
    have found := chosen (universals.map t)
    rw [assignAll_map agree] at found
    rw [evaluated]
    exact found

/-- What holds for all values of `x`, whatever the values of some variables are, holds for all values
of these variables and `x`. -/
theorem holds_of_forall_assign {x : String} {property : (String → D) → Prop}
    (holds : ∀ t, (∀ y, y ∉ universals → t y = s y) → ∀ d, property (assign t x d)) :
    ∀ t, (∀ y, y ∉ universals ++ [x] → t y = s y) → property t := by
  intro t agree
  have outer : ∀ y, y ∉ universals → assign t x (s x) y = s y := by
    intro y outside
    by_cases same : y = x
    · rw [same, assign_self]
    · rw [assign_of_ne same]
      exact agree y (by simp [outside, same])
  have again : assign (assign t x (s x)) x (t x) = t := by
    funext y
    by_cases same : y = x
    · rw [same, assign_self]
    · rw [assign_of_ne same, assign_of_ne same]
  have found := holds (assign t x (s x)) outer (t x)
  rwa [again] at found

theorem symbols_quantify : (bindings.quantify m).symbols = m.symbols := by
  induction bindings with
  | nil => rfl
  | cons b inner ih =>
      rw [Prefix.quantify_cons, symbols_quant]
      exact ih

/-- A new symbol can be given a meaning with which an existential variable may be replaced by the term
that applies the symbol to the universal variables. -/
theorem exists_interpretation_single {g x : String} (quantifierFree : m.IsQuantifierFree)
    (unbound : x ∉ bindings.names) (apart : ∀ y ∈ universals, y ∉ bindings.names)
    (fresh : (g, universals.length) ∉ m.symbols)
    (holds : ∀ t, (∀ y, y ∉ universals → t y = s y) →
      ∃ d, (bindings.quantify m).Holds I (assign t x d)) :
    ∃ J : Interpretation D, J.AgreesOutside I [(g, universals.length)] ∧
      ∀ t, (∀ y, y ∉ universals → t y = s y) →
        (bindings.quantify (m.subst
          (Substitution.single x (.app g (universals.map .var))))).Holds J t := by
  obtain ⟨J, agrees, chosen⟩ :=
    exists_choice I g x (fun t => (bindings.quantify m).Holds I t) holds
  refine ⟨J, agrees, fun t agree => ?_⟩
  have uncaptured : ∀ y ∈ (Term.app g (universals.map .var)).variableNames,
      y ∉ bindings.names := by
    rw [variableNames_skolem_term]
    exact apart
  -- The formula below does not have the new symbol, so that it means in `J` what it means in `I`.
  have same : ∀ t, (bindings.quantify m).Holds J t ↔ (bindings.quantify m).Holds I t := by
    intro t
    refine MeaningLemmas.holds_congr_symbols agrees fun h listed => ?_
    rw [symbols_quantify, List.mem_singleton.mp listed]
    exact fresh
  rw [SubstitutionLemmas.holds_quantify_single quantifierFree unbound uncaptured, same]
  exact chosen t agree

/-- If the Skolem symbols are new and a prefix holds for all values of the universal variables before
it, the Skolem symbols can be given a meaning with which the Skolem form holds. The induction is on
the prefix: a symbol gets its meaning where its quantifier stands, and keeps it, because the symbols
that come later are different ones. -/
theorem exists_interpretation_substEach (quantifierFree : m.IsQuantifierFree)
    (distinct : bindings.names.Nodup) (apart : ∀ y ∈ universals, y ∉ bindings.names)
    (fresh : ∀ g ∈ skolemSymbols (skolemTerms stems universals constants functions bindings),
      g ∉ m.symbols)
    (holds : ∀ t, (∀ y, y ∉ universals → t y = s y) → (bindings.quantify m).Holds I t) :
    ∃ J : Interpretation D,
      J.AgreesOutside I
        (skolemSymbols (skolemTerms stems universals constants functions bindings)) ∧
      ∀ t, (∀ y, y ∉ universals → y ∉ bindings.universals → t y = s y) →
        (m.substEach (skolemTerms stems universals constants functions bindings)).Holds J t := by
  induction bindings generalizing universals constants functions m I with
  | nil =>
      refine ⟨I, .refl I _, fun t agree => holds t fun y outside => ?_⟩
      exact agree y outside List.not_mem_nil
  | cons b inner ih =>
      obtain ⟨q, x⟩ := b
      rw [Prefix.names_cons, List.nodup_cons] at distinct
      simp only [Prefix.names_cons, List.mem_cons, not_or] at apart
      simp only [Prefix.quantify_cons, Holds] at holds
      cases q with
      | all =>
          have later : ∀ y ∈ universals ++ [x], y ∉ Prefix.names inner := by
            rw [List.forall_mem_append, List.forall_mem_singleton]
            exact ⟨fun y before => (apart y before).2, distinct.1⟩
          have below : ∀ t, (∀ y, y ∉ universals ++ [x] → t y = s y) →
              (Prefix.quantify inner m).Holds I t := holds_of_forall_assign holds
          obtain ⟨J, agrees, found⟩ := ih quantifierFree distinct.2 later fresh below
          refine ⟨J, agrees, fun t agree => found t fun y outside outside' => agree y ?_ ?_⟩
          · exact fun before => outside (List.mem_append_left _ before)
          · have differ : y ≠ x := fun same => outside (by simp [same])
            simpa [differ] using outside'
      | ex =>
          obtain ⟨g, constants', functions', terms, unused⟩ :=
            skolemTerms_ex stems universals constants functions x inner
          rw [terms, skolemSymbols_cons] at fresh
          rw [terms, skolemSymbols_cons]
          have apart' : ∀ y ∈ universals, y ∉ Prefix.names inner :=
            fun y before => (apart y before).2
          obtain ⟨J, agrees, below⟩ := exists_interpretation_single quantifierFree distinct.1 apart'
            (fresh _ List.mem_cons_self) holds
          -- The term that was put in brings `g` along, which is none of the later symbols.
          have fresh' : ∀ h ∈ skolemSymbols (skolemTerms stems universals constants' functions' inner),
              h ∉ (m.subst (Substitution.single x (.app g (universals.map .var)))).symbols := by
            intro h listed inside
            rcases SubstitutionLemmas.symbols_of_symbols_single inside with old | new
            · exact fresh h (List.mem_cons_of_mem _ listed) old
            · rw [symbols_skolem_term, List.mem_singleton] at new
              exact unused (new ▸ listed)
          obtain ⟨K, later, found⟩ := ih (SubstitutionLemmas.isQuantifierFree_subst quantifierFree)
            distinct.2 apart' fresh' below
          exact ⟨K, later.trans agrees, found⟩

end

/-! ## The Skolem form -/

section
variable {stems : SkolemStems} {bindings : Prefix} {m : Formula}

/-- A prefix holds if the Skolem form of the whole prefix holds for all values of its universal
variables. -/
theorem holds_quantify_of_holds_skolem (quantifierFree : m.IsQuantifierFree)
    (distinct : bindings.names.Nodup) {D : Type u} {I : Interpretation D} {s : String → D}
    (holds : ∀ t, (∀ y, y ∉ bindings.universals → t y = s y) →
      (m.substEach (skolemTerms stems [] 1 1 bindings)).Holds I t) :
    (bindings.quantify m).Holds I s :=
  holds_quantify_of_holds_substEach quantifierFree distinct
    (fun _ before => absurd before List.not_mem_nil) holds

/-- If a prefix holds and its Skolem symbols are new, these can be given a meaning with which the
Skolem form of the whole prefix holds. -/
theorem exists_interpretation_skolem (quantifierFree : m.IsQuantifierFree)
    (distinct : bindings.names.Nodup)
    (fresh : ∀ g ∈ skolemSymbols (skolemTerms stems [] 1 1 bindings), g ∉ m.symbols) {D : Type u}
    {I : Interpretation D} {s : String → D} (holds : (bindings.quantify m).Holds I s) :
    ∃ J : Interpretation D,
      J.AgreesOutside I (skolemSymbols (skolemTerms stems [] 1 1 bindings)) ∧
      ∀ t, (∀ y, y ∉ bindings.universals → t y = s y) →
        (m.substEach (skolemTerms stems [] 1 1 bindings)).Holds J t := by
  have outermost : ∀ t, (∀ y, y ∉ [] → t y = s y) → (bindings.quantify m).Holds I t := by
    intro t agree
    have same : t = s := funext fun y => agree y List.not_mem_nil
    rwa [same]
  obtain ⟨J, agrees, found⟩ := exists_interpretation_substEach quantifierFree distinct
    (fun _ before => absurd before List.not_mem_nil) fresh outermost
  exact ⟨J, agrees, fun t agree => found t fun y _ outside => agree y outside⟩

theorem dropQuantifiers_eq_self (quantifierFree : m.IsQuantifierFree) (arrowFree : m.IsArrowFree) :
    m.dropQuantifiers = .ok m := by
  induction m using Formula.rec_memberList with
  | atom p => rw [dropQuantifiers]
  | neg f ih =>
      rw [IsQuantifierFree] at quantifierFree
      rw [IsArrowFree] at arrowFree
      rw [dropQuantifiers, ih quantifierFree arrowFree]
      rfl
  | junction op a b rest ih =>
      rw [isQuantifierFree_junction] at quantifierFree
      rw [isArrowFree_junction] at arrowFree
      rw [dropQuantifiers]
      refine MemberLemmas.membersM_eq_ok.mpr ⟨a, b, rest, rfl, List.forall₂_same.mpr ?_⟩
      exact fun f member => ih f member (quantifierFree f member) (arrowFree f member)
  | imp a b _ _ | iff a b _ _ =>
      rw [IsArrowFree] at arrowFree
      exact arrowFree.elim
  | quant q x f _ =>
      rw [IsQuantifierFree] at quantifierFree
      exact quantifierFree.elim

/-- What every substitution keeps is kept by several. -/
theorem substEach_induction {property : Formula → Prop}
    (kept : ∀ f σ, property f → property (f.subst σ)) (terms : List (String × Term))
    (holds : property m) : property (m.substEach terms) := by
  induction terms generalizing m with
  | nil => exact holds
  | cons pair terms ih => exact ih (kept m _ holds)

/-- All variables of a Skolem form are universal or were free already. -/
theorem mem_variableNames_substEach (quantifierFree : m.IsQuantifierFree) {z : String}
    (found : z ∈ (m.substEach (skolemTerms stems [] 1 1 bindings)).variableNames) :
    z ∈ bindings.universals ∨ z ∈ (bindings.quantify m).free [] := by
  have quantifierFree' : (m.substEach (skolemTerms stems [] 1 1 bindings)).IsQuantifierFree :=
    substEach_induction (fun _ _ => SubstitutionLemmas.isQuantifierFree_subst) _ quantifierFree
  rw [MeaningLemmas.variableNames_of_isQuantifierFree quantifierFree',
    ← MeaningLemmas.free_of_isQuantifierFree quantifierFree'] at found
  exact (mem_free_substEach quantifierFree found).resolve_left List.not_mem_nil

/-- A variable that a prefix binds once and existentially is not universal. -/
theorem not_mem_universals {b : Binding} (distinct : bindings.names.Nodup) (member : b ∈ bindings)
    (existential : b.quantifier = .ex) : b.name ∉ bindings.universals := by
  intro found
  obtain ⟨b', inside, same⟩ := List.mem_map.mp found
  obtain ⟨member', universal⟩ := List.mem_filter.mp inside
  have equal : b' = b := List.inj_on_of_nodup_map distinct member' member same
  rw [equal, existential] at universal
  exact absurd universal (by decide)

/-- No variable remains for which a Skolem term was put in. -/
theorem not_mem_variableNames_substEach {b : Binding} (quantifierFree : m.IsQuantifierFree)
    (distinct : bindings.names.Nodup) (member : b ∈ bindings) (existential : b.quantifier = .ex) :
    b.name ∉ (m.substEach (skolemTerms stems [] 1 1 bindings)).variableNames := by
  intro found
  rcases mem_variableNames_substEach quantifierFree found with universal | free
  · exact not_mem_universals distinct member existential universal
  · exact (PrefixLemmas.mem_free_quantify.mp free).2 (List.mem_map_of_mem member)

/-- Without quantifiers, implications and equivalences in the matrix, the Skolem form exists, and has
the Skolem terms put in. -/
theorem skolemize_eq (quantifierFree : m.IsQuantifierFree) (arrowFree : m.IsArrowFree) :
    skolemize stems bindings m =
      .ok ⟨m.substEach (skolemTerms stems [] 1 1 bindings), skolemTerms stems [] 1 1 bindings⟩ := by
  have quantifierFree' : (m.substEach (skolemTerms stems [] 1 1 bindings)).IsQuantifierFree :=
    substEach_induction (fun _ _ => SubstitutionLemmas.isQuantifierFree_subst) _ quantifierFree
  have arrowFree' : (m.substEach (skolemTerms stems [] 1 1 bindings)).IsArrowFree :=
    substEach_induction (fun _ _ => SubstitutionLemmas.isArrowFree_subst) _ arrowFree
  have dropped := dropQuantifiers_eq_self quantifierFree' arrowFree'
  unfold Formula.substEach at dropped
  rw [skolemize, dropped]
  rfl

end

end SkolemLemmas

/-! ## Conservative expansion -/

/-- If no Skolem symbol occurs in the matrix, a prefix holds in an interpretation just if the Skolem
form holds, for all values of the universal variables, after a change of the Skolem symbols only. -/
theorem holds_quantify_iff_exists_skolemize.{u} (stems : SkolemStems) {bindings : Prefix}
    {m : Formula} (distinct : bindings.names.Nodup) (quantifierFree : m.IsQuantifierFree)
    (arrowFree : m.IsArrowFree) :
    ∃ k, skolemize stems bindings m = .ok k ∧
      ((∀ g ∈ skolemSymbols k.terms, g ∉ m.symbols) →
        ∀ {D : Type u} (I : Interpretation D) (s : String → D),
          (bindings.quantify m).Holds I s ↔
            ∃ J : Interpretation D, J.AgreesOutside I (skolemSymbols k.terms) ∧
              ∀ t, (∀ x, x ∉ bindings.universals → t x = s x) → k.matrix.Holds J t) := by
  refine ⟨_, SkolemLemmas.skolemize_eq quantifierFree arrowFree, fun fresh D I s => ?_⟩
  constructor
  · exact SkolemLemmas.exists_interpretation_skolem quantifierFree distinct fresh
  · rintro ⟨J, agrees, found⟩
    have holds : (bindings.quantify m).Holds J s :=
      SkolemLemmas.holds_quantify_of_holds_skolem quantifierFree distinct found
    refine (MeaningLemmas.holds_congr_symbols agrees fun g listed => ?_).mp holds
    rw [SkolemLemmas.symbols_quantify]
    exact fresh g listed

/-- Every number has one that is greater than its successor, and a Skolem function can give one. The
symbol that is made, `f1`, is not the symbol `f` that the matrix has for the successor. -/
theorem exists_skolem_greater :
    ∃ k, skolemize {} [⟨.all, "x"⟩, ⟨.ex, "y"⟩]
        (.atom ⟨"Less", [.app "f" [.var "x"], .var "y"]⟩) = .ok k ∧
      ∃ J : Interpretation Nat, J.function "f" [2] = 3 ∧
        J.predicate = (fun _ args => args.getD 0 0 < args.getD 1 0) ∧
        ∀ t, (∀ y, y ≠ "x" → t y = 0) → k.matrix.Holds J t := by
  let matrix : Formula := .atom ⟨"Less", [.app "f" [.var "x"], .var "y"]⟩
  let less : Interpretation Nat :=
    ⟨fun _ args => args.getD 0 0 + 1, fun _ args => args.getD 0 0 < args.getD 1 0⟩
  have distinct : (Prefix.names [⟨.all, "x"⟩, ⟨.ex, "y"⟩]).Nodup := by decide
  have quantifierFree : matrix.IsQuantifierFree := by simp [matrix, Formula.IsQuantifierFree]
  have arrowFree : matrix.IsArrowFree := by simp [matrix, Formula.IsArrowFree]
  obtain ⟨k, made, expands⟩ := holds_quantify_iff_exists_skolemize {} distinct quantifierFree arrowFree
  have symbols : skolemSymbols k.terms = [("f1", 1)] := by
    have terms := congrArg (Except.map SkolemForm.terms) made
    rw [SkolemLemmas.skolemize_eq quantifierFree arrowFree] at terms
    rw [← Except.ok.inj terms]
    exact SkolemLemmas.skolemSymbols_cons "y" "f1" ["x"] []
  have fresh : ∀ g ∈ skolemSymbols k.terms, g ∉ matrix.symbols := by
    rw [symbols]
    simp [matrix, Formula.symbols, Formula.atoms, Atom.symbols, Term.symbols]
  have greater : (Prefix.quantify [⟨.all, "x"⟩, ⟨.ex, "y"⟩] matrix).Holds less fun _ => 0 := by
    rw [Prefix.quantify_cons, Formula.Holds]
    intro d
    rw [Prefix.quantify_cons, Formula.Holds]
    refine ⟨d + 2, ?_⟩
    simp [Prefix.quantify, Formula.Holds, Atom.Holds, Term.value, assign, less, matrix]
  obtain ⟨J, agrees, found⟩ := (expands fresh less fun _ => 0).mp greater
  refine ⟨k, made, J, agrees.2 "f" [2] ?_, agrees.1, fun t agree => found t fun y outside => ?_⟩
  · simp [symbols]
  · exact agree y (by simpa [Prefix.universals] using outside)

end Clausal
