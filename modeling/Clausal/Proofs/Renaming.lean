import Clausal.Proofs.Literalwise
import Clausal.Proofs.Skolem

/-!
# Renaming and substitution before or after a step

The steps from a formula whose quantifiers have been renamed apart to its clauses look at no names but
to tell variables apart. Each of them therefore gives the same result, up to the names, for a formula
whose variables have other names. For the matrix normal forms and the clauses this holds of any terms
that are put in for variables.

* `Formula.rename` gives new names to all variables, also to those of quantifiers.
* `RenamingLemmas.prenex_rename`, `RenamingLemmas.skolemize_rename`: prenex and Skolem forms.
* `RenamingLemmas.matrixForm_subst`, `RenamingLemmas.ofFormula_subst`: matrix normal forms and clauses.
* `matrixForm_of_substitution`: substitution and Skolem forms before or after the matrix normal form.
-/

namespace Clausal

/-! ## Definitions -/

/-- The substitution that puts in variables with new names. -/
def Substitution.ofNames (ρ : String → String) : Substitution :=
  fun x => .var (ρ x)

/-- Gives new names to all variables, free or bound, and to those of the quantifiers. -/
def Formula.rename (ρ : String → String) : Formula → Formula
  | .atom p => .atom (p.subst (Substitution.ofNames ρ))
  | .neg f => .neg (f.rename ρ)
  | .junction op a b rest => .junction op (a.rename ρ) (b.rename ρ) (rest.map (rename ρ))
  | .imp a b => .imp (a.rename ρ) (b.rename ρ)
  | .iff a b => .iff (a.rename ρ) (b.rename ρ)
  | .quant q x f => .quant q (ρ x) (f.rename ρ)

/-- Gives new names to the variables of a prefix. -/
def Prefix.rename (ρ : String → String) (bindings : Prefix) : Prefix :=
  bindings.map fun b => { b with name := ρ b.name }

/-- Gives new names to the variables of a prenex form. -/
def PrenexForm.rename (ρ : String → String) (p : PrenexForm) : PrenexForm :=
  ⟨p.quantifiers.rename ρ, p.matrix.subst (Substitution.ofNames ρ)⟩

/-- Gives new names to the variables of Skolem terms, and to those that they stand for. -/
def renameTerms (ρ : String → String) (terms : List (String × Term)) : List (String × Term) :=
  terms.map fun pair => (ρ pair.1, pair.2.subst (Substitution.ofNames ρ))

/-- Replaces the variables of a literal. -/
def Literal.subst (σ : Substitution) (l : Literal) : Literal :=
  { l with atom := l.atom.subst σ }

/-- Replaces the variables of the literals of a clause set. -/
def ClauseSet.subst (σ : Substitution) (cs : ClauseSet) : ClauseSet :=
  cs.map fun c => c.map (Literal.subst σ)

namespace RenamingLemmas

open Formula

variable {op outer : Junctor} {f g l r : Formula} {σ : Substitution} {ρ : String → String}

/-! ## Matrix normal forms -/

theorem literal_subst {polarity : Polarity} {p : Atom} :
    (polarity.literal p).subst σ = polarity.literal (p.subst σ) := by
  cases polarity <;> simp [Polarity.literal, subst]

/-- Substitution is a change of the literals. -/
theorem isLiteralwise_subst (σ : Substitution) : IsLiteralwise .positive (subst σ) where
  literal _ := ShapeLemmas.isLiteral_subst σ
  junction _ _ _ _ := subst_junction

/-- The matrix normal form of a formula with terms put in is that of the formula, with the terms put
in. -/
theorem matrixForm_subst {flat : Bool} (formed : f.matrixForm outer flat = .ok g) :
    (f.subst σ).matrixForm outer flat = .ok (g.subst σ) :=
  LiteralwiseLemmas.matrixForm_change (isLiteralwise_subst σ) formed

/-! ## Clauses -/

theorem ofPart_subst {k : Literal} (read : Literal.ofPart f = .ok k) :
    Literal.ofPart (f.subst σ) = .ok (k.subst σ) := by
  cases f with
  | atom p =>
      cases read
      rw [subst]
      rfl
  | neg f =>
      cases f with
      | atom p =>
          cases read
          rw [subst, subst]
          rfl
      | _ => cases read
  | _ => cases read

theorem clause_ofFormula_subst {c : Clause} (read : Clause.ofFormula f = .ok c) :
    Clause.ofFormula (f.subst σ) = .ok (c.map (Literal.subst σ)) := by
  have parts := MemberLemmas.mapM_eq_ok.mp read
  rw [Clause.ofFormula, ShapeLemmas.spine_subst, MemberLemmas.mapM_eq_ok, List.forall₂_map_left_iff,
    List.forall₂_map_right_iff]
  exact parts.imp fun _ _ => ofPart_subst

/-- The clauses of a formula with terms put in are those of the formula, with the terms put in. -/
theorem ofFormula_subst {cs : ClauseSet} (read : ClauseSet.ofFormula f = .ok cs) :
    ClauseSet.ofFormula (f.subst σ) = .ok (cs.subst σ) := by
  have parts := MemberLemmas.mapM_eq_ok.mp read
  rw [ClauseSet.ofFormula, ShapeLemmas.spine_subst, MemberLemmas.mapM_eq_ok,
    List.forall₂_map_left_iff, ClauseSet.subst, List.forall₂_map_right_iff]
  exact parts.imp fun _ _ => clause_ofFormula_subst

/-- Terms that are put in leave the signs of literals as they are. -/
theorem map_isHorn_subst (cs : ClauseSet) (σ : Substitution) :
    (cs.subst σ).map Clause.isHorn = cs.map Clause.isHorn := by
  rw [ClauseSet.subst, List.map_map]
  refine List.map_congr_left fun c _ => ?_
  rw [Function.comp_apply, Clause.isHorn, Clause.isHorn, Clause.positive, Clause.positive,
    List.filter_map, List.length_map]
  rfl

theorem isHorn_subst (cs : ClauseSet) (σ : Substitution) : (cs.subst σ).isHorn = cs.isHorn := by
  have each : ∀ ds : ClauseSet, ds.isHorn = (ds.map Clause.isHorn).all id := fun ds => by
    rw [ClauseSet.isHorn, List.all_map, Function.id_comp]
  rw [each, map_isHorn_subst, ← each]

/-! ## Prenex forms -/

theorem rename_junction {a b : Formula} {rest : List Formula} :
    (junction op a b rest).rename ρ = .junction op (a.rename ρ) (b.rename ρ) (rest.map (rename ρ)) := by
  rw [rename]

theorem literal_rename {polarity : Polarity} {p : Atom} :
    (polarity.literal p).rename ρ = polarity.literal (p.subst (Substitution.ofNames ρ)) := by
  cases polarity <;> simp [Polarity.literal, rename]

theorem prenex_literal {polarity : Polarity} {p : Atom} :
    (polarity.literal p).prenex = .ok ⟨[], polarity.literal p⟩ := by
  cases polarity <;> simp [Polarity.literal, prenex]

/-- The prenex form of a renamed formula is the prenex form of the formula, renamed. -/
theorem prenex_rename {p : PrenexForm} (pulled : f.prenex = .ok p) :
    (f.rename ρ).prenex = .ok (p.rename ρ) := by
  refine PrenexLemmas.prenex_induction
    (motive := fun f p => (f.rename ρ).prenex = .ok (p.rename ρ)) ?literal ?junction ?quant pulled
  case literal =>
    intro polarity p
    rw [literal_rename, prenex_literal, PrenexForm.rename, literal_subst]
    rfl
  case junction =>
    intro op a b rest a' b' rest' members
    rw [rename_junction, prenex]
    refine MemberLemmas.membersM_eq_ok.mpr
      ⟨a'.rename ρ, b'.rename ρ, rest'.map (PrenexForm.rename ρ), ?_, ?_⟩
    · simp [PrenexForm.rename, Prefix.rename, List.map_flatMap, List.flatMap_map]
    · exact MemberLemmas.forall₂_map_members (members.imp fun _ _ => And.right)
  case quant =>
    intro q x f p _ ih
    rw [rename, prenex, ih]
    rfl

/-! ## Skolem forms -/

section
variable {stems : SkolemStems} {universals : List String} {constants functions : Nat}
  {bindings : Prefix} {terms : List (String × Term)} {m : Formula} {names : List String}

/-- The Skolem terms for renamed variables are those for the variables, renamed. -/
theorem skolemTerms_rename (ρ : String → String) (stems : SkolemStems) (universals : List String)
    (constants functions : Nat) (bindings : Prefix) :
    skolemTerms stems (universals.map ρ) constants functions (bindings.rename ρ) =
      renameTerms ρ (skolemTerms stems universals constants functions bindings) := by
  induction universals, constants, functions, bindings using skolemTerms.induct with
  | case1 => rfl
  | case2 universals constants functions x inner ih =>
      rw [List.map_append] at ih
      rw [skolemTerms, ← ih]
      rfl
  | case3 universals constants functions x inner empty ih =>
      have empty' : (universals.map ρ).isEmpty := by rwa [List.isEmpty_map]
      rw [skolemTerms, if_pos empty, renameTerms, List.map_cons, ← renameTerms, ← ih, Prefix.rename,
        List.map_cons, skolemTerms, if_pos empty', Term.subst]
      rfl
  | case4 universals constants functions x inner nonempty ih =>
      have nonempty' : ¬ (universals.map ρ).isEmpty := by rwa [List.isEmpty_map]
      have arguments : (universals.map ρ).map Term.var =
          (universals.map Term.var).map (Term.subst (Substitution.ofNames ρ)) := by
        rw [List.map_map, List.map_map]
        exact List.map_congr_left fun y _ => by
          rw [Function.comp_apply, Function.comp_apply, Term.subst, Substitution.ofNames]
      rw [skolemTerms, if_neg nonempty, renameTerms, List.map_cons, ← renameTerms, ← ih, Prefix.rename,
        List.map_cons, skolemTerms, if_neg nonempty', arguments, Term.subst]
      rfl

/-- The Skolem terms stand for variables of the prefix, and contain such variables only, besides the
universal ones before it. -/
theorem mem_of_skolemTerms {pair : String × Term}
    (found : pair ∈ skolemTerms stems universals constants functions bindings) :
    pair.1 ∈ bindings.names ∧
      ∀ y ∈ pair.2.variableNames, y ∈ universals ∨ y ∈ bindings.names := by
  induction bindings generalizing universals constants functions with
  | nil => exact absurd found List.not_mem_nil
  | cons b inner ih =>
      obtain ⟨q, x⟩ := b
      simp only [Prefix.names_cons, List.mem_cons]
      cases q with
      | all =>
          obtain ⟨named, within⟩ := ih found
          refine ⟨.inr named, fun y inside => ?_⟩
          have position := within y inside
          rw [List.mem_append, List.mem_singleton] at position
          tauto
      | ex =>
          obtain ⟨g, constants', functions', terms, _⟩ :=
            SkolemLemmas.skolemTerms_ex stems universals constants functions x inner
          rw [terms, List.mem_cons] at found
          rcases found with rfl | later
          · refine ⟨.inl rfl, fun y inside => .inl ?_⟩
            rwa [SkolemLemmas.variableNames_skolem_term] at inside
          · obtain ⟨named, within⟩ := ih later
            exact ⟨.inr named, fun y inside => (within y inside).imp_right .inr⟩

/-- Names that do not coincide for the variables in play may be given before or after a term is put
in. -/
theorem subst_single_rename {x : String} {t : Term} (quantifierFree : m.IsQuantifierFree)
    (apart : ∀ y ∈ m.free [], ρ y = ρ x → y = x) :
    (m.subst (Substitution.single x t)).subst (Substitution.ofNames ρ) =
      (m.subst (Substitution.ofNames ρ)).subst
        (Substitution.single (ρ x) (t.subst (Substitution.ofNames ρ))) := by
  rw [SubstitutionLemmas.subst_subst quantifierFree, SubstitutionLemmas.subst_subst quantifierFree]
  refine SubstitutionLemmas.subst_congr fun y found => ?_
  rw [Substitution.ofNames, Term.subst]
  by_cases same : y = x
  · rw [same, SubstitutionLemmas.single_self, SubstitutionLemmas.single_self]
  · rw [SubstitutionLemmas.single_of_ne same,
      SubstitutionLemmas.single_of_ne fun equal => same (apart y found equal), Term.subst]
    rfl

/-- Names that do not coincide for the variables in play may be given before or after several terms
are put in, one after the other. -/
theorem substEach_rename (quantifierFree : m.IsQuantifierFree)
    (apart : ∀ x ∈ names, ∀ y ∈ names, ρ x = ρ y → x = y) (inside : ∀ x ∈ m.free [], x ∈ names)
    (listed : ∀ pair ∈ terms, pair.1 ∈ names ∧ ∀ y ∈ pair.2.variableNames, y ∈ names) :
    (m.substEach terms).subst (Substitution.ofNames ρ) =
      (m.subst (Substitution.ofNames ρ)).substEach (renameTerms ρ terms) := by
  induction terms generalizing m with
  | nil => rfl
  | cons pair terms ih =>
      rw [List.forall_mem_cons] at listed
      obtain ⟨⟨named, within⟩, listed⟩ := listed
      have inside' : ∀ x ∈ (m.subst (Substitution.single pair.1 pair.2)).free [], x ∈ names := by
        intro x found
        rcases SubstitutionLemmas.mem_free_single quantifierFree found with ⟨old, _⟩ | new
        · exact inside x old
        · exact within x new
      have rest := ih (SubstitutionLemmas.isQuantifierFree_subst quantifierFree) inside' listed
      rw [subst_single_rename quantifierFree fun y found => apart y (inside y found) _ named] at rest
      exact rest

/-- The Skolem form for a renamed prefix and matrix is the Skolem form for the prefix and the matrix,
renamed, if the names do not coincide for the variables in play. -/
theorem skolemize_rename {k : SkolemForm} (quantifierFree : m.IsQuantifierFree)
    (arrowFree : m.IsArrowFree)
    (apart : ∀ x ∈ names, ∀ y ∈ names, ρ x = ρ y → x = y) (inside : ∀ x ∈ m.free [], x ∈ names)
    (bound : ∀ x ∈ bindings.names, x ∈ names) (made : skolemize stems bindings m = .ok k) :
    skolemize stems (bindings.rename ρ) (m.subst (Substitution.ofNames ρ)) =
      .ok ⟨k.matrix.subst (Substitution.ofNames ρ), renameTerms ρ k.terms⟩ := by
  rw [SkolemLemmas.skolemize_eq quantifierFree arrowFree] at made
  cases made
  have terms : skolemTerms stems [] 1 1 (bindings.rename ρ) =
      renameTerms ρ (skolemTerms stems [] 1 1 bindings) := skolemTerms_rename ρ stems [] 1 1 bindings
  have listed : ∀ pair ∈ skolemTerms stems [] 1 1 bindings,
      pair.1 ∈ names ∧ ∀ y ∈ pair.2.variableNames, y ∈ names := by
    intro pair found
    obtain ⟨named, within⟩ := mem_of_skolemTerms found
    refine ⟨bound _ named, fun y inside => bound y ?_⟩
    exact (within y inside).resolve_left List.not_mem_nil
  rw [SkolemLemmas.skolemize_eq (SubstitutionLemmas.isQuantifierFree_subst quantifierFree)
    (SubstitutionLemmas.isArrowFree_subst arrowFree), terms,
    ← substEach_rename quantifierFree apart inside listed]

/-- Several terms may be put in, one after the other, before or after a formula is brought into matrix
normal form. -/
theorem matrixForm_substEach {flat : Bool} (terms : List (String × Term))
    (formed : m.matrixForm outer flat = .ok g) :
    (m.substEach terms).matrixForm outer flat = .ok (g.substEach terms) := by
  induction terms generalizing m g with
  | nil => exact formed
  | cons pair terms ih => exact ih (matrixForm_subst formed)

/-- The Skolem form may be made before or after the matrix normal form. -/
theorem exists_skolemize_matrixForm {flat : Bool} (stems : SkolemStems) (bindings : Prefix)
    (literals : ∀ l ∈ m.leaves, l.IsLiteral) (formed : m.matrixForm outer flat = .ok g) :
    ∃ k k', skolemize stems bindings m = .ok k ∧ skolemize stems bindings g = .ok k' ∧
      k.matrix.matrixForm outer flat = .ok k'.matrix ∧ k.terms = k'.terms := by
  obtain ⟨quantifierFree, normal⟩ := SpineLemmas.leaves_isLiteral_iff.mp literals
  obtain ⟨quantifierFree', normal'⟩ :=
    SpineLemmas.leaves_isLiteral_iff.mp (MatrixLemmas.isLiteral_of_matrixForm formed)
  have arrowFree := NegationLemmas.isArrowFree_of_isNegationNormal normal
  have arrowFree' := NegationLemmas.isArrowFree_of_isNegationNormal normal'
  exact ⟨_, _, SkolemLemmas.skolemize_eq quantifierFree arrowFree,
    SkolemLemmas.skolemize_eq quantifierFree' arrowFree', matrixForm_substEach _ formed, rfl⟩

end

end RenamingLemmas

/-! ## Main result -/

open RenamingLemmas in
/-- Terms may be put into a quantifier-free formula in negation normal form before or after it is brought
into conjunctive or disjunctive normal form. If it is a conjunction of disjunctions, they may be put in
before or after its clauses are read, and the same of these are Horn. Therefore its Skolem form below any
prefix, whose variables may repeat, has as its conjunctive normal form the Skolem form of the conjunctive
normal form: the clauses are the same in either order. -/
theorem matrixForm_of_substitution {m : Formula} (quantifierFree : m.IsQuantifierFree)
    (normal : m.IsNegationNormal) :
    (∀ outer flat σ, ∃ g, m.matrixForm outer flat = .ok g ∧
      (m.subst σ).matrixForm outer flat = .ok (g.subst σ)) ∧
    (m.IsMatrix .conj → ∀ σ, ∃ cs, ClauseSet.ofFormula m = .ok cs ∧
      ClauseSet.ofFormula (m.subst σ) = .ok (cs.subst σ) ∧
      (cs.subst σ).map Clause.isHorn = cs.map Clause.isHorn ∧ (cs.subst σ).isHorn = cs.isHorn) ∧
    ∀ flat stems bindings, ∃ g k k' cs, m.matrixForm .conj flat = .ok g ∧
      skolemize stems bindings m = .ok k ∧ skolemize stems bindings g = .ok k' ∧
      k.matrix.matrixForm .conj flat = .ok k'.matrix ∧ k.terms = k'.terms ∧
      ClauseSet.ofFormula k'.matrix = .ok cs := by
  refine ⟨fun outer flat σ => ?_, fun shaped σ => ?_, fun flat stems bindings => ?_⟩
  · obtain ⟨g, formed⟩ := MatrixLemmas.exists_matrixForm outer flat quantifierFree normal
    exact ⟨g, formed, matrixForm_subst formed⟩
  · obtain ⟨cs, read, -⟩ := ShapeLemmas.exists_ofFormula shaped
    exact ⟨cs, read, ofFormula_subst read, map_isHorn_subst cs σ, isHorn_subst cs σ⟩
  · obtain ⟨g, formed⟩ := MatrixLemmas.exists_matrixForm .conj flat quantifierFree normal
    obtain ⟨k, k', before, after, same, terms⟩ := exists_skolemize_matrixForm stems bindings
      (SpineLemmas.leaves_isLiteral_iff.mpr ⟨quantifierFree, normal⟩) formed
    obtain ⟨cs, read, -⟩ := ShapeLemmas.exists_ofFormula (ShapeLemmas.isMatrix_matrixForm same)
    exact ⟨g, k, k', cs, formed, before, after, same, terms, read⟩

/-- The variable `y` is bound twice, and for `x` a constant is made. The literals `P(x)` and `P(y)` of the
first clause become equal when the same term is put in for both variables, and both stay. -/
theorem matrixForm_of_substitution_repeated :
    let m : Formula := .disj (.atom ⟨"P", [.var "x"]⟩)
      (.conj (.atom ⟨"P", [.var "y"]⟩) (.neg (.atom ⟨"Q", [.var "x"]⟩)))
    (∃ g, m.matrixForm .conj false = .ok g ∧
      (m.subst fun _ => .var "z").matrixForm .conj false = .ok (g.subst fun _ => .var "z") ∧
      ClauseSet.ofFormula (g.subst fun _ => .var "z") =
        .ok [[⟨false, ⟨"P", [.var "z"]⟩⟩, ⟨false, ⟨"P", [.var "z"]⟩⟩],
          [⟨false, ⟨"P", [.var "z"]⟩⟩, ⟨true, ⟨"Q", [.var "z"]⟩⟩]]) ∧
    ∃ g k k', m.matrixForm .conj false = .ok g ∧
      skolemize {} [⟨.ex, "x"⟩, ⟨.all, "y"⟩, ⟨.ex, "y"⟩] m = .ok k ∧
      skolemize {} [⟨.ex, "x"⟩, ⟨.all, "y"⟩, ⟨.ex, "y"⟩] g = .ok k' ∧
      k.matrix.matrixForm .conj false = .ok k'.matrix ∧
      ClauseSet.ofFormula k'.matrix =
        .ok [[⟨false, ⟨"P", [.app "c1" []]⟩⟩, ⟨false, ⟨"P", [.app "f1" [.var "y"]]⟩⟩],
          [⟨false, ⟨"P", [.app "c1" []]⟩⟩, ⟨true, ⟨"Q", [.app "c1" []]⟩⟩]] := by
  intro m
  have quantifierFree : m.IsQuantifierFree := by simp [m, Formula.IsQuantifierFree]
  have normal : m.IsNegationNormal := by simp [m, Formula.IsNegationNormal]
  have evaluated : m.matrixForm .conj false =
      .ok (.conj (.disj (.atom ⟨"P", [.var "x"]⟩) (.atom ⟨"P", [.var "y"]⟩))
        (.disj (.atom ⟨"P", [.var "x"]⟩) (.neg (.atom ⟨"Q", [.var "x"]⟩)))) := by cbv
  obtain ⟨substituted, -, skolemized⟩ := matrixForm_of_substitution quantifierFree normal
  constructor
  · obtain ⟨g, formed, same⟩ := substituted .conj false fun _ => .var "z"
    refine ⟨g, formed, same, ?_⟩
    cases evaluated.symm.trans formed
    cbv
  · obtain ⟨g, k, k', _, formed, before, after, same, -⟩ :=
      skolemized false {} [⟨.ex, "x"⟩, ⟨.all, "y"⟩, ⟨.ex, "y"⟩]
    refine ⟨g, k, k', formed, before, after, same, ?_⟩
    cases evaluated.symm.trans formed
    have terms : skolemTerms {} [] 1 1 [⟨.ex, "x"⟩, ⟨.all, "y"⟩, ⟨.ex, "y"⟩] =
        [("x", .app "c1" []), ("y", .app "f1" [.var "y"])] := by decide
    rw [SkolemLemmas.skolemize_eq (by simp [Formula.IsQuantifierFree])
      (by simp [Formula.IsArrowFree]), terms] at after
    cases after
    simp only [Formula.substEach, List.foldl_cons, List.foldl_nil]
    cbv

end Clausal
