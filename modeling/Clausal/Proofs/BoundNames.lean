import Clausal.Proofs.Renaming
import Clausal.Proofs.Totality
import Clausal.Proofs.Variants

/-!
# The names of bound variables make no difference

Two formulas that differ in the names of their bound variables have prenex forms that differ in the
names of the variables of the prefix: the new names of one formula may be in use in the other. All that
is made of one prenex form is, up to these names, what is made of the other.

* `PrenexForm.renamingTo` puts in the prefix variables of one prenex form for those of another.
* `BoundNameLemmas.relabel_rename`: variants with renamed quantifiers differ in the new names only.
* `BoundNameLemmas.prenex_of_isVariantOf`: the prenex forms of variants.
* `stages_of_isVariantOf`: matrices, normal forms, Skolem forms and clauses of variants.
-/

namespace Clausal

/-! ## Definitions -/

/-- The prenex form that the steps from a formula up to it give, with a base for the new names of bound
variables. -/
def Formula.HasPrenexForm (base : String) (f : Formula) (p : PrenexForm) : Prop :=
  ∃ n r, f.expandIff.expandImp.negationNormal = .ok n ∧
    Value.renameFormula (.text base) n = .ok r ∧ r.formula.prenex = .ok p

/-- Puts in for each variable of the prefix of `p` the variable that stands in its place in the prefix
of `q`, for all of them at once. -/
def PrenexForm.renamingTo (p q : PrenexForm) : Substitution :=
  Substitution.ofPairs (p.quantifiers.names.zip (q.quantifiers.names.map .var))

/-- Where a variable and another refer to the same, below quantifiers for `xs` and for `ys`, the term
that `τ` puts in for the second is the one that `σ` puts in for the first, with new names. -/
def Substitution.Matches (ρ : String → String) (σ τ : Substitution) (names xs ys : List String) :
    Prop :=
  ∀ y ∈ names, ∀ z, locate xs y = locate ys z → (σ y).subst (Substitution.ofNames ρ) = τ z

/-- Two formulas have as many quantifiers as one another, and the new names `ρ` make of the one with
quantifiers renamed to `label` the other with quantifiers renamed to `label'`. -/
def Formula.RelabelsAlike (ρ : String → String) (label label' : Nat → String) (bound : Nat)
    (xs ys : List String) (f g : Formula) : Prop :=
  f.quantifiers = g.quantifiers ∧
    ∀ (σ τ : Substitution) (start : Nat), start + f.quantifiers ≤ bound →
      Substitution.Matches ρ σ τ (f.free []) xs ys →
      (f.relabel label σ start).rename ρ = g.relabel label' τ start

namespace BoundNameLemmas

open Formula

/-! ## Simultaneous renamings -/

/-- Putting in variables for different variables, all at once, is giving them new names. -/
theorem exists_ofNames {xs ys : List String} (distinct : xs.Nodup) (length : xs.length = ys.length) :
    ∃ ρ, Substitution.ofPairs (xs.zip (ys.map .var)) = Substitution.ofNames ρ ∧ xs.map ρ = ys ∧
      ∀ x, x ∉ xs → ρ x = x := by
  induction xs generalizing ys with
  | nil =>
      rw [List.length_nil, eq_comm, List.length_eq_zero_iff] at length
      exact ⟨id, rfl, length.symm, fun _ _ => rfl⟩
  | cons x xs ih =>
      obtain ⟨y, ys, rfl⟩ := List.exists_cons_of_length_eq_add_one length.symm
      rw [List.nodup_cons] at distinct
      obtain ⟨ρ, same, moved, fixed⟩ := ih distinct.2 (Nat.succ.inj length)
      have unlisted : x ∉ (xs.zip (ys.map Term.var)).map (·.1) := by
        intro listed
        obtain ⟨⟨_, t⟩, member, rfl⟩ := List.mem_map.mp listed
        exact distinct.1 (List.of_mem_zip member).1
      refine ⟨assign ρ x y, ?_, ?_, fun z outside => ?_⟩
      · rw [List.map_cons, List.zip_cons_cons, SubstitutionLemmas.ofPairs_cons unlisted, same]
        funext z
        by_cases equal : z = x <;> simp [assign, Substitution.ofNames, equal]
      · have others : xs.map (assign ρ x y) = xs.map ρ :=
          List.map_congr_left fun z member => assign_of_ne fun equal => distinct.1 (equal ▸ member)
        rw [List.map_cons, assign_self, others, moved]
      · rw [List.mem_cons, not_or] at outside
        rw [assign_of_ne outside.1, fixed z outside.2]

/-- New names that differ from one another, and are none of the names that stay, do not coincide. -/
theorem injective_of_map {ρ : String → String} {xs ys zs : List String} (moved : xs.map ρ = ys)
    (distinct : ys.Nodup) (fixed : ∀ z ∈ zs, ρ z = z ∧ z ∉ ys) :
    ∀ x ∈ xs ++ zs, ∀ y ∈ xs ++ zs, ρ x = ρ y → x = y := by
  subst moved
  have clash : ∀ x ∈ xs, ∀ z ∈ zs, ρ x ≠ ρ z := by
    intro x listed z other same
    rw [(fixed z other).1] at same
    exact (fixed z other).2 (same ▸ List.mem_map_of_mem listed)
  intro x inX y inY same
  rcases List.mem_append.mp inX with first | first <;>
    rcases List.mem_append.mp inY with second | second
  · exact List.inj_on_of_nodup_map distinct first second same
  · exact absurd same (clash x first y second)
  · exact absurd same.symm (clash y second x first)
  · rwa [(fixed x first).1, (fixed y second).1] at same

theorem map_getD {ρ : String → String} {xs ys : List String} {i : Nat} (moved : xs.map ρ = ys)
    (inside : i < xs.length) (base : String) : ρ (xs.getD i base) = ys.getD i base := by
  subst moved
  rw [List.getD_eq_getElem _ _ inside, List.getD_eq_getElem _ _ (by rwa [List.length_map]),
    List.getElem_map]

/-! ## Variants with renamed quantifiers -/

section
variable {ρ : String → String} {label label' : Nat → String} {bound : Nat} {σ τ : Substitution}
  {xs ys : List String}

theorem subst_rename_term {t u : Term} (same : t.nameless xs = u.nameless ys)
    (agree : Substitution.Matches ρ σ τ t.variableNames xs ys) :
    (t.subst σ).subst (Substitution.ofNames ρ) = u.subst τ := by
  refine VariantLemmas.term_induction
    (motive := fun t u => Substitution.Matches ρ σ τ t.variableNames xs ys →
      (t.subst σ).subst (Substitution.ofNames ρ) = u.subst τ) ?var ?app same agree
  case var =>
    intro x y same agree
    rw [Term.subst, Term.subst]
    exact agree x (by rw [Term.variableNames, List.mem_singleton]) y same
  case app =>
    intro f ts us arguments agree
    rw [Term.variableNames] at agree
    have each := MemberLemmas.forall₂_of_mem arguments fun t member u ih =>
      ih fun y inside => agree y (List.mem_flatMap.mpr ⟨t, member, inside⟩)
    rw [Term.subst, Term.subst, Term.subst, List.map_map]
    exact congrArg _ (MemberLemmas.map_eq_map_of_forall₂ each)

/-- Below two quantifiers their new names match, and what matched before still does. -/
theorem matches_record {q : Quantifier} {x y l l' : String} {f : Formula} (moved : ρ l = l')
    (agree : Substitution.Matches ρ σ τ ((quant q x f).free []) xs ys) :
    Substitution.Matches ρ (assign σ x (.var l)) (assign τ y (.var l')) (f.free []) (x :: xs)
      (y :: ys) := by
  intro w found z same
  rcases ReferenceLemmas.locate_cons_eq_iff.mp same with ⟨rfl, rfl⟩ | ⟨differ, differ', same⟩
  · rw [assign_self, assign_self, Term.subst, Substitution.ofNames, moved]
  · rw [assign_of_ne differ, assign_of_ne differ']
    exact agree w (MeaningLemmas.mem_free_quant.mpr ⟨found, differ⟩) z same

theorem relabelList_rename {fs gs : List Formula} {start : Nat}
    (members : List.Forall₂ (RelabelsAlike ρ label label' bound xs ys) fs gs)
    (within : start + (fs.map quantifiers).sum ≤ bound)
    (agree : Substitution.Matches ρ σ τ (fs.flatMap (free [])) xs ys) :
    (relabelList label σ start fs).map (rename ρ) = relabelList label' τ start gs := by
  induction members generalizing start with
  | nil => rw [relabelList, relabelList, List.map_nil]
  | cons head _ ih =>
      obtain ⟨count, first⟩ := head
      rw [List.map_cons, List.sum_cons] at within
      rw [List.flatMap_cons] at agree
      rw [relabelList, relabelList, List.map_cons,
        first σ τ start (by omega) fun y found => agree y (List.mem_append_left _ found),
        ih (by omega) fun y found => agree y (List.mem_append_right _ found), count]

/-- Variants whose quantifiers are renamed in two ways differ in the new names only. -/
theorem relabelsAlike {f g : Formula} (moved : ∀ i, i < bound → ρ (label i) = label' i)
    (same : f.nameless xs = g.nameless ys) : RelabelsAlike ρ label label' bound xs ys f g := by
  refine VariantLemmas.variant_induction (motive := RelabelsAlike ρ label label' bound)
    ?atom ?neg ?junction ?imp ?iff ?quant same
  case atom =>
    intro xs ys P ts us terms
    refine ⟨by rw [quantifiers, quantifiers], fun σ τ start _ agree => ?_⟩
    have each := MemberLemmas.forall₂_of_mem terms fun t member u same =>
      subst_rename_term same fun y inside => agree y (mem_free_atom member inside)
    rw [relabel, relabel, rename, Atom.subst, Atom.subst, Atom.subst, List.map_map]
    exact congrArg _ (congrArg _ (MemberLemmas.map_eq_map_of_forall₂ each))
  case neg =>
    intro xs ys f g ih
    refine ⟨by rw [quantifiers, quantifiers, ih.1], fun σ τ start within agree => ?_⟩
    rw [quantifiers] at within
    rw [free] at agree
    rw [relabel, relabel, rename, ih.2 σ τ start within agree]
  case junction =>
    intro xs ys op a b rest a' b' rest' members
    refine ⟨?_, fun σ τ start within agree => ?_⟩
    · rw [ApartLemmas.quantifiers_junction, ApartLemmas.quantifiers_junction,
        MemberLemmas.map_eq_map_of_forall₂ (members.imp fun _ _ => And.left)]
    · rw [ApartLemmas.quantifiers_junction] at within
      rw [free_junction] at agree
      have renamed := relabelList_rename members within agree
      rw [← ApartLemmas.relabelList_members, ← ApartLemmas.relabelList_members, List.map_cons,
        List.map_cons] at renamed
      injection renamed with first renamed
      injection renamed with second others
      rw [relabel, relabel, RenamingLemmas.rename_junction, first, second, others]
  case imp | iff =>
    intro xs ys a b a' b' iha ihb
    refine ⟨by rw [quantifiers, quantifiers, iha.1, ihb.1], fun σ τ start within agree => ?_⟩
    rw [quantifiers] at within
    rw [free] at agree
    rw [relabel, relabel, rename,
      iha.2 σ τ start (by omega) fun y found => agree y (List.mem_append_left _ found),
      ihb.2 σ τ _ (by omega) fun y found => agree y (List.mem_append_right _ found), iha.1]
  case quant =>
    intro xs ys q x y f g ih
    refine ⟨by rw [quantifiers, quantifiers, ih.1], fun σ τ start within agree => ?_⟩
    rw [quantifiers] at within
    have here := moved start (by omega)
    rw [relabel, relabel, rename, here,
      ih.2 _ _ (start + 1) (by omega) (matches_record here agree)]

end

/-! ## Prenex forms of variants -/

section
variable {n m : Formula}

/-- Of variants that are renamed apart one is the other with other names. The names do not coincide for
the new variables and the free ones. -/
theorem exists_rename_renameApart (same : n.nameless [] = m.nameless []) (base : String) :
    ∃ ρ, Substitution.ofPairs ((n.renameApart base).formula.quantified.zip
          ((m.renameApart base).formula.quantified.map .var)) = Substitution.ofNames ρ ∧
      (∀ x ∈ (n.renameApart base).formula.quantified ++ n.free [],
        ∀ y ∈ (n.renameApart base).formula.quantified ++ n.free [], ρ x = ρ y → x = y) ∧
      (n.renameApart base).formula.rename ρ = (m.renameApart base).formula := by
  have count := VariantLemmas.quantifiers_eq same
  have free := VariantLemmas.free_eq same
  have length : (n.renameApart base).formula.quantified.length =
      (m.renameApart base).formula.quantified.length := by
    rw [ApartLemmas.quantified_renameApart, ApartLemmas.quantified_renameApart,
      FreshNameLemmas.length_freshNames, FreshNameLemmas.length_freshNames, count]
  obtain ⟨ρ, put, moved, unmoved⟩ := exists_ofNames (ApartLemmas.nodup_renameApart base n) length
  -- Neither the names for `n` nor those for `m` are among the free variables, which both share.
  have fixed : ∀ x ∈ n.free [], ρ x = x ∧ x ∉ (m.renameApart base).formula.quantified := by
    refine fun x found => ⟨unmoved x fun new => ?_, fun new => ?_⟩
    · exact ApartLemmas.not_mem_variableNames_of_renamed base n new
        (MeaningLemmas.mem_variableNames_of_free found)
    · exact ApartLemmas.not_mem_variableNames_of_renamed base m new
        (MeaningLemmas.mem_variableNames_of_free (free ▸ found))
  refine ⟨ρ, put, injective_of_map moved (ApartLemmas.nodup_renameApart base m) fixed, ?_⟩
  rw [ApartLemmas.quantified_renameApart, ApartLemmas.quantified_renameApart] at moved
  have labels : ∀ i, i < n.quantifiers →
      ρ ((freshNames base n.variableNames 0 n.quantifiers).getD i base) =
        (freshNames base m.variableNames 0 m.quantifiers).getD i base :=
    fun i inside => map_getD moved (by rwa [FreshNameLemmas.length_freshNames]) base
  refine (relabelsAlike labels same).2 Substitution.identity Substitution.identity 0
    (Nat.le_of_eq (Nat.zero_add _)) fun y found z located => ?_
  rw [locate, locate, Reference.free.injEq] at located
  rw [← located, Substitution.identity, Term.subst, Substitution.ofNames, (fixed y found).1]

end

/-- The prenex form of a variant is the prenex form of the formula with other names, put in for the
variables of the prefix all at once. They do not coincide for these variables and the free ones. -/
theorem prenex_of_isVariantOf {f g : Formula} (variant : f.IsVariantOf g) {base : String}
    (named : base ≠ "") :
    ∃ p ρ, f.HasPrenexForm base p ∧ g.HasPrenexForm base (p.rename ρ) ∧
      p.renamingTo (p.rename ρ) = Substitution.ofNames ρ ∧
      p.quantifiers.names.Nodup ∧
      ∀ x ∈ p.quantifiers.names ++ p.toFormula.free [],
        ∀ y ∈ p.quantifiers.names ++ p.toFormula.free [], ρ x = ρ y → x = y := by
  obtain ⟨n, pushed⟩ := NormalFormLemmas.exists_negationNormal f
  obtain ⟨m, pushed'⟩ := NormalFormLemmas.exists_negationNormal g
  have same : n.nameless [] = m.nameless [] :=
    VariantLemmas.nameless_pushNegations
      (VariantLemmas.nameless_expandImp (VariantLemmas.nameless_expandIff variant)) pushed pushed'
  obtain ⟨ρ, put, apart, renamed⟩ := exists_rename_renameApart same base
  have normal := NegationLemmas.isNegationNormal_pushNegations pushed
  obtain ⟨p, pulled⟩ :=
    PrenexLemmas.exists_prenex (ApartLemmas.isNegationNormal_renameApart base n normal)
  have pulled' : (m.renameApart base).formula.prenex = .ok (p.rename ρ) :=
    renamed ▸ RenamingLemmas.prenex_rename pulled
  refine ⟨p, ρ, ⟨n, _, pushed, ApartLemmas.renameFormula_text named n, pulled⟩,
    ⟨m, _, pushed', ApartLemmas.renameFormula_text named m, pulled'⟩, ?_,
    NormalFormLemmas.nodup_names pulled, ?_⟩
  · rw [PrenexForm.renamingTo, PrenexLemmas.names_prenex pulled, PrenexLemmas.names_prenex pulled',
      put]
  · have inPlay : ∀ x ∈ p.quantifiers.names ++ p.toFormula.free [],
        x ∈ (n.renameApart base).formula.quantified ++ n.free [] := by
      intro x found
      rw [List.mem_append, PrenexLemmas.names_prenex pulled] at found
      exact List.mem_append.mpr (found.imp_right (NormalFormLemmas.mem_free_of_prenex pulled))
    exact fun x inX y inY => apart x (inPlay x inX) y (inPlay y inY)

end BoundNameLemmas

/-! ## Everything made of the prenex forms of variants -/

open Formula BoundNameLemmas in
/-- Variants have prenex forms with the same sequence of quantifiers. Put in the variables of the second
prefix for those of the first, all at once, and the matrix, its normal forms, the Skolem forms of these
with their Skolem terms, and the clauses of the first become those of the second, in the same order; the
second is Horn just if the first is. -/
theorem stages_of_isVariantOf {f g : Formula} (variant : f.IsVariantOf g) {base : String}
    (named : base ≠ "") :
    ∃ p q, f.HasPrenexForm base p ∧ g.HasPrenexForm base q ∧
      p.quantifiers.map (·.quantifier) = q.quantifiers.map (·.quantifier) ∧
      p.quantifiers.names.Nodup ∧
      p.matrix.subst (p.renamingTo q) = q.matrix ∧
      ∀ outer flat, ∃ m,
        p.matrix.matrixForm outer flat = .ok m ∧
        q.matrix.matrixForm outer flat = .ok (m.subst (p.renamingTo q)) ∧
        ∀ stems, ∃ k k',
          skolemize stems p.quantifiers m = .ok k ∧
          skolemize stems q.quantifiers (m.subst (p.renamingTo q)) = .ok k' ∧
          k'.matrix = k.matrix.subst (p.renamingTo q) ∧
          k'.terms.map (fun pair => (Term.var pair.1, pair.2)) =
            k.terms.map (fun pair =>
              (p.renamingTo q pair.1, pair.2.subst (p.renamingTo q))) ∧
          (outer = .conj → ∀ h ∈ [m, k.matrix], ∃ cs,
            ClauseSet.ofFormula h = .ok cs ∧
            ClauseSet.ofFormula (h.subst (p.renamingTo q)) = .ok (cs.subst (p.renamingTo q)) ∧
            (cs.subst (p.renamingTo q)).isHorn = cs.isHorn) := by
  obtain ⟨p, ρ, first, second, put, distinct, apart⟩ := prenex_of_isVariantOf variant named
  obtain ⟨_, _, _, _, pulled⟩ := id first
  refine ⟨p, p.rename ρ, first, second, ?_, distinct, by rw [put]; rfl, fun outer flat => ?_⟩
  · rw [PrenexForm.rename, Prefix.rename, List.map_map]
    rfl
  obtain ⟨m, formed⟩ := NormalFormLemmas.exists_matrixForm_of_prenex pulled outer flat
  have quantifierFree := NormalFormLemmas.isQuantifierFree_matrixForm formed
  have arrowFree := NormalFormLemmas.isArrowFree_matrixForm formed
  -- The variables of a normal form are variables of the prefix or free in the prenex form.
  have inside : ∀ x ∈ m.free [], x ∈ p.quantifiers.names ++ p.toFormula.free [] := by
    intro x found
    by_cases bound : x ∈ p.quantifiers.names
    · exact List.mem_append_left _ bound
    · exact List.mem_append_right _ (NormalFormLemmas.mem_free_of_matrixForm pulled formed
        (PrefixLemmas.mem_free_quantify.mpr ⟨found, bound⟩))
  rw [put]
  refine ⟨m, formed, RenamingLemmas.matrixForm_subst formed, fun stems => ?_⟩
  have made : skolemize stems p.quantifiers m =
      .ok ⟨m.substEach (skolemTerms stems [] 1 1 p.quantifiers), _⟩ :=
    SkolemLemmas.skolemize_eq quantifierFree arrowFree
  refine ⟨_, _, made, RenamingLemmas.skolemize_rename quantifierFree arrowFree apart inside
    (fun x => List.mem_append_left _) made, rfl, ?_, ?_⟩
  · rw [renameTerms, List.map_map]
    rfl
  · rintro rfl h member
    have shaped : h.IsMatrix .conj := by
      rw [List.mem_pair] at member
      rcases member with rfl | rfl
      · exact ShapeLemmas.isMatrix_matrixForm formed
      · exact TotalityLemmas.isMatrix_substEach (ShapeLemmas.isMatrix_matrixForm formed) _
    obtain ⟨cs, read, _⟩ := ShapeLemmas.exists_ofFormula shaped
    exact ⟨cs, read, RenamingLemmas.ofFormula_subst read, RenamingLemmas.isHorn_subst cs _⟩

/-- Quantifiers that all bind the base of the new names, and a variant whose variables have other names,
one of which is the first that the quantifiers of the other get: the quantifiers, the matrices, the
Skolem terms and the clauses of both. -/
theorem stages_of_isVariantOf_shadowed :
    let f : Formula := .quant .all "x" (.imp (.atom ⟨"P", [.var "x"]⟩)
      (.quant .ex "x" (.atom ⟨"R", [.var "x", .var "y"]⟩)))
    let g : Formula := .quant .all "x1" (.imp (.atom ⟨"P", [.var "x1"]⟩)
      (.quant .ex "z" (.atom ⟨"R", [.var "z", .var "y"]⟩)))
    ∃ p q m k k' cs, f.HasPrenexForm "x" p ∧ g.HasPrenexForm "x" q ∧
      p.quantifiers.map (·.quantifier) = q.quantifiers.map (·.quantifier) ∧
      p.matrix.subst (p.renamingTo q) = q.matrix ∧
      p.matrix.matrixForm .conj true = .ok m ∧
      skolemize {} p.quantifiers m = .ok k ∧
      skolemize {} q.quantifiers (m.subst (p.renamingTo q)) = .ok k' ∧
      k'.terms.map (fun pair => (Term.var pair.1, pair.2)) =
        k.terms.map (fun pair => (p.renamingTo q pair.1, pair.2.subst (p.renamingTo q))) ∧
      ClauseSet.ofFormula k.matrix = .ok cs ∧
      ClauseSet.ofFormula k'.matrix = .ok (cs.subst (p.renamingTo q)) := by
  intro f g
  have variant : f.IsVariantOf g := by
    simp [f, g, Formula.IsVariantOf, Formula.nameless, Term.nameless, locate, Reference.below]
  obtain ⟨p, q, first, second, sequence, -, same, forms⟩ :=
    stages_of_isVariantOf variant (show "x" ≠ "" by decide)
  obtain ⟨m, formed, -, skolems⟩ := forms .conj true
  obtain ⟨k, k', made, made', matrix, terms, clauses⟩ := skolems {}
  obtain ⟨cs, read, read', -⟩ := clauses rfl k.matrix (by simp)
  exact ⟨p, q, m, k, k', cs, first, second, sequence, same, formed, made, made', terms, read,
    matrix ▸ read'⟩

end Clausal
