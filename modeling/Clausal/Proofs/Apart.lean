import Mathlib.Algebra.GroupWithZero.Nat
import Mathlib.Data.List.GetD
import Clausal.Proofs.FreshName
import Clausal.Proofs.NegationNormal
import Clausal.Value.Steps

/-!
# Renaming apart

Renaming every quantifier keeps the meaning, because the new names differ from one another and from
all names of the formula. After it, no variable has two quantifiers, and no free variable has one.

* `Substitution.Avoids`: the names from a number on are not among the variables that a substitution
  puts in for free variables.
* `ApartLemmas.holds_relabel` is the invariant that carries the renaming below a quantifier: the new
  names around a formula are recorded in the substitution, and those to come are avoided by it.
* `ApartLemmas.holds_renameApart`, `ApartLemmas.nodup_renameApart`, `ApartLemmas.free_renameApart`,
  `ApartLemmas.disjoint_renameApart`: what renaming apart yields.
-/

namespace Clausal

/-- None of the names `label start`, `label (start + 1)` and so on below `bound` is a variable of a
term that `σ` puts in for one of the variables `names`. -/
def Substitution.Avoids (σ : Substitution) (names : List String) (label : Nat → String)
    (start bound : Nat) : Prop :=
  ∀ i, start ≤ i → i < bound → ∀ y ∈ names, label i ∉ (σ y).variableNames

/-- A substitution that puts variables in for variables. -/
def Substitution.IsRenaming (σ : Substitution) : Prop :=
  ∀ x, ∃ y, σ x = .var y

/-- The names with numbers below `bound` differ from one another. -/
def DistinctLabels (label : Nat → String) (bound : Nat) : Prop :=
  ∀ i j, i < bound → j < bound → label i = label j → i = j

namespace ApartLemmas

open Formula

variable {label : Nat → String} {σ : Substitution} {start bound : Nat}

/-! ## Numbers of quantifiers -/

theorem quantifiers_junction {op : Junctor} {a b : Formula} {rest : List Formula} :
    (junction op a b rest).quantifiers = ((a :: b :: rest).map quantifiers).sum := by
  rw [quantifiers, ← List.sum_eq_foldr, List.map_cons, List.map_cons, List.sum_cons, List.sum_cons,
    Nat.add_assoc]

/-- The members of a renamed junction are renamed one after the other. -/
theorem relabelList_members {a b : Formula} {rest : List Formula} :
    a.relabel label σ start :: b.relabel label σ (start + a.quantifiers) ::
        relabelList label σ (start + a.quantifiers + b.quantifiers) rest =
      relabelList label σ start (a :: b :: rest) := by
  rw [relabelList, relabelList]

/-- Each formula of a list is renamed with numbers that lie in the range of the whole list. -/
theorem forall₂_relabelList {R : Formula → Formula → Prop} {fs : List Formula}
    (within : start + (fs.map quantifiers).sum ≤ bound)
    (each : ∀ f ∈ fs, ∀ k, start ≤ k → k + f.quantifiers ≤ bound → R f (f.relabel label σ k)) :
    List.Forall₂ R fs (relabelList label σ start fs) := by
  induction fs generalizing start with
  | nil => rw [relabelList]; exact .nil
  | cons f fs ih =>
      rw [List.map_cons, List.sum_cons] at within
      rw [relabelList]
      refine .cons (each f List.mem_cons_self start (Nat.le_refl _) (by omega)) (ih (by omega) ?_)
      intro g member k above below
      exact each g (List.mem_cons_of_mem _ member) k (by omega) below

/-! ## Below a quantifier -/

namespace Avoids

theorem mono {names names' : List String} {start' : Nat} (avoids : σ.Avoids names label start bound)
    (fewer : ∀ y ∈ names', y ∈ names) (later : start ≤ start') :
    σ.Avoids names' label start' bound :=
  fun i above below y member => avoids i (Nat.le_trans later above) below y (fewer y member)

/-- Recording the new name of a quantifier avoids the names that come after it. -/
theorem record {q : Quantifier} {x : String} {f : Formula} (distinct : DistinctLabels label bound)
    (inside : start < bound) (avoids : σ.Avoids ((quant q x f).free []) label start bound) :
    Substitution.Avoids (assign σ x (.var (label start))) (f.free []) label (start + 1) bound := by
  intro i above below y found
  by_cases same : y = x
  · rw [same, assign_self, Term.variableNames, List.mem_singleton]
    intro again
    have := distinct i start below inside again
    omega
  · rw [assign_of_ne same]
    exact avoids i (by omega) below y (MeaningLemmas.mem_free_quant.mpr ⟨found, same⟩)

end Avoids

/-! ## Meaning -/

/-- Renaming with distinct names that the substitution avoids acts as the substitution. -/
theorem holds_relabel {f : Formula} (distinct : DistinctLabels label bound)
    (within : start + f.quantifiers ≤ bound) (avoids : σ.Avoids (f.free []) label start bound)
    {D : Type u} (I : Interpretation D) (s : String → D) :
    (f.relabel label σ start).Holds I s ↔ f.Holds I fun y => (σ y).value I s := by
  induction f using Formula.rec_memberList generalizing σ start s with
  | atom p =>
      rw [relabel, Holds, Holds]
      exact MeaningLemmas.holds_subst_atom
  | neg f ih =>
      rw [quantifiers] at within
      rw [free] at avoids
      rw [relabel, Holds, Holds, ih within avoids]
  | junction op a b rest ih =>
      rw [quantifiers_junction] at within
      rw [relabel, holds_junction_iff, holds_junction_iff, relabelList_members]
      refine (JoinLemmas.joins_congr_forall₂ (forall₂_relabelList within ?_)).symm
      intro f member k above below
      exact (ih f member below (Avoids.mono avoids (fun y => mem_free_junction member) above) s).symm
  | imp a b iha ihb | iff a b iha ihb =>
      rw [quantifiers] at within
      rw [free] at avoids
      have left := iha (by omega) (Avoids.mono avoids (by simp +contextual) (Nat.le_refl _)) s
      have right : (b.relabel label σ (start + a.quantifiers)).Holds I s ↔ _ :=
        ihb (by omega) (Avoids.mono avoids (by simp +contextual) (Nat.le_add_right ..)) s
      rw [relabel, Holds, Holds, left, right]
  | quant q x f ih =>
      rw [quantifiers] at within
      rw [relabel, Holds, Holds]
      refine BindLemmas.binds_congr fun d => ?_
      refine (ih (by omega) (Avoids.record distinct (by omega) avoids) _).trans ?_
      refine MeaningLemmas.holds_congr fun y found => ?_
      by_cases same : y = x
      · rw [same, assign_self, assign_self, Term.value, assign_self]
      · rw [assign_of_ne same, assign_of_ne same]
        -- The new name is not in the terms for the other variables, so that it captures nothing.
        refine MeaningLemmas.value_congr fun z inside => assign_of_ne fun captured => ?_
        have outside := avoids start (Nat.le_refl _) (by omega) y
          (MeaningLemmas.mem_free_quant.mpr ⟨found, same⟩)
        exact outside (captured ▸ inside)

/-! ## Variables -/

/-- The quantifiers get the names with the numbers from `start` on, in their order. -/
theorem quantified_relabel (f : Formula) (label : Nat → String) (σ : Substitution) (start : Nat) :
    (f.relabel label σ start).quantified = (List.range' start f.quantifiers).map label := by
  induction f using Formula.rec_memberList generalizing σ start with
  | atom p => rw [relabel, quantified, quantifiers, List.range'_zero, List.map_nil]
  | neg f ih => rw [relabel, quantified, quantifiers, ih]
  | junction op a b rest ih =>
      rw [relabel, quantified_junction, relabelList_members, quantifiers_junction]
      generalize a :: b :: rest = fs at ih
      induction fs generalizing start with
      | nil => rfl
      | cons f fs ihs =>
          -- The numbers of the later members go on where those of the first end.
          rw [relabelList, List.flatMap_cons, ih f List.mem_cons_self,
            ihs _ fun g member => ih g (List.mem_cons_of_mem _ member), List.map_cons, List.sum_cons,
            ← List.map_append, List.range'_append_1]
  | imp a b iha ihb | iff a b iha ihb =>
      rw [relabel, quantified, quantifiers, iha, ihb, ← List.map_append, List.range'_append_1]
  | quant q x f ih =>
      rw [relabel, quantified, quantifiers, ih, List.range'_succ, List.map_cons]

/-- The free variables after renaming are those of the terms that the substitution puts in. -/
theorem free_relabel {f : Formula} (distinct : DistinctLabels label bound)
    (within : start + f.quantifiers ≤ bound) (avoids : σ.Avoids (f.free []) label start bound) :
    (f.relabel label σ start).free [] = (f.free []).flatMap fun y => (σ y).variableNames := by
  induction f using Formula.rec_memberList generalizing σ start with
  | atom p => simpa [free, relabel] using MeaningLemmas.atom_variableNames_subst σ p
  | neg f ih =>
      rw [quantifiers] at within
      rw [free] at avoids
      rw [relabel, free, free, ih within avoids]
  | junction op a b rest ih =>
      rw [quantifiers_junction] at within
      rw [relabel, free_junction, free_junction, relabelList_members, List.flatMap_assoc]
      refine (MemberLemmas.flatMap_eq_flatMap_of_forall₂ (forall₂_relabelList within ?_)).symm
      intro f member k above below
      exact (ih f member below (Avoids.mono avoids (fun y => mem_free_junction member) above)).symm
  | imp a b iha ihb | iff a b iha ihb =>
      rw [quantifiers] at within
      rw [free] at avoids
      have left := iha (by omega) (Avoids.mono avoids (by simp +contextual) (Nat.le_refl _))
      have right : (b.relabel label σ (start + a.quantifiers)).free [] = _ :=
        ihb (by omega) (Avoids.mono avoids (by simp +contextual) (Nat.le_add_right ..))
      rw [relabel, free, free, List.flatMap_append, left, right]
  | quant q x f ih =>
      rw [quantifiers] at within
      rw [relabel, free, free, MeaningLemmas.free_eq_filter _ [label start],
        MeaningLemmas.free_eq_filter f [x], ih (by omega) (Avoids.record distinct (by omega) avoids)]
      refine MeaningLemmas.filter_flatMap_bound (assign_self ..) fun y found differ => ?_
      refine ⟨assign_of_ne differ, avoids start (Nat.le_refl _) (by omega) y ?_⟩
      exact MeaningLemmas.mem_free_quant.mpr ⟨found, differ⟩

/-! ## Symbols and shape -/

theorem symbols_subst_term {t : Term} (renames : σ.IsRenaming) : (t.subst σ).symbols = t.symbols := by
  induction t using Term.variableNames.induct with
  | case1 x =>
      obtain ⟨y, same⟩ := renames x
      rw [Term.subst, same, Term.symbols, Term.symbols]
  | case2 f ts ih =>
      rw [Term.subst, Term.symbols, Term.symbols, List.length_map, List.flatMap_map]
      exact congrArg _ (List.flatMap_congr ih)

theorem symbols_subst_atom {p : Atom} (renames : σ.IsRenaming) :
    (p.subst σ).symbols = p.symbols := by
  rw [Atom.subst, Atom.symbols, Atom.symbols, List.flatMap_map]
  exact List.flatMap_congr fun t _ => symbols_subst_term renames

theorem isRenaming_record (renames : σ.IsRenaming) (x y : String) :
    Substitution.IsRenaming (assign σ x (.var y)) := by
  intro z
  by_cases same : z = x
  · exact ⟨y, by rw [same, assign_self]⟩
  · rw [assign_of_ne same]
    exact renames z

/-- Renaming variables changes no function symbol. -/
theorem symbols_relabel {f : Formula} (renames : σ.IsRenaming) :
    (f.relabel label σ start).symbols = f.symbols := by
  induction f using Formula.rec_memberList generalizing σ start with
  | atom p => simpa [relabel, Formula.symbols, atoms] using symbols_subst_atom renames
  | neg f ih => rw [relabel, symbols_neg, symbols_neg, ih renames]
  | junction op a b rest ih =>
      rw [relabel, symbols_junction, symbols_junction, relabelList_members]
      refine (MemberLemmas.flatMap_eq_flatMap_of_forall₂
        (forall₂_relabelList (Nat.le_refl _) fun f member k _ _ => ?_)).symm
      exact (ih f member renames).symm
  | imp a b iha ihb => rw [relabel, symbols_imp, symbols_imp, iha renames, ihb renames]
  | iff a b iha ihb => rw [relabel, symbols_iff, symbols_iff, iha renames, ihb renames]
  | quant q x f ih =>
      rw [relabel, symbols_quant, symbols_quant, ih (isRenaming_record renames x _)]

theorem isNegationNormal_relabel {f : Formula} (normal : f.IsNegationNormal) :
    (f.relabel label σ start).IsNegationNormal := by
  induction f using Formula.rec_memberList generalizing σ start with
  | atom p => rw [relabel, IsNegationNormal]; trivial
  | neg f _ =>
      rw [IsNegationNormal] at normal
      obtain ⟨p, rfl⟩ := normal
      rw [relabel, relabel, IsNegationNormal]
      exact ⟨_, rfl⟩
  | junction op a b rest ih =>
      rw [isNegationNormal_junction] at normal
      rw [relabel, isNegationNormal_junction, relabelList_members]
      exact MemberLemmas.forall_mem_of_forall₂
        (forall₂_relabelList (Nat.le_refl _) fun f member k _ _ => ih f member (normal f member))
        fun _ _ _ normal => normal
  | imp a b _ _ | iff a b _ _ =>
      rw [IsNegationNormal] at normal
      exact normal.elim
  | quant q x f ih =>
      rw [IsNegationNormal] at normal
      rw [relabel, IsNegationNormal]
      exact ih normal

/-! ## Renaming with fresh names -/

section
variable (base : String) (f : Formula)

/-- The new variables are the fresh names, in the order of the quantifiers. -/
theorem quantified_renameApart :
    (f.renameApart base).formula.quantified = freshNames base f.variableNames 0 f.quantifiers := by
  rw [renameApart, quantified_relabel]
  refine List.ext_getElem ?_ fun i before inside => ?_
  · rw [List.length_map, List.length_range', FreshNameLemmas.length_freshNames]
  · rw [List.getElem_map, List.getElem_range', Nat.zero_add, Nat.one_mul, List.getD_eq_getElem]

theorem nodup_renameApart : (f.renameApart base).formula.quantified.Nodup := by
  rw [quantified_renameApart]
  exact FreshNameLemmas.nodup_freshNames ..

theorem not_mem_variableNames_of_renamed {x : String}
    (renamed : x ∈ (f.renameApart base).formula.quantified) : x ∉ f.variableNames := by
  rw [quantified_renameApart] at renamed
  exact FreshNameLemmas.not_mem_used_of_mem_freshNames renamed

theorem distinctLabels_freshNames (used : List String) (n count : Nat) :
    DistinctLabels ((freshNames base used n count).getD · base) count := by
  intro i j first second same
  have length := FreshNameLemmas.length_freshNames base used n count
  simp only at same
  rw [List.getD_eq_getElem _ _ (length.symm ▸ first), List.getD_eq_getElem _ _ (length.symm ▸ second)]
    at same
  exact (FreshNameLemmas.nodup_freshNames base used n count).getElem_inj_iff.mp same

theorem avoids_freshNames :
    Substitution.Avoids Substitution.identity (f.free [])
      ((freshNames base f.variableNames 0 f.quantifiers).getD · base) 0 f.quantifiers := by
  intro i _ below y found
  have length := FreshNameLemmas.length_freshNames base f.variableNames 0 f.quantifiers
  simp only
  rw [List.getD_eq_getElem _ _ (length.symm ▸ below), Substitution.identity, Term.variableNames,
    List.mem_singleton]
  intro same
  refine FreshNameLemmas.not_mem_used_of_mem_freshNames (List.getElem_mem (length.symm ▸ below)) ?_
  rw [same]
  exact MeaningLemmas.mem_variableNames_of_free found

/-- Renaming apart keeps the meaning. -/
theorem holds_renameApart {D : Type u} (I : Interpretation D) (s : String → D) :
    (f.renameApart base).formula.Holds I s ↔ f.Holds I s := by
  unfold renameApart
  refine (holds_relabel (distinctLabels_freshNames base f.variableNames 0 f.quantifiers)
    (Nat.le_of_eq (Nat.zero_add _)) (avoids_freshNames base f) I s).trans
    (MeaningLemmas.holds_congr fun x _ => ?_)
  rw [Substitution.identity, Term.value]

/-- Renaming apart keeps the free variables, in their order. -/
theorem free_renameApart : (f.renameApart base).formula.free [] = f.free [] := by
  unfold renameApart
  refine (free_relabel (distinctLabels_freshNames base f.variableNames 0 f.quantifiers)
    (Nat.le_of_eq (Nat.zero_add _)) (avoids_freshNames base f)).trans ?_
  simp [Substitution.identity, Term.variableNames]

/-- After renaming apart no free variable has a quantifier. -/
theorem disjoint_renameApart :
    ∀ x ∈ (f.renameApart base).formula.free [], x ∉ (f.renameApart base).formula.quantified := by
  intro x found renamed
  rw [free_renameApart] at found
  exact not_mem_variableNames_of_renamed base f renamed
    (MeaningLemmas.mem_variableNames_of_free found)

theorem symbols_renameApart : (f.renameApart base).formula.symbols = f.symbols :=
  symbols_relabel fun x => ⟨x, rfl⟩

theorem isNegationNormal_renameApart (normal : f.IsNegationNormal) :
    (f.renameApart base).formula.IsNegationNormal :=
  isNegationNormal_relabel normal

end

/-! ## Bases that are looked at only when needed -/

/-- Where there is no quantifier to rename, nothing changes. -/
theorem relabel_identity {f : Formula} (unquantified : f.quantifiers = 0) :
    f.relabel label Substitution.identity start = f := by
  induction f using Formula.rec_memberList generalizing start with
  | atom p =>
      rw [relabel, Atom.subst, TermLemmas.map_subst_identity fun t _ => TermLemmas.subst_identity t]
  | neg f ih =>
      rw [quantifiers] at unquantified
      rw [relabel, ih unquantified]
  | junction op a b rest ih =>
      rw [quantifiers_junction, List.sum_eq_zero_iff_forall_eq_nat] at unquantified
      have members : List.Forall₂ (· = ·) (a :: b :: rest)
          (relabelList label Substitution.identity start (a :: b :: rest)) :=
        forall₂_relabelList (Nat.le_refl _) fun f member k _ _ =>
          (ih f member (unquantified _ (List.mem_map_of_mem member))).symm
      rw [List.forall₂_eq_eq_eq, ← relabelList_members] at members
      injection members with first others
      injection others with second others
      rw [relabel, ← first, ← second, ← others]
  | imp a b iha ihb | iff a b iha ihb =>
      rw [quantifiers, Nat.add_eq_zero_iff] at unquantified
      rw [relabel, iha unquantified.1, ihb unquantified.2]
  | quant q x f ih =>
      rw [quantifiers] at unquantified
      exact absurd unquantified (Nat.succ_ne_zero _)

theorem renameApart_of_quantifiers_eq_zero (base : String) {f : Formula}
    (unquantified : f.quantifiers = 0) :
    f.renameApart base = ⟨f, []⟩ := by
  rw [renameApart, relabel_identity unquantified, unquantified, freshNames, List.zip_nil_right]

/-- A base that is a nonempty string is never refused. -/
theorem renameFormula_text {base : String} (named : base ≠ "") (f : Formula) :
    Value.renameFormula (.text base) f = .ok (f.renameApart base) := by
  unfold Value.renameFormula
  split
  case isTrue unquantified => rw [renameApart_of_quantifiers_eq_zero base unquantified]
  case isFalse =>
    have checked : (Value.text base).checkName .variable = .ok base := by
      simp [Value.checkName, named]
    rw [Value.checkHashable_text, checked]
    rfl

theorem renameApart_text {base : String} (named : base ≠ "") (f : Formula) :
    Value.renameApart (.formula f) (.text base) = .ok (f.renameApart base) := by
  change (Value.renameFormula (.text base) f).mapError StepError.construction = _
  rw [renameFormula_text named]
  rfl

/-- Whatever stands for the base, what is not refused is renamed apart. -/
theorem exists_base_of_renameFormula {v : Value} {f : Formula} {r : Renamed}
    (renamed : Value.renameFormula v f = .ok r) : ∃ base, r = f.renameApart base := by
  unfold Value.renameFormula at renamed
  split at renamed
  case isTrue unquantified =>
    exact ⟨"", by rw [renameApart_of_quantifiers_eq_zero "" unquantified, Except.ok.inj renamed]⟩
  case isFalse =>
    obtain ⟨_, _, named⟩ := MemberLemmas.bind_eq_ok.mp renamed
    obtain ⟨base, _, same⟩ := MemberLemmas.bind_eq_ok.mp named
    exact ⟨base, (Except.ok.inj same).symm⟩

end ApartLemmas

end Clausal
