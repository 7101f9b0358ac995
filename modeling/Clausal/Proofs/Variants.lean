import Clausal.Formula.Nameless
import Clausal.Proofs.Apart

/-!
# Variants

Variants have the same free variables and as many quantifiers as one another. The steps up to negation
normal form look at no names, so that they make variants of variants, and renaming apart makes a
variant of every formula.

* `ReferenceLemmas`: what an occurrence refers to below one more quantifier.
* `VariantLemmas.variant_induction` is induction over two formulas with one nameless form.
* `VariantLemmas.nameless_expandIff`, `VariantLemmas.nameless_expandImp`,
  `VariantLemmas.nameless_pushNegations`: variants on the way to negation normal form.
* `VariantLemmas.nameless_relabel` is the invariant that carries the renaming below a quantifier;
  `VariantLemmas.isVariantOf_renameApart` is what it says of a formula that is renamed apart.
-/

namespace Clausal

/-- Below quantifiers for `ys`, the terms that `σ` puts in for the variables `names` refer to what these
variables refer to below quantifiers for `xs`. -/
def Substitution.Follows (σ : Substitution) (names xs ys : List String) : Prop :=
  ∀ y ∈ names, (σ y).nameless ys = .ref (locate xs y)

namespace ReferenceLemmas

variable {xs ys : List String} {x y z w : String}

theorem below_injective : Function.Injective Reference.below := by
  intro r s same
  cases r <;> cases s <;> simp_all [Reference.below]

theorem below_ne_binder_zero (r : Reference) : r.below ≠ .binder 0 := by
  cases r <;> simp [Reference.below]

@[simp] theorem locate_self : locate (x :: xs) x = .binder 0 := by
  rw [locate, if_pos rfl]

theorem locate_of_ne (differ : y ≠ x) : locate (x :: xs) y = (locate xs y).below := by
  rw [locate, if_neg differ]

/-- Below one more quantifier on both sides, occurrences refer to the same if both refer to the new
quantifiers, or if neither does and they referred to the same before. -/
theorem locate_cons_eq_iff :
    locate (x :: xs) w = locate (y :: ys) z ↔
      (w = x ∧ z = y) ∨ (w ≠ x ∧ z ≠ y ∧ locate xs w = locate ys z) := by
  by_cases first : w = x <;> by_cases second : z = y
  · simp [first, second]
  · simp [first, second, locate_of_ne second, (below_ne_binder_zero _).symm]
  · simp [first, second, locate_of_ne first, below_ne_binder_zero]
  · simp [first, second, locate_of_ne first, locate_of_ne second, below_injective.eq_iff]

theorem locate_eq_free_iff : locate xs x = .free y ↔ x ∉ xs ∧ x = y := by
  induction xs with
  | nil => simp [locate]
  | cons z xs ih =>
      by_cases same : x = z
      · simp [same]
      · have unchanged : (locate xs x).below = .free y ↔ locate xs x = .free y := by
          cases locate xs x <;> simp [Reference.below]
        rw [locate_of_ne same, unchanged, ih, List.mem_cons, not_or]
        simp [same]

end ReferenceLemmas

namespace VariantLemmas

open Formula ApartLemmas

theorem nameless_junction {op : Junctor} {a b : Formula} {rest : List Formula}
    {outer : List String} :
    (junction op a b rest).nameless outer = .junction op ((a :: b :: rest).map (nameless outer)) := by
  rw [nameless, List.map_cons, List.map_cons]

/-- The nameless form of a junction whose members were changed. -/
theorem nameless_junction_map {op : Junctor} {a b : Formula} {rest : List Formula}
    {outer : List String} (change : Formula → Formula) :
    (junction op (change a) (change b) (rest.map change)).nameless outer =
      .junction op ((a :: b :: rest).map fun f => (change f).nameless outer) := by
  rw [nameless_junction, ← List.map_cons, ← List.map_cons, List.map_map]
  rfl

/-! ## Induction over variants -/

/-- Terms with one nameless form differ in the names of variables only. -/
theorem term_induction {xs ys : List String} {motive : Term → Term → Prop}
    (var : ∀ x y, locate xs x = locate ys y → motive (.var x) (.var y))
    (app : ∀ f ts us, List.Forall₂ motive ts us → motive (.app f ts) (.app f us))
    {t u : Term} (same : t.nameless xs = u.nameless ys) : motive t u := by
  induction t using Term.variableNames.induct generalizing u with
  | case1 x =>
      cases u with
      | var y =>
          rw [Term.nameless, Term.nameless, NamelessTerm.ref.injEq] at same
          exact var x y same
      | app g us => simp [Term.nameless] at same
  | case2 f ts ih =>
      cases u with
      | var y => simp [Term.nameless] at same
      | app g us =>
          rw [Term.nameless, Term.nameless, NamelessTerm.app.injEq] at same
          obtain ⟨rfl, arguments⟩ := same
          exact app f ts us (MemberLemmas.forall₂_of_mem
            (MemberLemmas.forall₂_of_map_eq_map arguments) fun t member u => ih t member)

/-- Formulas with one nameless form differ in the names of bound variables only. -/
theorem variant_induction {motive : List String → List String → Formula → Formula → Prop}
    (atom : ∀ xs ys P ts us, List.Forall₂ (fun t u => t.nameless xs = u.nameless ys) ts us →
      motive xs ys (.atom ⟨P, ts⟩) (.atom ⟨P, us⟩))
    (neg : ∀ xs ys f g, motive xs ys f g → motive xs ys (.neg f) (.neg g))
    (junction : ∀ xs ys op a b rest a' b' rest',
      List.Forall₂ (motive xs ys) (a :: b :: rest) (a' :: b' :: rest') →
      motive xs ys (.junction op a b rest) (.junction op a' b' rest'))
    (imp : ∀ xs ys a b a' b', motive xs ys a a' → motive xs ys b b' →
      motive xs ys (.imp a b) (.imp a' b'))
    (iff : ∀ xs ys a b a' b', motive xs ys a a' → motive xs ys b b' →
      motive xs ys (.iff a b) (.iff a' b'))
    (quant : ∀ xs ys q x y f g, motive (x :: xs) (y :: ys) f g →
      motive xs ys (.quant q x f) (.quant q y g))
    {xs ys : List String} {f g : Formula} (same : f.nameless xs = g.nameless ys) :
    motive xs ys f g := by
  induction f using Formula.rec_memberList generalizing xs ys g with
  | atom p =>
      cases g with
      | atom q =>
          obtain ⟨P, ts⟩ := p
          obtain ⟨Q, us⟩ := q
          rw [nameless, nameless, NamelessFormula.atom.injEq] at same
          obtain ⟨rfl, terms⟩ := same
          exact atom xs ys P ts us (MemberLemmas.forall₂_of_map_eq_map terms)
      | _ => simp [nameless] at same
  | neg f ih =>
      cases g with
      | neg g =>
          rw [nameless, nameless, NamelessFormula.neg.injEq] at same
          exact neg xs ys f g (ih same)
      | _ => simp [nameless] at same
  | junction op a b rest ih =>
      cases g with
      | junction op' a' b' rest' =>
          rw [nameless_junction, nameless_junction, NamelessFormula.junction.injEq] at same
          obtain ⟨rfl, members⟩ := same
          exact junction xs ys op a b rest a' b' rest' (MemberLemmas.forall₂_of_mem
            (MemberLemmas.forall₂_of_map_eq_map members) fun f member g => ih f member)
      | _ => simp [nameless] at same
  | imp a b iha ihb =>
      cases g with
      | imp a' b' =>
          rw [nameless, nameless, NamelessFormula.imp.injEq] at same
          exact imp xs ys a b a' b' (iha same.1) (ihb same.2)
      | _ => simp [nameless] at same
  | iff a b iha ihb =>
      cases g with
      | iff a' b' =>
          rw [nameless, nameless, NamelessFormula.iff.injEq] at same
          exact iff xs ys a b a' b' (iha same.1) (ihb same.2)
      | _ => simp [nameless] at same
  | quant q x f ih =>
      cases g with
      | quant q' y g =>
          rw [nameless, nameless, NamelessFormula.quant.injEq] at same
          obtain ⟨rfl, body⟩ := same
          exact quant xs ys q x y f g (ih body)
      | _ => simp [nameless] at same

section
variable {xs ys : List String} {f g : Formula}

/-! ## What variants have in common -/

theorem quantifiers_eq (same : f.nameless xs = g.nameless ys) : f.quantifiers = g.quantifiers := by
  refine variant_induction (motive := fun _ _ f g => f.quantifiers = g.quantifiers)
    ?atom ?neg ?junction ?imp ?iff ?quant same
  case atom => exact fun _ _ _ _ _ _ => by rw [quantifiers, quantifiers]
  case neg =>
    intro _ _ f g ih
    rw [quantifiers, quantifiers, ih]
  case junction =>
    intro _ _ op a b rest a' b' rest' members
    rw [quantifiers_junction, quantifiers_junction,
      MemberLemmas.map_eq_map_of_forall₂ members]
  case imp | iff =>
    intro _ _ a b a' b' iha ihb
    rw [quantifiers, quantifiers, iha, ihb]
  case quant =>
    intro _ _ q x y f g ih
    rw [quantifiers, quantifiers, ih]

/-- Terms that refer to the same have the same free variables. -/
theorem free_term_eq {t u : Term} (same : t.nameless xs = u.nameless ys) :
    t.variableNames.filter (· ∉ xs) = u.variableNames.filter (· ∉ ys) := by
  refine term_induction (motive := fun t u =>
    t.variableNames.filter (· ∉ xs) = u.variableNames.filter (· ∉ ys)) ?var ?app same
  case var =>
    intro x y same
    by_cases bound : x ∈ xs
    · have bound' : y ∈ ys := by
        by_contra free
        have named := ReferenceLemmas.locate_eq_free_iff.mpr ⟨free, rfl⟩
        exact (ReferenceLemmas.locate_eq_free_iff.mp (same.trans named)).1 bound
      simp [Term.variableNames, bound, bound']
    · have named := ReferenceLemmas.locate_eq_free_iff.mpr ⟨bound, rfl⟩
      obtain ⟨free, rfl⟩ := ReferenceLemmas.locate_eq_free_iff.mp (same.symm.trans named)
      simp [Term.variableNames, bound, free]
  case app =>
    intro f ts us arguments
    rw [Term.variableNames, Term.variableNames, List.filter_flatMap, List.filter_flatMap]
    exact MemberLemmas.flatMap_eq_flatMap_of_forall₂ arguments

/-- Variants have the same free variables, in the same places. -/
theorem free_eq (same : f.nameless xs = g.nameless ys) : f.free xs = g.free ys := by
  refine variant_induction (motive := fun xs ys f g => f.free xs = g.free ys)
    ?atom ?neg ?junction ?imp ?iff ?quant same
  case atom =>
    intro xs ys P ts us terms
    rw [free, free, Atom.variableNames, Atom.variableNames, List.filter_flatMap,
      List.filter_flatMap]
    exact MemberLemmas.flatMap_eq_flatMap_of_forall₂ (terms.imp fun _ _ => free_term_eq)
  case neg =>
    intro _ _ f g ih
    rw [free, free, ih]
  case junction =>
    intro _ _ op a b rest a' b' rest' members
    rw [free_junction, free_junction, MemberLemmas.flatMap_eq_flatMap_of_forall₂ members]
  case imp | iff =>
    intro _ _ a b a' b' iha ihb
    rw [free, free, iha, ihb]
  case quant =>
    intro _ _ q x y f g ih
    rw [free, free, ih]

/-! ## Variants on the way to negation normal form -/

theorem nameless_expandIff (same : f.nameless xs = g.nameless ys) :
    f.expandIff.nameless xs = g.expandIff.nameless ys := by
  refine variant_induction
    (motive := fun xs ys f g => f.expandIff.nameless xs = g.expandIff.nameless ys)
    ?atom ?neg ?junction ?imp ?iff ?quant same
  case atom =>
    intro xs ys P ts us terms
    rw [expandIff, expandIff, nameless, nameless, MemberLemmas.map_eq_map_of_forall₂ terms]
  case neg =>
    intro _ _ f g ih
    rw [expandIff, expandIff, nameless, nameless, ih]
  case junction =>
    intro _ _ op a b rest a' b' rest' members
    rw [expandIff, expandIff, nameless_junction_map, nameless_junction_map,
      MemberLemmas.map_eq_map_of_forall₂ members]
  case imp =>
    intro _ _ a b a' b' iha ihb
    rw [expandIff, expandIff, nameless, nameless, iha, ihb]
  case iff =>
    intro _ _ a b a' b' iha ihb
    simp only [expandIff, nameless, List.map_nil, iha, ihb]
  case quant =>
    intro _ _ q x y f g ih
    rw [expandIff, expandIff, nameless, nameless, ih]

theorem nameless_expandImp (same : f.nameless xs = g.nameless ys) :
    f.expandImp.nameless xs = g.expandImp.nameless ys := by
  refine variant_induction
    (motive := fun xs ys f g => f.expandImp.nameless xs = g.expandImp.nameless ys)
    ?atom ?neg ?junction ?imp ?iff ?quant same
  case atom =>
    intro xs ys P ts us terms
    rw [expandImp, expandImp, nameless, nameless, MemberLemmas.map_eq_map_of_forall₂ terms]
  case neg =>
    intro _ _ f g ih
    rw [expandImp, expandImp, nameless, nameless, ih]
  case junction =>
    intro _ _ op a b rest a' b' rest' members
    rw [expandImp, expandImp, nameless_junction_map, nameless_junction_map,
      MemberLemmas.map_eq_map_of_forall₂ members]
  case imp =>
    intro _ _ a b a' b' iha ihb
    simp only [expandImp, nameless, List.map_nil, iha, ihb]
  case iff =>
    intro _ _ a b a' b' iha ihb
    rw [expandImp, expandImp, nameless, nameless, iha, ihb]
  case quant =>
    intro _ _ q x y f g ih
    rw [expandImp, expandImp, nameless, nameless, ih]

theorem nameless_literal (polarity : Polarity) {P : String} {ts us : List Term}
    (terms : List.Forall₂ (fun t u => t.nameless xs = u.nameless ys) ts us) :
    (polarity.literal ⟨P, ts⟩).nameless xs = (polarity.literal ⟨P, us⟩).nameless ys := by
  have same := MemberLemmas.map_eq_map_of_forall₂ terms
  cases polarity <;> simp [Polarity.literal, nameless, same]

/-- Variants have variants as their negation normal forms. -/
theorem nameless_pushNegations (same : f.nameless xs = g.nameless ys) {polarity : Polarity}
    {n m : Formula} (pushed : f.pushNegations polarity = .ok n)
    (pushed' : g.pushNegations polarity = .ok m) : n.nameless xs = m.nameless ys := by
  refine variant_induction
    (motive := fun xs ys f g => ∀ polarity n m, f.pushNegations polarity = .ok n →
      g.pushNegations polarity = .ok m → n.nameless xs = m.nameless ys)
    ?atom ?neg ?junction ?imp ?iff ?quant same polarity n m pushed pushed'
  case atom =>
    intro xs ys P ts us terms polarity n m pushed pushed'
    rw [pushNegations] at pushed pushed'
    cases pushed
    cases pushed'
    exact nameless_literal polarity terms
  case neg =>
    intro xs ys f g ih polarity n m pushed pushed'
    rw [pushNegations] at pushed pushed'
    exact ih polarity.flip n m pushed pushed'
  case junction =>
    intro xs ys op a b rest a' b' rest' members polarity n m pushed pushed'
    rw [pushNegations] at pushed pushed'
    obtain ⟨c, d, others, rfl, left⟩ := MemberLemmas.membersM_eq_ok.mp pushed
    obtain ⟨c', d', others', rfl, right⟩ := MemberLemmas.membersM_eq_ok.mp pushed'
    have results : List.Forall₂ (fun n m => n.nameless xs = m.nameless ys)
        (c :: d :: others) (c' :: d' :: others') :=
      MemberLemmas.forall₂_results members left right fun _ _ n m ih => ih polarity n m
    rw [nameless_junction, nameless_junction, MemberLemmas.map_eq_map_of_forall₂ results]
  case imp | iff =>
    intro _ _ a b a' b' _ _ polarity n m pushed _
    rw [pushNegations] at pushed
    cases pushed
  case quant =>
    intro xs ys q x y f g ih polarity n m pushed pushed'
    rw [pushNegations] at pushed pushed'
    obtain ⟨body, below, first⟩ := MemberLemmas.bind_eq_ok.mp pushed
    obtain ⟨body', below', second⟩ := MemberLemmas.bind_eq_ok.mp pushed'
    cases first
    cases second
    rw [nameless, nameless, ih polarity body body' below below']

end

/-! ## Renaming quantifiers -/

section
variable {label : Nat → String} {start bound : Nat} {σ : Substitution} {xs ys : List String}

namespace Follows

/-- Below a quantifier the new name stands for the variable of the quantifier, and the terms for the
other variables go on referring to what they referred to, since the new name is not in them. -/
theorem record {q : Quantifier} {x : String} {f : Formula} (inside : start < bound)
    (follows : σ.Follows ((quant q x f).free []) xs ys)
    (avoids : σ.Avoids ((quant q x f).free []) label start bound) :
    Substitution.Follows (assign σ x (.var (label start))) (f.free []) (x :: xs)
      (label start :: ys) := by
  intro y found
  by_cases same : y = x
  · rw [same, assign_self, Term.nameless, ReferenceLemmas.locate_self,
      ReferenceLemmas.locate_self]
  · have outside : y ∈ (quant q x f).free [] := MeaningLemmas.mem_free_quant.mpr ⟨found, same⟩
    have refers := follows y outside
    have absent := avoids start (Nat.le_refl _) inside y outside
    rw [assign_of_ne same, ReferenceLemmas.locate_of_ne same]
    cases put : σ y with
    | var z =>
        rw [put, Term.variableNames, List.mem_singleton] at absent
        rw [put, Term.nameless, NamelessTerm.ref.injEq] at refers
        rw [Term.nameless, ReferenceLemmas.locate_of_ne (Ne.symm absent), refers]
    | app g ts => simp [put, Term.nameless] at refers

end Follows

/-- In a term the new names refer to what the old ones referred to. -/
theorem nameless_subst_term {t : Term} (follows : σ.Follows t.variableNames xs ys) :
    (t.subst σ).nameless ys = t.nameless xs := by
  induction t using Term.variableNames.induct with
  | case1 x =>
      rw [Term.subst, Term.nameless]
      exact follows x (by rw [Term.variableNames, List.mem_singleton])
  | case2 f ts ih =>
      rw [Term.subst, Term.nameless, Term.nameless, List.map_map]
      refine congrArg _ (List.map_congr_left fun t member => ih t member fun y inside => ?_)
      refine follows y ?_
      rw [Term.variableNames]
      exact List.mem_flatMap.mpr ⟨t, member, inside⟩

/-- Renaming quantifiers with distinct names that the substitution avoids changes names only. -/
theorem nameless_relabel {f : Formula} (distinct : DistinctLabels label bound)
    (within : start + f.quantifiers ≤ bound) (avoids : σ.Avoids (f.free []) label start bound)
    (follows : σ.Follows (f.free []) xs ys) :
    (f.relabel label σ start).nameless ys = f.nameless xs := by
  induction f using Formula.rec_memberList generalizing σ start xs ys with
  | atom p =>
      rw [relabel, nameless, nameless, Atom.subst, List.map_map]
      exact congrArg _ (List.map_congr_left fun t member => nameless_subst_term fun y inside =>
        follows y (mem_free_atom member inside))
  | neg f ih =>
      rw [quantifiers] at within
      rw [free] at avoids follows
      rw [relabel, nameless, nameless, ih within avoids follows]
  | junction op a b rest ih =>
      rw [quantifiers_junction] at within
      rw [relabel, nameless_junction, nameless_junction, relabelList_members]
      refine congrArg _ (MemberLemmas.map_eq_map_of_forall₂
        (forall₂_relabelList within fun f member k above below => ?_)).symm
      exact (ih f member below (Avoids.mono avoids (fun y => mem_free_junction member) above)
        fun y found => follows y (mem_free_junction member found)).symm
  | imp a b iha ihb | iff a b iha ihb =>
      rw [quantifiers] at within
      rw [free] at avoids follows
      have left := iha (by omega) (Avoids.mono avoids (by simp +contextual) (Nat.le_refl _))
        fun y found => follows y (List.mem_append_left _ found)
      have right : (b.relabel label σ (start + a.quantifiers)).nameless ys = _ :=
        ihb (by omega) (Avoids.mono avoids (by simp +contextual) (Nat.le_add_right ..))
          fun y found => follows y (List.mem_append_right _ found)
      rw [relabel, nameless, nameless, left, right]
  | quant q x f ih =>
      rw [quantifiers] at within
      have inside : start < bound := by omega
      rw [relabel, nameless, nameless, ih (by omega) (Avoids.record distinct inside avoids)
        (Follows.record inside follows avoids)]

/-- Renaming apart changes the names of bound variables only. -/
theorem isVariantOf_renameApart (base : String) (f : Formula) :
    (f.renameApart base).formula.IsVariantOf f :=
  nameless_relabel (ApartLemmas.distinctLabels_freshNames base f.variableNames 0 f.quantifiers)
    (Nat.le_of_eq (Nat.zero_add _)) (ApartLemmas.avoids_freshNames base f) fun y _ => by
      rw [Substitution.identity, Term.nameless]

end

end VariantLemmas

end Clausal
