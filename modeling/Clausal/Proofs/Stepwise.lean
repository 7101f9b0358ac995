import Clausal.Formula.Stepwise
import Clausal.Proofs.Substitution
import Clausal.Proofs.Variants

/-!
# Renaming apart changes names only

Renaming all quantifiers with a list of fresh names is the same as walking through the formula, taking
the next fresh name at each quantifier and putting it in for the old variable. The walk captures
nothing, and loses no occurrence to an inner quantifier, because a name that it puts in is none of the
names of the formula.

* `NameSupply.IsAt`: what a supply knows when the candidates below a number have been dealt with.
* `NameSupply.StandsAt`: the place of a supply in the list of all fresh names.
* `NameSupply.Advances`: from one place to another, with the renames of the quantifiers between them.
* `StepwiseLemmas.walkRelabels` is the invariant of the walk; `StepwiseLemmas.renameStepwise_eq` is what
  it says of the whole formula.
* `renameApart_changes_names`: what renaming apart yields, and what it keeps.
-/

namespace Clausal

/-! ## Places of a supply -/

namespace NameSupply

/-- The candidates for `base` with numbers below `n` have been dealt with, and from `n` on those are in
use that are among `used`. -/
structure IsAt (s : NameSupply) (base : String) (used : List String) (n : Nat) : Prop where
  agrees : ∀ k, n ≤ k → (candidate base k ∈ s.used ↔ candidate base k ∈ used)
  counts : s.counter = max n 1
  taken : n ≠ 0 → base ∈ s.used

/-- The names that the supply will give are those of the list of `count` fresh names from place `i`
on. -/
def StandsAt (s : NameSupply) (base : String) (used : List String) (count i : Nat) : Prop :=
  ∃ n, (freshNames base used 0 count).drop i = freshNames base used n (count - i) ∧
    s.IsAt base used n

/-- From place `i` on the supply `s` has given new names to the variables `olds`, and is now `s'`. -/
structure Advances (s s' : NameSupply) (base : String) (used : List String) (count i : Nat)
    (olds : List String) : Prop where
  stands : s'.StandsAt base used count (i + olds.length)
  renames : s'.renames = s.renames ++ olds.zip ((freshNames base used 0 count).drop i)

end NameSupply

/-- The fresh name of quantifier number `i` in a formula that has `count` of them. -/
def freshLabel (base : String) (used : List String) (count i : Nat) : String :=
  (freshNames base used 0 count).getD i base

/-- A variable of a term that `σ` puts in for one of the variables `names` is this variable itself or
none of the names `used`. -/
def Substitution.PutsNew (σ : Substitution) (names used : List String) : Prop :=
  ∀ y ∈ names, ∀ z ∈ (σ y).variableNames, z = y ∨ z ∉ used

/-- A walk through the formula relabels its quantifiers, also if names that are new have been put in
before, and the supply ends at the place after them. -/
def Formula.WalkRelabels (base : String) (used : List String) (count : Nat) (f : Formula) : Prop :=
  ∀ (σ : Substitution) (s : NameSupply) (start : Nat), start + f.quantifiers ≤ count →
    s.StandsAt base used count start → σ.PutsNew (f.free []) used →
    ∃ s', (f.subst σ).walk base s = (f.relabel (freshLabel base used count) σ start, s') ∧
      s.Advances s' base used count start f.quantified

/-- A supply that has dealt with candidates has the base in use, which comes first. -/
theorem NameSupply.IsAt.eq_zero {base : String} {used : List String} {n : Nat} {s : NameSupply}
    (isAt : s.IsAt base used n) (unused : base ∉ s.used) : n = 0 := by
  by_contra positive
  exact unused (isAt.taken positive)

namespace NameSupply.Advances

variable {base : String} {used : List String} {count start : Nat} {s s' s'' : NameSupply}

theorem refl (stands : s.StandsAt base used count start) : s.Advances s base used count start [] := by
  refine ⟨by rwa [List.length_nil, Nat.add_zero], ?_⟩
  rw [List.zip_nil_left, List.append_nil]

/-- The quantifiers of two formulas one after the other. -/
theorem trans {olds olds' : List String} (first : s.Advances s' base used count start olds)
    (second : s'.Advances s'' base used count (start + olds.length) olds') :
    s.Advances s'' base used count start (olds ++ olds') := by
  refine ⟨?_, ?_⟩
  · rw [List.length_append, ← Nat.add_assoc]
    exact second.stands
  · rw [second.renames, first.renames, List.append_assoc, MemberLemmas.zip_append, List.drop_drop]

end NameSupply.Advances

namespace StepwiseLemmas

open Formula

variable {base : String} {used : List String} {count start n : Nat} {s s' : NameSupply}

/-! ## One name -/

/-- The search is determined by what it finds. -/
theorem firstUnused_eq {k : Nat} (above : n ≤ k) (unused : candidate base k ∉ used)
    (between : ∀ j, n ≤ j → j < k → candidate base j ∈ used) : firstUnused base used n = k := by
  obtain ⟨further, unused', between'⟩ := FreshNameLemmas.firstUnused_spec base used n
  rcases Nat.lt_trichotomy (firstUnused base used n) k with less | same | more
  · exact absurd (between _ further less) unused'
  · exact same
  · exact absurd (between' k above more) unused

/-- The supply finds the candidate that a search among the names of the formula finds: names that were
given before have lower numbers. -/
theorem next_eq (isAt : s.IsAt base used n) : s.next base = firstUnused base used n := by
  obtain ⟨further, unused, between⟩ := FreshNameLemmas.firstUnused_spec base used n
  have unused' := mt (isAt.agrees _ further).mp unused
  rw [NameSupply.next]
  split
  case isTrue inUse =>
    have counted : s.counter ≤ firstUnused base used n := by
      have positive : firstUnused base used n ≠ 0 := fun zero => unused' (by rwa [zero, candidate])
      have counts := isAt.counts
      omega
    refine firstUnused_eq counted unused' fun k above below => ?_
    have above' : n ≤ k := by
      have counts := isAt.counts
      omega
    exact (isAt.agrees k above').mpr (between k above' below)
  case isFalse notInUse =>
    obtain rfl := isAt.eq_zero notInUse
    exact (firstUnused_eq (Nat.le_refl 0) (mt (isAt.agrees 0 (Nat.le_refl 0)).mpr notInUse)
      fun k _ below => absurd below (Nat.not_lt_zero k)).symm

/-- After a name has been taken, its candidate has been dealt with too. -/
theorem isAt_fresh (isAt : s.IsAt base used n) (x : String) :
    (s.fresh base x).2.IsAt base used (firstUnused base used n + 1) := by
  obtain ⟨further, _, _⟩ := FreshNameLemmas.firstUnused_spec base used n
  have next := next_eq isAt
  refine ⟨fun k above => ?agrees, ?counts, fun _ => ?taken⟩
  case agrees =>
    have differ : candidate base k ≠ candidate base (s.next base) := by
      intro same
      have := FreshNameLemmas.candidate_injective base same
      omega
    rw [NameSupply.fresh, List.mem_cons, or_iff_right differ]
    exact isAt.agrees k (by omega)
  case counts =>
    have counts := isAt.counts
    rw [NameSupply.fresh]
    split
    case isTrue =>
      simp only [next]
      omega
    case isFalse notInUse =>
      have zero := isAt.eq_zero notInUse
      rw [NameSupply.next, if_neg notInUse] at next
      simp only
      omega
  case taken =>
    rw [NameSupply.fresh, List.mem_cons]
    by_cases inUse : base ∈ s.used
    · exact .inr inUse
    · rw [NameSupply.next, if_neg inUse, candidate]
      exact .inl rfl

/-! ## Places in the list of fresh names -/

/-- The supply gives the name at its place, and goes on to the next. -/
theorem fresh_eq (stands : s.StandsAt base used count start) (within : start < count) (x : String) :
    ∃ s', s.fresh base x = (freshLabel base used count start, s') ∧
      s.Advances s' base used count start [x] := by
  obtain ⟨n, left, isAt⟩ := stands
  have name : candidate base (s.next base) = freshLabel base used count start := by
    have more : count - start = count - (start + 1) + 1 := by omega
    rw [more, freshNames] at left
    rw [freshLabel, List.getD_eq_getElem?_getD, ← Nat.add_zero start, ← List.getElem?_drop, left,
      next_eq isAt]
    rfl
  have rest : (freshNames base used 0 count).drop start = freshLabel base used count start ::
      freshNames base used (firstUnused base used n + 1) (count - (start + 1)) := by
    have more : count - start = count - (start + 1) + 1 := by omega
    rw [left, more, freshNames, ← name, next_eq isAt]
  refine ⟨(s.fresh base x).2, by rw [← name]; rfl, ⟨firstUnused base used n + 1, ?_, ?_⟩, ?_⟩
  · rw [List.length_singleton, ← List.drop_drop, rest, List.drop_one, List.tail_cons]
  · exact isAt_fresh isAt x
  · rw [rest, List.zip_cons_cons, List.zip_nil_left, ← name]
    rfl

/-! ## The walk -/

variable {σ : Substitution} {f : Formula}

/-- Below a quantifier for `x` that gets a new name, this name is put in for `x`, and what was put in
for the other variables stays. -/
theorem putsNew_record {q : Quantifier} {x y : String} (fresh : y ∉ used)
    (puts : σ.PutsNew ((quant q x f).free []) used) :
    Substitution.PutsNew (assign σ x (.var y)) (f.free []) used := by
  intro z found w inside
  by_cases same : z = x
  · rw [same, assign_self, Term.variableNames, List.mem_singleton] at inside
    exact .inr (inside ▸ fresh)
  · rw [assign_of_ne same] at inside
    exact puts z (MeaningLemmas.mem_free_quant.mpr ⟨found, same⟩) w inside

theorem walk_junction {op : Junctor} {a b a' b' : Formula} {rest rest' : List Formula}
    (walked : walkList base s (a :: b :: rest) = (a' :: b' :: rest', s')) :
    (junction op a b rest).walk base s = (.junction op a' b' rest', s') := by
  simp only [walkList, Prod.mk.injEq, List.cons.injEq] at walked
  obtain ⟨⟨rfl, rfl, rfl⟩, rfl⟩ := walked
  rw [walk]

/-- The walks through formulas one after the other, if each walk relabels. -/
theorem walkList_subst {fs : List Formula} (each : ∀ f ∈ fs, f.WalkRelabels base used count)
    (within : start + (fs.map quantifiers).sum ≤ count) (stands : s.StandsAt base used count start)
    (puts : σ.PutsNew (fs.flatMap (free [])) used) :
    ∃ s', walkList base s (fs.map (subst σ)) =
        (relabelList (freshLabel base used count) σ start fs, s') ∧
      s.Advances s' base used count start (fs.flatMap quantified) := by
  induction fs generalizing s start with
  | nil => exact ⟨s, by rw [List.map_nil, walkList, relabelList], NameSupply.Advances.refl stands⟩
  | cons f fs ih =>
      rw [List.map_cons, List.sum_cons] at within
      rw [List.forall_mem_cons] at each
      rw [List.flatMap_cons] at puts
      obtain ⟨s₁, first, advances⟩ := each.1 σ s start (by omega) stands fun y found =>
        puts y (List.mem_append_left _ found)
      have stands' := advances.stands
      rw [OccurrenceLemmas.length_quantified] at stands'
      obtain ⟨s₂, others, advances'⟩ := ih each.2 (by omega) stands' fun y found =>
        puts y (List.mem_append_right _ found)
      rw [← OccurrenceLemmas.length_quantified] at advances'
      refine ⟨s₂, ?_, ?_⟩
      · rw [List.map_cons, walkList, first]
        simp only
        rw [others, relabelList]
      · rw [List.flatMap_cons]
        exact advances.trans advances'

theorem freshLabel_not_mem (base : String) (used : List String) (within : start < count) :
    freshLabel base used count start ∉ used := by
  have length := FreshNameLemmas.length_freshNames base used 0 count
  rw [freshLabel, List.getD_eq_getElem _ _ (length.symm ▸ within)]
  exact FreshNameLemmas.not_mem_used_of_mem_freshNames (List.getElem_mem (length.symm ▸ within))

/-- The invariant of the walk: a quantifier takes the name at the place of the supply, and putting it in
for the variable below is what relabelling records in the substitution. -/
theorem walkRelabels (named : ∀ x ∈ f.quantified, x ∈ used) : f.WalkRelabels base used count := by
  induction f using Formula.rec_memberList with
  | atom p =>
      intro σ s start _ stands _
      refine ⟨s, by rw [subst, walk, relabel], ?_⟩
      rw [quantified]
      exact .refl stands
  | neg f ih =>
      intro σ s start within stands puts
      rw [quantifiers] at within
      rw [free] at puts
      rw [quantified] at named
      obtain ⟨s', walked, advances⟩ := ih named σ s start within stands puts
      refine ⟨s', by rw [subst, walk, walked, relabel], ?_⟩
      rw [quantified]
      exact advances
  | junction op a b rest ih =>
      intro σ s start within stands puts
      rw [ApartLemmas.quantifiers_junction] at within
      rw [free_junction] at puts
      rw [quantified_junction, List.forall_mem_flatMap] at named
      obtain ⟨s', walked, advances⟩ :=
        walkList_subst (fun f member => ih f member (named f member)) within stands puts
      rw [List.map_cons, List.map_cons, ← ApartLemmas.relabelList_members] at walked
      refine ⟨s', by rw [subst_junction, walk_junction walked, relabel], ?_⟩
      rw [quantified_junction]
      exact advances
  | imp a b iha ihb | iff a b iha ihb =>
      intro σ s start within stands puts
      rw [quantifiers] at within
      rw [free] at puts
      rw [quantified, List.forall_mem_append] at named
      obtain ⟨s₁, left, advances⟩ := iha named.1 σ s start (by omega) stands fun y found =>
        puts y (List.mem_append_left _ found)
      have stands' := advances.stands
      rw [OccurrenceLemmas.length_quantified] at stands'
      obtain ⟨s₂, right, advances'⟩ := ihb named.2 σ s₁ _ (by omega) stands' fun y found =>
        puts y (List.mem_append_right _ found)
      refine ⟨s₂, ?_, ?_⟩
      · rw [subst, walk, left]
        simp only
        rw [right, relabel]
      · rw [← OccurrenceLemmas.length_quantified] at advances'
        rw [quantified]
        exact advances.trans advances'
  | quant q x f ih =>
      intro σ s start within stands puts
      rw [quantifiers] at within
      rw [quantified, List.forall_mem_cons] at named
      have inside : start < count := by omega
      obtain ⟨s₁, taken, advances⟩ := fresh_eq stands inside x
      have new := freshLabel_not_mem base used inside
      obtain ⟨s₂, walked, advances'⟩ := ih named.2 (assign σ x _) s₁ (start + 1) (by omega)
        advances.stands (putsNew_record new puts)
      -- No term for another variable contains `x`, a name of the formula.
      have absent : ∀ y ∈ f.free [], y ≠ x → x ∉ (σ y).variableNames := by
        intro y found differ inside
        rcases puts y (MeaningLemmas.mem_free_quant.mpr ⟨found, differ⟩) x inside with same | new
        · exact differ same.symm
        · exact new named.1
      refine ⟨s₂, ?_, ?_⟩
      · rw [subst, walk, taken]
        simp only
        rw [SubstitutionLemmas.subst_hide_single absent, walked, relabel]
      · rw [quantified]
        exact advances.trans advances'

theorem mem_variableNames_of_quantified {x : String} (found : x ∈ f.quantified) :
    x ∈ f.variableNames := by
  induction f using Formula.rec_memberList with
  | atom p =>
      rw [quantified] at found
      exact absurd found List.not_mem_nil
  | neg f ih =>
      rw [quantified] at found
      rw [variableNames]
      exact ih found
  | junction op a b rest ih =>
      rw [quantified_junction, List.mem_flatMap] at found
      obtain ⟨f, member, found⟩ := found
      rw [variableNames_junction, List.mem_flatMap]
      exact ⟨f, member, ih f member found⟩
  | imp a b iha ihb | iff a b iha ihb =>
      rw [quantified, List.mem_append] at found
      rw [variableNames, List.mem_append]
      exact found.imp iha ihb
  | quant q y f ih =>
      rw [quantified, List.mem_cons] at found
      rw [variableNames, List.mem_cons]
      exact found.imp_right ih

/-- Walking through a formula and renaming its quantifiers one after the other is renaming it apart. -/
theorem renameStepwise_eq (base : String) (f : Formula) :
    f.renameStepwise base = f.renameApart base := by
  have stands : NameSupply.StandsAt { used := f.variableNames } base f.variableNames f.quantifiers 0 :=
    ⟨0, rfl, fun _ _ => Iff.rfl, rfl, fun positive => absurd rfl positive⟩
  have puts : Substitution.identity.PutsNew (f.free []) f.variableNames := by
    intro y _ z inside
    rw [Substitution.identity, Term.variableNames, List.mem_singleton] at inside
    exact .inl inside
  have walks : f.WalkRelabels base f.variableNames f.quantifiers :=
    walkRelabels fun _ found => mem_variableNames_of_quantified found
  obtain ⟨s', walked, advances⟩ :=
    walks Substitution.identity _ 0 (Nat.le_of_eq (Nat.zero_add _)) stands puts
  rw [SubstitutionLemmas.subst_identity] at walked
  rw [renameStepwise, walked]
  simp only
  rw [advances.renames]
  rfl

end StepwiseLemmas

/-! ## What renaming apart changes -/

/-- Every formula is renamed apart with every nonempty base. The result is what the walk through the
formula gives. It differs from the formula in the names of bound variables only; its quantifiers have
different variables, none of which is a variable of the formula; the free variables stand where they
stood; and the renames are the old and the new variable of each quantifier, in their order. -/
theorem renameApart_changes_names (f : Formula) {base : String} (named : base ≠ "") :
    ∃ r, Value.renameApart (.formula f) (.text base) = .ok r ∧
      r = f.renameStepwise base ∧
      r.formula.IsVariantOf f ∧
      r.formula.quantified.Nodup ∧
      (∀ x ∈ r.formula.quantified, x ∉ f.variableNames) ∧
      r.formula.free [] = f.free [] ∧
      r.formula.quantified.length = f.quantified.length ∧
      r.renames = f.quantified.zip r.formula.quantified := by
  refine ⟨f.renameApart base, ?_, (StepwiseLemmas.renameStepwise_eq base f).symm,
    VariantLemmas.isVariantOf_renameApart base f, ApartLemmas.nodup_renameApart base f,
    fun x => ApartLemmas.not_mem_variableNames_of_renamed base f,
    ApartLemmas.free_renameApart base f, ?_, ?_⟩
  · change (Value.renameFormula (.text base) f).mapError StepError.construction = _
    rw [ApartLemmas.renameFormula_text named]
    rfl
  · rw [ApartLemmas.quantified_renameApart, FreshNameLemmas.length_freshNames,
      OccurrenceLemmas.length_quantified]
  · rw [ApartLemmas.quantified_renameApart]
    rfl

/-- Quantifiers for one variable inside one another; the variable is free elsewhere, and its name is the
base of the new names, the second of which is also in use. -/
theorem renameApart_changes_names_shadowed :
    let f : Formula := .conj (.atom ⟨"R", [.var "x"]⟩)
      (.iff
        (.quant .all "x" (.imp (.atom ⟨"P", [.var "x"]⟩) (.quant .ex "x" (.atom ⟨"P", [.var "x"]⟩))))
        (.quant .ex "x1" (.atom ⟨"P", [.var "x1"]⟩)))
    ∃ r, Value.renameApart (.formula f) (.text "x") = .ok r ∧ r.formula.IsVariantOf f ∧
      r.formula.quantified.Nodup ∧ r.formula.quantified.length = 3 ∧
      "x" ∉ r.formula.quantified ∧ "x1" ∉ r.formula.quantified := by
  intro f
  have quantified : f.quantified = ["x", "x", "x1"] := by simp [f, Formula.quantified]
  obtain ⟨r, renamed, _, variant, distinct, new, _, length, _⟩ :=
    renameApart_changes_names f (show "x" ≠ "" by decide)
  have inUse : ∀ x ∈ f.quantified, x ∉ r.formula.quantified := fun x found renamed =>
    new x renamed (StepwiseLemmas.mem_variableNames_of_quantified found)
  rw [quantified] at length inUse
  exact ⟨r, renamed, variant, distinct, length, inUse "x" (by simp), inUse "x1" (by simp)⟩

end Clausal
