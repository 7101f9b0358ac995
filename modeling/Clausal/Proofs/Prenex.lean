import Mathlib.Data.List.Nodup
import Clausal.Formula.Prenex
import Clausal.Proofs.NegationNormal

/-!
# Pulling quantifiers keeps the meaning

A statement that does not speak of the variables of a prefix may stand inside or outside of it. In a
formula whose quantifiers have been renamed apart, no member of a junction speaks of the variables
that the quantifiers of the other members bind.

* `Formula.bindings` lists the quantifiers of a formula with their variables.
* `Prefix.Binds` says of a property of assignments what a prefix says of a formula.
* `PrefixLemmas.binds_links` moves a statement out of the scope of a prefix.
* `PrenexLemmas.prenex_induction` is induction along the computation of a prenex form.
* `PrenexLemmas.bindings_prenex`, `PrenexLemmas.isQuantifierFree_prenex`, `PrenexLemmas.atoms_prenex`:
  what stands in the prenex form.
* `PrenexLemmas.holds_prenex`: the prenex form has the same meaning.
* `prenex_of_isNegationNormal` puts both together.
* `PrenexLemmas.prenex_quantify`, `prenex_undoes_quantify`: the prenex form of a prefix with a matrix.
-/

namespace Clausal

/-! ## What a prefix says -/

/-- The variables of a prefix, outermost first. -/
def Prefix.names (bindings : Prefix) : List String :=
  bindings.map (·.name)

/-- The quantifiers of a formula with their variables, from left to right. -/
def Formula.bindings : Formula → Prefix
  | .atom _ => []
  | .neg f => f.bindings
  | .junction _ a b rest => a.bindings ++ b.bindings ++ rest.flatMap bindings
  | .imp a b => a.bindings ++ b.bindings
  | .iff a b => a.bindings ++ b.bindings
  | .quant q x f => ⟨q, x⟩ :: f.bindings

/-- What a prefix says of a property of assignments. -/
def Prefix.Binds {D : Type u} (property : (String → D) → Prop) : Prefix → (String → D) → Prop
  | [], s => property s
  | b :: inner, s => b.quantifier.Binds fun d => Prefix.Binds property inner (assign s b.name d)

namespace Prefix

variable {b : Binding} {inner : Prefix}

@[simp] theorem quantify_cons {f : Formula} :
    Prefix.quantify (b :: inner) f = .quant b.quantifier b.name (inner.quantify f) := rfl

@[simp] theorem names_cons : Prefix.names (b :: inner) = b.name :: inner.names := rfl

theorem names_flatMap {α : Type u} {xs : List α} {part : α → Prefix} :
    Prefix.names (xs.flatMap part) = xs.flatMap fun x => (part x).names :=
  List.map_flatMap

end Prefix

namespace PrefixLemmas

variable {D : Type u} {P Q R : (String → D) → Prop}

/-- A formula with a prefix holds if the prefix says so of the formula. -/
theorem holds_quantify {bindings : Prefix} {f : Formula} {I : Interpretation D} {s : String → D} :
    (bindings.quantify f).Holds I s ↔ Prefix.Binds (fun t => f.Holds I t) bindings s := by
  induction bindings generalizing s with
  | nil => exact Iff.rfl
  | cons b inner ih =>
      rw [Prefix.quantify_cons, Formula.Holds, Prefix.Binds]
      exact BindLemmas.binds_congr fun d => ih

theorem binds_append {outer inner : Prefix} {s : String → D} :
    Prefix.Binds P (outer ++ inner) s ↔ Prefix.Binds (Prefix.Binds P inner) outer s := by
  induction outer generalizing s with
  | nil => exact Iff.rfl
  | cons b outer ih =>
      rw [List.cons_append, Prefix.Binds, Prefix.Binds]
      exact BindLemmas.binds_congr fun d => ih

theorem binds_congr {bindings : Prefix} {s : String → D} (same : ∀ t, P t ↔ Q t) :
    Prefix.Binds P bindings s ↔ Prefix.Binds Q bindings s := by
  rw [funext fun t => propext (same t)]

/-- A statement that ignores the values of the variables of a prefix may stand outside of it. -/
theorem binds_links {op : Junctor} {bindings : Prefix} {s : String → D}
    (ignores : ∀ t, ∀ x ∈ bindings.names, ∀ d, R (assign t x d) ↔ R t) :
    Prefix.Binds (fun t => op.Links (P t) (R t)) bindings s ↔
      op.Links (Prefix.Binds P bindings s) (R s) := by
  induction bindings generalizing s with
  | nil => exact Iff.rfl
  | cons b inner ih =>
      have : Nonempty D := ⟨s ""⟩
      rw [Prefix.names_cons] at ignores
      rw [Prefix.Binds, Prefix.Binds]
      refine (BindLemmas.binds_congr fun d => ?_).trans BindLemmas.binds_links
      have outside := ih (s := assign s b.name d) fun t x member =>
        ignores t x (List.mem_cons_of_mem _ member)
      exact outside.trans (JoinLemmas.links_congr Iff.rfl (ignores s _ List.mem_cons_self d))

/-- A formula ignores the values of variables that are not free in it. -/
theorem holds_assign_of_not_free {f : Formula} {x : String} (absent : x ∉ f.free [])
    {I : Interpretation D} {s : String → D} (d : D) :
    f.Holds I (assign s x d) ↔ f.Holds I s :=
  MeaningLemmas.holds_congr fun _ found => assign_of_ne fun same => absent (same ▸ found)

theorem mem_free_quantify {bindings : Prefix} {f : Formula} {x : String} :
    x ∈ (bindings.quantify f).free [] ↔ x ∈ f.free [] ∧ x ∉ bindings.names := by
  induction bindings with
  | nil => simp [Prefix.quantify, Prefix.names]
  | cons b inner ih =>
      rw [Prefix.quantify_cons, MeaningLemmas.mem_free_quant, Prefix.names_cons,
        List.mem_cons, not_or, and_comm, and_left_comm]
      exact and_congr_right fun _ => ih

/-- Formulas of one meaning have one meaning below a prefix. -/
theorem sameMeaning_quantify.{v} {f g : Formula} (same : Formula.SameMeaning.{v} f g)
    (bindings : Prefix) : Formula.SameMeaning.{v} (bindings.quantify f) (bindings.quantify g) := by
  intro D I s
  rw [holds_quantify, holds_quantify]
  exact binds_congr fun t => same I t

end PrefixLemmas

namespace PrenexLemmas

open Formula

variable {f : Formula} {p : PrenexForm}

/-! ## The computation of a prenex form -/

/-- A formula in negation normal form is not refused. -/
theorem exists_prenex (normal : f.IsNegationNormal) : ∃ p, f.prenex = .ok p := by
  induction f using Formula.rec_memberList with
  | atom p => exact ⟨_, by rw [prenex]⟩
  | neg f _ =>
      rw [IsNegationNormal] at normal
      obtain ⟨p, rfl⟩ := normal
      exact ⟨_, by rw [prenex]⟩
  | junction op a b rest ih =>
      rw [isNegationNormal_junction] at normal
      rw [prenex]
      exact MemberLemmas.exists_membersM_eq_ok fun f member => ih f member (normal f member)
  | imp a b _ _ | iff a b _ _ =>
      rw [IsNegationNormal] at normal
      exact normal.elim
  | quant q x f ih =>
      rw [IsNegationNormal] at normal
      obtain ⟨p, pulled⟩ := ih normal
      rw [prenex, pulled]
      exact ⟨_, rfl⟩

/-- What pulling quantifiers does: literals stay, the prefixes of the members of a junction come one
after the other, and a quantifier comes before those below it. -/
theorem prenex_induction {motive : Formula → PrenexForm → Prop}
    (literal : ∀ (polarity : Polarity) p, motive (polarity.literal p) ⟨[], polarity.literal p⟩)
    (junction : ∀ op a b rest a' b' rest',
      List.Forall₂ (fun f p => f.prenex = .ok p ∧ motive f p) (a :: b :: rest) (a' :: b' :: rest') →
      motive (.junction op a b rest) ⟨(a' :: b' :: rest').flatMap (·.quantifiers),
        .junction op a'.matrix b'.matrix (rest'.map (·.matrix))⟩)
    (quant : ∀ q x f p, f.prenex = .ok p → motive f p →
      motive (.quant q x f) ⟨⟨q, x⟩ :: p.quantifiers, p.matrix⟩)
    (pulled : f.prenex = .ok p) : motive f p := by
  induction f using Formula.rec_memberList generalizing p with
  | atom r =>
      rw [prenex] at pulled
      exact Except.ok.inj pulled ▸ literal .positive r
  | neg f _ =>
      cases f with
      | atom r =>
          rw [prenex] at pulled
          exact Except.ok.inj pulled ▸ literal .negative r
      | _ => simp [prenex] at pulled
  | junction op a b rest ih =>
      rw [prenex] at pulled
      obtain ⟨a', b', rest', rfl, members⟩ := MemberLemmas.membersM_eq_ok.mp pulled
      have each := MemberLemmas.forall₂_of_mem members fun f member p pulled =>
        And.intro pulled (ih f member pulled)
      simpa [List.flatMap_cons] using junction op a b rest a' b' rest' each
  | imp a b _ _ | iff a b _ _ =>
      rw [prenex] at pulled
      cases pulled
  | quant q x f ih =>
      rw [prenex] at pulled
      obtain ⟨p', body, same⟩ := MemberLemmas.bind_eq_ok.mp pulled
      exact Except.ok.inj same ▸ quant q x f p' body (ih body)

/-! ## What stands in a prenex form -/

theorem bindings_junction {op : Junctor} {a b : Formula} {rest : List Formula} :
    (junction op a b rest).bindings = (a :: b :: rest).flatMap bindings := by
  simp [bindings]

theorem names_bindings (f : Formula) : f.bindings.names = f.quantified := by
  induction f using Formula.rec_memberList with
  | atom p => rw [bindings, quantified]; rfl
  | neg f ih => rw [bindings, quantified, ih]
  | junction op a b rest ih =>
      rw [bindings_junction, quantified_junction, Prefix.names_flatMap]
      exact List.flatMap_congr ih
  | imp a b iha ihb | iff a b iha ihb =>
      rw [bindings, quantified, ← iha, ← ihb]
      exact List.map_append
  | quant q x f ih => rw [bindings, quantified, Prefix.names_cons, ih]

/-- The prefix has the quantifiers with their variables, in their order. -/
theorem bindings_prenex (pulled : f.prenex = .ok p) : p.quantifiers = f.bindings := by
  refine prenex_induction (motive := fun f p => p.quantifiers = f.bindings)
    ?literal ?junction ?quant pulled
  case literal =>
    intro polarity r
    cases polarity with
    | positive => rw [Polarity.literal, bindings]
    | negative => rw [Polarity.literal, bindings, bindings]
  case junction =>
    intro op a b rest a' b' rest' members
    rw [bindings_junction]
    exact (MemberLemmas.flatMap_eq_flatMap_of_forall₂ (members.imp fun _ _ ih => ih.2.symm)).symm
  case quant =>
    intro q x f p _ ih
    rw [bindings, ih]

theorem names_prenex (pulled : f.prenex = .ok p) : p.quantifiers.names = f.quantified := by
  rw [bindings_prenex pulled, names_bindings]

/-- The atoms stay, in their order. -/
theorem atoms_prenex (pulled : f.prenex = .ok p) : p.matrix.atoms = f.atoms := by
  refine prenex_induction (motive := fun f p => p.matrix.atoms = f.atoms)
    ?literal ?junction ?quant pulled
  case literal => exact fun _ _ => rfl
  case junction =>
    intro op a b rest a' b' rest' members
    rw [atoms_junction, atoms_junction, ← List.map_cons, ← List.map_cons, List.flatMap_map]
    exact (MemberLemmas.flatMap_eq_flatMap_of_forall₂ (members.imp fun _ _ ih => ih.2.symm)).symm
  case quant =>
    intro q x f p _ ih
    rw [ih, atoms]

/-- Only literals that were there before, joined as before, stand in the matrix. What literals have and
junctions take over from their members is true of it. -/
theorem matrix_induction {property : Formula → Prop}
    (literal : ∀ (polarity : Polarity) r, property (polarity.literal r))
    (junction : ∀ op a b rest, (∀ f ∈ a :: b :: rest, property f) →
      property (.junction op a b rest))
    (pulled : f.prenex = .ok p) : property p.matrix := by
  refine prenex_induction (motive := fun _ p => property p.matrix) literal ?junction ?quant pulled
  case junction =>
    intro op a b rest a' b' rest' members
    refine junction op _ _ _ ?_
    rw [← List.map_cons, ← List.map_cons, List.forall_mem_map]
    exact MemberLemmas.forall_mem_of_forall₂ members fun _ _ _ ih => ih.2
  case quant => exact fun _ _ _ _ _ ih => ih

theorem isQuantifierFree_prenex (pulled : f.prenex = .ok p) : p.matrix.IsQuantifierFree :=
  matrix_induction (fun _ _ => PolarityLemmas.isQuantifierFree_literal)
    (fun _ _ _ _ => isQuantifierFree_junction.mpr) pulled

theorem isNegationNormal_prenex (pulled : f.prenex = .ok p) : p.matrix.IsNegationNormal :=
  matrix_induction (fun _ _ => PolarityLemmas.isNegationNormal_literal)
    (fun _ _ _ _ => isNegationNormal_junction.mpr) pulled

/-- No variable becomes free. -/
theorem free_of_free_prenex (pulled : f.prenex = .ok p) {x : String}
    (found : x ∈ p.toFormula.free []) : x ∈ f.free [] := by
  refine prenex_induction
    (motive := fun f p => x ∈ p.toFormula.free [] → x ∈ f.free [])
    ?literal ?junction ?quant pulled found
  case literal => exact fun _ _ found => found
  case junction =>
    intro op a b rest a' b' rest' members found
    obtain ⟨inside, unbound⟩ := PrefixLemmas.mem_free_quantify.mp found
    rw [free_junction, ← List.map_cons, ← List.map_cons, List.mem_flatMap] at inside
    obtain ⟨m, part, inside⟩ := inside
    obtain ⟨p, listed, rfl⟩ := List.mem_map.mp part
    rw [free_junction, List.mem_flatMap]
    rw [Prefix.names_flatMap, List.mem_flatMap] at unbound
    have origin : ∀ p ∈ a' :: b' :: rest', ∃ f ∈ a :: b :: rest, f.prenex = .ok p ∧
        (x ∈ p.toFormula.free [] → x ∈ f.free []) :=
      MemberLemmas.forall_mem_of_forall₂ members fun f member _ each => ⟨f, member, each⟩
    obtain ⟨f, member, _, ih⟩ := origin p listed
    refine ⟨f, member, ih (PrefixLemmas.mem_free_quantify.mpr ⟨inside, fun bound => ?_⟩)⟩
    exact unbound ⟨p, listed, bound⟩
  case quant =>
    intro q x' f p _ ih found
    obtain ⟨inside, unbound⟩ := PrefixLemmas.mem_free_quantify.mp found
    rw [Prefix.names_cons, List.mem_cons, not_or] at unbound
    refine MeaningLemmas.mem_free_quant.mpr ⟨ih ?_, unbound.1⟩
    exact PrefixLemmas.mem_free_quantify.mpr ⟨inside, unbound.2⟩

/-! ## Meaning -/

/-- Prefixes of formulas may be pulled out of their junction one after the other, if their variables
differ and none of them is free in one of the formulas. -/
theorem binds_joins (op : Junctor) {ps : List PrenexForm}
    (distinct : (ps.flatMap (·.quantifiers.names)).Nodup)
    (outside : ∀ p ∈ ps, ∀ x ∈ p.toFormula.free [], x ∉ ps.flatMap (·.quantifiers.names))
    {D : Type u} (I : Interpretation D) (s : String → D) :
    Prefix.Binds (fun t => op.Joins (ps.map fun p => p.matrix.Holds I t))
        (ps.flatMap (·.quantifiers)) s ↔
      op.Joins (ps.map fun p => p.toFormula.Holds I s) := by
  induction ps generalizing s with
  | nil => exact Iff.rfl
  | cons p ps ih =>
      rw [List.flatMap_cons, List.nodup_append] at distinct
      obtain ⟨_, others, apart⟩ := distinct
      rw [List.forall_mem_cons, List.flatMap_cons] at outside
      obtain ⟨first, outside⟩ := outside
      have inner := ih others fun r member x found bound =>
        outside r member x found (List.mem_append_right _ bound)
      -- The other formulas ignore the variables of the first prefix.
      have ignoresFirst : ∀ t, ∀ x ∈ p.quantifiers.names, ∀ d,
          op.Joins (ps.map fun r => r.toFormula.Holds I (assign t x d)) ↔
            op.Joins (ps.map fun r => r.toFormula.Holds I t) := by
        intro t x bound d
        refine JoinLemmas.joins_congr fun r member => PrefixLemmas.holds_assign_of_not_free ?_ d
        exact fun found => outside r member x found (List.mem_append_left _ bound)
      -- The first matrix ignores the variables of the other prefixes.
      have ignoresOthers : ∀ t, ∀ x ∈ Prefix.names (ps.flatMap (·.quantifiers)), ∀ d,
          p.matrix.Holds I (assign t x d) ↔ p.matrix.Holds I t := by
        intro t x bound d
        rw [Prefix.names_flatMap] at bound
        refine PrefixLemmas.holds_assign_of_not_free (fun found => ?_) d
        refine first x (PrefixLemmas.mem_free_quantify.mpr ⟨found, fun again => ?_⟩)
          (List.mem_append_right _ bound)
        exact apart x again x bound rfl
      calc Prefix.Binds (fun t => op.Joins ((p :: ps).map fun r => r.matrix.Holds I t))
            ((p :: ps).flatMap (·.quantifiers)) s
          ↔ Prefix.Binds (fun t => Prefix.Binds
              (fun u => op.Links (op.Joins (ps.map fun r => r.matrix.Holds I u)) (p.matrix.Holds I u))
              (ps.flatMap (·.quantifiers)) t) p.quantifiers s := by
            rw [List.flatMap_cons, PrefixLemmas.binds_append]
            refine PrefixLemmas.binds_congr fun t => PrefixLemmas.binds_congr fun u => ?_
            rw [List.map_cons, JoinLemmas.joins_cons, JoinLemmas.links_comm]
        _ ↔ Prefix.Binds (fun t => op.Links (p.matrix.Holds I t)
              (op.Joins (ps.map fun r => r.toFormula.Holds I t))) p.quantifiers s := by
            refine PrefixLemmas.binds_congr fun t => ?_
            rw [PrefixLemmas.binds_links ignoresOthers, inner t, JoinLemmas.links_comm]
        _ ↔ op.Joins ((p :: ps).map fun r => r.toFormula.Holds I s) := by
            rw [PrefixLemmas.binds_links ignoresFirst, List.map_cons, JoinLemmas.joins_cons,
              ← PrefixLemmas.holds_quantify]
            exact Iff.rfl

/-- The prenex form has the meaning of a formula whose quantifiers have different variables, none of
which is free in it. -/
theorem holds_prenex (pulled : f.prenex = .ok p) (distinct : f.quantified.Nodup)
    (outside : ∀ x ∈ f.free [], x ∉ f.quantified) {D : Type u} (I : Interpretation D)
    (s : String → D) : p.toFormula.Holds I s ↔ f.Holds I s := by
  refine prenex_induction
    (motive := fun f p => f.quantified.Nodup → (∀ x ∈ f.free [], x ∉ f.quantified) → ∀ s,
      (p.toFormula.Holds I s ↔ f.Holds I s)) ?literal ?junction ?quant pulled distinct outside s
  case literal => exact fun _ _ _ _ _ => Iff.rfl
  case junction =>
    intro op a b rest a' b' rest' members distinct outside s
    rw [quantified_junction] at distinct outside
    rw [free_junction] at outside
    have names : (a :: b :: rest).flatMap quantified =
        (a' :: b' :: rest').flatMap (·.quantifiers.names) :=
      MemberLemmas.flatMap_eq_flatMap_of_forall₂
        (members.imp fun _ _ member => (names_prenex member.1).symm)
    have outside' : ∀ p ∈ a' :: b' :: rest', ∀ x ∈ p.toFormula.free [],
        x ∉ (a' :: b' :: rest').flatMap (·.quantifiers.names) := by
      refine MemberLemmas.forall_mem_of_forall₂ members fun f member p pulled x found => ?_
      rw [← names]
      exact outside x (List.mem_flatMap.mpr ⟨f, member, free_of_free_prenex pulled.1 found⟩)
    have pull := binds_joins op (names ▸ distinct) outside' I s
    rw [PrenexForm.toFormula, PrefixLemmas.holds_quantify, holds_junction_iff]
    simp only [holds_junction_iff, ← List.map_cons (f := PrenexForm.matrix), List.map_map]
    refine pull.trans (JoinLemmas.joins_congr_forall₂ ?_).symm
    refine MemberLemmas.forall₂_of_mem members fun f member p pulled => (pulled.2 ?_ ?_ s).symm
    · exact (List.nodup_flatMap.mp distinct).1 f member
    · intro x found bound
      exact outside x (List.mem_flatMap.mpr ⟨f, member, found⟩)
        (List.mem_flatMap.mpr ⟨f, member, bound⟩)
  case quant =>
    intro q x f p _ ih distinct outside s
    rw [quantified, List.nodup_cons] at distinct
    rw [PrenexForm.toFormula, Prefix.quantify_cons, Holds, Holds]
    refine BindLemmas.binds_congr fun d => ih distinct.2 (fun y found bound => ?_) _
    -- Below the quantifier `x` is free, but no second quantifier binds it.
    by_cases same : y = x
    · exact distinct.1 (same ▸ bound)
    · refine outside y (MeaningLemmas.mem_free_quant.mpr ⟨found, same⟩) ?_
      rw [quantified]
      exact List.mem_cons_of_mem _ bound

/-! ## Formulas that are prenex forms -/

/-- A matrix is its own prenex form, with no prefix. -/
theorem eq_of_isQuantifierFree (pulled : f.prenex = .ok p) (quantifierFree : f.IsQuantifierFree) :
    p = ⟨[], f⟩ := by
  refine prenex_induction (motive := fun f p => f.IsQuantifierFree → p = ⟨[], f⟩)
    ?literal ?junction ?quant pulled quantifierFree
  case literal => exact fun _ _ _ => rfl
  case junction =>
    intro op a b rest a' b' rest' members quantifierFree
    rw [isQuantifierFree_junction] at quantifierFree
    have each : List.Forall₂ (fun f p => PrenexForm.mk [] f = id p) (a :: b :: rest)
        (a' :: b' :: rest') :=
      MemberLemmas.forall₂_of_mem members fun f member p pulled =>
        (pulled.2 (quantifierFree f member)).symm
    have same := MemberLemmas.map_eq_map_of_forall₂ each
    rw [List.map_id, List.map_cons, List.map_cons, List.cons.injEq, List.cons.injEq] at same
    obtain ⟨rfl, rfl, rfl⟩ := same
    simp [List.flatMap_map, Function.comp_def]
  case quant =>
    intro q x f p _ _ quantifierFree
    rw [IsQuantifierFree] at quantifierFree
    exact quantifierFree.elim

/-- The quantifiers in front of a matrix are pulled out one by one, the outermost last. -/
theorem prenex_quantify (normal : f.IsNegationNormal) (quantifierFree : f.IsQuantifierFree)
    (bindings : Prefix) : (bindings.quantify f).prenex = .ok ⟨bindings, f⟩ := by
  induction bindings with
  | nil =>
      obtain ⟨p, pulled⟩ := exists_prenex normal
      exact eq_of_isQuantifierFree pulled quantifierFree ▸ pulled
  | cons b inner ih =>
      rw [Prefix.quantify_cons, prenex, ih]
      rfl

theorem prenex_toFormula (pulled : f.prenex = .ok p) : p.toFormula.prenex = .ok p :=
  prenex_quantify (isNegationNormal_prenex pulled) (isQuantifierFree_prenex pulled) p.quantifiers

/-- Pulling quantifiers leaves just those formulas alone that are a prefix with a matrix. -/
theorem toFormula_eq_iff (pulled : f.prenex = .ok p) :
    p.toFormula = f ↔ ∃ (bindings : Prefix) (m : Formula), m.IsNegationNormal ∧
      m.IsQuantifierFree ∧ f = bindings.quantify m := by
  constructor
  · intro same
    exact ⟨p.quantifiers, p.matrix, isNegationNormal_prenex pulled,
      isQuantifierFree_prenex pulled, same.symm⟩
  · rintro ⟨bindings, m, normal, quantifierFree, rfl⟩
    rw [prenex_quantify normal quantifierFree] at pulled
    cases Except.ok.inj pulled
    rfl

end PrenexLemmas

/-! ## Main results -/

open PrenexLemmas in
/-- Every formula in negation normal form has a prenex form. The prefix has the quantifiers of the formula
with their variables, in their order; the matrix has no quantifier, and the atoms in their order. If the
quantifiers have different variables, none of which is free in the formula, the meaning is the same. -/
theorem prenex_of_isNegationNormal.{u} {f : Formula} (normal : f.IsNegationNormal) :
    ∃ p, f.prenex = .ok p ∧
      p.quantifiers = f.bindings ∧
      p.quantifiers.names = f.quantified ∧
      p.matrix.IsQuantifierFree ∧
      p.matrix.atoms = f.atoms ∧
      (f.quantified.Nodup → (∀ x ∈ f.quantified, x ∉ f.free []) →
        Formula.SameMeaning.{u} f p.toFormula) := by
  obtain ⟨p, pulled⟩ := exists_prenex normal
  refine ⟨p, pulled, bindings_prenex pulled, names_prenex pulled, isQuantifierFree_prenex pulled,
    atoms_prenex pulled, fun distinct outside D I s => ?_⟩
  exact (holds_prenex pulled distinct (fun x found bound => outside x bound found) I s).symm

/-- A disjunction of three members, the first and the last with quantifiers that are moved past the
other members, in which the variable `z` is free. -/
theorem prenex_of_isNegationNormal_disjunction :
    let f : Formula := .junction .disj
      (.quant .all "x" (.conj (.atom ⟨"P", [.var "x", .var "z"]⟩)
        (.quant .ex "y" (.neg (.atom ⟨"R", [.var "y"]⟩)))))
      (.neg (.atom ⟨"P", [.var "z", .var "z"]⟩)) [.quant .all "v" (.atom ⟨"R", [.var "v"]⟩)]
    ∃ p, f.prenex = .ok p ∧ p.quantifiers = [⟨.all, "x"⟩, ⟨.ex, "y"⟩, ⟨.all, "v"⟩] ∧
      Formula.SameMeaning.{0} f p.toFormula := by
  intro f
  have normal : f.IsNegationNormal := by simp [f, Formula.IsNegationNormal]
  obtain ⟨p, pulled, bindings, -, -, -, same⟩ := prenex_of_isNegationNormal normal
  have quantified : f.quantified = ["x", "y", "v"] := by simp [f, Formula.quantified]
  have free : f.free [] = ["z", "z", "z"] := by
    simp [f, Formula.free, Atom.variableNames, Term.variableNames]
  refine ⟨p, pulled, ?_, same ?_ ?_⟩
  · rw [bindings]
    simp [f, Formula.bindings]
  · rw [quantified]
    decide
  · rw [quantified, free]
    decide

open PrenexLemmas in
/-- Putting a prefix in front of a matrix and pulling quantifiers undo each other, whatever variables
repeat in the prefix. So pulling quantifiers a second time changes nothing, and what it leaves alone are
the formulas that are a prefix with a matrix. A prefix of two parts is put in front part by part. -/
theorem prenex_undoes_quantify :
    (∀ (bindings : Prefix) (m : Formula), m.IsNegationNormal → m.IsQuantifierFree →
      (bindings.quantify m).prenex = .ok ⟨bindings, m⟩) ∧
    (∀ f : Formula, f.IsNegationNormal → ∃ p, f.prenex = .ok p ∧ p.toFormula.prenex = .ok p ∧
      (p.toFormula = f ↔ ∃ (bindings : Prefix) (m : Formula), m.IsNegationNormal ∧
        m.IsQuantifierFree ∧ f = bindings.quantify m)) ∧
    ∀ (outer inner : Prefix) (f : Formula),
      Prefix.quantify (outer ++ inner) f = outer.quantify (inner.quantify f) := by
  refine ⟨fun bindings m normal quantifierFree => prenex_quantify normal quantifierFree bindings, ?_,
    Prefix.quantify_append⟩
  intro f normal
  obtain ⟨p, pulled⟩ := exists_prenex normal
  exact ⟨p, pulled, prenex_toFormula pulled, toFormula_eq_iff pulled⟩

/-- A prefix that binds one variable three times, and a conjunction of four members with quantifiers in
two of them. -/
theorem prenex_undoes_quantify_repeated :
    let P : Formula := .atom ⟨"P", [.var "x", .var "y"]⟩
    let m : Formula := .junction .disj P (.conj (.neg P) P) [.neg P]
    let bindings : Prefix := [⟨.all, "x"⟩, ⟨.ex, "x"⟩, ⟨.all, "y"⟩, ⟨.all, "x"⟩]
    let f : Formula := .junction .conj P (.quant .all "x" (.disj P (.quant .ex "y" P)))
      [.neg P, .quant .ex "x" P]
    m.IsNegationNormal ∧ m.IsQuantifierFree ∧ (bindings.quantify m).prenex = .ok ⟨bindings, m⟩ ∧
      f.IsNegationNormal ∧ ∃ p, f.prenex = .ok p ∧
        p.quantifiers = [⟨.all, "x"⟩, ⟨.ex, "y"⟩, ⟨.ex, "x"⟩] ∧ p.toFormula.prenex = .ok p := by
  intro P m bindings f
  have normal : m.IsNegationNormal := by simp [m, P, Formula.IsNegationNormal]
  have quantifierFree : m.IsQuantifierFree := by simp [m, P, Formula.IsQuantifierFree]
  have normal' : f.IsNegationNormal := by simp [f, P, Formula.IsNegationNormal]
  obtain ⟨p, pulled, again, -⟩ := prenex_undoes_quantify.2.1 f normal'
  refine ⟨normal, quantifierFree, prenex_undoes_quantify.1 bindings m normal quantifierFree, normal', p,
    pulled, ?_, again⟩
  rw [PrenexLemmas.bindings_prenex pulled]
  simp [f, P, Formula.bindings]

end Clausal
