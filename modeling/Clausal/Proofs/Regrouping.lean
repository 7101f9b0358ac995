import Mathlib.Logic.Relation
import Clausal.Formula.Subformula
import Clausal.Proofs.Shapes

/-!
# Flattening decides regrouping

Conjunction and disjunction are associative: brackets around some members of a junction may be left
out or put in, as long as every junction keeps two members. A formula and its flattened form differ by
brackets only, and brackets make no difference to the flattened form.

* `Formula.Unbrackets`: one pair of brackets is left out, anywhere in the formula.
* `Formula.IsFlat`: no junction is a member of a junction with the same operator.
* `RegroupingLemmas.reaches_flatten`: leaving out brackets leads to the flattened form.
* `RegroupingLemmas.flatten_eq_of_unbrackets`: one step keeps the flattened form.
* `flatten_eq_iff_regroups` puts both together.
-/

namespace Clausal

open Relation

namespace Formula

/-- One pair of brackets is left out: the members of a junction that is itself a member of a junction
with the same operator become members of the outer one. This may happen anywhere in the formula. -/
inductive Unbrackets : Formula → Formula → Prop
  | merge {op : Junctor} {before inner after : List Formula} {f g h : Formula} :
      g.IsJunction op inner → f.IsJunction op (before ++ g :: after) →
      h.IsJunction op (before ++ inner ++ after) → Unbrackets f h
  | member {op : Junctor} {before after : List Formula} {f f' g g' : Formula} :
      Unbrackets g g' → f.IsJunction op (before ++ g :: after) →
      f'.IsJunction op (before ++ g' :: after) → Unbrackets f f'
  | neg {f f' : Formula} : Unbrackets f f' → Unbrackets (.neg f) (.neg f')
  | impLeft {a a' b : Formula} : Unbrackets a a' → Unbrackets (.imp a b) (.imp a' b)
  | impRight {a b b' : Formula} : Unbrackets b b' → Unbrackets (.imp a b) (.imp a b')
  | iffLeft {a a' b : Formula} : Unbrackets a a' → Unbrackets (.iff a b) (.iff a' b)
  | iffRight {a b b' : Formula} : Unbrackets b b' → Unbrackets (.iff a b) (.iff a b')
  | quant {q : Quantifier} {x : String} {f f' : Formula} :
      Unbrackets f f' → Unbrackets (.quant q x f) (.quant q x f')

/-- Brackets are left out or put in, any number of times. -/
def Regroups : Formula → Formula → Prop :=
  EqvGen Unbrackets

/-- No member is a junction with the operator that joins the members. -/
def HasFlatMembers (f : Formula) : Prop :=
  ∀ op members, f.IsJunction op members → ∀ g ∈ members, ∀ inner, ¬ g.IsJunction op inner

/-- No junction is a member of a junction with the same operator. -/
def IsFlat (f : Formula) : Prop :=
  ∀ g ∈ f.subformulas, g.HasFlatMembers

end Formula

namespace RegroupingLemmas

open Formula

variable {op : Junctor} {f g h : Formula} {fs gs : List Formula}

/-! ## Members of junctions -/

theorem eq_of_isJunction (left : f.IsJunction op fs) (right : g.IsJunction op fs) : f = g := by
  obtain ⟨a, b, rest, rfl, rfl⟩ := left
  obtain ⟨_, _, _, ⟨⟩, rfl⟩ := right
  rfl

theorem memberList_of_isJunction (joined : f.IsJunction op fs) : f.memberList op = fs := by
  obtain ⟨a, b, rest, rfl, rfl⟩ := joined
  exact ShapeLemmas.memberList_junction

/-- A formula is a junction of its members, or it is its only member. -/
theorem isJunction_or_memberList (op : Junctor) (f : Formula) :
    f.IsJunction op (f.memberList op) ∨
      (∀ inner, ¬ f.IsJunction op inner) ∧ f.memberList op = [f] := by
  by_cases joined : ∃ inner, f.IsJunction op inner
  · obtain ⟨inner, joined⟩ := joined
    exact .inl ((memberList_of_isJunction joined).symm ▸ joined)
  · rw [not_exists] at joined
    refine .inr ⟨joined, ShapeLemmas.memberList_of_ne fun a b rest same => ?_⟩
    exact joined _ ⟨a, b, rest, rfl, same⟩

/-- The members of a flattened junction are those of its flattened members. -/
theorem isJunction_flatten (joined : f.IsJunction op fs) :
    f.flatten.IsJunction op (fs.flatMap fun g => g.flatten.memberList op) := by
  obtain ⟨a, b, rest, rfl, rfl⟩ := joined
  obtain ⟨a', b', rest', flat, members⟩ := ShapeLemmas.exists_flatten_junction op a b rest
  exact ⟨a', b', rest', members.symm, flat⟩

/-! ## Leaving out brackets leads to the flattened form -/

/-- What leads from member to member leads from junction to junction. The induction is on the members
that are still to be changed; those `before` have been. -/
theorem reaches_junction (before : List Formula)
    (each : List.Forall₂ (ReflTransGen Unbrackets) fs gs) (left : f.IsJunction op (before ++ fs))
    (right : g.IsJunction op (before ++ gs)) : ReflTransGen Unbrackets f g := by
  induction each generalizing before f with
  | nil => rw [eq_of_isJunction left right]
  | @cons first first' others others' head _ ih =>
      have two : ∀ g, 2 ≤ (before ++ g :: others).length := fun g => by
        simpa using left.two_le_length
      choose context joined using fun g => exists_isJunction op (two g)
      have changed : ReflTransGen Unbrackets (context first) (context first') :=
        head.lift context fun g g' step => .member step (joined g) (joined g')
      rw [eq_of_isJunction left (joined first)]
      refine changed.trans (ih (before ++ [first']) ?_ ?_)
      · simpa using joined first'
      · simpa using right

/-- The members of members with the same operator become members one after the other. -/
theorem reaches_flatMap (before : List Formula) (left : f.IsJunction op (before ++ fs))
    (right : g.IsJunction op (before ++ fs.flatMap (memberList op))) :
    ReflTransGen Unbrackets f g := by
  induction fs generalizing before f with
  | nil => rw [eq_of_isJunction left right]
  | cons first others ih =>
      rw [List.flatMap_cons, ← List.append_assoc] at right
      rcases isJunction_or_memberList op first with joined | ⟨-, single⟩
      · have two : 2 ≤ (before ++ first.memberList op ++ others).length := by
          have inner := joined.two_le_length
          simp only [List.length_append]
          omega
        obtain ⟨h, merged⟩ := exists_isJunction op two
        exact .head (.merge joined left merged) (ih _ merged right)
      · rw [single] at right
        exact ih (before ++ [first]) (by simpa using left) right

/-- Leaving out brackets leads to the flattened form. -/
theorem reaches_flatten (f : Formula) : ReflTransGen Unbrackets f f.flatten := by
  induction f using Formula.rec_memberList with
  | atom p =>
      rw [flatten]
  | neg f ih =>
      rw [flatten]
      exact ih.lift neg fun _ _ => .neg
  | junction op a b rest ih =>
      have joined : (junction op a b rest).IsJunction op ([] ++ a :: b :: rest) :=
        isJunction_junction
      have two : 2 ≤ ((a :: b :: rest).map flatten).length := by simp
      obtain ⟨middle, flattened⟩ := exists_isJunction op two
      have each : List.Forall₂ (ReflTransGen Unbrackets) (a :: b :: rest)
          ((a :: b :: rest).map flatten) :=
        List.forall₂_map_right_iff.mpr (List.forall₂_same.mpr ih)
      have merged : (junction op a b rest).flatten.IsJunction op
          (((a :: b :: rest).map flatten).flatMap (memberList op)) := by
        rw [List.flatMap_map]
        exact isJunction_flatten isJunction_junction
      exact (reaches_junction [] each joined flattened).trans (reaches_flatMap [] flattened merged)
  | imp a b iha ihb =>
      rw [flatten]
      exact (iha.lift (imp · b) fun _ _ => .impLeft).trans
        (ihb.lift (imp a.flatten) fun _ _ => .impRight)
  | iff a b iha ihb =>
      rw [flatten]
      exact (iha.lift (Formula.iff · b) fun _ _ => .iffLeft).trans
        (ihb.lift (Formula.iff a.flatten) fun _ _ => .iffRight)
  | quant q x f ih =>
      rw [flatten]
      exact ih.lift (quant q x) fun _ _ => .quant

/-! ## Brackets make no difference to the flattened form -/

/-- Junctions whose members have the same members after flattening are flattened alike. -/
theorem flatten_eq_of_members (left : f.IsJunction op fs) (right : g.IsJunction op gs)
    (same : (fs.flatMap fun h => h.flatten.memberList op) =
      gs.flatMap fun h => h.flatten.memberList op) : f.flatten = g.flatten :=
  eq_of_isJunction (isJunction_flatten left) (same ▸ isJunction_flatten right)

/-- One step keeps the flattened form, wherever it happens. -/
theorem flatten_eq_of_unbrackets (step : Unbrackets f g) : f.flatten = g.flatten := by
  induction step with
  | merge inner left right =>
      refine flatten_eq_of_members left right ?_
      rw [List.flatMap_append, List.flatMap_append, List.flatMap_append, List.flatMap_cons,
        memberList_of_isJunction (isJunction_flatten inner), List.append_assoc]
  | member _ left right ih =>
      refine flatten_eq_of_members left right ?_
      rw [List.flatMap_append, List.flatMap_append, List.flatMap_cons, List.flatMap_cons, ih]
  | neg _ ih | impLeft _ ih | impRight _ ih | iffLeft _ ih | iffRight _ ih | quant _ ih =>
      rw [flatten, flatten, ih]

theorem flatten_eq_of_regroups (regrouped : Regroups f g) : f.flatten = g.flatten := by
  induction regrouped with
  | rel f g step => exact flatten_eq_of_unbrackets step
  | refl f => rfl
  | symm f g _ ih => exact ih.symm
  | trans f g h _ _ first second => exact first.trans second

theorem regroups_flatten (f : Formula) : Regroups f f.flatten :=
  EqvGen.reflTransGen_le_eqvGen Unbrackets _ _ (reaches_flatten f)

/-! ## Flat formulas -/

theorem hasFlatMembers_of_ne (plain : ∀ op a b rest, f ≠ .junction op a b rest) :
    f.HasFlatMembers := by
  rintro op _ ⟨a, b, rest, _, same⟩
  exact absurd same (plain op a b rest)

/-- The members of a flat formula are flat, and none of them is a junction with its operator. -/
theorem flat_of_mem_memberList (flat : f.IsFlat) (member : g ∈ f.memberList op) :
    g.IsFlat ∧ ∀ inner, ¬ g.IsJunction op inner := by
  rcases isJunction_or_memberList op f with joined | ⟨plain, single⟩
  · refine ⟨fun h inside => flat h ?_, flat f f.self_mem_subformulas op _ joined g member⟩
    obtain ⟨a, b, rest, members, rfl⟩ := joined
    rw [members] at member
    rw [subformulas_junction]
    exact List.mem_cons_of_mem _ (List.mem_flatMap.mpr ⟨g, member, inside⟩)
  · rw [single, List.mem_singleton] at member
    subst member
    exact ⟨flat, plain⟩

/-- A flattened formula is flat. -/
theorem isFlat_flatten (f : Formula) : f.flatten.IsFlat := by
  induction f using Formula.rec_memberList with
  | atom p =>
      rw [flatten, IsFlat, subformulas, List.forall_mem_singleton]
      exact hasFlatMembers_of_ne (by simp)
  | neg f ih | quant q x f ih =>
      rw [flatten, IsFlat, subformulas, List.forall_mem_cons]
      exact ⟨hasFlatMembers_of_ne (by simp), ih⟩
  | junction op a b rest ih =>
      have joined : (junction op a b rest).flatten.IsJunction op
          ((a :: b :: rest).flatMap fun f => f.flatten.memberList op) :=
        isJunction_flatten isJunction_junction
      have members : ∀ g ∈ (a :: b :: rest).flatMap fun f => f.flatten.memberList op,
          g.IsFlat ∧ ∀ inner, ¬ g.IsJunction op inner :=
        List.forall_mem_flatMap.mpr fun f member g inside =>
          flat_of_mem_memberList (ih f member) inside
      obtain ⟨a', b', rest', same, flat⟩ := joined
      rw [same] at members
      rw [flat, IsFlat, subformulas_junction, List.forall_mem_cons, List.forall_mem_flatMap]
      refine ⟨?_, fun g member => (members g member).1⟩
      rintro _ _ ⟨_, _, _, rfl, ⟨⟩⟩ g member
      exact (members g member).2
  | imp a b iha ihb | iff a b iha ihb =>
      rw [flatten, IsFlat, subformulas, List.forall_mem_cons, List.forall_mem_append]
      exact ⟨hasFlatMembers_of_ne (by simp), iha, ihb⟩

end RegroupingLemmas

/-! ## Main result -/

open RegroupingLemmas in
/-- Two formulas have the same flattened form exactly if one can be made of the other by leaving out
and putting in brackets. The flattened form is its own flattened form, no junction in it is a member of
a junction with the same operator, and the atoms stand in their order. -/
theorem flatten_eq_iff_regroups (f g : Formula) :
    (f.flatten = g.flatten ↔ Formula.Regroups f g) ∧
      f.flatten.flatten = f.flatten ∧ f.flatten.IsFlat ∧ f.flatten.atoms = f.atoms := by
  refine ⟨⟨fun same => ?_, flatten_eq_of_regroups⟩, ?_, isFlat_flatten f, SpineLemmas.atoms_flatten⟩
  · have back : Formula.Regroups f.flatten g := same ▸ (regroups_flatten g).symm
    exact (regroups_flatten f).trans _ _ _ back
  · exact (flatten_eq_of_regroups (regroups_flatten f)).symm

end Clausal
