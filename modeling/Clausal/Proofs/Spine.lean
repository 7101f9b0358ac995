import Clausal.Formula.Spine
import Clausal.Proofs.Meaning

/-!
# Spines and flattening

A formula is the junction of the parts on its spine, and flattening gives these parts to one junction.

* `SpineLemmas.spine_induction` is induction over the spine for one operator.
* `Formula.leaves` are the subformulas on which only junctions stand; `SpineLemmas.leaves_induction` is
  induction over formulas whose leaves are literals.
* `Formula.Concatenates` holds of lists that a junction has from its members, one after the other.
* `SpineLemmas.joins_spine`, `SpineLemmas.holds_mapSpine`, `SpineLemmas.holds_flatten`: meaning.
-/

namespace Clausal

namespace Formula

/-- The largest subformulas that are no junctions and stand below junctions only. -/
def leaves : Formula → List Formula
  | .junction _ a b rest => a.leaves ++ b.leaves ++ rest.flatMap leaves
  | f => [f]

/-- A list that a junction has from its members, one after the other. -/
def Concatenates {α : Type u} (list : Formula → List α) : Prop :=
  ∀ op a b rest, list (.junction op a b rest) = (a :: b :: rest).flatMap list

theorem concatenates_leaves : Concatenates leaves := by
  intro op a b rest
  simp [leaves]

theorem concatenates_atoms : Concatenates atoms :=
  fun _ _ _ _ => atoms_junction

theorem spine_junction {op : Junctor} {a b : Formula} {rest : List Formula} :
    (junction op a b rest).spine op = (a :: b :: rest).flatMap (spine op) := by
  simp [spine]

end Formula

namespace SpineLemmas

open Formula

variable {op : Junctor} {f : Formula}

/-! ## Spines -/

section
variable (part : ∀ a b rest, f ≠ .junction op a b rest)
include part

theorem spine_of_ne : f.spine op = [f] := by
  cases f with
  | junction op' a b rest =>
      have differ : op' ≠ op := fun same => part a b rest (same ▸ rfl)
      rw [spine, if_neg differ]
  | _ => simp [spine]

theorem mapSpine_of_ne {change : Formula → Formula} : f.mapSpine op change = change f := by
  cases f with
  | junction op' a b rest =>
      have differ : op' ≠ op := fun same => part a b rest (same ▸ rfl)
      rw [mapSpine, if_neg differ]
  | _ => simp [mapSpine]

theorem members_of_ne : f.members op = (f, []) := by
  cases f with
  | junction op' a b rest =>
      have differ : op' ≠ op := fun same => part a b rest (same ▸ rfl)
      rw [members, if_neg differ]
  | _ => simp [members]

end

/-- A junction with another operator is a part. -/
theorem not_junction_of_ne {op' : Junctor} {a b : Formula} {rest : List Formula}
    (differ : op' ≠ op) : ∀ c d others, Formula.junction op' a b rest ≠ .junction op c d others :=
  fun _ _ _ same => differ (Formula.junction.inj same).1

/-- Induction over a spine: a formula is a part on its own, or a junction with the operator. -/
theorem spine_induction (op : Junctor) {motive : Formula → Prop}
    (part : ∀ f, (∀ a b rest, f ≠ .junction op a b rest) → motive f)
    (junction : ∀ a b rest, (∀ f ∈ a :: b :: rest, motive f) → motive (.junction op a b rest))
    (f : Formula) : motive f := by
  induction f using Formula.rec_memberList with
  | junction op' a b rest ih =>
      by_cases same : op' = op
      · subst same
        exact junction a b rest ih
      · exact part _ (not_junction_of_ne same)
  | _ => exact part _ fun _ _ _ => nofun

/-- What replaces the parts hangs on the spine in their places. -/
theorem mapSpine_concatenates {α : Type u} {list : Formula → List α}
    (junction : ∀ a b rest, list (.junction op a b rest) = (a :: b :: rest).flatMap list)
    {change : Formula → Formula} :
    list (f.mapSpine op change) = (f.spine op).flatMap fun g => list (change g) := by
  induction f using spine_induction op with
  | part f part => simp [mapSpine_of_ne part, spine_of_ne part]
  | junction a b rest ih =>
      have mapped : (Formula.junction op a b rest).mapSpine op change =
          .junction op (a.mapSpine op change) (b.mapSpine op change)
            (rest.map (mapSpine op change)) := by simp [mapSpine]
      rw [mapped, junction, spine_junction, List.flatMap_assoc, ← List.map_cons, ← List.map_cons,
        List.flatMap_map]
      exact List.flatMap_congr ih

theorem spine_mapSpine {change : Formula → Formula} :
    (f.mapSpine op change).spine op = (f.spine op).flatMap fun g => (change g).spine op :=
  mapSpine_concatenates fun _ _ _ => spine_junction

/-- A list that junctions with an operator concatenate can be read off the spine. -/
theorem flatMap_spine (f : Formula) {α : Type u} {list : Formula → List α}
    (junction : ∀ a b rest, list (.junction op a b rest) = (a :: b :: rest).flatMap list) :
    (f.spine op).flatMap list = list f := by
  induction f using spine_induction op with
  | part f part => simp [spine_of_ne part]
  | junction a b rest ih =>
      rw [spine_junction, List.flatMap_assoc, junction]
      exact List.flatMap_congr ih

/-- A part of a spine is no junction with the operator. -/
theorem ne_of_mem_spine {g : Formula} (member : g ∈ f.spine op) :
    ∀ a b rest, g ≠ .junction op a b rest := by
  induction f using spine_induction op with
  | part f part =>
      rw [spine_of_ne part, List.mem_singleton] at member
      exact member ▸ part
  | junction a b rest ih =>
      rw [spine_junction, List.mem_flatMap] at member
      obtain ⟨f, inside, member⟩ := member
      exact ih f inside member

theorem spine_ne_nil (op : Junctor) (f : Formula) : f.spine op ≠ [] := by
  induction f using spine_induction op with
  | part f part => simp [spine_of_ne part]
  | junction a b rest ih =>
      rw [spine_junction, List.flatMap_cons]
      exact List.append_ne_nil_of_left_ne_nil (ih a List.mem_cons_self) _

section
variable {D : Type u} {I : Interpretation D} {s : String → D}

/-- A formula says what its operator says of the parts on the spine. -/
theorem joins_spine (op : Junctor) (f : Formula) :
    op.Joins ((f.spine op).map (Holds I s)) ↔ f.Holds I s := by
  induction f using spine_induction op with
  | part f part => rw [spine_of_ne part, List.map_singleton, JoinLemmas.joins_singleton]
  | junction a b rest ih =>
      rw [spine_junction, List.map_flatMap, JoinLemmas.joins_flatMap, holds_junction_iff]
      exact JoinLemmas.joins_congr ih

theorem holds_mapSpine {change : Formula → Formula} :
    (f.mapSpine op change).Holds I s ↔
      op.Joins ((f.spine op).map fun g => (change g).Holds I s) := by
  rw [← joins_spine op, spine_mapSpine, List.map_flatMap, JoinLemmas.joins_flatMap]
  exact JoinLemmas.joins_congr fun g _ => joins_spine op _

end

/-! ## Leaves -/

/-- A literal is a part of every spine. -/
theorem not_junction_of_isLiteral (literal : f.IsLiteral) :
    ∀ a b rest, f ≠ .junction op a b rest := by
  rintro a b rest rfl
  exact literal

theorem leaves_of_isLiteral (literal : f.IsLiteral) : f.leaves = [f] := by
  cases f with
  | junction op a b rest => exact literal.elim
  | _ => simp [leaves]

/-- Induction over formulas made of literals: such a formula is a literal, or a junction of such
formulas. -/
theorem leaves_induction {motive : Formula → Prop} (literal : ∀ l, l.IsLiteral → motive l)
    (junction : ∀ op a b rest, (∀ f ∈ a :: b :: rest, (∀ l ∈ f.leaves, l.IsLiteral) ∧ motive f) →
      motive (.junction op a b rest))
    (literals : ∀ l ∈ f.leaves, l.IsLiteral) : motive f := by
  induction f using Formula.rec_memberList with
  | junction op a b rest ih =>
      rw [concatenates_leaves, List.forall_mem_flatMap] at literals
      exact junction op a b rest fun f member =>
        ⟨literals f member, ih f member (literals f member)⟩
  | _ => exact literal _ (literals _ (by simp [leaves]))

/-- A list that junctions concatenate can be read off the leaves. -/
theorem flatMap_leaves {α : Type u} {list : Formula → List α} (concatenates : Concatenates list) :
    f.leaves.flatMap list = list f := by
  induction f using Formula.rec_memberList with
  | junction op a b rest ih =>
      rw [concatenates_leaves, List.flatMap_assoc, concatenates]
      exact List.flatMap_congr ih
  | _ => simp [leaves]

/-- The formulas whose leaves are literals: no quantifier, and negation normal form. -/
theorem leaves_isLiteral_iff :
    (∀ g ∈ f.leaves, g.IsLiteral) ↔ f.IsQuantifierFree ∧ f.IsNegationNormal := by
  induction f using Formula.rec_memberList with
  | junction op a b rest ih =>
      rw [concatenates_leaves, List.forall_mem_flatMap, isQuantifierFree_junction,
        isNegationNormal_junction, ← forall₂_and]
      exact forall₂_congr ih
  | neg f _ =>
      simp only [leaves, List.forall_mem_singleton, IsLiteral, IsNegationNormal, IsQuantifierFree]
      refine ⟨?_, And.right⟩
      rintro ⟨p, rfl⟩
      exact ⟨by rw [IsQuantifierFree]; trivial, p, rfl⟩
  | _ => simp [leaves, IsLiteral, IsNegationNormal, IsQuantifierFree]

/-! ## Flattening -/

section
variable {α : Type u} {list : Formula → List α}
  (junction : ∀ a b rest, list (.junction op a b rest) = (a :: b :: rest).flatMap list)
include junction

theorem flatMap_joinAll {rest : List Formula} :
    list (joinAll op f rest) = (f :: rest).flatMap list := by
  cases rest with
  | nil => rw [joinAll, List.flatMap_singleton]
  | cons g rest => rw [joinAll, junction]

theorem flatMap_members :
    ((f.members op).1 :: (f.members op).2).flatMap list = list f := by
  induction f using spine_induction op with
  | part f part => rw [members_of_ne part, List.flatMap_singleton]
  | junction a b rest _ => rw [members, if_pos rfl, junction]

/-- A flattened junction has what its flattened members have. -/
theorem flatMap_flatten {a b : Formula} {rest : List Formula} :
    list (Formula.junction op a b rest).flatten =
      (a :: b :: rest).flatMap fun f => list f.flatten := by
  have others : ((b.flatten :: rest.map flatten).flatMap fun f =>
      (f.members op).1 :: (f.members op).2).flatMap list =
        (b :: rest).flatMap fun f => list f.flatten := by
    rw [List.flatMap_assoc, ← List.map_cons, List.flatMap_map]
    exact List.flatMap_congr fun f _ => flatMap_members junction
  rw [flatten, flatMap_joinAll junction, List.flatMap_cons, List.flatMap_append, others,
    ← List.append_assoc, ← List.flatMap_cons, flatMap_members junction]
  rfl

end

/-- Flattening keeps the meaning. -/
theorem holds_flatten {D : Type u} {I : Interpretation D} {s : String → D} :
    f.flatten.Holds I s ↔ f.Holds I s := by
  induction f using Formula.rec_memberList generalizing s with
  | atom p => rw [flatten]
  | neg f ih => rw [flatten, Holds, Holds, ih]
  | junction op a b rest ih =>
      -- The spine of the flattened junction is made of those of its flattened members.
      rw [← joins_spine op, flatMap_flatten fun _ _ _ => spine_junction, List.map_flatMap,
        JoinLemmas.joins_flatMap, holds_junction_iff]
      exact JoinLemmas.joins_congr fun f member => (joins_spine op _).trans (ih f member)
  | imp a b iha ihb | iff a b iha ihb => rw [flatten, Holds, Holds, iha, ihb]
  | quant q x f ih =>
      rw [flatten, Holds, Holds]
      exact BindLemmas.binds_congr fun d => ih

/-- Flattening keeps the atoms, in their order. -/
theorem atoms_flatten : f.flatten.atoms = f.atoms := by
  induction f using Formula.rec_memberList with
  | junction op a b rest ih =>
      rw [flatMap_flatten (concatenates_atoms op), atoms_junction]
      exact List.flatMap_congr ih
  | _ => simp_all [flatten, atoms]

/-- Flattening keeps leaves that are literals, in their order. -/
theorem leaves_flatten (literals : ∀ g ∈ f.leaves, g.IsLiteral) : f.flatten.leaves = f.leaves := by
  induction f using Formula.rec_memberList with
  | junction op a b rest ih =>
      rw [concatenates_leaves, List.forall_mem_flatMap] at literals
      rw [flatMap_flatten (concatenates_leaves op), concatenates_leaves]
      exact List.flatMap_congr fun f member => ih f member (literals f member)
  | atom p => rw [flatten]
  | neg f _ =>
      have literal : (Formula.neg f).IsLiteral := literals _ (by simp [leaves])
      obtain ⟨p, rfl⟩ := literal
      rw [flatten, flatten]
  | _ => simp [leaves, IsLiteral] at literals

end SpineLemmas

end Clausal
