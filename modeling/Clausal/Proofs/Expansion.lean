import Mathlib.Algebra.GroupWithZero.Nat
import Clausal.Proofs.Shapes

/-!
# The order of clauses and literals

A matrix normal form is the ordered expansion of its formula by the distributive law. A junction with
the outer operator has the parts of its members, one after the other. A junction with the inner
operator has the products of parts of its members: to each part of a later member each part of the
earlier ones is put in front. Nothing is reordered, merged or left out, whether or not the normal form
is flattened.

* `Formula.expansion` is this expansion, said of the formula; `Formula.width` counts its parts.
* `ExpansionLemmas.parts_distribute` is one step of distribution, `ExpansionLemmas.parts_distributed`
  the whole of it, and `ExpansionLemmas.parts_flatten` adds that flattening keeps the order.
* `matrixForm_expands`: the clauses of the conjunctive and the cubes of the disjunctive normal form.
-/

namespace Clausal

/-! ## Definitions -/

/-- For each part on the right, each part on the left with the right one behind it. -/
def products (left right : List (List Formula)) : List (List Formula) :=
  right.flatMap fun r => left.map fun l => l ++ r

namespace Formula

/-- The parts of the normal form with `outer` outermost, each with its literals in order. -/
def expansion (outer : Junctor) : Formula → List (List Formula)
  | .junction op a b rest =>
      if op = outer then
        a.expansion outer ++ b.expansion outer ++ rest.flatMap (expansion outer)
      else
        (rest.map (expansion outer)).foldl products
          (products (a.expansion outer) (b.expansion outer))
  | f => [[f]]

/-- The number of parts of the normal form with `outer` outermost: one for a literal, the sum over the
members for the outer operator, their product for the inner one. -/
def width (outer : Junctor) : Formula → Nat
  | .junction op a b rest =>
      if op = outer then a.width outer + b.width outer + (rest.map (width outer)).sum
      else a.width outer * b.width outer * (rest.map (width outer)).prod
  | _ => 1

/-- The parts of a formula that is a junction of junctions, each with what hangs on its own spine. -/
def parts (outer : Junctor) (f : Formula) : List (List Formula) :=
  (f.spine outer).map (spine outer.dual)

end Formula

namespace ExpansionLemmas

open Formula

variable {outer : Junctor} {f g l r : Formula} {a b : Formula} {rest : List Formula}

/-! ## The expansion of a junction -/

theorem expansion_outer :
    (Formula.junction outer a b rest).expansion outer =
      (a :: b :: rest).flatMap (expansion outer) := by
  simp [expansion]

theorem expansion_inner :
    (Formula.junction outer.dual a b rest).expansion outer =
      ((b :: rest).map (expansion outer)).foldl products (a.expansion outer) := by
  rw [expansion, if_neg (ShapeLemmas.dual_ne outer), List.map_cons, List.foldl_cons]

theorem expansion_literal (literal : l.IsLiteral) : l.expansion outer = [[l]] := by
  cases l with
  | junction op a b rest => exact absurd literal id
  | _ => rw [expansion]; nofun

/-! ## Distribution -/

/-- Distribution makes the products of the parts of its operands. -/
theorem parts_distribute :
    (distribute outer l r).parts outer = products (l.parts outer) (r.parts outer) := by
  have joined : ∀ x y : Formula, (Formula.junction outer.dual x y []).spine outer.dual =
      x.spine outer.dual ++ y.spine outer.dual := by
    intro x y
    rw [spine_junction, List.flatMap_cons, List.flatMap_singleton]
  rw [products, parts, parts, parts, ShapeLemmas.spine_distribute, List.map_flatMap,
    List.flatMap_map]
  refine List.flatMap_congr fun y _ => ?_
  rw [List.map_flatMap, List.map_map, List.map_eq_flatMap]
  refine List.flatMap_congr fun x _ => ?_
  rw [List.map_singleton, joined, Function.comp_apply]

/-- Distribution over several operands multiplies their parts from left to right. -/
theorem parts_foldl_distribute {fs : List Formula} :
    (fs.foldl (distribute outer) f).parts outer =
      (fs.map (parts outer)).foldl products (f.parts outer) := by
  induction fs generalizing f with
  | nil => rfl
  | cons g fs ih => rw [List.foldl_cons, ih, parts_distribute, List.map_cons, List.foldl_cons]

theorem parts_literal (literal : l.IsLiteral) : l.parts outer = [[l]] := by
  rw [parts, ShapeLemmas.spine_literal literal, List.map_singleton,
    ShapeLemmas.spine_literal literal]

/-- The normal form that distribution leaves has the parts of the expansion. -/
theorem parts_distributed (formed : f.distributed outer = .ok g) :
    g.parts outer = f.expansion outer := by
  refine MatrixLemmas.distributed_induction
    (motive := fun f g => g.parts outer = f.expansion outer) ?literal ?joined ?spread formed
  case literal =>
    intro l literal
    rw [parts_literal literal, expansion_literal literal]
  case joined =>
    intro a b rest a' b' rest' members
    rw [parts, spine_junction, List.map_flatMap, expansion_outer]
    exact (MemberLemmas.flatMap_eq_flatMap_of_forall₂ (members.imp fun _ _ same => same.symm)).symm
  case spread =>
    intro a b rest a' b' rest' members
    obtain ⟨first, others⟩ := List.forall₂_cons.mp members
    rw [parts_foldl_distribute, expansion_inner, first]
    have same : (b' :: rest').map (parts outer) = (b :: rest).map (expansion outer) :=
      (MemberLemmas.map_eq_map_of_forall₂ (others.imp fun _ _ same => same.symm)).symm
    rw [same]

/-! ## Flattening -/

/-- Flattening neither reorders nor merges parts or literals. -/
theorem parts_flatten (shaped : f.IsMatrix outer) : f.flatten.parts outer = f.parts outer := by
  rw [parts, ShapeLemmas.spine_flatten, List.map_map]
  refine List.map_congr_left fun part member => ?_
  rw [Function.comp_apply, ShapeLemmas.spine_flatten]
  refine (List.map_congr_left fun l inside => ?_).trans (List.map_id _)
  exact ShapeLemmas.isLiteral_flatten (shaped part member l inside)

/-- A matrix normal form, flattened or not, has the parts of the expansion. -/
theorem parts_matrixForm {flat : Bool} (formed : f.matrixForm outer flat = .ok g) :
    g.parts outer = f.expansion outer := by
  obtain ⟨h, nested, rfl⟩ := MatrixLemmas.distributed_of_matrixForm formed
  cases flat with
  | false => exact parts_distributed nested
  | true =>
      rw [if_pos rfl, parts_flatten (ShapeLemmas.isMatrix_distributed nested)]
      exact parts_distributed nested

/-! ## Clauses -/

/-- The clauses that are read off a conjunction are its parts. -/
theorem map_toFormula_of_ofFormula {cs : ClauseSet} (read : ClauseSet.ofFormula f = .ok cs) :
    cs.map (·.map Literal.toFormula) = f.parts .conj := by
  have literals : ∀ g c, Clause.ofFormula g = .ok c → c.map Literal.toFormula = g.spine .disj := by
    intro g c read
    rw [← List.map_id (g.spine .disj)]
    refine (MemberLemmas.map_eq_map_of_forall₂ ((MemberLemmas.mapM_eq_ok.mp read).imp ?_)).symm
    exact fun f l read => (ShapeLemmas.toFormula_of_ofPart read).symm
  refine (MemberLemmas.map_eq_map_of_forall₂ ((MemberLemmas.mapM_eq_ok.mp read).imp ?_)).symm
  exact fun g c read => (literals g c read).symm

/-! ## Numbers of parts -/

theorem length_products (left right : List (List Formula)) :
    (products left right).length = left.length * right.length := by
  simp [products, List.length_flatMap, Nat.mul_comm]

theorem length_foldl_products (left : List (List Formula)) (rights : List (List (List Formula))) :
    (rights.foldl products left).length = left.length * (rights.map List.length).prod := by
  induction rights generalizing left with
  | nil => rw [List.foldl_nil, List.map_nil, List.prod_nil, Nat.mul_one]
  | cons right rights ih =>
      rw [List.foldl_cons, ih, length_products, List.map_cons, List.prod_cons, Nat.mul_assoc]

/-- The expansion has as many parts as sums and products of the numbers for the members say. -/
theorem length_expansion (outer : Junctor) (f : Formula) :
    (f.expansion outer).length = f.width outer := by
  induction f using Formula.rec_members with
  | junction op a b rest iha ihb ih =>
      have others : (rest.map (expansion outer)).map List.length = rest.map (width outer) := by
        rw [List.map_map]
        exact List.map_congr_left ih
      rw [expansion, width]
      split
      · rw [List.length_append, List.length_append, List.length_flatMap, iha, ihb,
          List.map_congr_left ih]
      · rw [length_foldl_products, length_products, iha, ihb, others]
  | _ => simp [expansion, width]

end ExpansionLemmas

/-! ## Normal forms -/

open Formula ExpansionLemmas in
/-- The clauses of the conjunctive normal form of a quantifier-free formula in negation normal form,
and the cubes of its disjunctive normal form, are the parts of the ordered expansion, with their
literals in the order of the expansion and with duplicates. It makes no difference whether the normal
form is flattened. -/
theorem matrixForm_expands {m : Formula} (quantifierFree : m.IsQuantifierFree)
    (normal : m.IsNegationNormal) (flat : Bool) :
    (∃ g cs, m.matrixForm .conj flat = .ok g ∧ ClauseSet.ofFormula g = .ok cs ∧
      cs.map (·.map Literal.toFormula) = m.expansion .conj ∧ cs.length = m.width .conj) ∧
    ∃ g, m.matrixForm .disj flat = .ok g ∧
      (g.spine .disj).map (spine .conj) = m.expansion .disj ∧
      (g.spine .disj).length = m.width .disj := by
  constructor
  · obtain ⟨g, formed⟩ := MatrixLemmas.exists_matrixForm .conj flat quantifierFree normal
    obtain ⟨cs, read, -⟩ := ShapeLemmas.exists_ofFormula (ShapeLemmas.isMatrix_matrixForm formed)
    have expands : cs.map (·.map Literal.toFormula) = m.expansion .conj :=
      (map_toFormula_of_ofFormula read).trans (parts_matrixForm formed)
    refine ⟨g, cs, formed, read, expands, ?_⟩
    rw [← length_expansion, ← expands, List.length_map]
  · obtain ⟨g, formed⟩ := MatrixLemmas.exists_matrixForm .disj flat quantifierFree normal
    have expands : (g.spine .disj).map (spine .conj) = m.expansion .disj := parts_matrixForm formed
    refine ⟨g, formed, expands, ?_⟩
    rw [← length_expansion, ← expands, List.length_map]

/-- A disjunction of three members, of which the second has a disjunction inside: each literal of the
first comes with each clause of the second before the third is put behind. -/
theorem matrixForm_expands_nested :
    let atom (name : String) : Formula := .atom ⟨name, []⟩
    ∃ g cs, (Formula.junction .disj (.conj (atom "P") (atom "Q"))
          (.conj (atom "R") (.disj (atom "S") (atom "P"))) [.neg (atom "U")]).matrixForm .conj true =
        .ok g ∧
      ClauseSet.ofFormula g = .ok cs ∧
      cs.map (·.map Literal.toFormula) =
        [[atom "P", atom "R", .neg (atom "U")], [atom "Q", atom "R", .neg (atom "U")],
          [atom "P", atom "S", atom "P", .neg (atom "U")],
          [atom "Q", atom "S", atom "P", .neg (atom "U")]] := by
  intro atom
  obtain ⟨⟨g, cs, formed, read, expands, -⟩, -⟩ := matrixForm_expands
    (m := .junction .disj (.conj (atom "P") (atom "Q"))
      (.conj (atom "R") (.disj (atom "S") (atom "P"))) [.neg (atom "U")])
    (by simp [atom, Formula.IsQuantifierFree]) (by simp [atom, Formula.IsNegationNormal]) true
  refine ⟨g, cs, formed, read, expands.trans ?_⟩
  simp [atom, Formula.expansion, products]

end Clausal
