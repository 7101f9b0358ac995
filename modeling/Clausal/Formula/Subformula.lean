import Clausal.Formula.Basic

/-!
# Subformulas

The places of a formula, in the order in which one meets them reading from left to right.

* `Formula.subformulas` lists the formula itself, and then the subformulas of its members.
* `Formula.IsJunction` says what the members of a conjunction or disjunction are, as one list.
-/

namespace Clausal.Formula

/-- A formula and its subformulas, each before those that stand in it and after those on its left. -/
def subformulas : Formula → List Formula
  | .atom p => [.atom p]
  | .neg f => .neg f :: f.subformulas
  | .junction op a b rest =>
      .junction op a b rest :: (a.subformulas ++ b.subformulas ++ rest.flatMap subformulas)
  | .imp a b => .imp a b :: (a.subformulas ++ b.subformulas)
  | .iff a b => .iff a b :: (a.subformulas ++ b.subformulas)
  | .quant q x f => .quant q x f :: f.subformulas

/-- The formula joins two or more members by this operator. -/
def IsJunction (op : Junctor) (members : List Formula) (f : Formula) : Prop :=
  ∃ a b rest, members = a :: b :: rest ∧ f = .junction op a b rest

@[simp] theorem subformulas_junction {op : Junctor} {a b : Formula} {rest : List Formula} :
    (junction op a b rest).subformulas =
      junction op a b rest :: (a :: b :: rest).flatMap subformulas := by
  simp [subformulas]

theorem self_mem_subformulas (f : Formula) : f ∈ f.subformulas := by
  cases f <;> simp [subformulas]

theorem isJunction_junction {op : Junctor} {a b : Formula} {rest : List Formula} :
    IsJunction op (a :: b :: rest) (junction op a b rest) :=
  ⟨a, b, rest, rfl, rfl⟩

/-- Two or more formulas can be joined. -/
theorem exists_isJunction (op : Junctor) {members : List Formula} (two : 2 ≤ members.length) :
    ∃ f, IsJunction op members f := by
  match members with
  | a :: b :: rest => exact ⟨_, isJunction_junction⟩

theorem IsJunction.two_le_length {op : Junctor} {members : List Formula} {f : Formula}
    (joined : IsJunction op members f) : 2 ≤ members.length := by
  obtain ⟨a, b, rest, rfl, _⟩ := joined
  simp

end Clausal.Formula
