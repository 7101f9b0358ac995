import Clausal.Formula.Occurrence

/-!
# Meaning of formulas

An interpretation gives each function symbol and each predicate symbol a meaning on argument lists
of every length; an assignment gives each variable a value.

* `Formula.Holds` is truth under an interpretation and an assignment.
* `SemanticsLemmas.holds_junction` states the truth of a junction in terms of all its members.
-/

namespace Clausal

/-- The meaning of the function and predicate symbols over a domain. -/
structure Interpretation (D : Type u) where
  function : String → List D → D
  predicate : String → List D → Prop

/-- The value of a term. -/
def Term.value {D : Type u} (I : Interpretation D) (s : String → D) : Term → D
  | .var x => s x
  | .app f ts => I.function f (ts.map (value I s))

/-- Truth of an atom. -/
def Atom.Holds {D : Type u} (I : Interpretation D) (s : String → D) (p : Atom) : Prop :=
  I.predicate p.symbol (p.terms.map (Term.value I s))

/-- What a junction says of its members: all of them hold, or some of them does. -/
def Junctor.Joins (op : Junctor) (statements : List Prop) : Prop :=
  match op with
  | .conj => ∀ p ∈ statements, p
  | .disj => ∃ p ∈ statements, p

/-- What a quantifier says of a property. -/
def Quantifier.Binds {D : Type u} (q : Quantifier) (property : D → Prop) : Prop :=
  match q with
  | .all => ∀ d, property d
  | .ex => ∃ d, property d

/-- Truth of a formula. -/
def Formula.Holds {D : Type u} (I : Interpretation D) (s : String → D) : Formula → Prop
  | .atom p => p.Holds I s
  | .neg f => ¬ f.Holds I s
  | .junction op a b rest => op.Joins (a.Holds I s :: b.Holds I s :: rest.map (Holds I s))
  | .imp a b => a.Holds I s → b.Holds I s
  | .iff a b => a.Holds I s ↔ b.Holds I s
  | .quant q x f => q.Binds fun d => f.Holds I (assign s x d)

namespace SemanticsLemmas

variable {D : Type u} {I : Interpretation D} {s : String → D}

theorem joins_map {α : Type v} {op : Junctor} {xs : List α} {property : α → Prop} :
    op.Joins (xs.map property) ↔
      match op with
      | .conj => ∀ x ∈ xs, property x
      | .disj => ∃ x ∈ xs, property x := by
  cases op with
  | conj => exact List.forall_mem_map
  | disj =>
      constructor
      · rintro ⟨p, member, holds⟩
        obtain ⟨x, inside, rfl⟩ := List.mem_map.mp member
        exact ⟨x, inside, holds⟩
      · rintro ⟨x, inside, holds⟩
        exact ⟨property x, List.mem_map_of_mem inside, holds⟩

/-- A conjunction holds if each member does, and a disjunction if some member does. -/
theorem holds_junction {op : Junctor} {a b : Formula} {rest : List Formula} :
    (Formula.junction op a b rest).Holds I s ↔
      match op with
      | .conj => ∀ f ∈ a :: b :: rest, f.Holds I s
      | .disj => ∃ f ∈ a :: b :: rest, f.Holds I s := by
  rw [Formula.Holds, ← List.map_cons, ← List.map_cons, joins_map]

end SemanticsLemmas

end Clausal
