import Clausal.Term

/-!
# First-order formulas

Formulas are built from atoms by negation, conjunction and disjunction of two or more members,
implication, equivalence and the two quantifiers. Nested conjunctions are not merged: `(A ∧ B) ∧ C`
and `A ∧ B ∧ C` are different formulas, the first with two members and the second with three.

* `Formula` has no conjunction or disjunction of fewer than two members.
* `Formula.joinAll` joins one or more formulas; a single one stays as it is.
* `Formula.rec_members` is the induction principle: every member of a junction has the property.
* `Formula.kind` names the outermost operator.
-/

namespace Clausal

/-- Conjunction and disjunction, which take any number of members from two on. -/
inductive Junctor where
  | conj
  | disj
  deriving Repr, DecidableEq

/-- The dual of conjunction is disjunction, and conversely. -/
def Junctor.dual : Junctor → Junctor
  | .conj => .disj
  | .disj => .conj

/-- The symbol that stands between the members. -/
def Junctor.symbol : Junctor → String
  | .conj => "∧"
  | .disj => "∨"

@[simp] theorem Junctor.dual_dual (op : Junctor) : op.dual.dual = op := by
  cases op <;> rfl

/-- The universal and the existential quantifier. -/
inductive Quantifier where
  | all
  | ex
  deriving Repr, DecidableEq

/-- The dual of `∀` is `∃`, and conversely. -/
def Quantifier.dual : Quantifier → Quantifier
  | .all => .ex
  | .ex => .all

/-- The symbol that stands before the variable. -/
def Quantifier.symbol : Quantifier → String
  | .all => "∀"
  | .ex => "∃"

@[simp] theorem Quantifier.dual_dual (q : Quantifier) : q.dual.dual = q := by
  cases q <;> rfl

/-- An atomic formula: a predicate symbol applied to terms. -/
structure Atom where
  symbol : String
  terms : List Term := []
  deriving Repr, DecidableEq

/-- A first-order formula. The members of a `junction` are `a`, `b` and those of `rest`, in this
order, so that there are always at least two. -/
inductive Formula where
  | atom (p : Atom)
  | neg (f : Formula)
  | junction (op : Junctor) (a b : Formula) (rest : List Formula)
  | imp (a b : Formula)
  | iff (a b : Formula)
  | quant (q : Quantifier) (x : String) (f : Formula)
  deriving Repr

namespace Formula

instance : Inhabited Formula := ⟨.atom ⟨"", []⟩⟩

/-- The conjunction of two formulas. -/
abbrev conj (a b : Formula) : Formula := .junction .conj a b []

/-- The disjunction of two formulas. -/
abbrev disj (a b : Formula) : Formula := .junction .disj a b []

/-- Joins a formula with those that follow it; on its own it stays as it is. -/
def joinAll (op : Junctor) : Formula → List Formula → Formula
  | f, [] => f
  | f, g :: rest => .junction op f g rest

/-- Induction over formulas, in which each member of a junction has the property. -/
theorem rec_members {motive : Formula → Prop}
    (atom : ∀ p, motive (.atom p))
    (neg : ∀ f, motive f → motive (.neg f))
    (junction : ∀ op a b rest, motive a → motive b → (∀ f ∈ rest, motive f) →
      motive (.junction op a b rest))
    (imp : ∀ a b, motive a → motive b → motive (.imp a b))
    (iff : ∀ a b, motive a → motive b → motive (.iff a b))
    (quant : ∀ q x f, motive f → motive (.quant q x f)) (f : Formula) : motive f :=
  match f with
  | .atom p => atom p
  | .neg f => neg f (rec_members atom neg junction imp iff quant f)
  | .junction op a b rest =>
      junction op a b rest (rec_members atom neg junction imp iff quant a)
        (rec_members atom neg junction imp iff quant b)
        (fun f _ => rec_members atom neg junction imp iff quant f)
  | .imp a b =>
      imp a b (rec_members atom neg junction imp iff quant a)
        (rec_members atom neg junction imp iff quant b)
  | .iff a b =>
      iff a b (rec_members atom neg junction imp iff quant a)
        (rec_members atom neg junction imp iff quant b)
  | .quant q x f => quant q x f (rec_members atom neg junction imp iff quant f)

/-! ## Equality -/

mutual
/-- Formulas are equal if they are built in the same way. -/
def decEq : (f g : Formula) → Decidable (f = g)
  | .atom p, .atom q =>
      if same : p = q then isTrue (by rw [same]) else isFalse (by simpa using same)
  | .neg f, .neg g =>
      match decEq f g with
      | isTrue same => isTrue (by rw [same])
      | isFalse differ => isFalse (by simpa using differ)
  | .junction op a b rest, .junction op' a' b' rest' =>
      match decEq a a', decEq b b', decEqList rest rest' with
      | isTrue sameA, isTrue sameB, isTrue sameRest =>
          if same : op = op' then isTrue (by rw [same, sameA, sameB, sameRest])
          else isFalse (by simp [same])
      | isFalse differ, _, _ => isFalse (by simp [differ])
      | _, isFalse differ, _ => isFalse (by simp [differ])
      | _, _, isFalse differ => isFalse (by simp [differ])
  | .imp a b, .imp a' b' =>
      match decEq a a', decEq b b' with
      | isTrue sameA, isTrue sameB => isTrue (by rw [sameA, sameB])
      | isFalse differ, _ => isFalse (by simp [differ])
      | _, isFalse differ => isFalse (by simp [differ])
  | .iff a b, .iff a' b' =>
      match decEq a a', decEq b b' with
      | isTrue sameA, isTrue sameB => isTrue (by rw [sameA, sameB])
      | isFalse differ, _ => isFalse (by simp [differ])
      | _, isFalse differ => isFalse (by simp [differ])
  | .quant q x f, .quant q' x' f' =>
      match decEq f f' with
      | isTrue same =>
          if sameBinding : q = q' ∧ x = x' then
            isTrue (by rw [same, sameBinding.1, sameBinding.2])
          else isFalse (by simpa [same] using sameBinding)
      | isFalse differ => isFalse (by simp [differ])
  | .atom _, .neg _ | .atom _, .junction .. | .atom _, .imp .. | .atom _, .iff ..
  | .atom _, .quant .. => isFalse (by simp)
  | .neg _, .atom _ | .neg _, .junction .. | .neg _, .imp .. | .neg _, .iff ..
  | .neg _, .quant .. => isFalse (by simp)
  | .junction .., .atom _ | .junction .., .neg _ | .junction .., .imp .. | .junction .., .iff ..
  | .junction .., .quant .. => isFalse (by simp)
  | .imp .., .atom _ | .imp .., .neg _ | .imp .., .junction .. | .imp .., .iff ..
  | .imp .., .quant .. => isFalse (by simp)
  | .iff .., .atom _ | .iff .., .neg _ | .iff .., .junction .. | .iff .., .imp ..
  | .iff .., .quant .. => isFalse (by simp)
  | .quant .., .atom _ | .quant .., .neg _ | .quant .., .junction .. | .quant .., .imp ..
  | .quant .., .iff .. => isFalse (by simp)

/-- Lists of members are equal if they agree at each place. -/
def decEqList : (fs gs : List Formula) → Decidable (fs = gs)
  | [], [] => isTrue rfl
  | f :: fs, g :: gs =>
      match decEq f g, decEqList fs gs with
      | isTrue sameHead, isTrue sameTail => isTrue (by rw [sameHead, sameTail])
      | isFalse differ, _ => isFalse (by simp [differ])
      | _, isFalse differ => isFalse (by simp [differ])
  | [], _ :: _ => isFalse (by simp)
  | _ :: _, [] => isFalse (by simp)
end

instance : DecidableEq Formula := decEq

end Formula

/-! ## Kinds of expressions -/

/-- What stands at the root of a term or a formula. -/
inductive Kind where
  | variable
  | application
  | predicate
  | neg
  | conj
  | disj
  | imp
  | iff
  | all
  | ex
  deriving Repr, DecidableEq

/-- The word for a kind, as it stands in constructor-style text and in messages. -/
def Kind.word : Kind → String
  | .variable => "Variable"
  | .application => "FunctionApplication"
  | .predicate => "Predicate"
  | .neg => "Not"
  | .conj => "And"
  | .disj => "Or"
  | .imp => "Implies"
  | .iff => "Equivalent"
  | .all => "All"
  | .ex => "Ex"

/-- The kind of a formula with this operator outermost. -/
def Junctor.kind : Junctor → Kind
  | .conj => .conj
  | .disj => .disj

/-- The kind of a formula with this quantifier outermost. -/
def Quantifier.kind : Quantifier → Kind
  | .all => .all
  | .ex => .ex

/-- The quantifier of a kind, if it is one. -/
def Kind.quantifier? : Kind → Option Quantifier
  | .all => some .all
  | .ex => some .ex
  | _ => none

/-- The kind of a term. -/
def Term.kind : Term → Kind
  | .var _ => .variable
  | .app _ _ => .application

/-- The kind of the outermost operator. -/
def Formula.kind : Formula → Kind
  | .atom _ => .predicate
  | .neg _ => .neg
  | .junction op _ _ _ => op.kind
  | .imp _ _ => .imp
  | .iff _ _ => .iff
  | .quant q _ _ => q.kind

/-- The dual of an operator that has one. -/
def Kind.dual? : Kind → Option Kind
  | .conj => some .disj
  | .disj => some .conj
  | .all => some .ex
  | .ex => some .all
  | _ => none

/-- A literal is an atom or the negation of an atom. -/
def Formula.isLiteral : Formula → Bool
  | .atom _ => true
  | .neg (.atom _) => true
  | _ => false

end Clausal
