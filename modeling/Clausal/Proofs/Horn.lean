import Clausal.Clause.Semantics

/-!
# Models of Horn clauses

The atoms that two truth assignments agree to be true make up a third one, their common part. The
common part of two models of Horn clauses is again a model. Of other clauses this cannot be said: a
clause with two different positive atoms has two models whose common part is none, unless it holds
anyway because it has an atom both by itself and negated.

* `Atom.common` is the common part of two truth assignments.
* `HornLemmas.eq_of_isHorn`, `HornLemmas.isHorn_eq_false`: the count of positive literals, said of the
  literals themselves.
* `HornLemmas.satisfiedBy_common`, `HornLemmas.exists_not_satisfiedBy_common`: the two halves.
* `isHorn_iff_common`: for clauses without repetitions this makes an equivalence.
* `isHorn_common` puts both halves together, for clause sets of any size.
-/

namespace Clausal

/-- The atoms that two truth assignments both make true. -/
def Atom.common (first second : Atom → Prop) : Atom → Prop :=
  fun p => first p ∧ second p

/-- No atom stands in a clause both by itself and negated. -/
def Clause.IsConsistent (c : Clause) : Prop :=
  ∀ p, ⟨false, p⟩ ∈ c → ⟨true, p⟩ ∉ c

/-- Makes `p` true, and otherwise only the atoms that make the negative literals of a clause fail. -/
def Clause.only (c : Clause) (p : Atom) : Atom → Prop :=
  fun q => ⟨true, q⟩ ∈ c ∨ q = p

namespace HornLemmas

variable {c : Clause} {cs : ClauseSet} {p q : Atom} {first second : Atom → Prop}

/-! ## At most one positive literal -/

theorem mem_positive : ⟨false, p⟩ ∈ c.positive ↔ ⟨false, p⟩ ∈ c := by
  simp [Clause.positive]

/-- All positive literals of a Horn clause are the same one. -/
theorem eq_of_isHorn (horn : c.isHorn = true) (left : ⟨false, p⟩ ∈ c) (right : ⟨false, q⟩ ∈ c) :
    p = q := by
  unfold Clause.isHorn at horn
  rw [← mem_positive] at left right
  have short := of_decide_eq_true horn
  rcases same : c.positive with _ | ⟨l, _ | ⟨m, rest⟩⟩
  · rw [same] at left
    cases left
  · rw [same, List.mem_singleton] at left right
    exact congrArg Literal.atom (left.trans right.symm)
  · rw [same, List.length_cons, List.length_cons] at short
    omega

/-- Two different positive literals are too many. -/
theorem isHorn_eq_false (differ : p ≠ q) (left : ⟨false, p⟩ ∈ c) (right : ⟨false, q⟩ ∈ c) :
    c.isHorn = false :=
  Bool.eq_false_iff.mpr fun horn => differ (eq_of_isHorn horn left right)

theorem isHorn_set_eq_false (member : c ∈ cs) (bad : c.isHorn = false) : cs.isHorn = false := by
  unfold ClauseSet.isHorn
  exact List.all_eq_false.mpr ⟨c, member, by rw [bad]; decide⟩

/-- Without repetitions, two positive literals have different atoms. -/
theorem ne_of_positive (nodup : c.Nodup) {l m : Literal} {rest : List Literal}
    (same : c.positive = l :: m :: rest) :
    ⟨false, l.atom⟩ ∈ c ∧ ⟨false, m.atom⟩ ∈ c ∧ l.atom ≠ m.atom := by
  have plain : ∀ k ∈ l :: m :: rest, k ∈ c ∧ k = ⟨false, k.atom⟩ := by
    rintro ⟨sign, p⟩ member
    rw [← same] at member
    obtain ⟨member, positive⟩ := List.mem_filter.mp member
    cases sign with
    | true => cases positive
    | false => exact ⟨member, rfl⟩
  have apart : c.positive.Nodup := nodup.filter _
  rw [same, List.nodup_cons] at apart
  rw [List.forall_mem_cons, List.forall_mem_cons] at plain
  obtain ⟨⟨left, first⟩, ⟨right, second⟩, _⟩ := plain
  rw [first] at left
  rw [second] at right
  refine ⟨left, right, fun equal => apart.1 ?_⟩
  rw [first, second, equal]
  exact List.mem_cons_self

/-! ## Common parts of models -/

/-- The common part of two models of a Horn clause is a model. -/
theorem satisfiedBy_common (horn : c.isHorn = true) (left : c.SatisfiedBy first)
    (right : c.SatisfiedBy second) : c.SatisfiedBy (Atom.common first second) := by
  obtain ⟨⟨sign, p⟩, member, holds⟩ := left
  obtain ⟨⟨sign', q⟩, member', holds'⟩ := right
  cases sign with
  | true => exact ⟨⟨true, p⟩, member, fun both => holds both.1⟩
  | false =>
      cases sign' with
      | true => exact ⟨⟨true, q⟩, member', fun both => holds' both.2⟩
      | false =>
          -- Both models make the one positive literal true.
          cases eq_of_isHorn horn member member'
          exact ⟨⟨false, p⟩, member, holds, holds'⟩

theorem satisfiedBy_set_common (horn : cs.isHorn = true) (left : cs.SatisfiedBy first)
    (right : cs.SatisfiedBy second) : cs.SatisfiedBy (Atom.common first second) := by
  unfold ClauseSet.isHorn at horn
  rw [List.all_eq_true] at horn
  exact fun c member => satisfiedBy_common (horn c member) (left c member) (right c member)

theorem satisfiedBy_only (member : ⟨false, p⟩ ∈ c) : c.SatisfiedBy (c.only p) :=
  ⟨⟨false, p⟩, member, .inr rfl⟩

/-- Where only the atoms of the negative literals are true, a clause without complementary literals
fails. -/
theorem not_satisfiedBy_common_only (consistent : c.IsConsistent) (differ : p ≠ q) :
    ¬ c.SatisfiedBy (Atom.common (c.only p) (c.only q)) := by
  rintro ⟨⟨sign, r⟩, member, holds⟩
  cases sign with
  | true => exact holds ⟨.inl member, .inl member⟩
  | false =>
      obtain ⟨left, right⟩ := holds
      have positive : ⟨true, r⟩ ∉ c := consistent r member
      rcases left with negative | rfl
      · exact positive negative
      · rcases right with negative | same
        · exact positive negative
        · exact differ same

/-- A clause with two positive literals has two models whose common part is none. -/
theorem exists_not_satisfiedBy_common (consistent : c.IsConsistent) (differ : p ≠ q)
    (left : ⟨false, p⟩ ∈ c) (right : ⟨false, q⟩ ∈ c) :
    ∃ first second, c.SatisfiedBy first ∧ c.SatisfiedBy second ∧
      ¬ c.SatisfiedBy (Atom.common first second) :=
  ⟨c.only p, c.only q, satisfiedBy_only left, satisfiedBy_only right,
    not_satisfiedBy_common_only consistent differ⟩

end HornLemmas

open HornLemmas in
/-- A clause in which no literal is repeated and no atom stands in both ways is Horn if and only if the
common part of two models always is a model. -/
theorem isHorn_iff_common {c : Clause} (nodup : c.Nodup) (consistent : c.IsConsistent) :
    c.isHorn = true ↔ ∀ first second : Atom → Prop, c.SatisfiedBy first → c.SatisfiedBy second →
      c.SatisfiedBy (Atom.common first second) := by
  constructor
  · exact fun horn first second => satisfiedBy_common horn
  · intro closed
    unfold Clause.isHorn
    rcases same : c.positive with _ | ⟨l, _ | ⟨m, rest⟩⟩
    · rfl
    · rfl
    · obtain ⟨left, right, differ⟩ := ne_of_positive nodup same
      obtain ⟨first, second, satisfied, satisfied', fails⟩ :=
        exists_not_satisfiedBy_common consistent differ left right
      exact absurd (closed first second satisfied satisfied') fails

open HornLemmas in
/-- The common part of two models of a Horn clause set is a model. A clause with two different positive
atoms, and with no atom both by itself and negated, is not Horn, nor is any set with it; and it has two
models whose common part is none. -/
theorem isHorn_common :
    (∀ cs : ClauseSet, cs.isHorn = true → ∀ first second : Atom → Prop,
      cs.SatisfiedBy first → cs.SatisfiedBy second →
        cs.SatisfiedBy (Atom.common first second)) ∧
    ∀ (c : Clause) (p q : Atom), p ≠ q → ⟨false, p⟩ ∈ c → ⟨false, q⟩ ∈ c → c.IsConsistent →
      c.isHorn = false ∧ (∀ cs : ClauseSet, c ∈ cs → cs.isHorn = false) ∧
        ∃ first second : Atom → Prop, c.SatisfiedBy first ∧ c.SatisfiedBy second ∧
          ¬ c.SatisfiedBy (Atom.common first second) := by
  constructor
  · exact fun cs horn first second => satisfiedBy_set_common horn
  · intro c p q differ left right consistent
    have bad := isHorn_eq_false differ left right
    exact ⟨bad, fun cs member => isHorn_set_eq_false member bad,
      exists_not_satisfiedBy_common consistent differ left right⟩

/-- Two Horn clauses whose models `{P(x), R}` and `{S}` have nothing in common, and a clause with a
negative literal between two positive ones. -/
theorem isHorn_common_disjoint :
    let P : Atom := ⟨"P", [.var "x"]⟩
    let R : Atom := ⟨"R", []⟩
    let S : Atom := ⟨"S", []⟩
    let cs : ClauseSet := [[⟨true, P⟩, ⟨false, R⟩], [⟨true, R⟩, ⟨true, S⟩]]
    let c : Clause := [⟨false, P⟩, ⟨true, S⟩, ⟨false, R⟩]
    cs.isHorn = true ∧ cs.SatisfiedBy (· ∈ [P, R]) ∧ cs.SatisfiedBy (· ∈ [S]) ∧
      cs.SatisfiedBy (Atom.common (· ∈ [P, R]) (· ∈ [S])) ∧
      c.IsConsistent ∧ c.isHorn = false ∧ ClauseSet.isHorn (c :: cs) = false ∧
      ∃ first second, c.SatisfiedBy first ∧ c.SatisfiedBy second ∧
        ¬ c.SatisfiedBy (Atom.common first second) := by
  intro P R S cs c
  have horn : cs.isHorn = true := by decide
  have left : cs.SatisfiedBy (· ∈ [P, R]) := by
    simp [cs, ClauseSet.SatisfiedBy, Clause.SatisfiedBy, Literal.SatisfiedBy, P, R, S]
  have right : cs.SatisfiedBy (· ∈ [S]) := by
    simp [cs, ClauseSet.SatisfiedBy, Clause.SatisfiedBy, Literal.SatisfiedBy, P, R, S]
  have consistent : c.IsConsistent := by
    intro p positive
    simp only [c, List.mem_cons, Literal.mk.injEq, Bool.false_eq_true, false_and, true_and,
      List.not_mem_nil, or_false, false_or] at positive
    rcases positive with rfl | rfl <;> decide
  obtain ⟨bad, badSet, apart⟩ :=
    isHorn_common.2 c P R (by decide) (by decide) (by decide) consistent
  exact ⟨horn, left, right, isHorn_common.1 cs horn _ _ left right, consistent, bad,
    badSet _ List.mem_cons_self, apart⟩

end Clausal
