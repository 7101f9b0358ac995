import Clausal.Formula.Duality
import Clausal.Proofs.Literalwise

/-!
# Negation normal form and duality

The negation normal form is what one gets by applying the laws of negation one after the other, and, for
a formula whose arrows have been expanded, what one gets by translating the formula and its negation
together. The two translations are each other's negation: to deny is to affirm the negation, and what is
denied twice is affirmed. Hence the algebra of negation normal forms, in which a normal form is its own,
and negating twice through normal forms gives back the first. To deny a formula without quantifiers is to
change its literals, with conjunction and disjunction exchanged, so that its conjunctive normal form
becomes a disjunctive one.

* `DualityLemmas.applyLaws_eq`: pushing negations by their number and by single laws is the same, also
  where it is refused.
* `DualityLemmas.pushNegations_expand`: the three steps on connectives are one translation.
* `DualityLemmas.dual_translations`: translating what was translated before.
* `DualityLemmas.isLiteralwise_denied`: denying changes the literals and turns the operators.
* `negationNormal_expand_eq_affirmed`, `negationNormal_of_negationNormal` and `matrixForms_are_dual` are
  the main results.
-/

namespace Clausal

namespace DualityLemmas

open Formula

/-! ## One law after the other -/

/-- Each law lowers one negation, and two negations in a row cancel, so that applying the laws depends
only on whether the number of negations is even. -/
theorem applyLaws_eq (f : Formula) :
    f.applyLaws = f.pushNegations .positive ∧ (neg f).applyLaws = f.pushNegations .negative := by
  induction f using Formula.rec_memberList with
  | atom p =>
      rw [applyLaws, applyLaws, pushNegations, pushNegations]
      exact ⟨rfl, rfl⟩
  | neg f ih =>
      rw [applyLaws, pushNegations, pushNegations]
      exact ⟨ih.2, ih.1⟩
  | junction op a b rest ih =>
      rw [List.forall_mem_cons, List.forall_mem_cons] at ih
      obtain ⟨first, second, others⟩ := ih
      rw [applyLaws, applyLaws, pushNegations, pushNegations, first.1, first.2, second.1, second.2,
        MemberLemmas.mapM_congr fun f member => (others f member).1,
        MemberLemmas.mapM_congr fun f member => (others f member).2]
      exact ⟨rfl, rfl⟩
  | imp a b _ _ | iff a b _ _ =>
      rw [applyLaws, applyLaws, pushNegations, pushNegations]
      exact ⟨rfl, rfl⟩
  | quant q x f ih =>
      rw [applyLaws, applyLaws, pushNegations, pushNegations, ih.1, ih.2]
      exact ⟨rfl, rfl⟩

theorem negationNormal_eq_applyLaws (f : Formula) : f.negationNormal = f.applyLaws :=
  (applyLaws_eq f).1.symm

/-! ## The translation of a formula and its negation -/

/-- Expanding the arrows and pushing the negations inwards is the translation of the formula, or of its
negation below an odd number of negations. -/
theorem pushNegations_expand (f : Formula) :
    f.expandIff.expandImp.pushNegations .positive = .ok f.affirmed ∧
      f.expandIff.expandImp.pushNegations .negative = .ok f.denied := by
  induction f using Formula.rec_memberList with
  | atom p =>
      rw [expandIff, expandImp, pushNegations, pushNegations, affirmed, denied]
      exact ⟨rfl, rfl⟩
  | neg f ih =>
      rw [expandIff, expandImp, pushNegations, pushNegations, affirmed, denied]
      exact ⟨ih.2, ih.1⟩
  | junction op a b rest ih =>
      rw [expandIff, expandImp, pushNegations, pushNegations, affirmed, denied, List.map_map]
      exact ⟨MemberLemmas.membersM_map_eq_ok fun f member => (ih f member).1,
        MemberLemmas.membersM_map_eq_ok fun f member => (ih f member).2⟩
  | imp a b iha ihb =>
      simp only [expandIff, expandImp, pushNegations, Polarity.flip, iha, ihb, affirmed, denied,
        List.mapM_nil]
      exact ⟨rfl, rfl⟩
  | iff a b iha ihb =>
      simp only [expandIff, expandImp, pushNegations, Polarity.flip, iha, ihb, affirmed, denied,
        List.map_nil, List.mapM_nil]
      exact ⟨rfl, rfl⟩
  | quant q x f ih =>
      rw [expandIff, expandImp, pushNegations, pushNegations, affirmed, denied, ih.1, ih.2]
      exact ⟨rfl, rfl⟩

/-- Without arrows there is nothing to expand. -/
theorem expand_of_isArrowFree {f : Formula} (arrowFree : f.IsArrowFree) :
    f.expandIff.expandImp = f := by
  induction f using Formula.rec_memberList with
  | atom p => rw [expandIff, expandImp]
  | neg f ih =>
      rw [IsArrowFree] at arrowFree
      rw [expandIff, expandImp, ih arrowFree]
  | junction op a b rest ih =>
      rw [isArrowFree_junction] at arrowFree
      rw [expandIff, expandImp, List.map_map]
      refine (junction_congr (F := expandImp ∘ expandIff) (G := id) fun f member => ?_).trans ?_
      · exact ih f member (arrowFree f member)
      · rw [List.map_id, id, id]
  | imp a b _ _ | iff a b _ _ =>
      rw [IsArrowFree] at arrowFree
      exact arrowFree.elim
  | quant q x f ih =>
      rw [IsArrowFree] at arrowFree
      rw [expandIff, expandImp, ih arrowFree]

theorem negationNormal_of_isArrowFree {f : Formula} (arrowFree : f.IsArrowFree) :
    f.negationNormal = .ok f.affirmed := by
  rw [negationNormal, ← (pushNegations_expand f).1, expand_of_isArrowFree arrowFree]

/-- The normal form of a negation is what the denied formula says. -/
theorem negationNormal_neg_of_isArrowFree {f : Formula} (arrowFree : f.IsArrowFree) :
    (neg f).negationNormal = .ok f.denied := by
  rw [negationNormal_of_isArrowFree (f := neg f) (by rwa [IsArrowFree]), affirmed]

theorem isNegationNormal_translations (f : Formula) :
    f.affirmed.IsNegationNormal ∧ f.denied.IsNegationNormal :=
  ⟨NegationLemmas.isNegationNormal_pushNegations (pushNegations_expand f).1,
    NegationLemmas.isNegationNormal_pushNegations (pushNegations_expand f).2⟩

/-! ## Translating twice -/

/-- To affirm what was translated changes nothing, and to deny it exchanges the two translations. -/
theorem dual_translations (f : Formula) :
    (f.affirmed.affirmed = f.affirmed ∧ f.affirmed.denied = f.denied) ∧
      f.denied.affirmed = f.denied ∧ f.denied.denied = f.affirmed := by
  induction f using Formula.rec_memberList with
  | atom p => simp only [affirmed, denied, and_self]
  | neg f ih =>
      rw [affirmed, denied]
      exact ⟨ih.2, ih.1⟩
  | junction op a b rest ih =>
      simp only [affirmed, denied, List.map_map, Junctor.dual_dual]
      refine ⟨⟨?affirmedTwice, ?affirmedDenied⟩, ?deniedAffirmed, ?deniedTwice⟩
      case affirmedTwice =>
        exact junction_congr (F := affirmed ∘ affirmed) fun f member => (ih f member).1.1
      case affirmedDenied =>
        exact junction_congr (F := denied ∘ affirmed) fun f member => (ih f member).1.2
      case deniedAffirmed =>
        exact junction_congr (F := affirmed ∘ denied) fun f member => (ih f member).2.1
      case deniedTwice =>
        exact junction_congr (F := denied ∘ denied) fun f member => (ih f member).2.2
  | imp a b iha ihb | iff a b iha ihb =>
      simp only [affirmed, denied, List.map_nil, Junctor.dual, iha, ihb, and_self]
  | quant q x f ih => simp only [affirmed, denied, Quantifier.dual_dual, ih, and_self]

/-! ## Matrix normal forms -/

/-- To deny a formula is to deny its literals and to take the dual of each operator above them. -/
theorem isLiteralwise_denied : IsLiteralwise .negative denied where
  literal := by
    intro l literal
    obtain ⟨polarity, p, rfl⟩ := PolarityLemmas.isLiteral_iff_exists.mp literal
    cases polarity <;> simp [Polarity.literal, affirmed, denied, IsLiteral]
  junction _ _ _ _ := by
    rw [denied]
    rfl

/-- A formula made of literals has no arrows, so that the normal form of its negation is what the denied
formula says. -/
theorem negationNormal_neg_of_leaves {f : Formula} (literals : ∀ l ∈ f.leaves, l.IsLiteral) :
    (neg f).negationNormal = .ok f.denied :=
  negationNormal_neg_of_isArrowFree
    (NegationLemmas.isArrowFree_of_isNegationNormal (SpineLemmas.leaves_isLiteral_iff.mp literals).2)

end DualityLemmas

/-! ## Main results -/

open DualityLemmas in
/-- Expanding the equivalences, then the implications, and pushing the negations inwards, in one go or by
one law after the other, is the translation that affirms the formula. The result has no implication and
no equivalence, and negations before atoms only. -/
theorem negationNormal_expand_eq_affirmed (f : Formula) :
    f.expandIff.expandImp.negationNormal = .ok f.affirmed ∧
      f.expandIff.expandImp.applyLaws = .ok f.affirmed ∧
      f.affirmed.IsNegationNormal := by
  have normal : f.expandIff.expandImp.negationNormal = .ok f.affirmed := (pushNegations_expand f).1
  refine ⟨normal, ?_, (isNegationNormal_translations f).1⟩
  rw [← negationNormal_eq_applyLaws]
  exact normal

open DualityLemmas in
/-- A formula without arrows and its negation have negation normal forms `n` and `m`. Each is its own
normal form and the normal form of the other's negation, so that negating twice through normal forms
gives back the first. The atoms, the quantified, the free and the bound variables stand in `n` as they
stand in the formula. -/
theorem negationNormal_of_negationNormal {f : Formula} (arrowFree : f.IsArrowFree) :
    ∃ n m, f.negationNormal = .ok n ∧ (Formula.neg f).negationNormal = .ok m ∧
      n.negationNormal = .ok n ∧
      (Formula.neg n).negationNormal = .ok m ∧
      (Formula.neg m).negationNormal = .ok n ∧
      n.atoms = f.atoms ∧ n.quantified = f.quantified ∧
      ∀ outer, n.free outer = f.free outer ∧ n.bound outer = f.bound outer := by
  obtain ⟨⟨affirmedTwice, affirmedDenied⟩, -, deniedTwice⟩ := dual_translations f
  have normal := negationNormal_of_isArrowFree arrowFree
  have affirmedFree : f.affirmed.IsArrowFree :=
    NegationLemmas.isArrowFree_of_isNegationNormal (isNegationNormal_translations f).1
  have deniedFree : f.denied.IsArrowFree :=
    NegationLemmas.isArrowFree_of_isNegationNormal (isNegationNormal_translations f).2
  refine ⟨f.affirmed, f.denied, normal, negationNormal_neg_of_isArrowFree arrowFree, ?again,
    ?negated, ?twice, NegationLemmas.atoms_pushNegations normal, ?quantified,
    fun outer => ⟨?free, ?bound⟩⟩
  case again => rw [negationNormal_of_isArrowFree affirmedFree, affirmedTwice]
  case negated => rw [negationNormal_neg_of_isArrowFree affirmedFree, affirmedDenied]
  case twice => rw [negationNormal_neg_of_isArrowFree deniedFree, deniedTwice]
  case quantified =>
    exact NegationLemmas.listing_pushNegations ListingLemmas.isListing_quantified normal []
  case free => exact NegationLemmas.free_pushNegations normal outer
  case bound => exact NegationLemmas.listing_pushNegations ListingLemmas.isListing_bound normal outer

/-- Negations before a negation, a quantifier and a conjunction of three members; the variable `x` is
bound in one place and free in another. -/
theorem negationNormal_of_negationNormal_stacked :
    let f : Formula := .neg (.junction .conj (.neg (.neg (.atom ⟨"P", [.var "x"]⟩)))
      (.neg (.quant .all "x" (.neg (.atom ⟨"R", [.var "x", .var "y"]⟩)))) [.atom ⟨"Q", []⟩])
    ∃ n m, f.negationNormal = .ok n ∧ (Formula.neg f).negationNormal = .ok m ∧
      n.negationNormal = .ok n ∧ (Formula.neg n).negationNormal = .ok m ∧
      (Formula.neg m).negationNormal = .ok n ∧
      n.quantified = ["x"] ∧ n.free [] = ["x", "y"] ∧ n.bound [] = ["x"] := by
  intro f
  have arrowFree : f.IsArrowFree := by simp [f, Formula.IsArrowFree]
  obtain ⟨n, m, normal, negated, again, dual, twice, -, quantified, places⟩ :=
    negationNormal_of_negationNormal arrowFree
  refine ⟨n, m, normal, negated, again, dual, twice, ?_, ?_, ?_⟩
  · rw [quantified]
    simp [f, Formula.quantified]
  · rw [(places []).1]
    simp [f, Formula.free, Atom.variableNames, Term.variableNames]
  · rw [(places []).2]
    simp [f, Formula.bound, Atom.variableNames, Term.variableNames]

open DualityLemmas in
/-- The conjunctive normal form of a quantifier-free formula in negation normal form, negated and with the
negation pushed inwards, is the disjunctive normal form of the negated formula, as a tree; and conversely
with the two exchanged. This holds of the flattened forms and of those that distribution leaves. -/
theorem matrixForms_are_dual (outer : Junctor) (flat : Bool) {m : Formula}
    (quantifierFree : m.IsQuantifierFree) (normal : m.IsNegationNormal) :
    ∃ n g h, (Formula.neg m).negationNormal = .ok n ∧ m.matrixForm outer flat = .ok g ∧
      (Formula.neg g).negationNormal = .ok h ∧ n.matrixForm outer.dual flat = .ok h := by
  have literals := SpineLemmas.leaves_isLiteral_iff.mpr ⟨quantifierFree, normal⟩
  obtain ⟨g, formed⟩ := MatrixLemmas.exists_matrixForm outer flat quantifierFree normal
  refine ⟨m.denied, g, g.denied, negationNormal_neg_of_leaves literals, formed, ?_, ?_⟩
  · exact negationNormal_neg_of_leaves (MatrixLemmas.isLiteral_of_matrixForm formed)
  · exact LiteralwiseLemmas.matrixForm_change isLiteralwise_denied formed

/-- A disjunction of three members, of which the second is a conjunction and the third one with a
disjunction inside. The products stand in the same order and have the same brackets on both sides. -/
theorem matrixForms_are_dual_nested :
    let atom (name : String) : Formula := .atom ⟨name, []⟩
    let m : Formula := .junction .disj (.neg (atom "P")) (.conj (atom "Q") (atom "R"))
      [.conj (atom "S") (.disj (atom "P") (.neg (atom "Q")))]
    let left : Formula := .conj (atom "P") (.neg (atom "Q"))
    let right : Formula := .conj (atom "P") (.neg (atom "R"))
    ∃ n g h, (Formula.neg m).negationNormal = .ok n ∧ m.matrixForm .conj false = .ok g ∧
      (Formula.neg g).negationNormal = .ok h ∧ n.matrixForm .disj false = .ok h ∧
      h = .disj (.disj (.conj left (.neg (atom "S"))) (.conj right (.neg (atom "S"))))
        (.disj (.conj left (.conj (.neg (atom "P")) (atom "Q")))
          (.conj right (.conj (.neg (atom "P")) (atom "Q")))) := by
  intro atom m left right
  have quantifierFree : m.IsQuantifierFree := by simp [m, atom, Formula.IsQuantifierFree]
  have normal : m.IsNegationNormal := by simp [m, atom, Formula.IsNegationNormal]
  obtain ⟨n, g, h, negated, formed, pushed, dual⟩ :=
    matrixForms_are_dual .conj false quantifierFree normal
  refine ⟨n, g, h, negated, formed, pushed, dual, ?_⟩
  rw [show (Formula.neg m).negationNormal = .ok _ by cbv] at negated
  cases negated
  rw [show Formula.matrixForm _ _ _ = .ok _ by cbv] at dual
  cases dual
  rfl

end Clausal
