import Clausal.Formula.Connectives
import Clausal.Proofs.Meaning

/-!
# From any formula to negation normal form

Equivalences and implications can be expanded in every formula. What comes out has no refused
operator, so that the negations can be pushed inwards, and the result is in negation normal form.
Every one of the three steps keeps the meaning, the free variables and the function symbols.

* `Formula.IsArrowFree`: no implication and no equivalence stands anywhere.
* `Polarity.Says`: a statement or its negation.
* `NegationLemmas.pushNegations_induction` is what pushing negations does, one case an operator; the
  facts about the result are read off it.
-/

namespace Clausal

/-- A formula without implications and equivalences. -/
def Formula.IsArrowFree : Formula → Prop
  | .atom _ => True
  | .neg f => f.IsArrowFree
  | .junction _ a b rest => a.IsArrowFree ∧ b.IsArrowFree ∧ ∀ f ∈ rest, f.IsArrowFree
  | .imp _ _ => False
  | .iff _ _ => False
  | .quant _ _ f => f.IsArrowFree

/-- What a statement says below an even or an odd number of negations. -/
def Polarity.Says (polarity : Polarity) (statement : Prop) : Prop :=
  match polarity with
  | .positive => statement
  | .negative => ¬ statement

@[simp] theorem Formula.isArrowFree_junction {op : Junctor} {a b : Formula} {rest : List Formula} :
    (junction op a b rest).IsArrowFree ↔ ∀ f ∈ a :: b :: rest, f.IsArrowFree := by
  simp [IsArrowFree]

/-! ## Expanding equivalences and implications -/

namespace ConnectiveLemmas

open Formula

theorem holds_expandIff (f : Formula) {D : Type u} (I : Interpretation D) (s : String → D) :
    f.expandIff.Holds I s ↔ f.Holds I s := by
  induction f using Formula.rec_memberList generalizing s with
  | atom p => rw [expandIff]
  | neg f ih => rw [expandIff, Holds, Holds, ih]
  | junction op a b rest ih =>
      rw [expandIff, holds_junction_iff, holds_junction_iff, ← List.map_cons, ← List.map_cons,
        List.map_map]
      exact JoinLemmas.joins_congr fun f member => ih f member s
  | imp a b iha ihb => rw [expandIff, Holds, Holds, iha, ihb]
  | iff a b iha ihb =>
      rw [expandIff, SemanticsLemmas.holds_junction, Holds]
      simp only [List.forall_mem_cons, List.not_mem_nil, false_implies, implies_true, and_true, Holds,
        iha, ihb]
      exact iff_iff_implies_and_implies.symm
  | quant q x f ih =>
      rw [expandIff, Holds, Holds]
      exact BindLemmas.binds_congr fun d => ih _

theorem holds_expandImp (f : Formula) {D : Type u} (I : Interpretation D) (s : String → D) :
    f.expandImp.Holds I s ↔ f.Holds I s := by
  induction f using Formula.rec_memberList generalizing s with
  | atom p => rw [expandImp]
  | neg f ih => rw [expandImp, Holds, Holds, ih]
  | junction op a b rest ih =>
      rw [expandImp, holds_junction_iff, holds_junction_iff, ← List.map_cons, ← List.map_cons,
        List.map_map]
      exact JoinLemmas.joins_congr fun f member => ih f member s
  | imp a b iha ihb =>
      rw [expandImp, SemanticsLemmas.holds_junction, Holds]
      simp only [List.mem_cons, List.not_mem_nil, or_false, exists_eq_or_imp, exists_eq_left, Holds,
        iha, ihb]
      exact imp_iff_not_or.symm
  | iff a b iha ihb => rw [expandImp, Holds, Holds, iha, ihb]
  | quant q x f ih =>
      rw [expandImp, Holds, Holds]
      exact BindLemmas.binds_congr fun d => ih _

/-- After both steps no implication and no equivalence is left. -/
theorem isArrowFree_expand (f : Formula) : f.expandIff.expandImp.IsArrowFree := by
  induction f using Formula.rec_memberList with
  | atom p => rw [expandIff, expandImp, IsArrowFree]; trivial
  | neg f ih =>
      rw [expandIff, expandImp, IsArrowFree]
      exact ih
  | junction op a b rest ih =>
      rw [expandIff, expandImp, isArrowFree_junction, ← List.map_cons, ← List.map_cons,
        ← List.map_cons, ← List.map_cons, List.map_map]
      exact List.forall_mem_map.mpr ih
  | imp a b iha ihb => simp [expandIff, expandImp, IsArrowFree, iha, ihb]
  | iff a b iha ihb => simp [expandIff, expandImp, IsArrowFree, iha, ihb]
  | quant q x f ih =>
      rw [expandIff, expandImp, IsArrowFree]
      exact ih

/-- Writing an equivalence as two implications repeats its sides and adds nothing. -/
theorem mem_listing_expandIff {α : Type u} {binder : String → List α}
    {list : List String → Formula → List α} (listing : IsListing binder list) (f : Formula)
    (outer : List String) {y : α} : y ∈ list outer f.expandIff ↔ y ∈ list outer f := by
  induction f using Formula.rec_memberList generalizing outer with
  | atom p => rw [expandIff]
  | neg f ih => rw [expandIff, listing.neg, listing.neg, ih]
  | junction op a b rest ih =>
      rw [expandIff, listing.junction, listing.junction, ← List.map_cons, ← List.map_cons,
        List.flatMap_map, List.mem_flatMap, List.mem_flatMap]
      exact exists_congr fun f => and_congr_right fun member => ih f member outer
  | imp a b iha ihb =>
      rw [expandIff, listing.imp, listing.imp, List.mem_append, List.mem_append, iha, ihb]
  | iff a b iha ihb =>
      rw [expandIff, listing.junction, listing.iff, List.flatMap_cons, List.flatMap_singleton,
        listing.imp, listing.imp, List.mem_append, List.mem_append, List.mem_append, List.mem_append,
        iha, ihb]
      tauto
  | quant q x f ih =>
      rw [expandIff, listing.quant, listing.quant, List.mem_append, List.mem_append, ih]

theorem mem_atoms_expandIff {f : Formula} {p : Atom} : p ∈ f.expandIff.atoms ↔ p ∈ f.atoms :=
  mem_listing_expandIff ListingLemmas.isListing_atoms f []

theorem mem_free_expandIff {f : Formula} {x : String} :
    x ∈ f.expandIff.free [] ↔ x ∈ f.free [] :=
  mem_listing_expandIff ListingLemmas.isListing_free f []

/-- Writing an implication as a disjunction leaves both its sides where they are. -/
theorem listing_expandImp {α : Type u} {binder : String → List α}
    {list : List String → Formula → List α} (listing : IsListing binder list) (f : Formula)
    (outer : List String) : list outer f.expandImp = list outer f := by
  induction f using Formula.rec_memberList generalizing outer with
  | atom p => rw [expandImp]
  | neg f ih => rw [expandImp, listing.neg, listing.neg, ih]
  | junction op a b rest ih =>
      rw [expandImp, listing.junction, listing.junction, ← List.map_cons, ← List.map_cons,
        List.flatMap_map]
      exact List.flatMap_congr fun f member => ih f member outer
  | imp a b iha ihb =>
      rw [expandImp, listing.junction, listing.imp, List.flatMap_cons, List.flatMap_singleton,
        listing.neg, iha, ihb]
  | iff a b iha ihb => rw [expandImp, listing.iff, listing.iff, iha, ihb]
  | quant q x f ih => rw [expandImp, listing.quant, listing.quant, ih]

theorem atoms_expandImp (f : Formula) : f.expandImp.atoms = f.atoms :=
  listing_expandImp ListingLemmas.isListing_atoms f []

theorem free_expandImp (f : Formula) (outer : List String) :
    f.expandImp.free outer = f.free outer :=
  listing_expandImp ListingLemmas.isListing_free f outer

end ConnectiveLemmas

/-! ## Pushing negations inwards -/

namespace PolarityLemmas

variable {polarity : Polarity} {op : Junctor} {q : Quantifier} {p : Prop}

theorem says_flip : polarity.flip.Says p ↔ polarity.Says (¬ p) := by
  cases polarity with
  | positive => exact Iff.rfl
  | negative => exact not_not.symm

theorem joins_says {α : Type u} {xs : List α} {P : α → Prop} :
    (polarity.junctor op).Joins (xs.map fun x => polarity.Says (P x)) ↔
      polarity.Says (op.Joins (xs.map P)) := by
  cases polarity with
  | positive => exact Iff.rfl
  | negative => exact JoinLemmas.joins_dual

theorem binds_says {D : Type u} {P : D → Prop} :
    (polarity.quantifier q).Binds (fun d => polarity.Says (P d)) ↔ polarity.Says (q.Binds P) := by
  cases polarity with
  | positive => exact Iff.rfl
  | negative => exact BindLemmas.binds_dual

theorem holds_literal {p : Atom} {D : Type u} {I : Interpretation D} {s : String → D} :
    (polarity.literal p).Holds I s ↔ polarity.Says (p.Holds I s) := by
  cases polarity with
  | positive => rw [Polarity.literal, Formula.Holds, Polarity.Says]
  | negative => rw [Polarity.literal, Formula.Holds, Formula.Holds, Polarity.Says]

theorem isNegationNormal_literal {p : Atom} : (polarity.literal p).IsNegationNormal := by
  cases polarity <;> simp [Polarity.literal, Formula.IsNegationNormal]

theorem isQuantifierFree_literal {p : Atom} : (polarity.literal p).IsQuantifierFree := by
  cases polarity <;> simp [Polarity.literal, Formula.IsQuantifierFree]

/-- The literals are the atoms and their negations. -/
theorem isLiteral_iff_exists {f : Formula} :
    f.IsLiteral ↔ ∃ (polarity : Polarity) (p : Atom), f = polarity.literal p := by
  constructor
  · intro literal
    cases f with
    | atom p => exact ⟨.positive, p, rfl⟩
    | neg f =>
        obtain ⟨p, rfl⟩ := literal
        exact ⟨.negative, p, rfl⟩
    | _ => exact literal.elim
  · rintro ⟨polarity, p, rfl⟩
    cases polarity with
    | positive => trivial
    | negative => exact ⟨p, rfl⟩

end PolarityLemmas

namespace NegationLemmas

open Formula

/-- A formula without refused operators has its negations pushed inwards. -/
theorem exists_pushNegations {f : Formula} (arrowFree : f.IsArrowFree) (polarity : Polarity) :
    ∃ g, f.pushNegations polarity = .ok g := by
  induction f using Formula.rec_memberList generalizing polarity with
  | atom p => exact ⟨_, by rw [pushNegations]⟩
  | neg f ih =>
      rw [IsArrowFree] at arrowFree
      rw [pushNegations]
      exact ih arrowFree polarity.flip
  | junction op a b rest ih =>
      rw [isArrowFree_junction] at arrowFree
      rw [pushNegations]
      exact MemberLemmas.exists_membersM_eq_ok fun f member =>
        ih f member (arrowFree f member) polarity
  | imp a b _ _ | iff a b _ _ =>
      rw [IsArrowFree] at arrowFree
      exact arrowFree.elim
  | quant q x f ih =>
      rw [IsArrowFree] at arrowFree
      obtain ⟨g, pushed⟩ := ih arrowFree polarity
      refine ⟨.quant (polarity.quantifier q) x g, ?_⟩
      rw [pushNegations, pushed]
      rfl

/-- What pushing negations inwards does, one case an operator. -/
theorem pushNegations_induction {motive : Polarity → Formula → Formula → Prop}
    (atom : ∀ polarity p, motive polarity (.atom p) (polarity.literal p))
    (neg : ∀ polarity f g, motive polarity.flip f g → motive polarity (.neg f) g)
    (junction : ∀ polarity op a b rest a' b' rest',
      List.Forall₂ (motive polarity) (a :: b :: rest) (a' :: b' :: rest') →
      motive polarity (.junction op a b rest) (.junction (polarity.junctor op) a' b' rest'))
    (quant : ∀ polarity q x f g, motive polarity f g →
      motive polarity (.quant q x f) (.quant (polarity.quantifier q) x g))
    {polarity : Polarity} {f g : Formula} (pushed : f.pushNegations polarity = .ok g) :
    motive polarity f g := by
  induction f using Formula.rec_memberList generalizing polarity g with
  | atom p =>
      rw [pushNegations] at pushed
      exact Except.ok.inj pushed ▸ atom polarity p
  | neg f ih =>
      rw [pushNegations] at pushed
      exact neg polarity f g (ih pushed)
  | junction op a b rest ih =>
      rw [pushNegations] at pushed
      obtain ⟨a', b', rest', rfl, members⟩ := MemberLemmas.membersM_eq_ok.mp pushed
      refine junction polarity op a b rest a' b' rest' ?_
      exact MemberLemmas.forall₂_of_mem members fun f member g pushed => ih f member pushed
  | imp a b _ _ | iff a b _ _ =>
      rw [pushNegations] at pushed
      cases pushed
  | quant q x f ih =>
      rw [pushNegations] at pushed
      obtain ⟨g', body, same⟩ := MemberLemmas.bind_eq_ok.mp pushed
      exact Except.ok.inj same ▸ quant polarity q x f g' (ih body)

variable {polarity : Polarity} {f g : Formula}

theorem isArrowFree_of_isNegationNormal (normal : f.IsNegationNormal) : f.IsArrowFree := by
  induction f using Formula.rec_memberList with
  | atom p => rw [IsArrowFree]; trivial
  | neg f _ =>
      rw [IsNegationNormal] at normal
      obtain ⟨p, rfl⟩ := normal
      rw [IsArrowFree, IsArrowFree]
      trivial
  | junction op a b rest ih =>
      rw [isNegationNormal_junction] at normal
      rw [isArrowFree_junction]
      exact fun f member => ih f member (normal f member)
  | imp a b _ _ | iff a b _ _ =>
      rw [IsNegationNormal] at normal
      exact normal.elim
  | quant q x f ih =>
      rw [IsNegationNormal] at normal
      rw [IsArrowFree]
      exact ih normal

/-- The result is in negation normal form. -/
theorem isNegationNormal_pushNegations (pushed : f.pushNegations polarity = .ok g) :
    g.IsNegationNormal := by
  refine pushNegations_induction (motive := fun _ _ g => g.IsNegationNormal)
    ?atom ?neg ?junction ?quant pushed
  case atom => exact fun _ _ => PolarityLemmas.isNegationNormal_literal
  case neg => exact fun _ _ _ ih => ih
  case junction =>
    intro _ _ a b rest a' b' rest' members
    rw [isNegationNormal_junction]
    exact MemberLemmas.forall_mem_of_forall₂ members fun _ _ _ normal => normal
  case quant =>
    intro _ _ _ _ _ ih
    rw [IsNegationNormal]
    exact ih

/-- The result holds if the formula, or its negation, does. -/
theorem holds_pushNegations (pushed : f.pushNegations polarity = .ok g) {D : Type u}
    (I : Interpretation D) (s : String → D) : g.Holds I s ↔ polarity.Says (f.Holds I s) := by
  refine pushNegations_induction
    (motive := fun polarity f g => ∀ s, g.Holds I s ↔ polarity.Says (f.Holds I s))
    ?atom ?neg ?junction ?quant pushed s
  case atom =>
    intro polarity p s
    rw [PolarityLemmas.holds_literal, Holds]
  case neg =>
    intro polarity f g ih s
    rw [ih s, PolarityLemmas.says_flip, Holds]
  case junction =>
    intro polarity op a b rest a' b' rest' members s
    rw [holds_junction_iff, holds_junction_iff, ← PolarityLemmas.joins_says]
    exact (JoinLemmas.joins_congr_forall₂ (members.imp fun _ _ ih => (ih s).symm)).symm
  case quant =>
    intro polarity q x f g ih s
    rw [Holds, Holds, ← PolarityLemmas.binds_says]
    exact BindLemmas.binds_congr fun d => ih _

/-- Every operator is kept or replaced by its dual, and what stands below it stays in its place. -/
theorem listing_pushNegations {α : Type u} {binder : String → List α}
    {list : List String → Formula → List α} (listing : IsListing binder list)
    (pushed : f.pushNegations polarity = .ok g) (outer : List String) :
    list outer g = list outer f := by
  refine pushNegations_induction (motive := fun _ f g => ∀ outer, list outer g = list outer f)
    ?atom ?neg ?junction ?quant pushed outer
  case atom =>
    intro polarity p outer
    cases polarity with
    | positive => rw [Polarity.literal]
    | negative => rw [Polarity.literal, listing.neg]
  case neg =>
    intro _ f g ih outer
    rw [ih, listing.neg]
  case junction =>
    intro _ _ a b rest a' b' rest' members outer
    rw [listing.junction, listing.junction]
    exact (MemberLemmas.flatMap_eq_flatMap_of_forall₂ (members.imp fun _ _ ih => (ih outer).symm)).symm
  case quant =>
    intro _ _ _ f g ih outer
    rw [listing.quant, listing.quant, ih]

/-- The atoms stay, in their order. -/
theorem atoms_pushNegations (pushed : f.pushNegations polarity = .ok g) : g.atoms = f.atoms :=
  listing_pushNegations ListingLemmas.isListing_atoms pushed []

/-- The free variables stay, in their order. -/
theorem free_pushNegations (pushed : f.pushNegations polarity = .ok g) (outer : List String) :
    g.free outer = f.free outer :=
  listing_pushNegations ListingLemmas.isListing_free pushed outer

end NegationLemmas

end Clausal
