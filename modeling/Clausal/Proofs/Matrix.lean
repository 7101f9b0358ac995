import Clausal.Formula.Matrix
import Clausal.Proofs.NegationNormal
import Clausal.Proofs.Spine

/-!
# Distribution keeps the meaning

The conjunctive and the disjunctive normal form of a formula have its meaning, by the distributive
law, and are made of its literals. Neither depends on whether the normal form is flattened.

* `MatrixLemmas.holds_distribute`: joining two normal forms.
* `MatrixLemmas.distributed_induction` is induction along the computation of a normal form.
* `MatrixLemmas.exists_matrixForm`, `MatrixLemmas.holds_matrixForm`: normal forms exist and keep the
  meaning.
* `MatrixLemmas.mem_leaves_matrixForm`, `MatrixLemmas.mem_atoms_matrixForm`: what they are made of.
-/

namespace Clausal

theorem Junctor.eq_dual_of_ne {op outer : Junctor} (differ : op ≠ outer) : op = outer.dual := by
  cases op <;> cases outer <;> simp_all [Junctor.dual]

namespace MatrixLemmas

open Formula

variable {outer : Junctor} {f g l r : Formula}

/-! ## Distribution over two operands -/

section
variable {D : Type u} {I : Interpretation D} {s : String → D}

theorem holds_junction_two {op : Junctor} {a b : Formula} :
    (Formula.junction op a b []).Holds I s ↔ op.Links (a.Holds I s) (b.Holds I s) := by
  rw [holds_junction_iff, List.map_cons, List.map_singleton, JoinLemmas.joins_cons,
    JoinLemmas.joins_singleton]

/-- Distribution joins its operands by the inner operator. -/
theorem holds_distribute :
    (distribute outer l r).Holds I s ↔ outer.dual.Links (l.Holds I s) (r.Holds I s) := by
  have multiplied : ∀ y, (l.mapSpine outer fun x => .junction outer.dual x y []).Holds I s ↔
      outer.dual.Links (l.Holds I s) (y.Holds I s) := by
    intro y
    rw [SpineLemmas.holds_mapSpine, ← SpineLemmas.joins_spine outer l,
      ← JoinLemmas.joins_links]
    exact JoinLemmas.joins_congr fun x _ => holds_junction_two
  rw [distribute, SpineLemmas.holds_mapSpine, ← SpineLemmas.joins_spine outer r,
    JoinLemmas.links_comm, ← JoinLemmas.joins_links]
  exact JoinLemmas.joins_congr fun y _ => (multiplied y).trans JoinLemmas.links_comm

/-- Distribution over several operands, one after the other. -/
theorem holds_foldl_distribute {rest : List Formula} :
    (rest.foldl (distribute outer) f).Holds I s ↔
      outer.dual.Joins ((f :: rest).map (Holds I s)) := by
  induction rest generalizing f with
  | nil => rw [List.foldl_nil, List.map_singleton, JoinLemmas.joins_singleton]
  | cons g rest ih =>
      rw [List.foldl_cons, ih, List.map_cons, JoinLemmas.joins_cons, holds_distribute,
        JoinLemmas.links_assoc, List.map_cons, List.map_cons, JoinLemmas.joins_cons,
        JoinLemmas.joins_cons]

end

/-- Distribution uses the leaves of its operands, and each of them. -/
theorem mem_leaves_distribute :
    g ∈ (distribute outer l r).leaves ↔ g ∈ l.leaves ∨ g ∈ r.leaves := by
  have pairs : (distribute outer l r).leaves =
      (r.spine outer).flatMap fun y => (l.spine outer).flatMap fun x => x.leaves ++ y.leaves := by
    rw [distribute, SpineLemmas.mapSpine_concatenates (concatenates_leaves outer)]
    refine List.flatMap_congr fun y _ => ?_
    rw [SpineLemmas.mapSpine_concatenates (concatenates_leaves outer)]
    refine List.flatMap_congr fun x _ => ?_
    rw [concatenates_leaves, List.flatMap_cons, List.flatMap_singleton]
  -- Each part is in some pair, because the other operand has a part.
  obtain ⟨x, left⟩ := List.exists_mem_of_ne_nil _ (SpineLemmas.spine_ne_nil outer l)
  obtain ⟨y, right⟩ := List.exists_mem_of_ne_nil _ (SpineLemmas.spine_ne_nil outer r)
  rw [pairs, ← SpineLemmas.flatMap_spine l (concatenates_leaves outer),
    ← SpineLemmas.flatMap_spine r (concatenates_leaves outer)]
  simp only [List.mem_flatMap, List.mem_append]
  constructor
  · rintro ⟨y, inRight, x, inLeft, found | found⟩
    · exact .inl ⟨x, inLeft, found⟩
    · exact .inr ⟨y, inRight, found⟩
  · rintro (⟨x, inLeft, found⟩ | ⟨y, inRight, found⟩)
    · exact ⟨y, right, x, inLeft, .inl found⟩
    · exact ⟨y, inRight, x, left, .inr found⟩

theorem mem_leaves_foldl_distribute {rest : List Formula} :
    g ∈ (rest.foldl (distribute outer) f).leaves ↔ g ∈ (f :: rest).flatMap leaves := by
  induction rest generalizing f with
  | nil => rw [List.foldl_nil, List.flatMap_singleton]
  | cons b rest ih =>
      rw [List.foldl_cons, ih, List.flatMap_cons, List.mem_append, mem_leaves_distribute,
        List.flatMap_cons, List.flatMap_cons, List.mem_append, List.mem_append, or_assoc]

/-! ## The computation of a normal form -/

theorem distributed_of_isLiteral (literal : l.IsLiteral) : l.distributed outer = .ok l := by
  obtain ⟨polarity, p, rfl⟩ := PolarityLemmas.isLiteral_iff_exists.mp literal
  cases polarity <;> simp [Polarity.literal, distributed]

/-- Members that have normal forms make up a junction that has one. -/
theorem distributed_junction {op : Junctor} {a b a' b' : Formula} {rest rest' : List Formula}
    (members : List.Forall₂ (fun f g => f.distributed outer = .ok g) (a :: b :: rest)
      (a' :: b' :: rest')) :
    (Formula.junction op a b rest).distributed outer =
      .ok (if op = outer then .junction op a' b' rest'
        else (b' :: rest').foldl (distribute outer) a') := by
  rw [distributed]
  exact MemberLemmas.membersM_eq_ok.mpr ⟨a', b', rest', rfl, members⟩

/-- A quantifier-free formula in negation normal form is not refused. -/
theorem exists_distributed (outer : Junctor) (literals : ∀ l ∈ f.leaves, l.IsLiteral) :
    ∃ g, f.distributed outer = .ok g := by
  refine SpineLemmas.leaves_induction (motive := fun f => ∃ g, f.distributed outer = .ok g)
    ?literal ?junction literals
  case literal => exact fun l literal => ⟨l, distributed_of_isLiteral literal⟩
  case junction =>
    intro op a b rest ih
    rw [distributed]
    exact MemberLemmas.exists_membersM_eq_ok fun f member => (ih f member).2

/-- What distribution does: literals stay, a junction with the outer operator stays one of its
normal forms, and the others are multiplied out from left to right. -/
theorem distributed_induction {motive : Formula → Formula → Prop}
    (literal : ∀ l, l.IsLiteral → motive l l)
    (joined : ∀ a b rest a' b' rest',
      List.Forall₂ motive (a :: b :: rest) (a' :: b' :: rest') →
      motive (.junction outer a b rest) (.junction outer a' b' rest'))
    (spread : ∀ a b rest a' b' rest',
      List.Forall₂ motive (a :: b :: rest) (a' :: b' :: rest') →
      motive (.junction outer.dual a b rest) ((b' :: rest').foldl (distribute outer) a'))
    (formed : f.distributed outer = .ok g) : motive f g := by
  induction f using Formula.rec_memberList generalizing g with
  | atom p =>
      rw [distributed] at formed
      exact Except.ok.inj formed ▸ literal _ trivial
  | neg f _ =>
      cases f with
      | atom p =>
          rw [distributed] at formed
          exact Except.ok.inj formed ▸ literal _ ⟨p, rfl⟩
      | _ => simp [distributed] at formed
  | junction op a b rest ih =>
      rw [distributed] at formed
      obtain ⟨a', b', rest', rfl, members⟩ := MemberLemmas.membersM_eq_ok.mp formed
      have each := MemberLemmas.forall₂_of_mem members fun f member g formed => ih f member formed
      -- An operator that is not the outer one is its dual.
      by_cases same : op = outer
      · rw [if_pos same, same]
        exact joined a b rest a' b' rest' each
      · rw [if_neg same, Junctor.eq_dual_of_ne same]
        exact spread a b rest a' b' rest' each
  | _ =>
      rw [distributed] at formed
      cases formed

/-- Distribution keeps the meaning. -/
theorem holds_distributed (formed : f.distributed outer = .ok g) {D : Type u}
    (I : Interpretation D) (s : String → D) : g.Holds I s ↔ f.Holds I s := by
  refine distributed_induction (motive := fun f g => g.Holds I s ↔ f.Holds I s)
    ?literal ?joined ?spread formed
  case literal => exact fun _ _ => Iff.rfl
  case joined =>
    intro a b rest a' b' rest' members
    rw [holds_junction_iff, holds_junction_iff]
    exact (JoinLemmas.joins_congr_forall₂ (members.imp fun _ _ same => same.symm)).symm
  case spread =>
    intro a b rest a' b' rest' members
    rw [holds_foldl_distribute, holds_junction_iff]
    exact (JoinLemmas.joins_congr_forall₂ (members.imp fun _ _ same => same.symm)).symm

/-- A normal form is made of the leaves of the formula, and of each of them. -/
theorem mem_leaves_distributed (formed : f.distributed outer = .ok g) :
    l ∈ g.leaves ↔ l ∈ f.leaves := by
  refine distributed_induction (motive := fun f g => l ∈ g.leaves ↔ l ∈ f.leaves)
    ?literal ?joined ?spread formed
  case literal => exact fun _ _ => Iff.rfl
  case joined =>
    intro a b rest a' b' rest' members
    rw [concatenates_leaves, concatenates_leaves]
    exact (MemberLemmas.mem_flatMap_iff_of_forall₂ (members.imp fun _ _ same => same.symm)).symm
  case spread =>
    intro a b rest a' b' rest' members
    rw [mem_leaves_foldl_distribute, concatenates_leaves]
    exact (MemberLemmas.mem_flatMap_iff_of_forall₂ (members.imp fun _ _ same => same.symm)).symm

/-! ## Normal forms, flattened or not -/

section
variable {flat : Bool}

theorem exists_matrixForm (outer : Junctor) (flat : Bool) (free : f.IsQuantifierFree)
    (normal : f.IsNegationNormal) : ∃ g, f.matrixForm outer flat = .ok g := by
  obtain ⟨g, formed⟩ :=
    exists_distributed outer (SpineLemmas.leaves_isLiteral_iff.mpr ⟨free, normal⟩)
  rw [matrixForm, formed]
  exact ⟨_, rfl⟩

/-- A normal form is what distribution gives, flattened if this is asked for. -/
theorem distributed_of_matrixForm (formed : f.matrixForm outer flat = .ok g) :
    ∃ h, f.distributed outer = .ok h ∧ g = if flat then h.flatten else h := by
  obtain ⟨h, nested, same⟩ := MemberLemmas.bind_eq_ok.mp formed
  exact ⟨h, nested, (Except.ok.inj same).symm⟩

theorem holds_matrixForm (formed : f.matrixForm outer flat = .ok g) {D : Type u}
    (I : Interpretation D) (s : String → D) : g.Holds I s ↔ f.Holds I s := by
  obtain ⟨h, nested, rfl⟩ := distributed_of_matrixForm formed
  cases flat with
  | false => exact holds_distributed nested I s
  | true => exact SpineLemmas.holds_flatten.trans (holds_distributed nested I s)

/-- Only literals have normal forms made of them. -/
theorem isLiteral_of_distributed (formed : f.distributed outer = .ok g) :
    ∀ l ∈ f.leaves, l.IsLiteral := by
  refine distributed_induction (motive := fun f _ => ∀ l ∈ f.leaves, l.IsLiteral)
    ?literal ?joined ?spread formed
  case literal =>
    intro l literal
    rw [SpineLemmas.leaves_of_isLiteral literal, List.forall_mem_singleton]
    exact literal
  case joined | spread =>
    intro a b rest a' b' rest' members
    rw [concatenates_leaves, List.forall_mem_flatMap]
    exact MemberLemmas.forall_mem_of_forall₂ members.flip fun _ _ _ literals => literals

theorem mem_leaves_matrixForm (formed : f.matrixForm outer flat = .ok g) :
    l ∈ g.leaves ↔ l ∈ f.leaves := by
  obtain ⟨h, nested, rfl⟩ := distributed_of_matrixForm formed
  cases flat with
  | false => exact mem_leaves_distributed nested
  | true =>
      have literals : ∀ l ∈ h.leaves, l.IsLiteral := fun l found =>
        isLiteral_of_distributed nested l ((mem_leaves_distributed nested).mp found)
      rw [if_pos rfl, SpineLemmas.leaves_flatten literals]
      exact mem_leaves_distributed nested

theorem isLiteral_of_matrixForm (formed : f.matrixForm outer flat = .ok g) :
    ∀ l ∈ g.leaves, l.IsLiteral := by
  obtain ⟨h, nested, _⟩ := distributed_of_matrixForm formed
  exact fun l found => isLiteral_of_distributed nested l ((mem_leaves_matrixForm formed).mp found)

/-- A normal form has the atoms of the formula, though in another order and number. -/
theorem mem_atoms_matrixForm (formed : f.matrixForm outer flat = .ok g) {p : Atom} :
    p ∈ g.atoms ↔ p ∈ f.atoms := by
  rw [← SpineLemmas.flatMap_leaves concatenates_atoms,
    ← SpineLemmas.flatMap_leaves (f := f) concatenates_atoms, List.mem_flatMap, List.mem_flatMap]
  exact exists_congr fun l => and_congr_left' (mem_leaves_matrixForm formed)

end

end MatrixLemmas

end Clausal
