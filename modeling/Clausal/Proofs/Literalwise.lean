import Clausal.Proofs.Shapes

/-!
# Changing the literals before or after a step

Distribution and flattening move literals and do not look at them. A change that comes down to a change
of the literals may therefore be made before or after. The change may also turn every conjunction into a
disjunction and conversely; then it leads from one of the two normal forms to the other.

* `Formula.IsLiteralwise`: literals become literals, and junctions junctions of the changed members.
* `LiteralwiseLemmas.change_distribute` is the step of distribution.
* `LiteralwiseLemmas.matrixForm_change`: the normal form of a changed formula is the changed normal form.
-/

namespace Clausal

/-- A change of formulas that is a change of their literals. It leaves the operators of junctions as
they are, or in negative polarity puts the dual ones in their places. -/
structure Formula.IsLiteralwise (polarity : Polarity) (change : Formula → Formula) : Prop where
  literal : ∀ l, l.IsLiteral → (change l).IsLiteral
  junction : ∀ op a b rest, change (.junction op a b rest) =
    .junction (polarity.junctor op) (change a) (change b) (rest.map change)

namespace PolarityLemmas

variable {polarity : Polarity} {op op' : Junctor}

theorem junctor_dual : polarity.junctor op.dual = (polarity.junctor op).dual := by
  cases polarity <;> rfl

theorem junctor_ne (differ : op ≠ op') : polarity.junctor op ≠ polarity.junctor op' := by
  cases polarity with
  | positive => exact differ
  | negative =>
      intro same
      have equal : op.dual.dual = op'.dual.dual := congrArg Junctor.dual same
      rw [Junctor.dual_dual, Junctor.dual_dual] at equal
      exact differ equal

end PolarityLemmas

namespace LiteralwiseLemmas

open Formula PolarityLemmas

variable {polarity : Polarity} {change : Formula → Formula} {op outer : Junctor}
  {f g l r : Formula}

section
variable (literalwise : IsLiteralwise polarity change)
include literalwise

/-! ## Distribution -/

/-- A change of the literals may be made before or after the parts of a spine are replaced. -/
theorem change_mapSpine {step step' : Formula → Formula}
    (each : ∀ g, change (step g) = step' (change g)) (literals : ∀ l ∈ f.leaves, l.IsLiteral) :
    change (f.mapSpine op step) = (change f).mapSpine (polarity.junctor op) step' := by
  refine SpineLemmas.leaves_induction
    (motive := fun f =>
      change (f.mapSpine op step) = (change f).mapSpine (polarity.junctor op) step')
    ?literal ?junction literals
  case literal =>
    intro l literal
    have literal' := literalwise.literal l literal
    rw [SpineLemmas.mapSpine_of_ne (SpineLemmas.not_junction_of_isLiteral literal),
      SpineLemmas.mapSpine_of_ne (SpineLemmas.not_junction_of_isLiteral literal'), each]
  case junction =>
    intro op' a b rest ih
    by_cases same : op' = op
    · rw [literalwise.junction, same, mapSpine, if_pos rfl, literalwise.junction, mapSpine,
        if_pos rfl, List.map_map, List.map_map]
      exact junction_congr fun f member => (ih f member).2
    · rw [literalwise.junction, mapSpine, if_neg same, mapSpine, if_neg (junctor_ne same), each,
        literalwise.junction]

theorem change_distribute (left : ∀ k ∈ l.leaves, k.IsLiteral) (right : ∀ k ∈ r.leaves, k.IsLiteral) :
    change (distribute outer l r) = distribute (polarity.junctor outer) (change l) (change r) := by
  refine change_mapSpine literalwise (fun y => ?_) right
  refine change_mapSpine literalwise (fun x => ?_) left
  rw [literalwise.junction, junctor_dual, List.map_nil]

theorem change_foldl_distribute {fs : List Formula}
    (literals : ∀ g ∈ f :: fs, ∀ l ∈ g.leaves, l.IsLiteral) :
    change (fs.foldl (distribute outer) f) =
      (fs.map change).foldl (distribute (polarity.junctor outer)) (change f) := by
  induction fs generalizing f with
  | nil => rfl
  | cons g fs ih =>
      rw [List.forall_mem_cons, List.forall_mem_cons] at literals
      obtain ⟨first, second, others⟩ := literals
      have joined : ∀ l ∈ (distribute outer f g).leaves, l.IsLiteral := fun l found =>
        (MatrixLemmas.mem_leaves_distribute.mp found).elim (first l) (second l)
      rw [List.foldl_cons, ih (List.forall_mem_cons.mpr ⟨joined, others⟩),
        change_distribute literalwise first second, List.map_cons, List.foldl_cons]

/-- The members of a changed junction have the changed normal forms. -/
theorem distributed_members {outer' : Junctor} {a b a' b' : Formula} {rest rest' : List Formula}
    (members : List.Forall₂ (fun f g => (change f).distributed outer' = .ok (change g))
      (a :: b :: rest) (a' :: b' :: rest')) :
    (change (.junction op a b rest)).distributed outer' =
      .ok (if polarity.junctor op = outer' then change (.junction op a' b' rest')
        else ((b' :: rest').map change).foldl (distribute outer') (change a')) := by
  rw [literalwise.junction,
    MatrixLemmas.distributed_junction (MemberLemmas.forall₂_map_members members),
    literalwise.junction, List.map_cons]

/-- Distribution does the same to changed literals. -/
theorem distributed_change (formed : f.distributed outer = .ok g) :
    (change f).distributed (polarity.junctor outer) = .ok (change g) := by
  -- To change a product, one has to know that its factors are made of literals.
  refine (MatrixLemmas.distributed_induction
    (motive := fun f g => (∀ l ∈ g.leaves, l.IsLiteral) ∧
      (change f).distributed (polarity.junctor outer) = .ok (change g))
    ?literal ?joined ?spread formed).2
  case literal =>
    intro l literal
    refine ⟨?_, MatrixLemmas.distributed_of_isLiteral (literalwise.literal l literal)⟩
    rw [SpineLemmas.leaves_of_isLiteral literal, List.forall_mem_singleton]
    exact literal
  case joined =>
    intro a b rest a' b' rest' members
    refine ⟨?_, ?_⟩
    · rw [concatenates_leaves, List.forall_mem_flatMap]
      exact MemberLemmas.forall_mem_of_forall₂ members fun _ _ _ each => each.1
    · rw [distributed_members literalwise (members.imp fun _ _ => And.right), if_pos rfl]
  case spread =>
    intro a b rest a' b' rest' members
    have literals : ∀ g ∈ a' :: b' :: rest', ∀ l ∈ g.leaves, l.IsLiteral :=
      MemberLemmas.forall_mem_of_forall₂ members fun _ _ _ each => each.1
    refine ⟨fun l found => ?_, ?_⟩
    · exact List.forall_mem_flatMap.mpr literals l (MatrixLemmas.mem_leaves_foldl_distribute.mp found)
    · rw [distributed_members literalwise (members.imp fun _ _ => And.right), junctor_dual,
        if_neg (ShapeLemmas.dual_ne _), change_foldl_distribute literalwise literals]

/-! ## Flattening -/

theorem memberList_change (literals : ∀ l ∈ f.leaves, l.IsLiteral) :
    (change f).memberList (polarity.junctor op) = (f.memberList op).map change := by
  refine SpineLemmas.leaves_induction
    (motive := fun f => (change f).memberList (polarity.junctor op) = (f.memberList op).map change)
    ?literal ?junction literals
  case literal =>
    intro l literal
    have literal' := literalwise.literal l literal
    rw [ShapeLemmas.memberList_of_ne (SpineLemmas.not_junction_of_isLiteral literal),
      ShapeLemmas.memberList_of_ne (SpineLemmas.not_junction_of_isLiteral literal'),
      List.map_singleton]
  case junction =>
    intro op' a b rest _
    by_cases same : op' = op
    · rw [literalwise.junction, same, ShapeLemmas.memberList_junction,
        ShapeLemmas.memberList_junction, List.map_cons, List.map_cons]
    · rw [ShapeLemmas.memberList_of_ne (SpineLemmas.not_junction_of_ne same), List.map_singleton,
        literalwise.junction,
        ShapeLemmas.memberList_of_ne (SpineLemmas.not_junction_of_ne (junctor_ne same))]

/-- A change of the literals may be made before or after flattening. -/
theorem change_flatten (literals : ∀ l ∈ f.leaves, l.IsLiteral) :
    change f.flatten = (change f).flatten := by
  refine SpineLemmas.leaves_induction (motive := fun f => change f.flatten = (change f).flatten)
    ?literal ?junction literals
  case literal =>
    intro l literal
    rw [ShapeLemmas.isLiteral_flatten literal,
      ShapeLemmas.isLiteral_flatten (literalwise.literal l literal)]
  case junction =>
    intro op a b rest ih
    obtain ⟨c, d, others, same, members⟩ := ShapeLemmas.exists_flatten_junction op a b rest
    obtain ⟨c', d', others', same', members'⟩ := ShapeLemmas.exists_flatten_junction
      (polarity.junctor op) (change a) (change b) (rest.map change)
    -- The members of both are those of the flattened members, with their literals changed.
    have put : c' :: d' :: others' = (c :: d :: others).map change := by
      rw [members', members, List.map_flatMap, ← List.map_cons, ← List.map_cons, List.flatMap_map]
      refine List.flatMap_congr fun f member => ?_
      obtain ⟨literals, flattened⟩ := ih f member
      rw [← flattened, memberList_change literalwise fun l found =>
        literals l (SpineLemmas.leaves_flatten literals ▸ found)]
    injection put with first put
    injection put with second rest
    rw [same, literalwise.junction, literalwise.junction, same', first, second, rest]

/-- The normal form of a formula whose literals were changed is that of the formula, with its literals
changed. -/
theorem matrixForm_change {flat : Bool} (formed : f.matrixForm outer flat = .ok g) :
    (change f).matrixForm (polarity.junctor outer) flat = .ok (change g) := by
  have literals := MatrixLemmas.isLiteral_of_matrixForm formed
  obtain ⟨h, nested, rfl⟩ := MatrixLemmas.distributed_of_matrixForm formed
  rw [matrixForm, distributed_change literalwise nested]
  cases flat with
  | false => rfl
  | true =>
      have nestedLiterals : ∀ l ∈ h.leaves, l.IsLiteral := fun l found =>
        MatrixLemmas.isLiteral_of_distributed nested l
          ((MatrixLemmas.mem_leaves_distributed nested).mp found)
      exact congrArg Except.ok (change_flatten literalwise nestedLiterals).symm

end

end LiteralwiseLemmas

end Clausal
