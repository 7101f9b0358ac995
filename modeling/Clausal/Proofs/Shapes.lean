import Clausal.Clause.OfMatrix
import Clausal.Proofs.Matrix
import Clausal.Proofs.Substitution

/-!
# The shapes of normal forms

Distribution leaves junctions of two levels above the literals, each of them nested in any way;
flattening makes one junction of each level. Substitution changes the literals only, so that the
Skolem form still has the shape from which clauses are read.

* `Formula.IsMatrix`: two levels of junctions above the literals.
* `ShapeLemmas.isMatrix_distributed`, `ShapeLemmas.isFlatMatrix_flatten`: what the normal forms look
  like.
* `ShapeLemmas.exists_ofFormula`: the clauses of a matrix.
-/

namespace Clausal

namespace Formula

/-- Junctions with `outer`, below them junctions with its dual, and below these literals, each of
them nested in any way. -/
def IsMatrix (outer : Junctor) (f : Formula) : Prop :=
  ∀ part ∈ f.spine outer, ∀ l ∈ part.spine outer.dual, l.IsLiteral

/-- The members of a junction with this operator; any other formula is on its own. -/
def memberList (op : Junctor) (f : Formula) : List Formula :=
  (f.members op).1 :: (f.members op).2

end Formula

namespace ShapeLemmas

open Formula

variable {op outer inner : Junctor} {f g l r : Formula}

/-! ## Distribution -/

theorem spine_literal (literal : l.IsLiteral) (op : Junctor) : l.spine op = [l] :=
  SpineLemmas.spine_of_ne (SpineLemmas.not_junction_of_isLiteral literal)

theorem dual_ne (op : Junctor) : op.dual ≠ op := by
  cases op <;> decide

/-- The parts of a product are the pairs of parts. -/
theorem spine_distribute : (distribute outer l r).spine outer =
    (r.spine outer).flatMap fun y =>
      (l.spine outer).flatMap fun x => [.junction outer.dual x y []] := by
  rw [distribute, SpineLemmas.spine_mapSpine]
  refine List.flatMap_congr fun y _ => ?_
  rw [SpineLemmas.spine_mapSpine]
  refine List.flatMap_congr fun x _ => ?_
  exact SpineLemmas.spine_of_ne (SpineLemmas.not_junction_of_ne (dual_ne outer))

theorem isMatrix_distribute (left : l.IsMatrix outer) (right : r.IsMatrix outer) :
    (distribute outer l r).IsMatrix outer := by
  intro part member
  rw [spine_distribute] at member
  obtain ⟨y, inRight, member⟩ := List.mem_flatMap.mp member
  obtain ⟨x, inLeft, member⟩ := List.mem_flatMap.mp member
  rw [List.mem_singleton.mp member, spine_junction, List.forall_mem_flatMap]
  exact List.forall_mem_cons.mpr ⟨left x inLeft, List.forall_mem_singleton.mpr (right y inRight)⟩

theorem isMatrix_foldl_distribute {fs : List Formula} (first : f.IsMatrix outer)
    (others : ∀ g ∈ fs, g.IsMatrix outer) : (fs.foldl (distribute outer) f).IsMatrix outer := by
  induction fs generalizing f with
  | nil => exact first
  | cons g fs ih =>
      rw [List.forall_mem_cons] at others
      exact ih (isMatrix_distribute first others.1) others.2

/-- Distribution leaves one operator outside and its dual inside. -/
theorem isMatrix_distributed (formed : f.distributed outer = .ok g) : g.IsMatrix outer := by
  refine MatrixLemmas.distributed_induction (motive := fun _ g => g.IsMatrix outer)
    ?literal ?joined ?spread formed
  case literal =>
    intro l literal
    rw [IsMatrix, spine_literal literal, List.forall_mem_singleton, spine_literal literal,
      List.forall_mem_singleton]
    exact literal
  case joined =>
    intro a b rest a' b' rest' members
    rw [IsMatrix, spine_junction, List.forall_mem_flatMap]
    exact MemberLemmas.forall_mem_of_forall₂ members fun _ _ _ shaped => shaped
  case spread =>
    intro a b rest a' b' rest' members
    have shaped : ∀ g ∈ a' :: b' :: rest', g.IsMatrix outer :=
      MemberLemmas.forall_mem_of_forall₂ members fun _ _ _ shaped => shaped
    rw [List.forall_mem_cons] at shaped
    exact isMatrix_foldl_distribute shaped.1 shaped.2

/-! ## Flattening -/

theorem memberList_junction {a b : Formula} {rest : List Formula} :
    (Formula.junction op a b rest).memberList op = a :: b :: rest := by
  rw [memberList, members, if_pos rfl]

theorem memberList_of_ne (part : ∀ a b rest, f ≠ .junction op a b rest) :
    f.memberList op = [f] := by
  rw [memberList, SpineLemmas.members_of_ne part]

/-- The members of a flattened junction are those of its flattened members. -/
theorem exists_flatten_junction (op : Junctor) (a b : Formula) (rest : List Formula) :
    ∃ a' b' rest', (Formula.junction op a b rest).flatten = .junction op a' b' rest' ∧
      a' :: b' :: rest' = (a :: b :: rest).flatMap fun f => f.flatten.memberList op := by
  have others : (a.flatten.members op).2 ++
      (b.flatten :: rest.map flatten).flatMap (memberList op) ≠ [] := by
    simp [memberList]
  obtain ⟨b', rest', same⟩ := List.exists_cons_of_ne_nil others
  refine ⟨(a.flatten.members op).1, b', rest', ?_, ?_⟩
  · rw [flatten]
    exact (congrArg (joinAll op _) same).trans rfl
  · rw [← same, ← List.map_cons, List.flatMap_map]
    rfl

theorem flatten_ne (part : ∀ a b rest, f ≠ .junction op a b rest) :
    ∀ a b rest, f.flatten ≠ .junction op a b rest := by
  cases f with
  | junction op' a b rest =>
      obtain ⟨a', b', rest', same, _⟩ := exists_flatten_junction op' a b rest
      rw [same]
      rintro _ _ _ ⟨⟩
      exact part a b rest rfl
  | _ => simp [flatten]

/-- The members of a flattened formula are the flattened parts of the formula. -/
theorem memberList_flatten (op : Junctor) (f : Formula) :
    f.flatten.memberList op = (f.spine op).map flatten := by
  induction f using SpineLemmas.spine_induction op with
  | part f part =>
      rw [SpineLemmas.spine_of_ne part, List.map_singleton, memberList_of_ne (flatten_ne part)]
  | junction a b rest ih =>
      obtain ⟨a', b', rest', same, members⟩ := exists_flatten_junction op a b rest
      rw [same, memberList_junction, members, spine_junction, List.map_flatMap]
      exact List.flatMap_congr ih

/-- The parts of a flattened formula are the flattened parts of the formula. -/
theorem spine_flatten (op : Junctor) (f : Formula) :
    f.flatten.spine op = (f.spine op).map flatten := by
  induction f using SpineLemmas.spine_induction op with
  | part f part =>
      rw [SpineLemmas.spine_of_ne part, List.map_singleton,
        SpineLemmas.spine_of_ne (flatten_ne part)]
  | junction a b rest ih =>
      rw [SpineLemmas.flatMap_flatten fun _ _ _ => spine_junction, spine_junction, List.map_flatMap]
      exact List.flatMap_congr ih

theorem isLiteral_flatten (literal : l.IsLiteral) : l.flatten = l := by
  obtain ⟨polarity, p, rfl⟩ := PolarityLemmas.isLiteral_iff_exists.mp literal
  cases polarity <;> simp [Polarity.literal, flatten]

theorem isPart_of_memberList (literals : ∀ l ∈ f.memberList inner, l.IsLiteral) :
    f.IsPart inner := by
  cases f with
  | junction op a b rest =>
      by_cases same : op = inner
      · rw [same, memberList_junction] at literals
        exact ⟨same, literals⟩
      · rw [memberList_of_ne (SpineLemmas.not_junction_of_ne same)] at literals
        exact absurd (literals _ List.mem_cons_self) id
  | _ => exact literals _ List.mem_cons_self

theorem isFlatMatrix_of_memberList (parts : ∀ part ∈ f.memberList outer, part.IsPart outer.dual) :
    f.IsFlatMatrix outer := by
  cases f with
  | junction op a b rest =>
      rw [IsFlatMatrix]
      split
      case isTrue same =>
        rw [same, memberList_junction] at parts
        exact parts
      case isFalse differ =>
        rw [memberList_of_ne (SpineLemmas.not_junction_of_ne differ)] at parts
        exact parts _ List.mem_cons_self
  | _ => exact parts _ List.mem_cons_self

/-- Flattening leaves two levels above the literals. -/
theorem isFlatMatrix_flatten (shaped : f.IsMatrix outer) : f.flatten.IsFlatMatrix outer := by
  refine isFlatMatrix_of_memberList ?_
  rw [memberList_flatten, List.forall_mem_map]
  intro part member
  refine isPart_of_memberList ?_
  rw [memberList_flatten, List.forall_mem_map]
  intro l inside
  have literal := shaped part member l inside
  exact (isLiteral_flatten literal).symm ▸ literal

theorem isMatrix_flatten (shaped : f.IsMatrix outer) : f.flatten.IsMatrix outer := by
  rw [IsMatrix, spine_flatten, List.forall_mem_map]
  intro part member
  rw [spine_flatten, List.forall_mem_map]
  intro l inside
  have literal := shaped part member l inside
  exact (isLiteral_flatten literal).symm ▸ literal

theorem isMatrix_matrixForm {flat : Bool} (formed : f.matrixForm outer flat = .ok g) :
    g.IsMatrix outer := by
  obtain ⟨h, nested, rfl⟩ := MatrixLemmas.distributed_of_matrixForm formed
  cases flat with
  | false => exact isMatrix_distributed nested
  | true => exact isMatrix_flatten (isMatrix_distributed nested)

theorem isFlatMatrix_matrixForm (formed : f.matrixForm outer true = .ok g) :
    g.IsFlatMatrix outer := by
  obtain ⟨h, nested, rfl⟩ := MatrixLemmas.distributed_of_matrixForm formed
  exact isFlatMatrix_flatten (isMatrix_distributed nested)

/-! ## Substitution -/

/-- What is no junction with an operator does not become one. -/
theorem subst_ne (part : ∀ a b rest, f ≠ .junction op a b rest) (σ : Substitution) :
    ∀ a b rest, f.subst σ ≠ .junction op a b rest := by
  cases f with
  | junction op' a b rest =>
      rw [subst_junction]
      rintro _ _ _ ⟨⟩
      exact part a b rest rfl
  | _ => simp [subst]

/-- Substitution replaces the parts on a spine. -/
theorem spine_subst (σ : Substitution) : (f.subst σ).spine op = (f.spine op).map (subst σ) := by
  induction f using SpineLemmas.spine_induction op with
  | part f part =>
      rw [SpineLemmas.spine_of_ne part, List.map_singleton, SpineLemmas.spine_of_ne (subst_ne part σ)]
  | junction a b rest ih =>
      rw [subst_junction, spine_junction, spine_junction, List.map_flatMap, ← List.map_cons,
        ← List.map_cons, List.flatMap_map]
      exact List.flatMap_congr ih

theorem isLiteral_subst (σ : Substitution) (literal : l.IsLiteral) : (l.subst σ).IsLiteral := by
  obtain ⟨polarity, p, rfl⟩ := PolarityLemmas.isLiteral_iff_exists.mp literal
  cases polarity <;> simp [Polarity.literal, subst, IsLiteral]

theorem isMatrix_subst (σ : Substitution) (shaped : f.IsMatrix outer) :
    (f.subst σ).IsMatrix outer := by
  rw [IsMatrix, spine_subst, List.forall_mem_map]
  intro part member
  rw [spine_subst, List.forall_mem_map]
  exact fun l inside => isLiteral_subst σ (shaped part member l inside)

/-! ## Clauses -/

theorem exists_ofPart (literal : f.IsLiteral) : ∃ l, Literal.ofPart f = .ok l := by
  obtain ⟨polarity, p, rfl⟩ := PolarityLemmas.isLiteral_iff_exists.mp literal
  cases polarity <;> exact ⟨_, rfl⟩

theorem toFormula_of_ofPart {k : Literal} (read : Literal.ofPart f = .ok k) : k.toFormula = f := by
  unfold Literal.ofPart at read
  cases f with
  | atom p =>
      cases Except.ok.inj read
      rfl
  | neg f =>
      cases f with
      | atom p =>
          cases Except.ok.inj read
          rfl
      | _ => cases read
  | _ => cases read

theorem ne_nil_of_mapM {ε α β : Type} {step : α → Except ε β} {xs : List α} {ys : List β}
    (read : xs.mapM step = .ok ys) (nonempty : xs ≠ []) : ys ≠ [] := by
  rintro rfl
  exact nonempty (List.forall₂_nil_right_iff.mp (MemberLemmas.mapM_eq_ok.mp read))

theorem exists_clause_ofFormula (literals : ∀ l ∈ f.spine .disj, l.IsLiteral) :
    ∃ c, Clause.ofFormula f = .ok c ∧ c ≠ [] := by
  obtain ⟨c, parts⟩ :=
    MemberLemmas.exists_forall₂ fun l member => exists_ofPart (literals l member)
  have read := MemberLemmas.mapM_eq_ok.mpr parts
  exact ⟨c, read, ne_nil_of_mapM read (SpineLemmas.spine_ne_nil .disj f)⟩

/-- The clauses of a matrix can be read off it; there are some, and none of them is empty. -/
theorem exists_ofFormula (shaped : f.IsMatrix .conj) :
    ∃ cs, ClauseSet.ofFormula f = .ok cs ∧ cs ≠ [] ∧ ∀ c ∈ cs, c ≠ [] := by
  obtain ⟨cs, parts⟩ :=
    MemberLemmas.exists_forall₂ fun part member => exists_clause_ofFormula (shaped part member)
  have read : ClauseSet.ofFormula f = .ok cs :=
    MemberLemmas.mapM_eq_ok.mpr (parts.imp fun _ _ => And.left)
  exact ⟨cs, read, ne_nil_of_mapM read (SpineLemmas.spine_ne_nil .conj f),
    MemberLemmas.forall_mem_of_forall₂ parts fun _ _ _ => And.right⟩

end ShapeLemmas

end Clausal
