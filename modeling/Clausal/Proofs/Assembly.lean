import Clausal.Proofs.Expansion

/-!
# Normal forms put together from their parts

A flattened conjunctive or disjunctive normal form can be put together again from its parts and their
literals, which distribution and the reading of clauses keep in their order. It follows that normal forms
are the formulas which stay as they are when they are brought into normal form, and that conjunctions of
disjunctions are, up to brackets, another way of writing clause sets.

* `Formula.joinParts?` and `ClauseSet.toFormula?` put a formula together.
* `AssemblyLemmas.joinParts?_memberList`, `AssemblyLemmas.joinParts?_parts`: what comes out.
* `AssemblyLemmas.matrixForm_of_isMatrix`: of a formula that has two levels already, the normal form is
  the flattened formula.
* `matrixForm_eq_self_iff` and `clauseSet_restores_formula` are the main results.
-/

namespace Clausal

/-! ## Definitions -/

namespace Formula

/-- Joins the formulas of a list, of which there must be one; a single one stays as it is. -/
def joinList? (op : Junctor) : List Formula → Option Formula
  | [] => none
  | f :: rest => some (joinAll op f rest)

/-- Joins each list by the inner operator, the dual of `outer`, and what comes out by `outer`. -/
def joinParts? (outer : Junctor) (parts : List (List Formula)) : Option Formula := do
  let fs ← parts.mapM (joinList? outer.dual)
  joinList? outer fs

end Formula

/-- The conjunction of the clauses, of which there must be one; a single one stands for itself. -/
def ClauseSet.toFormula? (cs : ClauseSet) : Option Formula := do
  let fs ← cs.mapM Clause.toFormula?
  Formula.joinList? .conj fs

namespace AssemblyLemmas

open Formula

variable {op outer inner : Junctor} {f g l p : Formula}

/-! ## Putting together -/

/-- A step that gives something related for each element gives such a list for all of them. -/
theorem exists_mapM_eq_some {α β γ : Type} {step : α → Option β} {R : β → γ → Prop} {xs : List α}
    {zs : List γ} (each : List.Forall₂ (fun x z => ∃ y, step x = some y ∧ R y z) xs zs) :
    ∃ ys, xs.mapM step = some ys ∧ List.Forall₂ R ys zs := by
  induction each with
  | nil => exact ⟨[], rfl, .nil⟩
  | cons head _ ih =>
      obtain ⟨y, first, related⟩ := head
      obtain ⟨ys, others, tail⟩ := ih
      exact ⟨y :: ys, by rw [List.mapM_cons, first, others]; rfl, .cons related tail⟩

/-- A formula is its members joined. -/
theorem joinList?_memberList (op : Junctor) (f : Formula) :
    joinList? op (f.memberList op) = some f := by
  induction f using SpineLemmas.spine_induction op with
  | part f part =>
      rw [ShapeLemmas.memberList_of_ne part]
      rfl
  | junction a b rest _ =>
      rw [ShapeLemmas.memberList_junction]
      rfl

/-- A formula is put together from the members of its members. -/
theorem joinParts?_memberList (outer : Junctor) (f : Formula) :
    joinParts? outer ((f.memberList outer).map (memberList outer.dual)) = some f := by
  have each : List.Forall₂ (fun gs g => ∃ h, joinList? outer.dual gs = some h ∧ h = g)
      ((f.memberList outer).map (memberList outer.dual)) (f.memberList outer) :=
    List.forall₂_map_left_iff.mpr (List.forall₂_same.mpr fun g _ =>
      ⟨g, joinList?_memberList outer.dual g, rfl⟩)
  obtain ⟨gs, joined, same⟩ := exists_mapM_eq_some each
  rw [List.forall₂_eq_eq_eq] at same
  rw [joinParts?, joined, same]
  exact joinList?_memberList outer f

theorem isMatrix_iff_parts :
    f.IsMatrix outer ↔ ∀ part ∈ f.parts outer, ∀ l ∈ part, l.IsLiteral := by
  rw [IsMatrix, parts, List.forall_mem_map]

/-- The parts of a matrix, put together, make up the flattened matrix. -/
theorem joinParts?_parts (shaped : f.IsMatrix outer) :
    joinParts? outer (f.parts outer) = some f.flatten := by
  have same : f.parts outer = (f.flatten.memberList outer).map (memberList outer.dual) := by
    rw [parts, ShapeLemmas.memberList_flatten, List.map_map]
    refine List.map_congr_left fun part member => ?_
    rw [Function.comp_apply, ShapeLemmas.memberList_flatten]
    refine ((List.map_congr_left fun l inside => ?_).trans (List.map_id _)).symm
    exact ShapeLemmas.isLiteral_flatten (shaped part member l inside)
  rw [same, joinParts?_memberList]

/-! ## Matrices are expanded already -/

theorem leaves_of_isMatrix (shaped : f.IsMatrix outer) : ∀ l ∈ f.leaves, l.IsLiteral := by
  rw [← SpineLemmas.flatMap_spine f (concatenates_leaves outer), List.forall_mem_flatMap]
  intro part member
  rw [← SpineLemmas.flatMap_spine part (concatenates_leaves outer.dual), List.forall_mem_flatMap]
  intro l inside
  rw [SpineLemmas.leaves_of_isLiteral (shaped part member l inside), List.forall_mem_singleton]
  exact shaped part member l inside

/-- The product of single parts is a single part. -/
theorem foldl_products_singleton {α : Type} (list : α → List Formula) (first : List Formula)
    (xs : List α) :
    (xs.map fun x => [list x]).foldl products [first] = [first ++ xs.flatMap list] := by
  induction xs generalizing first with
  | nil => rw [List.map_nil, List.foldl_nil, List.flatMap_nil, List.append_nil]
  | cons x xs ih =>
      have one : products [first] [list x] = [first ++ list x] := rfl
      rw [List.map_cons, List.foldl_cons, one, ih, List.flatMap_cons, List.append_assoc]

/-- The expansion of a part is this part. -/
theorem expansion_part (literals : ∀ l ∈ p.spine outer.dual, l.IsLiteral) :
    p.expansion outer = [p.spine outer.dual] := by
  induction p using SpineLemmas.spine_induction outer.dual with
  | part p part =>
      rw [SpineLemmas.spine_of_ne part, List.forall_mem_singleton] at literals
      rw [SpineLemmas.spine_of_ne part, ExpansionLemmas.expansion_literal literals]
  | junction a b rest ih =>
      rw [spine_junction, List.forall_mem_flatMap] at literals
      have each : ∀ f ∈ a :: b :: rest, f.expansion outer = [f.spine outer.dual] :=
        fun f member => ih f member (literals f member)
      rw [List.forall_mem_cons] at each
      rw [ExpansionLemmas.expansion_inner, each.1, List.map_congr_left each.2,
        foldl_products_singleton, ← List.flatMap_cons, ← spine_junction]

/-- The expansion of a matrix has its parts. -/
theorem expansion_of_isMatrix (shaped : f.IsMatrix outer) : f.expansion outer = f.parts outer := by
  rw [← SpineLemmas.flatMap_spine f fun _ _ _ => ExpansionLemmas.expansion_outer, parts,
    List.map_eq_flatMap]
  exact List.flatMap_congr fun part member => expansion_part (shaped part member)

/-- The normal form of a matrix is the flattened matrix: both are put together from the same parts. -/
theorem matrixForm_of_isMatrix (shaped : f.IsMatrix outer) :
    f.matrixForm outer true = .ok f.flatten := by
  obtain ⟨h, nested⟩ := MatrixLemmas.exists_distributed outer (leaves_of_isMatrix shaped)
  have same : h.flatten = f.flatten := by
    apply Option.some.inj
    rw [← joinParts?_parts (ShapeLemmas.isMatrix_distributed nested), ← joinParts?_parts shaped,
      ExpansionLemmas.parts_distributed nested, expansion_of_isMatrix shaped]
  rw [matrixForm, nested, ← same]
  rfl

/-! ## Flat matrices -/

theorem spine_eq_memberList (plain : ∀ g ∈ f.memberList op, ∀ a b rest, g ≠ .junction op a b rest) :
    f.spine op = f.memberList op := by
  induction f using SpineLemmas.spine_induction op with
  | part f part => rw [SpineLemmas.spine_of_ne part, ShapeLemmas.memberList_of_ne part]
  | junction a b rest _ =>
      rw [ShapeLemmas.memberList_junction] at plain
      rw [spine_junction, ShapeLemmas.memberList_junction]
      refine (List.flatMap_congr fun g member => ?_).trans (List.flatMap_singleton' _)
      exact SpineLemmas.spine_of_ne (plain g member)

theorem isLiteral_of_mem_memberList (part : p.IsPart inner) (member : l ∈ p.memberList inner) :
    l.IsLiteral := by
  cases p with
  | junction op a b rest =>
      obtain ⟨rfl, literals⟩ := part
      rw [ShapeLemmas.memberList_junction] at member
      exact literals l member
  | _ => exact List.mem_singleton.mp member ▸ part

theorem isPart_of_mem_memberList (flat : f.IsFlatMatrix outer) (member : p ∈ f.memberList outer) :
    p.IsPart outer.dual := by
  cases f with
  | junction op a b rest =>
      rw [IsFlatMatrix] at flat
      split at flat
      case isTrue same =>
        rw [same, ShapeLemmas.memberList_junction] at member
        exact flat p member
      case isFalse differ =>
        rw [ShapeLemmas.memberList_of_ne (SpineLemmas.not_junction_of_ne differ),
          List.mem_singleton] at member
        exact member ▸ flat
  | _ => exact List.mem_singleton.mp member ▸ flat

theorem not_junction_of_isPart (part : p.IsPart inner) :
    ∀ a b rest, p ≠ .junction inner.dual a b rest := by
  rintro a b rest rfl
  exact ShapeLemmas.dual_ne inner part.1

/-- The parts of a flat matrix are its members, with their members. -/
theorem parts_of_isFlatMatrix (flat : f.IsFlatMatrix outer) :
    f.parts outer = (f.memberList outer).map (memberList outer.dual) := by
  have plain : ∀ p ∈ f.memberList outer, ∀ a b rest, p ≠ .junction outer a b rest := by
    intro p member
    have apart := not_junction_of_isPart (isPart_of_mem_memberList flat member)
    rwa [Junctor.dual_dual] at apart
  rw [parts, spine_eq_memberList plain]
  refine List.map_congr_left fun p member => spine_eq_memberList fun l inside => ?_
  exact SpineLemmas.not_junction_of_isLiteral
    (isLiteral_of_mem_memberList (isPart_of_mem_memberList flat member) inside)

theorem isMatrix_of_isFlatMatrix (flat : f.IsFlatMatrix outer) : f.IsMatrix outer := by
  rw [isMatrix_iff_parts, parts_of_isFlatMatrix flat, List.forall_mem_map]
  exact fun p member l inside =>
    isLiteral_of_mem_memberList (isPart_of_mem_memberList flat member) inside

theorem flatten_of_isFlatMatrix (flat : f.IsFlatMatrix outer) : f.flatten = f := by
  apply Option.some.inj
  rw [← joinParts?_parts (isMatrix_of_isFlatMatrix flat), parts_of_isFlatMatrix flat,
    joinParts?_memberList]

/-- A flat matrix is its own normal form. -/
theorem matrixForm_of_isFlatMatrix (flat : f.IsFlatMatrix outer) : f.matrixForm outer true = .ok f := by
  rw [matrixForm_of_isMatrix (isMatrix_of_isFlatMatrix flat), flatten_of_isFlatMatrix flat]

/-! ## Nested normal forms -/

/-- Distribution leaves a formula as it is if it does so with each of its parts. -/
theorem distributed_of_parts (each : ∀ p ∈ f.spine outer, p.distributed outer = .ok p) :
    f.distributed outer = .ok f := by
  induction f using SpineLemmas.spine_induction outer with
  | part f part =>
      rw [SpineLemmas.spine_of_ne part, List.forall_mem_singleton] at each
      exact each
  | junction a b rest ih =>
      rw [spine_junction, List.forall_mem_flatMap] at each
      have members : ∀ f ∈ a :: b :: rest, f.distributed outer = .ok f := fun f member =>
        ih f member (each f member)
      rw [MatrixLemmas.distributed_junction (List.forall₂_same.mpr members), if_pos rfl]

/-- Distribution leaves the parts of a product as they are if it does so with those of its factors. -/
theorem distributed_part_distribute {r : Formula}
    (left : ∀ p ∈ l.spine outer, p.distributed outer = .ok p)
    (right : ∀ p ∈ r.spine outer, p.distributed outer = .ok p) :
    ∀ p ∈ (distribute outer l r).spine outer, p.distributed outer = .ok p := by
  intro p member
  rw [ShapeLemmas.spine_distribute, List.mem_flatMap] at member
  obtain ⟨y, inRight, member⟩ := member
  obtain ⟨x, inLeft, member⟩ := List.mem_flatMap.mp member
  rw [List.mem_singleton] at member
  subst member
  rw [MatrixLemmas.distributed_junction (.cons (left x inLeft) (.cons (right y inRight) .nil)),
    if_neg (ShapeLemmas.dual_ne outer), List.foldl_cons, List.foldl_nil, distribute,
    SpineLemmas.mapSpine_of_ne (SpineLemmas.ne_of_mem_spine inRight),
    SpineLemmas.mapSpine_of_ne (SpineLemmas.ne_of_mem_spine inLeft)]

/-- Distribution leaves the parts of what it made as they are. -/
theorem distributed_part (formed : f.distributed outer = .ok g) :
    ∀ p ∈ g.spine outer, p.distributed outer = .ok p := by
  refine MatrixLemmas.distributed_induction
    (motive := fun _ g => ∀ p ∈ g.spine outer, p.distributed outer = .ok p)
    ?literal ?joined ?spread formed
  case literal =>
    intro l literal
    rw [ShapeLemmas.spine_literal literal, List.forall_mem_singleton]
    exact MatrixLemmas.distributed_of_isLiteral literal
  case joined =>
    intro a b rest a' b' rest' members
    rw [spine_junction, List.forall_mem_flatMap]
    exact MemberLemmas.forall_mem_of_forall₂ members fun _ _ _ each => each
  case spread =>
    intro a b rest a' b' rest' members
    have each : ∀ g ∈ a' :: b' :: rest', ∀ p ∈ g.spine outer, p.distributed outer = .ok p :=
      MemberLemmas.forall_mem_of_forall₂ members fun _ _ _ each => each
    rw [List.forall_mem_cons] at each
    exact List.foldlRecOn (motive := fun g => ∀ p ∈ g.spine outer, p.distributed outer = .ok p)
      (b' :: rest') (distribute outer) each.1 fun _ left r member =>
        distributed_part_distribute left (each.2 r member)

/-! ## Clauses -/

/-- The formula of a clause set is put together from the literals of its clauses. -/
theorem toFormula?_eq_joinParts? (cs : ClauseSet) :
    cs.toFormula? = joinParts? .conj (cs.map (·.map Literal.toFormula)) := by
  have clause : ∀ c : Clause, c.toFormula? = joinList? .disj (c.map Literal.toFormula) := by
    intro c
    cases c <;> rfl
  rw [ClauseSet.toFormula?, joinParts?, List.mapM_map, funext clause]
  rfl

theorem isLiteral_toFormula (k : Literal) : k.toFormula.IsLiteral := by
  unfold Literal.toFormula
  split <;> simp [IsLiteral]

theorem toFormula_injective : Function.Injective Literal.toFormula := by
  rintro ⟨negated, p⟩ ⟨negated', p'⟩ same
  cases negated <;> cases negated' <;> simp_all [Literal.toFormula]

/-- Only matrices have clauses. -/
theorem isMatrix_of_ofFormula {cs : ClauseSet} (read : ClauseSet.ofFormula f = .ok cs) :
    f.IsMatrix .conj := by
  rw [isMatrix_iff_parts, ← ExpansionLemmas.map_toFormula_of_ofFormula read, List.forall_mem_map]
  exact fun c _ => List.forall_mem_map.mpr fun k _ => isLiteral_toFormula k

/-- What is joined of formulas that are no junctions with the operator has them on its spine. -/
theorem exists_joinList? (op : Junctor) {fs : List Formula} (nonempty : fs ≠ [])
    (each : ∀ g ∈ fs, g.spine op = [g]) : ∃ f, joinList? op fs = some f ∧ f.spine op = fs := by
  obtain ⟨g, rest, rfl⟩ := List.exists_cons_of_ne_nil nonempty
  refine ⟨joinAll op g rest, rfl, ?_⟩
  rw [SpineLemmas.flatMap_joinAll fun _ _ _ => spine_junction]
  exact (List.flatMap_congr each).trans (List.flatMap_singleton' _)

/-- Literals joined by one operator are no junction with the other. -/
theorem spine_dual_of_joinList? {ls : List Formula} (literals : ∀ l ∈ ls, l.IsLiteral)
    (joined : joinList? inner ls = some g) : g.spine inner.dual = [g] := by
  match ls with
  | [] => cases joined
  | [l] =>
      cases joined
      exact ShapeLemmas.spine_literal (literals l List.mem_cons_self) _
  | a :: b :: rest =>
      cases joined
      exact SpineLemmas.spine_of_ne
        (SpineLemmas.not_junction_of_ne (ShapeLemmas.dual_ne inner).symm)

/-- Nonempty lists of literals are the parts of what is put together from them. -/
theorem exists_joinParts? (outer : Junctor) {parts : List (List Formula)} (nonempty : parts ≠ [])
    (each : ∀ part ∈ parts, part ≠ []) (literals : ∀ part ∈ parts, ∀ l ∈ part, l.IsLiteral) :
    ∃ f, joinParts? outer parts = some f ∧ f.parts outer = parts := by
  have joined : List.Forall₂ (fun part part' => ∃ g, joinList? outer.dual part = some g ∧
      g.spine outer.dual = part' ∧ g.spine outer = [g]) parts parts := by
    refine List.forall₂_same.mpr fun part member => ?_
    obtain ⟨g, joined, spine⟩ := exists_joinList? outer.dual (each part member) fun l inside =>
      ShapeLemmas.spine_literal (literals part member l inside) _
    have single := spine_dual_of_joinList? (literals part member) joined
    rw [Junctor.dual_dual] at single
    exact ⟨g, joined, spine, single⟩
  obtain ⟨gs, made, related⟩ := exists_mapM_eq_some joined
  have nonempty : gs ≠ [] := by
    rintro rfl
    exact nonempty (List.forall₂_nil_left_iff.mp related)
  obtain ⟨f, outermost, spine⟩ := exists_joinList? outer nonempty
    (MemberLemmas.forall_mem_of_forall₂ related.flip fun _ _ _ both => both.2)
  refine ⟨f, by rw [joinParts?, made]; exact outermost, ?_⟩
  rw [Formula.parts, spine, ← List.map_id parts]
  exact MemberLemmas.map_eq_map_of_forall₂ (related.imp fun _ _ both => both.1)

end AssemblyLemmas

/-! ## Main results -/

open AssemblyLemmas in
/-- The formulas that stay as they are when they are brought into conjunctive normal form and flattened are
the literals, the disjunctions of literals and the conjunctions of such formulas. All results are of this
kind, so that nothing is changed a second time. Without flattening, nothing is changed a second time
either. The same holds with conjunction and disjunction exchanged. -/
theorem matrixForm_eq_self_iff (outer : Junctor) :
    (∀ g : Formula, g.matrixForm outer true = .ok g ↔ g.IsFlatMatrix outer) ∧
    (∀ f g : Formula, f.matrixForm outer true = .ok g →
      g.IsFlatMatrix outer ∧ g.matrixForm outer true = .ok g) ∧
    ∀ f g : Formula, f.matrixForm outer false = .ok g → g.matrixForm outer false = .ok g := by
  refine ⟨fun g => ⟨ShapeLemmas.isFlatMatrix_matrixForm, matrixForm_of_isFlatMatrix⟩,
    fun f g formed => ?_, fun f g formed => ?_⟩
  · have flat := ShapeLemmas.isFlatMatrix_matrixForm formed
    exact ⟨flat, matrixForm_of_isFlatMatrix flat⟩
  · obtain ⟨h, nested, rfl⟩ := MatrixLemmas.distributed_of_matrixForm formed
    exact congrArg (· >>= _) (distributed_of_parts (distributed_part nested))

/-- The flattened and the nested normal form of a disjunction with three members stay as they are, though
the nested one is not flat. -/
theorem matrixForm_eq_self_iff_nested :
    let atom (name : String) : Formula := .atom ⟨name, []⟩
    let f : Formula := .junction .disj (atom "P") (.conj (atom "Q") (atom "R")) [.neg (atom "P")]
    let g : Formula := .conj (.junction .disj (atom "P") (atom "Q") [.neg (atom "P")])
      (.junction .disj (atom "P") (atom "R") [.neg (atom "P")])
    let h : Formula := .conj (.disj (.disj (atom "P") (atom "Q")) (.neg (atom "P")))
      (.disj (.disj (atom "P") (atom "R")) (.neg (atom "P")))
    f.matrixForm .conj true = .ok g ∧ g.IsFlatMatrix .conj ∧ g.matrixForm .conj true = .ok g ∧
      f.matrixForm .conj false = .ok h ∧ h.matrixForm .conj false = .ok h ∧
      ¬ h.IsFlatMatrix .conj := by
  intro atom f g h
  obtain ⟨fixed, flat, nested⟩ := matrixForm_eq_self_iff .conj
  have multiplied : f.distributed .conj = .ok h := by cbv
  have flattened : h.flatten = g := by
    simp [g, h, atom, Formula.flatten, Formula.members, Formula.joinAll, Formula.conj, Formula.disj]
  have formed : f.matrixForm .conj true = .ok g := by
    rw [Formula.matrixForm, multiplied, ← flattened]
    rfl
  have distributed : f.matrixForm .conj false = .ok h := by
    rw [Formula.matrixForm, multiplied]
    rfl
  obtain ⟨shaped, same⟩ := flat f g formed
  refine ⟨formed, shaped, same, distributed, nested f h distributed, fun shaped => ?_⟩
  have changed : h.matrixForm .conj true = .ok g :=
    flattened ▸ AssemblyLemmas.matrixForm_of_isMatrix (ShapeLemmas.isMatrix_matrixForm distributed)
  have equal : g = h := Except.ok.inj (changed.symm.trans ((fixed h).mpr shaped))
  simp [g, h] at equal

open AssemblyLemmas in
/-- The clauses of a formula, written as a conjunction of disjunctions, are the flattened formula; and the
clauses of a clause set that is written so are the clause set, if it has a clause and each of its clauses
has a literal. -/
theorem clauseSet_restores_formula :
    (∀ (m : Formula) (cs : ClauseSet), ClauseSet.ofFormula m = .ok cs →
      cs.toFormula? = some m.flatten) ∧
    ∀ cs : ClauseSet, cs ≠ [] → (∀ c ∈ cs, c ≠ []) →
      ∃ f, cs.toFormula? = some f ∧ ClauseSet.ofFormula f = .ok cs := by
  refine ⟨fun m cs read => ?_, fun cs nonempty each => ?_⟩
  · rw [toFormula?_eq_joinParts?, ExpansionLemmas.map_toFormula_of_ofFormula read]
    exact joinParts?_parts (isMatrix_of_ofFormula read)
  · have literals : ∀ part ∈ cs.map (·.map Literal.toFormula), ∀ l ∈ part, l.IsLiteral :=
      List.forall_mem_map.mpr fun c _ => List.forall_mem_map.mpr fun k _ => isLiteral_toFormula k
    obtain ⟨f, joined, parts⟩ := exists_joinParts? .conj (List.map_eq_nil_iff.not.mpr nonempty)
      (List.forall_mem_map.mpr fun c member => List.map_eq_nil_iff.not.mpr (each c member)) literals
    refine ⟨f, (toFormula?_eq_joinParts? cs).trans joined, ?_⟩
    obtain ⟨ds, read, -⟩ :=
      ShapeLemmas.exists_ofFormula (isMatrix_iff_parts.mpr (parts.symm ▸ literals))
    have same := (ExpansionLemmas.map_toFormula_of_ofFormula read).trans parts
    have injective := List.map_injective_iff.mpr (List.map_injective_iff.mpr toFormula_injective)
    rw [read, injective same]

/-- Brackets inside both levels and a clause of one literal; and a clause set of one clause, with the same
literal twice. -/
theorem clauseSet_restores_formula_nested :
    let atom (name : String) : Formula := .atom ⟨name, []⟩
    let m : Formula := .conj (.conj (atom "P") (.disj (atom "Q") (atom "P")))
      (.disj (.neg (atom "R")) (.disj (atom "P") (atom "S")))
    let cs : ClauseSet := [[⟨false, ⟨"P", []⟩⟩], [⟨false, ⟨"Q", []⟩⟩, ⟨false, ⟨"P", []⟩⟩],
      [⟨true, ⟨"R", []⟩⟩, ⟨false, ⟨"P", []⟩⟩, ⟨false, ⟨"S", []⟩⟩]]
    let twice : Clause := [⟨true, ⟨"P", []⟩⟩, ⟨true, ⟨"P", []⟩⟩]
    (ClauseSet.ofFormula m = .ok cs ∧ cs.toFormula? =
      some (.junction .conj (atom "P") (.disj (atom "Q") (atom "P"))
        [.junction .disj (.neg (atom "R")) (atom "P") [atom "S"]])) ∧
    ∃ f, ClauseSet.toFormula? [twice] = some f ∧ ClauseSet.ofFormula f = .ok [twice] := by
  intro atom m cs twice
  obtain ⟨flattened, restored⟩ := clauseSet_restores_formula
  have read : ClauseSet.ofFormula m = .ok cs := by cbv
  refine ⟨⟨read, (flattened m cs read).trans ?_⟩, restored [twice] (by simp) (by simp [twice])⟩
  simp [m, atom, Formula.flatten, Formula.members, Formula.joinAll, Formula.conj, Formula.disj]

end Clausal
