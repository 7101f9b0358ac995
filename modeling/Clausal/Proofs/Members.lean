import Mathlib.Data.List.Forall2
import Clausal.Formula.Semantics
import Clausal.Formula.Shape

/-!
# Members of junctions

A junction keeps its first two members apart from the rest. Here its members are one list
`a :: b :: rest`, so that a statement about a junction is a statement about this list.

* `MemberLemmas.membersM_eq_ok`: a step that treats the members in turn succeeds if it does on each.
* `Formula.rec_memberList`: induction with one hypothesis for all members.
* `JoinLemmas`: what a junction says of a list of statements, taken apart and put together.
-/

namespace Clausal

/-! ## Steps that may be refused -/

namespace MemberLemmas

variable {ε : Type u} {α : Type v} {β γ : Type w}

/-- A computation in two parts succeeds if both parts do. -/
theorem bind_eq_ok {x : Except ε β} {next : β → Except ε γ} {c : γ} :
    x >>= next = .ok c ↔ ∃ b, x = .ok b ∧ next b = .ok c := by
  constructor
  · intro succeeds
    cases x with
    | error e => cases succeeds
    | ok b => exact ⟨b, rfl, succeeds⟩
  · rintro ⟨b, rfl, succeeds⟩
    exact succeeds

/-- A step succeeds on a list if it does on each element, and the results stand in the same order. -/
theorem mapM_eq_ok {step : α → Except ε β} {xs : List α} {ys : List β} :
    xs.mapM step = .ok ys ↔ List.Forall₂ (fun x y => step x = .ok y) xs ys := by
  induction xs generalizing ys with
  | nil =>
      rw [List.mapM_nil, List.forall₂_nil_left_iff]
      exact ⟨fun same => (Except.ok.inj same).symm, fun same => same ▸ rfl⟩
  | cons x xs ih =>
      rw [List.mapM_cons, List.forall₂_cons_left_iff, bind_eq_ok]
      refine exists_congr fun y => ?_
      rw [bind_eq_ok]
      constructor
      · rintro ⟨head, ys', tail, same⟩
        exact ⟨ys', head, ih.mp tail, (Except.ok.inj same).symm⟩
      · rintro ⟨ys', head, tail, rfl⟩
        exact ⟨head, ys', ih.mpr tail, rfl⟩

/-- A step that treats the members of a junction in turn and then builds something of the results. -/
theorem membersM_eq_ok {step : α → Except ε β} {build : β → β → List β → γ} {a b : α}
    {rest : List α} {c : γ} :
    (do
      let a ← step a
      let b ← step b
      let rest ← rest.mapM step
      return build a b rest) = .ok c ↔
      ∃ a' b' rest', c = build a' b' rest' ∧
        List.Forall₂ (fun x y => step x = .ok y) (a :: b :: rest) (a' :: b' :: rest') := by
  simp only [bind_eq_ok, mapM_eq_ok, List.forall₂_cons]
  constructor
  · rintro ⟨a', first, b', second, rest', others, same⟩
    exact ⟨a', b', rest', (Except.ok.inj same).symm, first, second, others⟩
  · rintro ⟨a', b', rest', rfl, first, second, others⟩
    exact ⟨a', first, b', second, rest', others, rfl⟩

/-- Steps that agree on the elements of a list agree on the list. -/
theorem mapM_congr {step step' : α → Except ε β} {xs : List α}
    (same : ∀ x ∈ xs, step x = step' x) : xs.mapM step = xs.mapM step' := by
  induction xs with
  | nil => rfl
  | cons x xs ih =>
      rw [List.forall_mem_cons] at same
      rw [List.mapM_cons, List.mapM_cons, same.1, ih same.2]

/-- What is related member by member for the changed members of two junctions. -/
theorem forall₂_map_members {α' : Type v'} {δ : Type w'} {R : δ → γ → Prop} {left : α → δ}
    {right : α' → γ} {a b : α} {rest : List α} {a' b' : α'} {rest' : List α'}
    (members : List.Forall₂ (fun x y => R (left x) (right y)) (a :: b :: rest)
      (a' :: b' :: rest')) :
    List.Forall₂ R (left a :: left b :: rest.map left)
      (right a' :: right b' :: rest'.map right) := by
  rw [← List.map_cons, ← List.map_cons, ← List.map_cons, ← List.map_cons,
    List.forall₂_map_left_iff, List.forall₂_map_right_iff]
  exact members

/-- A step that succeeds on each member of a changed junction succeeds on all of them in turn. -/
theorem membersM_map_eq_ok {δ : Type v} {step : δ → Except ε β} {change : α → δ} {result : α → β}
    {build : β → β → List β → γ} {a b : α} {rest : List α}
    (each : ∀ x ∈ a :: b :: rest, step (change x) = .ok (result x)) :
    (do
      let a ← step (change a)
      let b ← step (change b)
      let rest ← (rest.map change).mapM step
      return build a b rest) = .ok (build (result a) (result b) (rest.map result)) := by
  exact membersM_eq_ok.mpr ⟨_, _, _, rfl, forall₂_map_members (List.forall₂_same.mpr each)⟩

theorem exists_forall₂ {R : α → β → Prop} {xs : List α} (each : ∀ x ∈ xs, ∃ y, R x y) :
    ∃ ys, List.Forall₂ R xs ys := by
  induction xs with
  | nil => exact ⟨[], .nil⟩
  | cons x xs ih =>
      obtain ⟨y, head⟩ := each x List.mem_cons_self
      obtain ⟨ys, tail⟩ := ih fun z member => each z (List.mem_cons_of_mem _ member)
      exact ⟨y :: ys, .cons head tail⟩

/-- If a step succeeds on each member of a junction, it does on all of them in turn. -/
theorem exists_membersM_eq_ok {step : α → Except ε β} {build : β → β → List β → γ} {a b : α}
    {rest : List α} (each : ∀ x ∈ a :: b :: rest, ∃ y, step x = .ok y) :
    ∃ c, (do
      let a ← step a
      let b ← step b
      let rest ← rest.mapM step
      return build a b rest) = .ok c := by
  rw [List.forall_mem_cons, List.forall_mem_cons] at each
  obtain ⟨⟨a', first⟩, ⟨b', second⟩, others⟩ := each
  obtain ⟨rest', remaining⟩ := exists_forall₂ others
  exact ⟨_, membersM_eq_ok.mpr ⟨a', b', rest', rfl, .cons first (.cons second remaining)⟩⟩

/-! ## Lists in step -/

section
variable {α : Type u} {β : Type v} {γ : Type w}

theorem forall₂_of_mem {R S : α → β → Prop} {xs : List α} {ys : List β}
    (related : List.Forall₂ R xs ys) (imp : ∀ x ∈ xs, ∀ y, R x y → S x y) :
    List.Forall₂ S xs ys := by
  induction related with
  | nil => exact .nil
  | cons head _ ih =>
      refine .cons (imp _ List.mem_cons_self _ head) (ih fun x member => ?_)
      exact imp x (List.mem_cons_of_mem _ member)

theorem map_eq_map_of_forall₂ {f : α → γ} {g : β → γ} {xs : List α} {ys : List β}
    (related : List.Forall₂ (fun x y => f x = g y) xs ys) : xs.map f = ys.map g := by
  rw [← List.forall₂_eq_eq_eq, List.forall₂_map_left_iff, List.forall₂_map_right_iff]
  exact related

theorem forall₂_of_map_eq_map {f : α → γ} {g : β → γ} {xs : List α} {ys : List β}
    (same : xs.map f = ys.map g) : List.Forall₂ (fun x y => f x = g y) xs ys := by
  rwa [← List.forall₂_eq_eq_eq, List.forall₂_map_left_iff, List.forall₂_map_right_iff] at same

/-- What two lists of results have in common that come from lists in step. -/
theorem forall₂_results {δ : Type w} {R : α → β → Prop} {S : α → γ → Prop} {T : β → δ → Prop}
    {Q : γ → δ → Prop} {xs : List α} {ys : List β} {zs : List γ} {ws : List δ}
    (related : List.Forall₂ R xs ys) (left : List.Forall₂ S xs zs) (right : List.Forall₂ T ys ws)
    (each : ∀ x y z w, R x y → S x z → T y w → Q z w) : List.Forall₂ Q zs ws := by
  induction related generalizing zs ws with
  | nil =>
      cases left
      cases right
      exact .nil
  | cons head _ ih =>
      cases left with
      | cons first others =>
          cases right with
          | cons first' others' =>
              exact .cons (each _ _ _ _ head first first') (ih others others')

/-- What comes later in one list is paired with what comes later in the other. -/
theorem zip_append {xs ys : List α} {zs : List β} :
    (xs ++ ys).zip zs = xs.zip zs ++ ys.zip (zs.drop xs.length) := by
  induction xs generalizing zs with
  | nil => rw [List.nil_append, List.zip_nil_left, List.nil_append, List.length_nil, List.drop_zero]
  | cons x xs ih =>
      cases zs with
      | nil => rw [List.zip_nil_right, List.zip_nil_right, List.drop_nil, List.zip_nil_right,
          List.append_nil]
      | cons z zs => rw [List.cons_append, List.zip_cons_cons, List.zip_cons_cons, ih,
          List.length_cons, List.drop_succ_cons, List.cons_append]

theorem flatMap_eq_flatMap_of_forall₂ {f : α → List γ} {g : β → List γ} {xs : List α} {ys : List β}
    (related : List.Forall₂ (fun x y => f x = g y) xs ys) : xs.flatMap f = ys.flatMap g := by
  rw [List.flatMap, List.flatMap, map_eq_map_of_forall₂ related]

theorem mem_flatMap_iff_of_forall₂ {f : α → List γ} {g : β → List γ} {z : γ} {xs : List α}
    {ys : List β} (related : List.Forall₂ (fun x y => z ∈ f x ↔ z ∈ g y) xs ys) :
    z ∈ xs.flatMap f ↔ z ∈ ys.flatMap g := by
  induction related with
  | nil => rfl
  | cons head _ ih => rw [List.flatMap_cons, List.flatMap_cons, List.mem_append, List.mem_append,
      head, ih]

theorem forall_mem_of_forall₂ {R : α → β → Prop} {property : β → Prop} {xs : List α} {ys : List β}
    (related : List.Forall₂ R xs ys) (imp : ∀ x ∈ xs, ∀ y, R x y → property y) :
    ∀ y ∈ ys, property y := by
  induction related with
  | nil => exact fun y member => absurd member List.not_mem_nil
  | cons head _ ih =>
      refine List.forall_mem_cons.mpr ⟨imp _ List.mem_cons_self _ head, ih fun x member => ?_⟩
      exact imp x (List.mem_cons_of_mem _ member)

end

end MemberLemmas

/-! ## Formulas through the members of their junctions -/

namespace Formula

/-- Induction over formulas with one hypothesis for all members of a junction. -/
theorem rec_memberList {motive : Formula → Prop}
    (atom : ∀ p, motive (.atom p))
    (neg : ∀ f, motive f → motive (.neg f))
    (junction : ∀ op a b rest, (∀ f ∈ a :: b :: rest, motive f) → motive (.junction op a b rest))
    (imp : ∀ a b, motive a → motive b → motive (.imp a b))
    (iff : ∀ a b, motive a → motive b → motive (.iff a b))
    (quant : ∀ q x f, motive f → motive (.quant q x f)) (f : Formula) : motive f := by
  refine Formula.rec_members atom neg (fun op a b rest iha ihb ih => ?_) imp iff quant f
  exact junction op a b rest (List.forall_mem_cons.mpr ⟨iha, List.forall_mem_cons.mpr ⟨ihb, ih⟩⟩)

section
variable {op : Junctor} {a b : Formula} {rest : List Formula}

@[simp] theorem atoms_junction :
    (junction op a b rest).atoms = (a :: b :: rest).flatMap atoms := by
  simp [atoms]

@[simp] theorem quantified_junction :
    (junction op a b rest).quantified = (a :: b :: rest).flatMap quantified := by
  simp [quantified]

@[simp] theorem free_junction {outer : List String} :
    (junction op a b rest).free outer = (a :: b :: rest).flatMap (free outer) := by
  simp [free]

@[simp] theorem bound_junction {outer : List String} :
    (junction op a b rest).bound outer = (a :: b :: rest).flatMap (bound outer) := by
  simp [bound]

@[simp] theorem variableNames_junction :
    (junction op a b rest).variableNames = (a :: b :: rest).flatMap variableNames := by
  simp [variableNames]

@[simp] theorem isNegationNormal_junction :
    (junction op a b rest).IsNegationNormal ↔ ∀ f ∈ a :: b :: rest, f.IsNegationNormal := by
  simp [IsNegationNormal]

@[simp] theorem isQuantifierFree_junction :
    (junction op a b rest).IsQuantifierFree ↔ ∀ f ∈ a :: b :: rest, f.IsQuantifierFree := by
  simp [IsQuantifierFree]

theorem mem_free_atom {p : Atom} {t : Term} {x : String} (member : t ∈ p.terms)
    (inside : x ∈ t.variableNames) : x ∈ (atom p).free [] := by
  simpa [free, Atom.variableNames] using ⟨t, member, inside⟩

/-- A free occurrence in a member is one in the junction. -/
theorem mem_free_junction {f : Formula} {x : String} (member : f ∈ a :: b :: rest)
    (found : x ∈ f.free []) : x ∈ (junction op a b rest).free [] := by
  rw [free_junction]
  exact List.mem_flatMap.mpr ⟨f, member, found⟩

/-- Two changes that agree on the members make the same junction. -/
theorem junction_congr {F G : Formula → Formula} (same : ∀ f ∈ a :: b :: rest, F f = G f) :
    junction op (F a) (F b) (rest.map F) = junction op (G a) (G b) (rest.map G) := by
  rw [List.forall_mem_cons, List.forall_mem_cons] at same
  rw [same.1, same.2.1, List.map_congr_left same.2.2]

/-- The truth of a junction is what its operator says of the truth of its members. -/
theorem holds_junction_iff {D : Type u} {I : Interpretation D} {s : String → D} :
    (junction op a b rest).Holds I s ↔ op.Joins ((a :: b :: rest).map (Holds I s)) := by
  rw [Holds, List.map_cons, List.map_cons]

end

end Formula

/-! ## What a junction says -/

/-- What an operator says of two statements. -/
def Junctor.Links (op : Junctor) (p q : Prop) : Prop :=
  match op with
  | .conj => p ∧ q
  | .disj => p ∨ q

namespace JoinLemmas

variable {op : Junctor} {p q r : Prop} {ps qs : List Prop}

theorem joins_cons : op.Joins (p :: ps) ↔ op.Links p (op.Joins ps) := by
  cases op with
  | conj => exact List.forall_mem_cons
  | disj => exact List.exists_mem_cons_iff id p ps

theorem joins_singleton : op.Joins [p] ↔ p := by
  rw [joins_cons]
  cases op <;> simp [Junctor.Links, Junctor.Joins]

theorem joins_append : op.Joins (ps ++ qs) ↔ op.Links (op.Joins ps) (op.Joins qs) := by
  cases op with
  | conj => exact List.forall_mem_append
  | disj => simp only [Junctor.Joins, Junctor.Links, List.mem_append, or_and_right, exists_or]

theorem links_comm : op.Links p q ↔ op.Links q p := by
  cases op with
  | conj => exact And.comm
  | disj => exact Or.comm

theorem links_assoc : op.Links (op.Links p q) r ↔ op.Links p (op.Links q r) := by
  cases op with
  | conj => exact and_assoc
  | disj => exact or_assoc

theorem links_congr {p' q' : Prop} (left : p ↔ p') (right : q ↔ q') :
    op.Links p q ↔ op.Links p' q' := by
  rw [left, right]

/-- A junction of junctions with one operator is the junction of all their members. -/
theorem joins_flatMap {α : Type u} {xs : List α} {parts : α → List Prop} :
    op.Joins (xs.flatMap parts) ↔ op.Joins (xs.map fun x => op.Joins (parts x)) := by
  induction xs with
  | nil => rfl
  | cons x xs ih =>
      rw [List.flatMap_cons, List.map_cons, joins_append, joins_cons]
      exact links_congr Iff.rfl ih

theorem joins_congr {α : Type u} {xs : List α} {P Q : α → Prop} (same : ∀ x ∈ xs, (P x ↔ Q x)) :
    op.Joins (xs.map P) ↔ op.Joins (xs.map Q) := by
  rw [List.map_congr_left fun x member => propext (same x member)]

theorem joins_congr_forall₂ {α : Type u} {β : Type v} {xs : List α} {ys : List β} {P : α → Prop}
    {Q : β → Prop} (same : List.Forall₂ (fun x y => P x ↔ Q y) xs ys) :
    op.Joins (xs.map P) ↔ op.Joins (ys.map Q) := by
  rw [MemberLemmas.map_eq_map_of_forall₂ (same.imp fun _ _ holds => propext holds)]

/-- The distributive law: a statement joins a junction if it joins each of the members. -/
theorem joins_links {α : Type u} {xs : List α} {P : α → Prop} :
    op.Joins (xs.map fun x => op.dual.Links (P x) q) ↔ op.dual.Links (op.Joins (xs.map P)) q := by
  rw [SemanticsLemmas.joins_map, SemanticsLemmas.joins_map]
  cases op with
  | conj => by_cases holds : q <;> simp [Junctor.dual, Junctor.Links, holds]
  | disj => simp only [Junctor.dual, Junctor.Links, ← and_assoc, exists_and_right]

/-- The law of De Morgan: a junction fails if the dual junction of the negations holds. -/
theorem joins_dual {α : Type u} {xs : List α} {P : α → Prop} :
    op.dual.Joins (xs.map fun x => ¬ P x) ↔ ¬ op.Joins (xs.map P) := by
  rw [SemanticsLemmas.joins_map, SemanticsLemmas.joins_map]
  cases op <;> simp [Junctor.dual]

end JoinLemmas

/-! ## What a quantifier says -/

namespace BindLemmas

variable {D : Type u} {q : Quantifier} {P Q : D → Prop} {r : Prop}

theorem binds_congr (same : ∀ d, P d ↔ Q d) : q.Binds P ↔ q.Binds Q := by
  rw [funext fun d => propext (same d)]

/-- The duality of the quantifiers. -/
theorem binds_dual : q.dual.Binds (fun d => ¬ P d) ↔ ¬ q.Binds P := by
  cases q with
  | all => exact not_forall.symm
  | ex => exact not_exists.symm

/-- A statement that does not speak of the bound value may stay outside. -/
theorem binds_links [Nonempty D] {op : Junctor} :
    q.Binds (fun d => op.Links (P d) r) ↔ op.Links (q.Binds P) r := by
  cases q <;> cases op
  case all.conj => exact forall_and_right P r
  case all.disj => exact forall_or_right
  case ex.conj => exact exists_and_right
  case ex.disj => simp only [Quantifier.Binds, Junctor.Links, exists_or, exists_const]

end BindLemmas

end Clausal
