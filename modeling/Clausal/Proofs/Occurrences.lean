import Clausal.Proofs.Meaning

/-!
# Occurrences of variables

Every occurrence of a variable in an atom is either free or bound, and every variable of a formula
stands at such an occurrence or at a quantifier. The free variables are those that the meaning can
depend on. Whether it does depend on them is another matter, as in `P(x) ∨ ¬P(x)`; but with other
predicate symbols in the same places it does.

* `Interleaves`: a list is made of two others, each in its order.
* `Formula.HasFormOf` is equality of formulas up to predicate symbols, `Formula.DependsOn` dependence of
  the truth on the value of a variable.
* `OccurrenceLemmas.interleaves_listing`: what two lists that are read off a formula make up together is
  decided at the atoms and at the quantifiers.
* `DependenceLemmas.canSay_value`: with predicate symbols of choice, a formula can say of a free variable
  that it has a certain value.
* `occurrences_accounted` puts everything together.
-/

namespace Clausal

/-! ## Definitions -/

/-- The list `whole` is made of two lists, each in its order. -/
inductive Interleaves {α : Type u} : (left right whole : List α) → Prop
  | nil : Interleaves [] [] []
  | left {x : α} {xs ys whole : List α} (more : Interleaves xs ys whole) :
      Interleaves (x :: xs) ys (x :: whole)
  | right {y : α} {xs ys whole : List α} (more : Interleaves xs ys whole) :
      Interleaves xs (y :: ys) (y :: whole)

namespace Formula

/-- The occurrences of variables in the terms of the atoms, from left to right. -/
def occurrences (f : Formula) : List String :=
  f.atoms.flatMap Atom.variableNames

/-- Takes the predicate symbols away. -/
def anonymous : Formula → Formula
  | .atom p => .atom { p with symbol := "" }
  | .neg f => .neg f.anonymous
  | .junction op a b rest => .junction op a.anonymous b.anonymous (rest.map anonymous)
  | .imp a b => .imp a.anonymous b.anonymous
  | .iff a b => .iff a.anonymous b.anonymous
  | .quant q x f => .quant q x f.anonymous

/-- Two formulas differ in their predicate symbols only. -/
def HasFormOf (g f : Formula) : Prop :=
  g.anonymous = f.anonymous

/-- In some interpretation, the truth of a formula changes with the value of `x`. -/
def DependsOn (f : Formula) (x : String) : Prop :=
  ∃ (D : Type) (I : Interpretation D) (s : String → D) (d : D),
    ¬ (f.Holds I (assign s x d) ↔ f.Holds I s)

/-- With other predicate symbols in its places, a formula makes this statement about assignments. -/
def CanSay {D : Type u} (I : Interpretation D) (f : Formula) (statement : (String → D) → Prop) :
    Prop :=
  ∃ g : Formula, g.HasFormOf f ∧ ∀ s, g.Holds I s ↔ statement s

end Formula

/-! ## Interleaving -/

namespace Interleaves

variable {α : Type u} {β : Type v} {xs ys whole xs' ys' whole' : List α}

theorem append (first : Interleaves xs ys whole) (second : Interleaves xs' ys' whole') :
    Interleaves (xs ++ xs') (ys ++ ys') (whole ++ whole') := by
  induction first with
  | nil => exact second
  | left _ ih => exact .left ih
  | right _ ih => exact .right ih

theorem flatMap {zs : List β} {left right whole : β → List α}
    (each : ∀ z ∈ zs, Interleaves (left z) (right z) (whole z)) :
    Interleaves (zs.flatMap left) (zs.flatMap right) (zs.flatMap whole) := by
  induction zs with
  | nil => exact .nil
  | cons z zs ih =>
      rw [List.forall_mem_cons] at each
      exact each.1.append (ih each.2)

/-- The members that pass a test, and those that do not. -/
theorem filter (test : α → Bool) (whole : List α) :
    Interleaves (whole.filter test) (whole.filter (!test ·)) whole := by
  induction whole with
  | nil => exact .nil
  | cons x whole ih =>
      cases passes : test x with
      | true =>
          rw [List.filter_cons_of_pos passes, List.filter_cons_of_neg (by simp [passes])]
          exact .left ih
      | false =>
          rw [List.filter_cons_of_neg (by simp [passes]), List.filter_cons_of_pos (by simp [passes])]
          exact .right ih

theorem nil_left (whole : List α) : Interleaves [] whole whole := by
  induction whole with
  | nil => exact .nil
  | cons x whole ih => exact .right ih

theorem perm (interleaves : Interleaves xs ys whole) : whole.Perm (xs ++ ys) := by
  induction interleaves with
  | nil => exact .nil
  | left _ ih => exact ih.cons _
  | right _ ih => exact (ih.cons _).trans List.perm_middle.symm

end Interleaves

namespace OccurrenceLemmas

open Formula ListingLemmas

/-- What two lists that are read off a formula make up together is decided at the atoms and at the
quantifiers. -/
theorem interleaves_listing {α : Type u} {left right both : String → List α}
    {list₁ list₂ list : List String → Formula → List α} (first : IsListing left list₁)
    (second : IsListing right list₂) (whole : IsListing both list)
    (binders : ∀ x, Interleaves (left x) (right x) (both x))
    (atoms : ∀ outer p,
      Interleaves (list₁ outer (.atom p)) (list₂ outer (.atom p)) (list outer (.atom p)))
    (outer : List String) (f : Formula) :
    Interleaves (list₁ outer f) (list₂ outer f) (list outer f) := by
  induction f using Formula.rec_memberList generalizing outer with
  | atom p => exact atoms outer p
  | neg f ih =>
      rw [first.neg, second.neg, whole.neg]
      exact ih outer
  | junction op a b rest ih =>
      rw [first.junction, second.junction, whole.junction]
      exact .flatMap fun f member => ih f member outer
  | imp a b iha ihb =>
      rw [first.imp, second.imp, whole.imp]
      exact (iha outer).append (ihb outer)
  | iff a b iha ihb =>
      rw [first.iff, second.iff, whole.iff]
      exact (iha outer).append (ihb outer)
  | quant q x f ih =>
      rw [first.quant, second.quant, whole.quant]
      exact (binders x).append (ih (x :: outer))

theorem isListing_occurrences : IsListing (fun _ => []) fun _ => occurrences where
  neg _ _ := by rw [occurrences, occurrences, atoms]
  junction _ _ _ _ _ := by
    rw [occurrences, atoms_junction, List.flatMap_assoc]
    rfl
  imp _ _ _ := by rw [occurrences, atoms, List.flatMap_append, occurrences, occurrences]
  iff _ _ _ := by rw [occurrences, atoms, List.flatMap_append, occurrences, occurrences]
  quant _ _ _ _ := by rw [occurrences, occurrences, atoms, List.nil_append]

theorem occurrences_atom (p : Atom) : (Formula.atom p).occurrences = p.variableNames := by
  rw [occurrences, atoms, List.flatMap_singleton]

/-- An occurrence in an atom is free or bound. -/
theorem interleaves_free_bound (f : Formula) (outer : List String) :
    Interleaves (f.free outer) (f.bound outer) f.occurrences := by
  refine interleaves_listing isListing_free isListing_bound isListing_occurrences
    (fun _ => .nil) (fun outer p => ?_) outer f
  rw [occurrences_atom, free, bound]
  simpa using Interleaves.filter (fun x => decide (x ∉ outer)) p.variableNames

/-- A variable stands at a quantifier or occurs in an atom. -/
theorem interleaves_quantified_occurrences (f : Formula) :
    Interleaves f.quantified f.occurrences f.variableNames := by
  refine interleaves_listing isListing_quantified isListing_occurrences isListing_variableNames
    (fun _ => .left .nil) (fun outer p => ?_) [] f
  rw [quantified, occurrences_atom, variableNames]
  exact .nil_left p.variableNames

theorem perm_variableNames (f : Formula) (outer : List String) :
    f.variableNames.Perm (f.quantified ++ f.free outer ++ f.bound outer) := by
  rw [List.append_assoc]
  exact (interleaves_quantified_occurrences f).perm.trans
    ((interleaves_free_bound f outer).perm.append_left f.quantified)

end OccurrenceLemmas

namespace DependenceLemmas

open Formula

/-! ## Other predicate symbols in the same places -/

section
variable {op : Junctor} {q : Quantifier} {x : String} {a b f g : Formula} {rest : List Formula}

@[simp] theorem anonymous_junction : (junction op a b rest).anonymous =
    .junction op a.anonymous b.anonymous (rest.map anonymous) := by
  rw [anonymous]

theorem free_anonymous (f : Formula) (outer : List String) :
    f.anonymous.free outer = f.free outer := by
  induction f using Formula.rec_memberList generalizing outer with
  | atom p => rw [anonymous, free, free, Atom.variableNames, Atom.variableNames]
  | neg f ih => rw [anonymous, free, free, ih]
  | junction op a b rest ih =>
      rw [anonymous_junction, free_junction, free_junction, ← List.map_cons, ← List.map_cons,
        List.flatMap_map]
      exact List.flatMap_congr fun f member => ih f member outer
  | imp a b iha ihb | iff a b iha ihb => rw [anonymous, free, free, iha, ihb]
  | quant q x f ih => rw [anonymous, free, free, ih]

theorem free_of_hasFormOf (form : g.HasFormOf f) (outer : List String) :
    g.free outer = f.free outer := by
  unfold HasFormOf at form
  rw [← free_anonymous g, form, free_anonymous]

/-- Only a free variable can make a difference, whatever the predicate symbols are. -/
theorem mem_free_of_dependsOn (form : g.HasFormOf f) (depends : g.DependsOn x) : x ∈ f.free [] := by
  obtain ⟨D, I, s, d, differ⟩ := depends
  rw [← free_of_hasFormOf form]
  by_contra absent
  refine differ (MeaningLemmas.holds_congr fun y found => assign_of_ne ?_)
  exact fun same => absent (same ▸ found)

end

/-! ## What can be said with predicate symbols of choice -/

section
variable {D : Type u} {I : Interpretation D} {P Q : (String → D) → Prop} {op : Junctor}
  {q : Quantifier} {x : String} {a b f : Formula} {rest : List Formula}

theorem canSay_congr (said : f.CanSay I P) (same : ∀ s, P s ↔ Q s) : f.CanSay I Q := by
  obtain ⟨g, form, holds⟩ := said
  exact ⟨g, form, fun s => (holds s).trans (same s)⟩

theorem canSay_neg (said : f.CanSay I P) : (neg f).CanSay I fun s => ¬ P s := by
  obtain ⟨g, form, holds⟩ := said
  unfold HasFormOf at form
  refine ⟨.neg g, ?_, fun s => ?_⟩
  · rw [HasFormOf, anonymous, anonymous, form]
  · rw [Holds, holds]

/-- Two formulas, put together by an operator that keeps to their forms and truth values. -/
theorem canSay_binary (build : Formula → Formula → Formula) (join : Prop → Prop → Prop)
    (form : ∀ a b, (build a b).anonymous = build a.anonymous b.anonymous)
    (holds : ∀ a b s, (build a b).Holds I s ↔ join (a.Holds I s) (b.Holds I s))
    (left : a.CanSay I P) (right : b.CanSay I Q) :
    (build a b).CanSay I fun s => join (P s) (Q s) := by
  obtain ⟨g, leftForm, leftHolds⟩ := left
  obtain ⟨h, rightForm, rightHolds⟩ := right
  unfold HasFormOf at leftForm rightForm
  refine ⟨build g h, ?_, fun s => ?_⟩
  · rw [HasFormOf, form, form, leftForm, rightForm]
  · rw [holds, leftHolds, rightHolds]

theorem canSay_imp (left : a.CanSay I P) (right : b.CanSay I Q) :
    (imp a b).CanSay I fun s => P s → Q s :=
  canSay_binary imp (fun p q => p → q) (fun _ _ => by rw [anonymous]) (fun _ _ _ => by rw [Holds])
    left right

theorem canSay_iff (left : a.CanSay I P) (right : b.CanSay I Q) :
    (iff a b).CanSay I fun s => P s ↔ Q s :=
  canSay_binary iff Iff (fun _ _ => by rw [anonymous]) (fun _ _ _ => by rw [Holds]) left right

theorem canSay_junction (statement : Formula → (String → D) → Prop)
    (said : ∀ f ∈ a :: b :: rest, f.CanSay I (statement f)) :
    (junction op a b rest).CanSay I fun s =>
      op.Joins ((a :: b :: rest).map fun f => statement f s) := by
  obtain ⟨gs, each⟩ := MemberLemmas.exists_forall₂
    (R := fun f g : Formula => g.HasFormOf f ∧ ∀ s, g.Holds I s ↔ statement f s) said
  rcases each with _ | ⟨first, _ | ⟨second, others⟩⟩
  rename_i a' b' rest'
  refine ⟨.junction op a' b' rest', ?_, fun s => ?_⟩
  · have forms := MemberLemmas.map_eq_map_of_forall₂ (others.imp fun _ _ each => each.1.symm)
    rw [HasFormOf, anonymous_junction, anonymous_junction, first.1, second.1, forms]
  · rw [holds_junction_iff]
    refine (JoinLemmas.joins_congr_forall₂ ?_).symm
    exact .cons (first.2 s).symm (.cons (second.2 s).symm (others.imp fun _ _ each => (each.2 s).symm))

theorem canSay_quant (said : f.CanSay I P) :
    (quant q x f).CanSay I fun s => q.Binds fun d => P (assign s x d) := by
  obtain ⟨g, form, holds⟩ := said
  unfold HasFormOf at form
  refine ⟨.quant q x g, ?_, fun s => ?_⟩
  · rw [HasFormOf, anonymous, anonymous, form]
  · rw [Holds]
    exact BindLemmas.binds_congr fun d => holds (assign s x d)

theorem binds_const [Nonempty D] {p : Prop} : q.Binds (fun _ : D => p) ↔ p := by
  cases q with
  | all => exact forall_const D
  | ex => exact exists_const D

theorem joins_const {α : Type v} {x : α} {xs : List α} {p : Prop} :
    op.Joins ((x :: xs).map fun _ => p) ↔ p := by
  rw [SemanticsLemmas.joins_map]
  cases op with
  | conj => exact ⟨fun each => each x List.mem_cons_self, fun holds _ _ => holds⟩
  | disj => exact ⟨fun ⟨_, _, holds⟩ => holds, fun holds => ⟨x, List.mem_cons_self, holds⟩⟩

/-- A junction says what one member says, if the others say what makes no difference to it. -/
theorem joins_neutral {α : Type v} [DecidableEq α] {xs : List α} {x : α} (member : x ∈ xs)
    {p : Prop} :
    op.Joins (xs.map fun y => if y = x then p else op = .conj) ↔ p := by
  rw [SemanticsLemmas.joins_map]
  cases op with
  | conj =>
      constructor
      · intro each
        simpa using each x member
      · intro holds y _
        simp [holds]
  | disj =>
      constructor
      · rintro ⟨y, _, holds⟩
        by_cases same : y = x
        · simpa [same] using holds
        · simp [same] at holds
      · intro holds
        exact ⟨x, member, by simpa using holds⟩

/-- A junction can say what a member can, if the other members can be made true or false: they are made
true in a conjunction, and false in a disjunction. -/
theorem canSay_junction_of_mem {m : Formula} (member : m ∈ a :: b :: rest) (said : m.CanSay I P)
    (others : ∀ (f : Formula) (truth : Bool), f.CanSay I fun _ => truth = true) :
    (junction op a b rest).CanSay I P := by
  refine canSay_congr (canSay_junction (fun f s => if f = m then P s else op = .conj) ?_)
    fun s => joins_neutral member
  intro f _
  by_cases same : f = m
  · subst same
    exact canSay_congr said fun s => by simp
  · exact canSay_congr (others f (op = .conj)) fun s => by simp [same]

end

/-! ## Terms that stand for themselves -/

/-- The value that a variable is tested for. -/
def mark : Term := .app "mark" []

/-- Some terms are the arguments of `p` after a substitution that puts `mark` for `x`. -/
def Passes (p : Atom) (x : String) (args : List Term) : Prop :=
  ∃ s : Substitution, s x = mark ∧ args = p.terms.map (Term.subst s)

/-- Every term stands for itself. One predicate symbol holds of everything, one of the arguments that
pass the test, and one of those that do not. -/
def testing (p : Atom) (x : String) : Interpretation Term where
  function := .app
  predicate symbol args :=
    symbol = "any" ∨ (symbol = "pass" ∧ Passes p x args) ∨ (symbol = "fail" ∧ ¬ Passes p x args)

section
variable {p : Atom} {x : String} {a b f : Formula} {rest : List Formula}

theorem value_testing (s : String → Term) (t : Term) : t.value (testing p x) s = t.subst s := by
  induction t using Term.variableNames.induct with
  | case1 y => rw [Term.value, Term.subst]
  | case2 g ts ih =>
      rw [Term.value, Term.subst, List.map_congr_left ih]
      rfl

/-- From the values of its arguments one can tell the values of the variables of a term. -/
theorem eq_of_subst_eq {s s' : Substitution} {t : Term} (same : t.subst s = t.subst s') :
    ∀ y ∈ t.variableNames, s y = s' y := by
  induction t using Term.variableNames.induct with
  | case1 y =>
      rw [Term.variableNames, List.forall_mem_singleton]
      rwa [Term.subst, Term.subst] at same
  | case2 g ts ih =>
      rw [Term.subst, Term.subst, Term.app.injEq, List.map_inj_left] at same
      intro y member
      rw [Term.variableNames, List.mem_flatMap] at member
      obtain ⟨t, part, inside⟩ := member
      exact ih t part (same.2 t part) y inside

/-- The arguments of `p` pass the test if the variable that stands in them has the value it is tested
for. -/
theorem passes_iff (found : x ∈ p.variableNames) (s : Substitution) :
    Passes p x (p.terms.map (Term.subst s)) ↔ s x = mark := by
  unfold Passes
  constructor
  · rintro ⟨s', marked, same⟩
    obtain ⟨t, part, inside⟩ := List.mem_flatMap.mp found
    rw [eq_of_subst_eq (List.map_inj_left.mp same t part) x inside, marked]
  · exact fun marked => ⟨s, marked, rfl⟩

/-- With predicate symbols of choice, every formula can be made true or false. -/
theorem canSay_const (f : Formula) (truth : Bool) :
    f.CanSay (testing p x) fun _ => truth = true := by
  induction f using Formula.rec_memberList generalizing truth with
  | atom r =>
      refine ⟨.atom { r with symbol := if truth then "any" else "none" }, ?_, fun s => ?_⟩
      · rw [HasFormOf, anonymous, anonymous]
      · cases truth <;> simp [Holds, Atom.Holds, testing]
  | neg f ih => exact canSay_congr (canSay_neg (ih !truth)) fun _ => by simp
  | junction op a b rest ih =>
      exact canSay_congr (canSay_junction _ fun f member => ih f member truth) fun _ => joins_const
  | imp a b iha ihb => exact canSay_congr (canSay_imp (iha true) (ihb truth)) fun _ => by simp
  | iff a b iha ihb => exact canSay_congr (canSay_iff (iha true) (ihb truth)) fun _ => by simp
  | quant q y f ih => exact canSay_congr (canSay_quant (ih truth)) fun _ => binds_const

/-- With predicate symbols of choice, a formula can say that a free variable has a certain value, and
also that it has not. -/
theorem canSay_value (found : x ∈ f.free []) : ∃ p, ∀ truth : Bool,
    f.CanSay (testing p x) fun s => s x = mark ↔ truth = true := by
  induction f using Formula.rec_memberList with
  | atom p =>
      have inside : x ∈ p.variableNames := by simpa [free] using found
      refine ⟨p, fun truth => ⟨.atom { p with symbol := if truth then "pass" else "fail" }, ?_,
        fun s => ?_⟩⟩
      · rw [HasFormOf, anonymous, anonymous]
      · have values : p.terms.map (Term.value (testing p x) s) = p.terms.map (Term.subst s) :=
          List.map_congr_left fun t _ => value_testing s t
        rw [Holds, Atom.Holds, values]
        cases truth <;> simp [testing, passes_iff inside]
  | neg f ih =>
      rw [free] at found
      obtain ⟨p, each⟩ := ih found
      refine ⟨p, fun truth => canSay_congr (canSay_neg (each !truth)) fun s => ?_⟩
      cases truth <;> simp
  | junction op a b rest ih =>
      rw [free_junction, List.mem_flatMap] at found
      obtain ⟨m, member, found⟩ := found
      obtain ⟨p, each⟩ := ih m member found
      exact ⟨p, fun truth => canSay_junction_of_mem member (each truth) canSay_const⟩
  | imp a b iha ihb =>
      rw [free, List.mem_append] at found
      rcases found with left | right
      · obtain ⟨p, each⟩ := iha left
        refine ⟨p, fun truth =>
          canSay_congr (canSay_imp (each !truth) (canSay_const b false)) fun s => ?_⟩
        cases truth <;> simp
      · obtain ⟨p, each⟩ := ihb right
        exact ⟨p, fun truth =>
          canSay_congr (canSay_imp (canSay_const a true) (each truth)) fun s => by simp⟩
  | iff a b iha ihb =>
      rw [free, List.mem_append] at found
      rcases found with left | right
      · obtain ⟨p, each⟩ := iha left
        exact ⟨p, fun truth =>
          canSay_congr (canSay_iff (each truth) (canSay_const b true)) fun s => by simp⟩
      · obtain ⟨p, each⟩ := ihb right
        exact ⟨p, fun truth =>
          canSay_congr (canSay_iff (canSay_const a true) (each truth)) fun s => by simp⟩
  | quant q y f ih =>
      obtain ⟨found, differ⟩ := MeaningLemmas.mem_free_quant.mp found
      obtain ⟨p, each⟩ := ih found
      refine ⟨p, fun truth => canSay_congr (canSay_quant (each truth)) fun s => ?_⟩
      simp only [assign_of_ne differ]
      exact binds_const

theorem exists_dependsOn (found : x ∈ f.free []) : ∃ g : Formula, g.HasFormOf f ∧ g.DependsOn x := by
  obtain ⟨p, each⟩ := canSay_value found
  obtain ⟨g, form, holds⟩ := each true
  refine ⟨g, form, Term, testing p x, .var, mark, fun same => ?_⟩
  have marked : Term.var x = mark := by simpa [holds] using same
  cases marked

end

end DependenceLemmas

/-! ## Main result -/

/-- Two assignments that agree on the free variables give a formula the same truth value; and a variable
is free just if, with some predicate symbols in the places of the formula's own, the truth does depend
on its value. Whatever variables `outer` are bound from outside, the variables of a formula are those of
its quantifiers, the free occurrences and the bound ones, each counted once; the free occurrences are
those without `outer`, less the variables in `outer`; and the free and the bound ones make up together,
in their order, the occurrences in the atoms. -/
theorem occurrences_accounted.{u} (f : Formula) :
    (∀ (D : Type u) (I : Interpretation D) (s s' : String → D),
      (∀ x ∈ f.free [], s x = s' x) → (f.Holds I s ↔ f.Holds I s')) ∧
    (∀ x, x ∈ f.free [] ↔ ∃ g : Formula, g.HasFormOf f ∧ g.DependsOn x) ∧
    ∀ outer : List String,
      f.variableNames.Perm (f.quantified ++ f.free outer ++ f.bound outer) ∧
      f.free outer = (f.free []).filter (· ∉ outer) ∧
      Interleaves (f.free outer) (f.bound outer) f.occurrences := by
  refine ⟨fun D I s s' agree => MeaningLemmas.holds_congr agree, fun x => ?_, fun outer => ?_⟩
  · constructor
    · exact DependenceLemmas.exists_dependsOn
    · rintro ⟨g, form, depends⟩
      exact DependenceLemmas.mem_free_of_dependsOn form depends
  · exact ⟨OccurrenceLemmas.perm_variableNames f outer, MeaningLemmas.free_eq_filter f outer,
      OccurrenceLemmas.interleaves_free_bound f outer⟩

/-- The variable `x` is bound at its first occurrence and free at its second, and `y` is bound again where
a quantifier binds it already. The assignments differ in bound variables only. -/
theorem occurrences_accounted_shadowed :
    let f : Formula := .quant .all "y" (.conj
      (.quant .ex "x" (.atom ⟨"P", [.var "a", .var "x", .var "y"]⟩))
      (.quant .ex "y" (.atom ⟨"Q", [.var "x", .app "f" [.var "y", .var "a"]]⟩)))
    let I : Interpretation Nat := ⟨fun _ args => args.length, fun _ args => 1 ∈ args⟩
    let s : String → Nat := fun _ => 1
    let s' : String → Nat := assign s "y" 2
    (∀ x ∈ f.free [], s x = s' x) ∧ (f.Holds I s ↔ f.Holds I s') ∧
      (∃ g : Formula, g.HasFormOf f ∧ g.DependsOn "x") ∧
      f.variableNames.Perm (["y", "x", "y"] ++ ["x"] ++ ["a", "x", "y", "y", "a"]) ∧
      Interleaves ["x"] ["a", "x", "y", "y", "a"] f.occurrences := by
  intro f I s s'
  have free : f.free [] = ["a", "x", "a"] := by
    simp [f, Formula.free, Atom.variableNames, Term.variableNames]
  have quantified : f.quantified = ["y", "x", "y"] := by simp [f, Formula.quantified]
  have bound : f.bound ["a"] = ["a", "x", "y", "y", "a"] := by
    simp [f, Formula.bound, Atom.variableNames, Term.variableNames]
  have agree : ∀ x ∈ f.free [], s x = s' x := by
    rw [free]
    simp [s', assign]
  obtain ⟨meaning, depends, accounted⟩ := occurrences_accounted f
  obtain ⟨perm, filtered, interleaves⟩ := accounted ["a"]
  have outside : f.free ["a"] = ["x"] := by
    rw [filtered, free]
    rfl
  rw [quantified, outside, bound] at perm
  rw [outside, bound] at interleaves
  exact ⟨agree, meaning Nat I s s' agree, (depends "x").mp (by simp [free]), perm, interleaves⟩

end Clausal
