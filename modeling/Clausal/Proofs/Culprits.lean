import Clausal.Formula.Subformula
import Clausal.Proofs.Apart
import Clausal.Proofs.Shapes
import Clausal.Proofs.Skolem

/-!
# Which formulas a step refuses

A step goes through a formula from left to right and stops at the first place that it has no rule for.
So it refuses a formula just if there is such a place, and what it names is the first one.

* `Stage.Forbids`: what a step has no rule for.
* `Stage.RefusesFirst`: a step refuses just the forbidden, and its message names the first of it.
* `Stage.Judges` says the same of one result, and goes along with the order of the steps:
  `CulpritLemmas.judges_bind`, `CulpritLemmas.judges_mapM`.
* `refusesFirst_steps`: the steps of the conversion.
-/

namespace Clausal

namespace Formula

/-- An implication or an equivalence. -/
def IsArrow : Formula → Prop
  | .imp _ _ | .iff _ _ => True
  | _ => False

/-- A negation of something that is no atom. -/
def IsOuterNegation : Formula → Prop
  | .neg f => ∀ p, f ≠ .atom p
  | _ => False

/-- A formula with a quantifier in front. -/
def IsQuantification : Formula → Prop
  | .quant _ _ _ => True
  | _ => False

/-- The formulas from which literals are read: the parts of the spines for disjunction of the parts of
the spine for conjunction, from left to right. -/
def clauseParts (f : Formula) : List Formula :=
  (f.spine .conj).flatMap (spine .disj)

end Formula

namespace Stage

open Formula

/-- What a step has no rule for. Equivalences and implications are expanded and variables are renamed
apart in every formula. -/
def Forbids (stage : Stage) (g : Formula) : Prop :=
  match stage with
  | .equivalences | .implications | .apart => False
  | .negations | .skolem => g.IsArrow
  | .prenex => g.IsArrow ∨ g.IsOuterNegation
  | .matrix _ => g.IsArrow ∨ g.IsOuterNegation ∨ g.IsQuantification
  | .clauses => ¬ g.IsLiteral

variable {α : Type}

/-- The step fails just if it has no rule for one of the places that it comes to, and then its message
names the operator of the first such place, between the texts `front` and `back`. -/
def RefusesFirst (stage : Stage) (front back : String) (places : List Formula)
    (result : Except Refusal α) : Prop :=
  ((∃ r, result = .error r) ↔ ∃ g ∈ places, stage.Forbids g) ∧
    ∀ r, result = .error r → ∃ before g after, places = before ++ g :: after ∧
      (∀ h ∈ before, ¬ stage.Forbids h) ∧ stage.Forbids g ∧ r = ⟨g.kind, stage⟩ ∧
      r.message = front ++ g.kind.word ++ back

/-- What a result tells of the places that the step came to: after a success none of them is forbidden,
and after a failure the first that is forbidden is the one that is named. -/
def Judges (stage : Stage) (places : List Formula) : Except Refusal α → Prop
  | .ok _ => ∀ g ∈ places, ¬ stage.Forbids g
  | .error r => ∃ before g after, places = before ++ g :: after ∧
      (∀ h ∈ before, ¬ stage.Forbids h) ∧ stage.Forbids g ∧ r = ⟨g.kind, stage⟩

end Stage

namespace CulpritLemmas

open Formula Stage

/-! ## Steps in turn -/

section
variable {stage : Stage} {α β : Type} {g : Formula} {xs ys : List Formula} {m : Except Refusal α}
  {front back : String}

theorem refusesFirst_of_judges (worded : ∀ word, stage.complaint word = front ++ word ++ back)
    (judged : stage.Judges xs m) : stage.RefusesFirst front back xs m := by
  cases m with
  | ok v =>
      refine ⟨⟨fun ⟨r, failed⟩ => (nomatch failed), ?_⟩, fun r failed => (nomatch failed)⟩
      rintro ⟨g, member, forbidden⟩
      exact absurd forbidden (judged g member)
  | error r =>
      obtain ⟨before, g, after, rfl, allowed, forbidden, same⟩ := judged
      refine ⟨⟨fun _ => ⟨g, by simp, forbidden⟩, fun _ => ⟨r, rfl⟩⟩, ?_⟩
      rintro _ ⟨⟩
      exact ⟨before, g, after, rfl, allowed, forbidden, same, by rw [same, Refusal.message, worded]⟩

/-- If the place that is named is known, so is the message. -/
theorem message_of_refusesFirst {message : String} (refuses : stage.RefusesFirst front back xs m)
    (culprit : Kind) (failed : m = .error ⟨culprit, stage⟩)
    (text : front ++ culprit.word ++ back = message) :
    ∃ r, m = .error r ∧ r.message = message := by
  obtain ⟨-, g, -, -, -, -, same, named⟩ := refuses.2 _ failed
  obtain ⟨rfl, -⟩ := Refusal.mk.inj same
  exact ⟨_, failed, named.trans text⟩

theorem judges_ok {v : α} : stage.Judges [] (.ok v) :=
  fun _ member => absurd member List.not_mem_nil

/-- A forbidden place is the first one that a step comes to. -/
theorem judges_error (forbidden : stage.Forbids g) :
    stage.Judges (g :: xs) (.error ⟨g.kind, stage⟩ : Except Refusal α) :=
  ⟨[], g, xs, rfl, fun _ member => absurd member List.not_mem_nil, forbidden, rfl⟩

/-- Of two steps in turn, the second comes to its places if the first succeeds. -/
theorem judges_bind {next : α → Except Refusal β} (first : stage.Judges xs m)
    (second : ∀ v, m = .ok v → stage.Judges ys (next v)) : stage.Judges (xs ++ ys) (m >>= next) := by
  cases m with
  | error r =>
      obtain ⟨before, g, after, rfl, allowed, forbidden, same⟩ := first
      exact ⟨before, g, after ++ ys, List.append_assoc .., allowed, forbidden, same⟩
  | ok v =>
      change stage.Judges (xs ++ ys) (next v)
      have judged := second v rfl
      cases reached : next v with
      | ok w =>
          rw [reached] at judged
          exact List.forall_mem_append.mpr ⟨first, judged⟩
      | error r =>
          rw [reached] at judged
          obtain ⟨before, g, after, rfl, allowed, forbidden, same⟩ := judged
          exact ⟨xs ++ before, g, after, (List.append_assoc ..).symm,
            List.forall_mem_append.mpr ⟨first, allowed⟩, forbidden, same⟩

/-- What is built of a result comes to no further place. -/
theorem judges_build {build : α → β} (judged : stage.Judges xs m) :
    stage.Judges xs (m >>= fun v => return build v) := by
  have built : stage.Judges (xs ++ []) (m >>= fun v => return build v) :=
    judges_bind judged fun v _ => judges_ok
  rwa [List.append_nil] at built

/-- A place that is not forbidden is passed by. -/
theorem judges_cons (allowed : ¬ stage.Forbids g) (judged : stage.Judges xs m) :
    stage.Judges (g :: xs) m := by
  have passed : stage.Judges [g] (.ok () : Except Refusal Unit) := List.forall_mem_singleton.mpr allowed
  have both : stage.Judges ([g] ++ xs) ((.ok () : Except Refusal Unit) >>= fun _ => m) :=
    judges_bind passed fun _ _ => judged
  exact both

theorem judges_mapM {γ : Type} {step : γ → Except Refusal β} {places : γ → List Formula}
    {fs : List γ} (each : ∀ f ∈ fs, stage.Judges (places f) (step f)) :
    stage.Judges (fs.flatMap places) (fs.mapM step) := by
  induction fs with
  | nil => exact judges_ok
  | cons f fs ih =>
      rw [List.forall_mem_cons] at each
      rw [List.flatMap_cons, List.mapM_cons]
      exact judges_bind each.1 fun v _ => judges_build (ih each.2)

/-- The members of a junction are taken in turn. -/
theorem judges_members {step : Formula → Except Refusal β} {places : Formula → List Formula}
    {build : β → β → List β → α} {a b : Formula} {rest : List Formula}
    (each : ∀ f ∈ a :: b :: rest, stage.Judges (places f) (step f)) :
    stage.Judges ((a :: b :: rest).flatMap places) (do
      let a ← step a
      let b ← step b
      let rest ← rest.mapM step
      return build a b rest) := by
  rw [List.forall_mem_cons, List.forall_mem_cons] at each
  rw [List.flatMap_cons, List.flatMap_cons]
  exact judges_bind each.1 fun _ _ => judges_bind each.2.1 fun _ _ =>
    judges_build (judges_mapM each.2.2)

/-- If the operator decides what is forbidden, only the operators of the places matter. -/
theorem judges_of_kinds (same : xs.map kind = ys.map kind)
    (decides : ∀ g h : Formula, g.kind = h.kind → (stage.Forbids g ↔ stage.Forbids h))
    (judged : stage.Judges xs m) : stage.Judges ys m := by
  have allowed : ∀ {us vs : List Formula}, us.map kind = vs.map kind →
      (∀ g ∈ us, ¬ stage.Forbids g) → ∀ h ∈ vs, ¬ stage.Forbids h := fun equal passed =>
    MemberLemmas.forall_mem_of_forall₂ (MemberLemmas.forall₂_of_map_eq_map equal)
      fun g member h equal => (decides g h equal).not.mp (passed g member)
  cases m with
  | ok v => exact allowed same judged
  | error r =>
      obtain ⟨before, g, after, rfl, passed, forbidden, named⟩ := judged
      rw [List.map_append, List.map_cons, eq_comm, List.map_eq_append_iff] at same
      obtain ⟨before', _, rfl, sameBefore, later⟩ := same
      obtain ⟨g', after', rfl, sameKind, -⟩ := List.map_eq_cons_iff.mp later
      exact ⟨before', g', after', rfl, allowed sameBefore.symm passed,
        (decides g g' sameKind.symm).mp forbidden, sameKind ▸ named⟩

end

/-! ## The steps of a conversion -/

section
variable {f : Formula}

theorem judges_pushNegations (f : Formula) (polarity : Polarity) :
    Stage.negations.Judges f.subformulas (f.pushNegations polarity) := by
  induction f using Formula.rec_memberList generalizing polarity with
  | atom p =>
      rw [subformulas, pushNegations]
      exact judges_cons id judges_ok
  | neg f ih =>
      rw [subformulas, pushNegations]
      exact judges_cons id (ih polarity.flip)
  | junction op a b rest ih =>
      rw [subformulas_junction, pushNegations]
      exact judges_cons id (judges_members fun f member => ih f member polarity)
  | imp a b _ _ | iff a b _ _ =>
      rw [subformulas, pushNegations]
      exact judges_error trivial
  | quant q x f ih =>
      rw [subformulas, pushNegations]
      exact judges_cons id (judges_build (ih polarity))

theorem judges_prenex (f : Formula) : Stage.prenex.Judges f.subformulas f.prenex := by
  induction f using Formula.rec_memberList with
  | atom p =>
      rw [subformulas, Formula.prenex]
      exact judges_cons (by simp [Forbids, IsArrow, IsOuterNegation]) judges_ok
  | neg f _ =>
      rw [subformulas]
      cases f with
      | atom p =>
          rw [subformulas, Formula.prenex]
          refine judges_cons (by simp [Forbids, IsArrow, IsOuterNegation]) ?_
          exact judges_cons (by simp [Forbids, IsArrow, IsOuterNegation]) judges_ok
      | _ =>
          rw [Formula.prenex]
          · exact judges_error (.inr (by simp [IsOuterNegation]))
          · simp
  | junction op a b rest ih =>
      rw [subformulas_junction, Formula.prenex]
      exact judges_cons (by simp [Forbids, IsArrow, IsOuterNegation]) (judges_members ih)
  | imp a b _ _ | iff a b _ _ =>
      rw [subformulas, Formula.prenex]
      exact judges_error (.inl trivial)
  | quant q x f ih =>
      rw [subformulas, Formula.prenex]
      exact judges_cons (by simp [Forbids, IsArrow, IsOuterNegation]) (judges_build ih)

theorem judges_distributed (outer : Junctor) (f : Formula) :
    (Stage.matrix outer).Judges f.subformulas (f.distributed outer) := by
  induction f using Formula.rec_memberList with
  | atom p =>
      rw [subformulas, distributed]
      exact judges_cons (by simp [Forbids, IsArrow, IsOuterNegation, IsQuantification]) judges_ok
  | neg f _ =>
      rw [subformulas]
      cases f with
      | atom p =>
          rw [subformulas, distributed]
          refine judges_cons (by simp [Forbids, IsArrow, IsOuterNegation, IsQuantification]) ?_
          exact judges_cons (by simp [Forbids, IsArrow, IsOuterNegation, IsQuantification]) judges_ok
      | _ =>
          rw [distributed]
          · exact judges_error (.inr (.inl (by simp [IsOuterNegation])))
          · simp
  | junction op a b rest ih =>
      rw [subformulas_junction, distributed]
      exact judges_cons (by simp [Forbids, IsArrow, IsOuterNegation, IsQuantification])
        (judges_members ih)
  | imp a b _ _ | iff a b _ _ =>
      rw [subformulas, distributed]
      exact judges_error (.inl trivial)
  | quant q x f _ =>
      rw [subformulas, distributed]
      exact judges_error (.inr (.inr trivial))

/-- The two matrix forms differ in their name only. -/
theorem complaint_matrix (outer : Junctor) (word : String) :
    (Stage.matrix outer).complaint word =
      "unexpected " ++ word ++ (" in " ++ outer.matrixName ++ " matrix") := by
  change "unexpected " ++ word ++ " in " ++ outer.matrixName ++ " matrix" = _
  simp only [String.append_assoc]

theorem judges_matrixForm (outer : Junctor) (flat : Bool) (f : Formula) :
    (Stage.matrix outer).Judges f.subformulas (f.matrixForm outer flat) :=
  judges_build (judges_distributed outer f)

/-! ### Clauses -/

theorem judges_ofPart (f : Formula) : Stage.clauses.Judges [f] (Literal.ofPart f) := by
  by_cases literal : f.IsLiteral
  · obtain ⟨l, read⟩ := ShapeLemmas.exists_ofPart literal
    rw [read]
    exact judges_cons (not_not.mpr literal) judges_ok
  · have unread : Literal.ofFormula? f = none := by
      cases f with
      | atom p => exact absurd trivial literal
      | neg f =>
          cases f with
          | atom p => exact absurd ⟨p, rfl⟩ literal
          | _ => rfl
      | _ => rfl
    rw [Literal.ofPart, unread]
    exact judges_error literal

theorem judges_ofFormula (f : Formula) :
    Stage.clauses.Judges f.clauseParts (ClauseSet.ofFormula f) := by
  refine judges_mapM fun c _ => ?_
  have parts : Stage.clauses.Judges ((c.spine .disj).flatMap fun g => [g])
      ((c.spine .disj).mapM Literal.ofPart) := judges_mapM fun g _ => judges_ofPart g
  rwa [List.flatMap_singleton'] at parts

/-- What is listed of the parts of a spine stands in the formula in the same order, if what is listed
of each part does. -/
theorem flatMap_spine_sublist (op : Junctor) {list : Formula → List Formula}
    (each : ∀ g, (list g).Sublist g.subformulas) (f : Formula) :
    ((f.spine op).flatMap list).Sublist f.subformulas := by
  induction f using SpineLemmas.spine_induction op with
  | part f part =>
      rw [SpineLemmas.spine_of_ne part, List.flatMap_singleton]
      exact each f
  | junction a b rest ih =>
      rw [spine_junction, List.flatMap_assoc, subformulas_junction]
      refine .cons _ ?_
      generalize a :: b :: rest = fs at ih
      induction fs with
      | nil => exact .slnil
      | cons f fs ihs =>
          rw [List.forall_mem_cons] at ih
          exact ih.1.append (ihs ih.2)

theorem clauseParts_sublist (f : Formula) : f.clauseParts.Sublist f.subformulas := by
  refine flatMap_spine_sublist .conj (fun c => ?_) f
  have self : ∀ g : Formula, [g].Sublist g.subformulas := fun g =>
    List.singleton_sublist.mpr g.self_mem_subformulas
  have parts := flatMap_spine_sublist .disj self c
  rwa [List.flatMap_singleton'] at parts

/-! ### Skolem form -/

theorem judges_dropQuantifiers (f : Formula) :
    Stage.skolem.Judges f.subformulas f.dropQuantifiers := by
  induction f using Formula.rec_memberList with
  | atom p =>
      rw [subformulas, dropQuantifiers]
      exact judges_cons id judges_ok
  | neg f ih =>
      rw [subformulas, dropQuantifiers]
      exact judges_cons id (judges_build ih)
  | junction op a b rest ih =>
      rw [subformulas_junction, dropQuantifiers]
      exact judges_cons id (judges_members ih)
  | imp a b _ _ | iff a b _ _ =>
      rw [subformulas, dropQuantifiers]
      exact judges_error trivial
  | quant q x f ih =>
      rw [subformulas, dropQuantifiers]
      exact judges_cons id ih

/-- Substitution keeps the operators, in their places. -/
theorem kinds_subst (f : Formula) (σ : Substitution) :
    (f.subst σ).subformulas.map kind = f.subformulas.map kind := by
  induction f using Formula.rec_memberList generalizing σ with
  | atom p => rw [subst, subformulas, subformulas]; rfl
  | neg f ih =>
      rw [subst, subformulas, subformulas, List.map_cons, List.map_cons, ih]
      rfl
  | junction op a b rest ih =>
      have members : ((a :: b :: rest).map (subst σ)).flatMap (fun f => f.subformulas.map kind) =
          (a :: b :: rest).flatMap fun f => f.subformulas.map kind := by
        rw [List.flatMap_map]
        exact List.flatMap_congr fun f member => ih f member σ
      rw [subst_junction, subformulas_junction, subformulas_junction, List.map_cons, List.map_cons,
        List.map_flatMap, List.map_flatMap]
      exact congrArg _ members
  | imp a b iha ihb | iff a b iha ihb =>
      rw [subst, subformulas, subformulas, List.map_cons, List.map_cons, List.map_append,
        List.map_append, iha, ihb]
      rfl
  | quant q x f ih =>
      rw [subst, subformulas, subformulas, List.map_cons, List.map_cons, ih]
      rfl

theorem isArrow_iff_kind : f.IsArrow ↔ f.kind = .imp ∨ f.kind = .iff := by
  cases f with
  | junction op a b rest => cases op <;> simp [IsArrow, kind, Junctor.kind]
  | quant q x f => cases q <;> simp [IsArrow, kind, Quantifier.kind]
  | _ => simp [IsArrow, kind]

/-- The terms that are put in make no difference to what is refused. -/
theorem judges_skolemize (stems : SkolemStems) (bindings : Prefix) (f : Formula) :
    Stage.skolem.Judges f.subformulas (skolemize stems bindings f) := by
  have kinds : (f.substEach (skolemTerms stems [] 1 1 bindings)).subformulas.map kind =
      f.subformulas.map kind :=
    SkolemLemmas.substEach_induction (fun g σ (same : g.subformulas.map kind = f.subformulas.map kind) =>
      (kinds_subst g σ).trans same) _ rfl
  refine judges_build (judges_of_kinds kinds (fun g h same => ?_) (judges_dropQuantifiers _))
  rw [Forbids, Forbids, isArrow_iff_kind, isArrow_iff_kind, same]

end

end CulpritLemmas

/-! ## Main result -/

open CulpritLemmas in
/-- Pushing negations inwards refuses the formulas with an implication or an equivalence; pulling
quantifiers also those with a negation before something else than an atom; the conjunctive and the
disjunctive normal form also those with a quantifier. Clauses are read off unless some part of a
disjunction is no literal, and the Skolem form is refused as by pushing negations inwards. What the
message names is the first that is forbidden. Expanding equivalences and implications, flattening, and
renaming apart with a nonempty base refuse no formula. -/
theorem refusesFirst_steps (f : Formula) :
    Stage.negations.RefusesFirst "unexpected " " in NNF conversion"
        f.subformulas f.negationNormal ∧
      Stage.prenex.RefusesFirst "unexpected " " in prenex extraction; expecting NNF"
        f.subformulas f.prenex ∧
      (∀ flat, (Stage.matrix .conj).RefusesFirst "unexpected " " in CNF matrix"
        f.subformulas (f.matrixForm .conj flat)) ∧
      (∀ flat, (Stage.matrix .disj).RefusesFirst "unexpected " " in DNF matrix"
        f.subformulas (f.matrixForm .disj flat)) ∧
      Stage.clauses.RefusesFirst "invalid literal " " in CNF"
        f.clauseParts (ClauseSet.ofFormula f) ∧
      f.clauseParts.Sublist f.subformulas ∧
      (∀ stems bindings, Stage.skolem.RefusesFirst "unexpected " " in Skolemization"
        f.subformulas (skolemize stems bindings f)) ∧
      Value.expandIff (.formula f) = .ok f.expandIff ∧
      Value.expandImp (.formula f) = .ok f.expandImp ∧
      Value.flatten (.formula f) = .formula f.flatten ∧
      ∀ base, base ≠ "" → Value.renameApart (.formula f) (.text base) = .ok (f.renameApart base) := by
  refine ⟨refusesFirst_of_judges (fun _ => rfl) (judges_pushNegations f .positive),
    refusesFirst_of_judges (fun _ => rfl) (judges_prenex f),
    fun flat => refusesFirst_of_judges (complaint_matrix .conj) (judges_matrixForm .conj flat f),
    fun flat => refusesFirst_of_judges (complaint_matrix .disj) (judges_matrixForm .disj flat f),
    refusesFirst_of_judges (fun _ => rfl) (judges_ofFormula f), clauseParts_sublist f,
    fun stems bindings => refusesFirst_of_judges (fun _ => rfl) (judges_skolemize stems bindings f),
    rfl, rfl, rfl, fun base named => ?_⟩
  change (Value.renameFormula (.text base) f).mapError StepError.construction = _
  rw [ApartLemmas.renameFormula_text named]
  rfl

open CulpritLemmas in
/-- In `∃x ¬(P(x) ∧ (Q → R))` the steps come to different places that they have no rule for: the
implication is the only arrow, the negation comes before it, and the quantifier before both. -/
theorem refusesFirst_steps_implication :
    let f : Formula := .quant .ex "x" (.neg (.conj (.atom ⟨"P", [.var "x"]⟩)
      (.imp (.atom ⟨"Q", []⟩) (.atom ⟨"R", []⟩))))
    (∃ r, f.negationNormal = .error r ∧ r.message = "unexpected Implies in NNF conversion") ∧
      (∃ r, f.prenex = .error r ∧
        r.message = "unexpected Not in prenex extraction; expecting NNF") ∧
      (∃ r, f.matrixForm .conj true = .error r ∧ r.message = "unexpected Ex in CNF matrix") ∧
      (∃ r, f.matrixForm .disj false = .error r ∧ r.message = "unexpected Ex in DNF matrix") ∧
      (∃ r, ClauseSet.ofFormula f = .error r ∧ r.message = "invalid literal Ex in CNF") ∧
      (∃ r, skolemize ⟨"c", "f"⟩ [⟨.all, "y"⟩] f = .error r ∧
        r.message = "unexpected Implies in Skolemization") ∧
      Value.renameApart (.formula f) (.text "v") = .ok (f.renameApart "v") := by
  intro f
  obtain ⟨pushed, pulled, conjunctive, disjunctive, read, -, replaced, -, -, -, renamed⟩ :=
    refusesFirst_steps f
  exact ⟨message_of_refusesFirst pushed .imp (by cbv) (by decide),
    message_of_refusesFirst pulled .neg (by cbv) (by decide),
    message_of_refusesFirst (conjunctive true) .ex (by cbv) (by decide),
    message_of_refusesFirst (disjunctive false) .ex (by cbv) (by decide),
    message_of_refusesFirst read .ex (by cbv) (by decide),
    message_of_refusesFirst (replaced ⟨"c", "f"⟩ [⟨.all, "y"⟩]) .imp (by cbv) (by decide),
    renamed "v" (by decide)⟩

end Clausal
