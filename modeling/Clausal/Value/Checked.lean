import Clausal.Value.Steps

/-!
# Unchecked values that pass their checks

Construction and conversion of unchecked values extend those of terms, formulas, prefixes and clauses: on
values that pass their checks the result is the same.

* `ValueLemmas.substitute_ofPairs`: substituting terms for variables.
* `ValueLemmas.buildPrefix_toPairs`: building a prefix from its own pairs.
* `ValueLemmas.signedLiterals_toValue`, `ValueLemmas.isHornClauseSet_toValue`,
  `ValueLemmas.clauseFormula_toValue`: the literals of one sign, the class of a clause set, and the
  formula of a clause.
* `ValueLemmas.skolemize_toPairs`: the Skolem form of a prefix and a formula.
-/

namespace Clausal

/-- The substitution by values that is given by pairs of a variable and a term. -/
def ValueSubstitution.ofPairs (pairs : List (String × Term)) : ValueSubstitution :=
  pairs.map fun pair => (.term (.var pair.1), .term pair.2)

namespace ValueLemmas

/-! ## Substitution -/

theorem termMisplaced_eq_nil (t : Term) : t.misplaced (fun _ => none) = [] := by
  induction t using Term.subst.induct with
  | case1 x => simp [Term.misplaced]
  | case2 f ts ih =>
      simp only [Term.misplaced, List.append_eq_nil_iff, List.flatMap_eq_nil_iff,
        List.filterMap_eq_nil_iff]
      exact ⟨ih, fun t _ => by cases t <;> rfl⟩

theorem misplaced_eq_nil (f : Formula) : f.misplaced (fun _ => none) = [] := by
  induction f using Formula.rec_members with
  | atom p =>
      rw [Formula.misplaced]
      exact termMisplaced_eq_nil _
  | junction op a b rest iha ihb ih =>
      simp only [Formula.misplaced, iha, ihb, List.nil_append, List.flatMap_eq_nil_iff]
      exact ih
  | quant q x f ih => simpa [Formula.misplaced] using ih
  | _ => simp_all [Formula.misplaced]

/-- Of the pairs for a variable the last counts. -/
theorem ofPairs_eq_getD (pairs : List (String × Term)) (x : String) :
    Substitution.ofPairs pairs x =
      ((pairs.reverse.find? (·.1 == x)).map (·.2)).getD (.var x) := by
  change _ = Option.getD _ (Substitution.identity x)
  unfold Substitution.ofPairs
  generalize Substitution.identity = σ
  induction pairs generalizing σ with
  | nil => rfl
  | cons pair pairs ih =>
      rw [List.foldl_cons, ih, List.reverse_cons, List.find?_append]
      cases pairs.reverse.find? (·.1 == x) with
      | some later => rfl
      | none =>
          by_cases same : pair.1 = x
          · simp [same, assign]
          · simp [same, assign, Ne.symm same]

theorem find?_ofPairs (pairs : List (String × Term)) (x : String) :
    (ValueSubstitution.ofPairs pairs).find? x =
      ((pairs.reverse.find? (·.1 == x)).map (·.2)).map .term := by
  rw [ValueSubstitution.find?, ValueSubstitution.ofPairs, ← List.map_reverse, List.find?_map,
    Option.map_map, Option.map_map]
  rfl

/-- Substituting terms for variables in a formula cannot go wrong. -/
theorem substitute_ofPairs (pairs : List (String × Term)) (f : Formula) :
    Value.substitute (ValueSubstitution.ofPairs pairs) (.formula f) =
      .ok (.formula (f.subst (Substitution.ofPairs pairs))) := by
  have wrong : (ValueSubstitution.ofPairs pairs).wrong? = fun _ => none := by
    funext x
    rw [ValueSubstitution.wrong?, find?_ofPairs]
    cases (pairs.reverse.find? (·.1 == x)).map (·.2) <;> rfl
  have terms : (ValueSubstitution.ofPairs pairs).terms = Substitution.ofPairs pairs := by
    funext x
    rw [ValueSubstitution.terms, find?_ofPairs, ofPairs_eq_getD]
    cases (pairs.reverse.find? (·.1 == x)).map (·.2) <;> rfl
  simp only [Value.substitute, wrong, misplaced_eq_nil, terms]

/-! ## Prefixes -/

theorem buildPrefix_toPairs (bindings : Prefix) :
    Value.buildPrefix bindings.toPairs = .ok bindings := by
  induction bindings with
  | nil => rfl
  | cons b inner ih =>
      obtain ⟨q, x⟩ := b
      rw [Value.buildPrefix, Prefix.toPairs] at ih
      rw [Value.buildPrefix, Prefix.toPairs, List.map_cons, List.mapM_cons, ih]
      cases q <;> rfl

/-! ## Clauses -/

theorem signedLiterals_toValue (negated : Bool) (c : Clause) :
    Value.signedLiterals negated (c.map Literal.toValue) =
      ((if negated then c.negative else c.positive).map Literal.toValue) := by
  have signs : Value.hasSign negated ∘ Literal.toValue = fun l => l.negated == negated := rfl
  rw [Value.signedLiterals, List.filter_map, signs]
  cases negated <;> simp [Clause.negative, Clause.positive]

theorem isHornClause_toValue (c : Clause) :
    Value.isHornClause (c.map Literal.toValue) = c.isHorn := by
  rw [Value.isHornClause, signedLiterals_toValue, List.length_map]
  rfl

theorem isHornClauseSet_toValue (cs : ClauseSet) :
    Value.isHornClauseSet (cs.map Clause.toValue) = cs.isHorn := by
  rw [Value.isHornClauseSet, ClauseSet.isHorn, List.all_map]
  exact congrArg cs.all (funext isHornClause_toValue)

theorem literalFormula_toValue (l : Literal) :
    Value.literalFormula l.toValue = .ok (.formula l.toFormula) := by
  obtain ⟨negated, p⟩ := l
  cases negated <;> rfl

theorem mapM_literalFormula (c : Clause) :
    (c.map Literal.toValue).mapM Value.literalFormula =
      .ok (c.map fun l => .formula l.toFormula) := by
  induction c with
  | nil => rfl
  | cons l rest ih =>
      rw [List.map_cons, List.mapM_cons, literalFormula_toValue, ih]
      rfl

theorem mapM_checkFormula (fs : List Formula) :
    (fs.map Value.formula).mapM Value.checkFormula = .ok fs := by
  induction fs with
  | nil => rfl
  | cons f rest ih =>
      rw [List.map_cons, List.mapM_cons, ih]
      rfl

/-- Joining formulas that are handed over as values joins the formulas. -/
theorem joinAll_formulas (op : Junctor) (f : Formula) (rest : List Formula) :
    Value.joinAll op ((f :: rest).map .formula) = .ok (.formula (Formula.joinAll op f rest)) := by
  cases rest with
  | nil => rfl
  | cons g others =>
      have parts := mapM_checkFormula others
      simp only [List.map_cons, Value.joinAll, Value.buildJunction, Value.checkFormula, parts]
      rfl

theorem clauseFormula_toValue (c : Clause) :
    Value.clauseFormula (c.map Literal.toValue) =
      match c.toFormula? with
      | some f => .ok (.formula f)
      | none => .error .emptyClause := by
  cases c with
  | nil => rfl
  | cons l rest =>
      have parts := mapM_literalFormula (l :: rest)
      have joined := joinAll_formulas .disj l.toFormula (rest.map Literal.toFormula)
      rw [List.map_cons, List.map_map] at joined
      rw [Value.clauseFormula, parts]
      exact joined

/-! ## Skolem form -/

theorem mapM_checkTerm (names : List String) :
    (names.map fun x => Value.term (.var x)).mapM Value.checkTerm = .ok (names.map .var) := by
  induction names with
  | nil => rfl
  | cons x others ih =>
      rw [List.map_cons, List.mapM_cons, ih]
      rfl

theorem skolemTerms_toPairs (stems : SkolemStems) (universals : List String)
    (constants functions : Nat) (bindings : Prefix) :
    Value.skolemTerms stems (universals.map fun x => .term (.var x)) constants functions
        bindings.toPairs =
      .ok ((skolemTerms stems universals constants functions bindings).map fun pair =>
        (.term (.var pair.1), pair.2)) := by
  induction bindings generalizing universals constants functions with
  | nil => rfl
  | cons b inner ih =>
      obtain ⟨q, x⟩ := b
      cases q with
      | all =>
          have longer := ih (universals ++ [x]) constants functions
          rw [List.map_append] at longer
          exact longer
      | ex =>
          cases universals with
          | nil =>
              have later := ih [] (constants + 1) functions
              change
                (Value.skolemTerms stems [] (constants + 1) functions (Prefix.toPairs inner) >>= _) = _
              rw [List.map_nil] at later
              rw [later]
              rfl
          | cons y ys =>
              have later := ih (y :: ys) constants (functions + 1)
              change (((((y :: ys).map fun z => Value.term (.var z)).mapM Value.checkTerm).mapError
                StepError.construction) >>= fun args =>
                  Value.skolemTerms stems ((y :: ys).map fun z => .term (.var z)) constants
                    (functions + 1) (Prefix.toPairs inner) >>= _) = _
              rw [mapM_checkTerm, later]
              rfl

theorem foldlM_substitute (terms : List (String × Term)) (f : Formula) :
    (terms.map fun pair => (Value.term (.var pair.1), pair.2)).foldlM
        (fun w pair => Value.substitute [(pair.1, .term pair.2)] w) (.formula f) =
      .ok (.formula (terms.foldl (fun g pair => g.subst (Substitution.single pair.1 pair.2)) f)) := by
  induction terms generalizing f with
  | nil => rfl
  | cons pair others ih =>
      have put : Value.substitute [(.term (.var pair.1), .term pair.2)] (.formula f) =
          .ok (.formula (f.subst (Substitution.single pair.1 pair.2))) := substitute_ofPairs [pair] f
      rw [List.map_cons, List.foldlM_cons, put]
      exact ih _

section
variable {ε ε' α : Type} {cause : ε → ε'}

theorem mapError_ok {a : α} : (Except.ok a).mapError cause = .ok a := rfl

theorem mapError_error {e : ε} : (Except.error e : Except ε α).mapError cause = .error (cause e) :=
  rfl

end

/-- On a prefix and a formula, the unchecked Skolem form is the Skolem form. -/
theorem skolemize_toPairs (stems : SkolemStems) (bindings : Prefix) (f : Formula) :
    Value.skolemize stems bindings.toPairs (.formula f) =
      (skolemize stems bindings f).mapError .refused := by
  have terms := skolemTerms_toPairs stems [] 1 1 bindings
  rw [List.map_nil] at terms
  rw [Value.skolemize, terms]
  simp only [bind, Except.bind, foldlM_substitute, mapError_ok, Value.formulaFor, skolemize]
  cases dropped : ((skolemTerms stems [] 1 1 bindings).foldl
    (fun g pair => g.subst (Substitution.single pair.1 pair.2)) f).dropQuantifiers with
  | error refusal => simp only [mapError_error]
  | ok g => simp [mapError_ok, pure, Except.pure, Value.name, Term.name, Function.comp_def]

end ValueLemmas

end Clausal
