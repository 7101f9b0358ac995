import Clausal.Clause.Semantics
import Clausal.Proofs.Assembly
import Clausal.Proofs.Rendering
import Clausal.Proofs.Totality

/-!
# Models of the clauses of a conversion

The clauses that are read off a formula say what the formula says. Therefore every model of the clauses
of a conversion is a model of the formula that was converted. Conversely, a model of a formula without
free variables becomes a model of the clauses when the Skolem symbols get a suitable meaning, which
needs that the formula does not have these symbols itself.

* `ClauseSetLemmas.satisfiedBy_ofFormula`: the clauses of a formula.
* `holds_formula_of_isValidIn_clauses`: from the clauses to the formula.
* `exists_isValidIn_clauses`: from the formula to the clauses.
* `unsatisfiable_clauses_of_reused_symbol`: without new Skolem symbols the latter fails.
-/

namespace Clausal

/-! ## Clauses of a formula -/

namespace ClauseSetLemmas

open Formula

variable {f : Formula} {D : Type u} {I : Interpretation D} {s : String → D}

/-- The literals of a disjunction say what it says. -/
theorem satisfiedBy_clause_ofFormula {c : Clause} (read : Clause.ofFormula f = .ok c) :
    Clause.SatisfiedBy (Atom.Holds I s) c ↔ f.Holds I s := by
  unfold Clause.ofFormula at read
  have parts : List.Forall₂ (fun g l => g.Holds I s ↔ l.SatisfiedBy (Atom.Holds I s))
      (f.spine .disj) c := by
    refine (MemberLemmas.mapM_eq_ok.mp read).imp fun g l read => ?_
    rw [← ShapeLemmas.toFormula_of_ofPart read]
    exact ClauseLemmas.holds_toFormula
  rw [← SpineLemmas.joins_spine .disj f, JoinLemmas.joins_congr_forall₂ parts,
    SemanticsLemmas.joins_map]
  rfl

/-- The clauses of a formula say what it says. -/
theorem satisfiedBy_ofFormula {cs : ClauseSet} (read : ClauseSet.ofFormula f = .ok cs) :
    cs.SatisfiedBy (Atom.Holds I s) ↔ f.Holds I s := by
  unfold ClauseSet.ofFormula at read
  have parts : List.Forall₂ (fun g c => g.Holds I s ↔ Clause.SatisfiedBy (Atom.Holds I s) c)
      (f.spine .conj) cs :=
    (MemberLemmas.mapM_eq_ok.mp read).imp fun g c read => (satisfiedBy_clause_ofFormula read).symm
  rw [← SpineLemmas.joins_spine .conj f, JoinLemmas.joins_congr_forall₂ parts,
    SemanticsLemmas.joins_map]
  rfl

end ClauseSetLemmas

/-! ## The Skolem form of a conversion -/

namespace RecordLemmas

variable {c : Conversion} {o : Options} {text : String}

/-- The clauses of a conversion say what its Skolem form says. -/
theorem isValidIn_clauses_iff (records : c.Records o text) {D : Type u} {I : Interpretation D} :
    c.clauses.IsValidIn I ↔ ∀ s, c.skolem.matrix.Holds I s :=
  forall_congr' fun _ => ClauseSetLemmas.satisfiedBy_ofFormula records.clauses

/-- The Skolem form of a formula without free variables has universal variables only. -/
theorem mem_universals_of_closed (records : c.Records o text) (closed : c.formula.free [] = [])
    {x : String} (found : x ∈ c.skolem.matrix.free []) : x ∈ c.prenex.quantifiers.universals := by
  rw [(skolem_eq records).2] at found
  have quantifierFree := NormalFormLemmas.isQuantifierFree_matrixForm records.cnf
  rcases SkolemLemmas.mem_free_substEach quantifierFree found with before | universal | free
  · exact absurd before List.not_mem_nil
  · exact universal
  · have outside : x ∈ c.formula.free [] := mem_free_of_cnfFormula records free
    rw [closed] at outside
    exact absurd outside List.not_mem_nil

end RecordLemmas

/-! ## From the clauses to the formula -/

/-- In an interpretation in which the clauses of a conversion hold for all values of the variables,
the formula that was converted holds for all values of its free variables. -/
theorem holds_formula_of_isValidIn_clauses {logger : Logger} {request : ConversionRequest}
    {c : Conversion} (answered : (logger.run request).1.result = .ok c) {D : Type u}
    {I : Interpretation D} (valid : c.clauses.IsValidIn I) (s : String → D) :
    c.formula.Holds I s := by
  obtain ⟨o, _, records⟩ := ConversionLemmas.records_of_run answered
  have everywhere := (RecordLemmas.isValidIn_clauses_iff records).mp valid
  rw [(RecordLemmas.skolem_eq records).2] at everywhere
  have quantified : c.cnfFormula.Holds I s :=
    SkolemLemmas.holds_quantify_of_holds_skolem
      (NormalFormLemmas.isQuantifierFree_matrixForm records.cnf) (RecordLemmas.nodup_names records)
      fun t _ => everywhere t
  exact (RecordLemmas.sameMeaning_cnfFormula records I s).mpr quantified

/-- The symbol `f1` stands in the text and is also the Skolem symbol of `y`; the variable `z` is
free. -/
theorem holds_formula_of_clauses_reused_symbol :
    let I : Interpretation Nat :=
      ⟨fun _ args => args.getD 0 0 + 1, fun _ args => 0 < args.getD 0 0⟩
    ∃ c, (({} : Logger).run ⟨"∀x ∃y (Q(z, y) ∨ P(f1(x)))", []⟩).1.result = .ok c ∧
      c.clauses.IsValidIn I ∧ ∀ s, c.formula.Holds I s := by
  intro I
  let matrix (x : String) (t : Term) : Formula :=
    .disj (.atom ⟨"Q", [.var "z", t]⟩) (.atom ⟨"P", [.app "f1" [.var x]]⟩)
  let f : Formula := .quant .all "x" (.quant .ex "y" (matrix "x" (.var "y")))
  let p : PrenexForm := ⟨[⟨.all, "x1"⟩, ⟨.ex, "x2"⟩], matrix "x1" (.var "x2")⟩
  let t : Term := .app "f1" [.var "x1"]
  have readable : f.IsReadable := by
    simp [f, matrix, Formula.IsReadable, Atom.IsReadable, Term.IsReadable, isName, isNameStart,
      isNameChar]
  have parsed : Formula.parse "∀x ∃y (Q(z, y) ∨ P(f1(x)))" = .ok f :=
    RenderingLemmas.parse_of_render ⟨readable, by cbv⟩ (by cbv)
  have pushed : f.expandIff.expandImp.negationNormal = .ok f := by cbv
  have pulled : (f.renameApart "x").formula.prenex = .ok p := by cbv
  have formed : p.matrix.matrixForm .conj true = .ok p.matrix :=
    AssemblyLemmas.matrixForm_of_isFlatMatrix
      (by simp [p, matrix, Formula.IsFlatMatrix, Formula.IsPart, Formula.IsLiteral,
        Junctor.dual])
  have made : skolemTerms ({} : Options).stems [] 1 1 p.quantifiers = [("x2", t)] := by cbv
  have replaced : p.matrix.substEach [("x2", t)] = matrix "x1" t := by
    change p.matrix.subst (Substitution.single "x2" t) = _
    cbv
  have read : ClauseSet.ofFormula (p.matrix.substEach [("x2", t)]) =
      .ok [[⟨false, ⟨"Q", [.var "z", t]⟩⟩, ⟨false, ⟨"P", [t]⟩⟩]] := by
    rw [replaced]
    cbv
  obtain ⟨c, answered, -, -, clauses⟩ := TotalityLemmas.exists_run_of_steps {}
    ⟨"∀x ∃y (Q(z, y) ∨ P(f1(x)))", []⟩ rfl rfl rfl (by decide) parsed pushed pulled formed made read
  have valid : c.clauses.IsValidIn I := by
    intro s
    rw [clauses]
    simp [ClauseSet.SatisfiedBy, Clause.SatisfiedBy, Literal.SatisfiedBy, Atom.Holds, Term.value, I,
      t]
  exact ⟨c, answered, valid, holds_formula_of_isValidIn_clauses answered valid⟩

/-! ## From the formula to the clauses -/

/-- If a formula without free variables holds in an interpretation, and no Skolem symbol that its
conversion makes occurs in it, the clauses hold for all values of the variables after a change of the
Skolem symbols only. The domain stays; it is not empty, because there is an assignment. -/
theorem exists_isValidIn_clauses {logger : Logger} {request : ConversionRequest} {c : Conversion}
    (answered : (logger.run request).1.result = .ok c) (closed : c.formula.free [] = [])
    (fresh : ∀ g ∈ skolemSymbols c.skolem.terms, g ∉ c.formula.symbols) {D : Type u}
    {I : Interpretation D} {s : String → D} (holds : c.formula.Holds I s) :
    ∃ J : Interpretation D, J.AgreesOutside I (skolemSymbols c.skolem.terms) ∧
      c.clauses.IsValidIn J := by
  obtain ⟨o, _, records⟩ := ConversionLemmas.records_of_run answered
  obtain ⟨terms, matrix⟩ := RecordLemmas.skolem_eq records
  have quantified : c.cnfFormula.Holds I s :=
    (RecordLemmas.sameMeaning_cnfFormula records I s).mp holds
  rw [terms] at fresh ⊢
  have unused : ∀ g ∈ skolemSymbols (skolemTerms o.stems [] 1 1 c.prenex.quantifiers),
      g ∉ c.cnf.symbols :=
    fun g listed inside => fresh g listed ((RecordLemmas.mem_symbols_cnf records).mp inside)
  obtain ⟨J, agrees, found⟩ := SkolemLemmas.exists_interpretation_skolem
    (NormalFormLemmas.isQuantifierFree_matrixForm records.cnf) (RecordLemmas.nodup_names records)
    unused quantified
  refine ⟨J, agrees, (RecordLemmas.isValidIn_clauses_iff records).mpr fun t => ?_⟩
  -- The variables of the Skolem form are universal, so that the other values of `t` do not matter.
  let t' : String → D := fun x => if x ∈ c.prenex.quantifiers.universals then t x else s x
  have held : c.skolem.matrix.Holds J t' := by
    rw [matrix]
    exact found t' fun y outside => if_neg outside
  refine (MeaningLemmas.holds_congr fun x inside => ?_).mp held
  exact if_pos (RecordLemmas.mem_universals_of_closed records closed inside)

namespace ClauseSetLemmas

/-- What a text is converted to that says that some value has a property which no value of a function
symbol has. The Skolem symbol of `y` is `f1`, whatever this symbol is. -/
theorem exists_run_of_distinguished {g text : String}
    (parsed : Formula.parse text = .ok (.quant .all "x" (.quant .ex "y"
      (.conj (.atom ⟨"P", [.var "y"]⟩) (.neg (.atom ⟨"P", [.app g [.var "x"]]⟩)))))) :
    ∃ c, (({} : Logger).run ⟨text, []⟩).1.result = .ok c ∧
      c.formula = .quant .all "x" (.quant .ex "y"
        (.conj (.atom ⟨"P", [.var "y"]⟩) (.neg (.atom ⟨"P", [.app g [.var "x"]]⟩)))) ∧
      c.skolem.terms = [("x2", .app "f1" [.var "x1"])] ∧
      c.clauses = [[⟨false, ⟨"P", [.app "f1" [.var "x1"]]⟩⟩],
        [⟨true, ⟨"P", [.app g [.var "x1"]]⟩⟩]] := by
  let matrix (x : String) (t : Term) : Formula :=
    .conj (.atom ⟨"P", [t]⟩) (.neg (.atom ⟨"P", [.app g [.var x]]⟩))
  let f : Formula := .quant .all "x" (.quant .ex "y" (matrix "x" (.var "y")))
  let p : PrenexForm := ⟨[⟨.all, "x1"⟩, ⟨.ex, "x2"⟩], matrix "x1" (.var "x2")⟩
  let t : Term := .app "f1" [.var "x1"]
  have pushed : f.expandIff.expandImp.negationNormal = .ok f := by cbv
  have pulled : (f.renameApart "x").formula.prenex = .ok p := by cbv
  have formed : p.matrix.matrixForm .conj true = .ok p.matrix :=
    AssemblyLemmas.matrixForm_of_isFlatMatrix
      (by simp [p, matrix, Formula.IsFlatMatrix, Formula.IsPart, Formula.IsLiteral])
  have made : skolemTerms ({} : Options).stems [] 1 1 p.quantifiers = [("x2", t)] := by cbv
  have replaced : p.matrix.substEach [("x2", t)] = matrix "x1" t := by
    change p.matrix.subst (Substitution.single "x2" t) = _
    cbv
  have read : ClauseSet.ofFormula (p.matrix.substEach [("x2", t)]) =
      .ok [[⟨false, ⟨"P", [t]⟩⟩], [⟨true, ⟨"P", [.app g [.var "x1"]]⟩⟩]] := by
    rw [replaced]
    cbv
  exact TotalityLemmas.exists_run_of_steps {} ⟨text, []⟩ rfl rfl rfl (by decide) parsed pushed pulled
    formed made read

end ClauseSetLemmas

/-- The symbol `g` of the text is not the Skolem symbol `f1` of `y`. -/
theorem exists_isValidIn_clauses_new_symbol :
    ∃ c, (({} : Logger).run ⟨"∀x ∃y (P(y) ∧ ¬P(g(x)))", []⟩).1.result = .ok c ∧
      ∃ J : Interpretation Bool, J.function "g" [true] = false ∧ c.clauses.IsValidIn J := by
  let f : Formula := .quant .all "x" (.quant .ex "y"
    (.conj (.atom ⟨"P", [.var "y"]⟩) (.neg (.atom ⟨"P", [.app "g" [.var "x"]]⟩))))
  have readable : f.IsReadable := by
    simp [f, Formula.IsReadable, Atom.IsReadable, Term.IsReadable, isName, isNameStart]
  have parsed : Formula.parse "∀x ∃y (P(y) ∧ ¬P(g(x)))" = .ok f :=
    RenderingLemmas.parse_of_render ⟨readable, by cbv⟩ (by cbv)
  obtain ⟨c, answered, formula, terms, -⟩ := ClauseSetLemmas.exists_run_of_distinguished parsed
  let I : Interpretation Bool := ⟨fun _ _ => false, fun _ args => args.getD 0 false = true⟩
  have closed : c.formula.free [] = [] := by
    rw [formula]
    simp [Formula.free, Atom.variableNames, Term.variableNames]
  have fresh : ∀ g ∈ skolemSymbols c.skolem.terms, g ∉ c.formula.symbols := by
    rw [formula, terms]
    simp [skolemSymbols, Formula.symbols, Formula.atoms, Atom.symbols, Term.symbols]
  have holds : c.formula.Holds I fun _ => false := by
    rw [formula]
    simp [Formula.Holds, Junctor.Joins, Quantifier.Binds, Atom.Holds, Term.value, I]
  obtain ⟨J, agrees, valid⟩ := exists_isValidIn_clauses answered closed fresh holds
  refine ⟨c, answered, J, agrees.2 "g" [true] ?_, valid⟩
  rw [terms]
  simp [skolemSymbols, Term.symbols]

/-- If the text has the symbol that is made for `y`, satisfiability can get lost: that some value has a
property which no value of `f1` has is true in some interpretation, but the clauses say of each value
of `f1` that it has the property and that it has not. -/
theorem unsatisfiable_clauses_of_reused_symbol.{u} :
    ∃ c, (({} : Logger).run ⟨"∀x ∃y (P(y) ∧ ¬P(f1(x)))", []⟩).1.result = .ok c ∧
      c.formula.free [] = [] ∧
      (∃ (I : Interpretation Bool) (s : String → Bool), c.formula.Holds I s) ∧
      ∀ {D : Type u} (I : Interpretation D), Nonempty D → ¬ c.clauses.IsValidIn I := by
  let f : Formula := .quant .all "x" (.quant .ex "y"
    (.conj (.atom ⟨"P", [.var "y"]⟩) (.neg (.atom ⟨"P", [.app "f1" [.var "x"]]⟩))))
  have readable : f.IsReadable := by
    simp [f, Formula.IsReadable, Atom.IsReadable, Term.IsReadable, isName, isNameStart, isNameChar]
  have parsed : Formula.parse "∀x ∃y (P(y) ∧ ¬P(f1(x)))" = .ok f :=
    RenderingLemmas.parse_of_render ⟨readable, by cbv⟩ (by cbv)
  obtain ⟨c, answered, formula, -, clauses⟩ := ClauseSetLemmas.exists_run_of_distinguished parsed
  refine ⟨c, answered, ?closed, ⟨⟨fun _ _ => false, fun _ args => args.getD 0 false = true⟩,
    fun _ => false, ?holds⟩, ?unsatisfiable⟩
  case closed =>
    rw [formula]
    simp [Formula.free, Atom.variableNames, Term.variableNames]
  case holds =>
    rw [formula]
    simp [Formula.Holds, Junctor.Joins, Quantifier.Binds, Atom.Holds, Term.value]
  case unsatisfiable =>
    rintro D I ⟨d⟩ valid
    have both := valid fun _ => d
    rw [clauses] at both
    simp [ClauseSet.SatisfiedBy, Clause.SatisfiedBy, Literal.SatisfiedBy, Atom.Holds] at both

end Clausal
