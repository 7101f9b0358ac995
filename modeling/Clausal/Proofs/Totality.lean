import Clausal.Proofs.NormalForms
import Clausal.Proofs.Refusals
import Clausal.Proofs.Shapes
import Clausal.Proofs.Skolem
import Clausal.Proofs.Spelling

/-!
# Every text is answered

A request can fail for its options, and then for its text. After that no step of the conversion
refuses what the step before it gives: negations are pushed inwards in a formula without arrows,
quantifiers are pulled out of a negation normal form, the matrix forms are made of a formula without
quantifiers, and clauses are read off a conjunction of disjunctions of literals, whose shape the Skolem
terms do not change.

* `Conversion.WellShaped` says what forms the results of a conversion have.
* `TotalityLemmas.exists_convert`, `TotalityLemmas.wellShaped_of_records`: a formula goes through
  all steps, and with which results.
* `TotalityLemmas.exists_run_of_steps`: a conversion from the results of its steps.
* `run_answers`: which texts are refused, with which errors, and what any other text is converted
  to.
-/

namespace Clausal

open Grammar

/-! ## Definitions -/

/-- The text holds a character that starts no token. -/
def ConversionError.IsLexical : ConversionError → Prop
  | .unreadable (.lexical _) => True
  | _ => False

/-- The tokens do not follow the grammar. -/
def ConversionError.IsSyntactic : ConversionError → Prop
  | .unreadable (.syntactic e) => e.IsSyntactic
  | _ => False

/-- The words of the tokens have a derivation as a formula. -/
def IsFormula (ts : List Token) : Prop :=
  ∃ d : Derivation (.formula (some .iff)), d.words = ts.map Token.word

/-- Each result of a conversion has the form that the next step needs. -/
structure Conversion.WellShaped (c : Conversion) : Prop where
  negationNormal : c.negationNormal.IsNegationNormal
  distinct : c.apart.formula.quantified.Nodup
  apart : ∀ x ∈ c.apart.formula.free [], x ∉ c.apart.formula.quantified
  quantifierFree : c.prenex.matrix.IsQuantifierFree
  cnf : c.cnf.IsFlatMatrix .conj
  dnf : c.dnf.IsFlatMatrix .disj
  skolem : ∀ b ∈ c.prenex.quantifiers, b.quantifier = .ex → b.name ∉ c.skolem.matrix.variableNames
  clauses : c.clauses ≠ [] ∧ ∀ clause ∈ c.clauses, clause ≠ []

/-! ## The Skolem form of a conversion -/

namespace RecordLemmas

variable {c : Conversion} {o : Options} {text : String}

/-- The Skolem form of a conversion has the Skolem terms put into the conjunctive normal form. -/
theorem skolem_eq (records : c.Records o text) :
    c.skolem.terms = skolemTerms o.stems [] 1 1 c.prenex.quantifiers ∧
      c.skolem.matrix = c.cnf.substEach (skolemTerms o.stems [] 1 1 c.prenex.quantifiers) := by
  have made := records.skolem
  rw [SkolemLemmas.skolemize_eq (NormalFormLemmas.isQuantifierFree_matrixForm records.cnf)
    (NormalFormLemmas.isArrowFree_matrixForm records.cnf)] at made
  have same := Except.ok.inj made
  rw [← same]
  exact ⟨rfl, rfl⟩

end RecordLemmas

namespace TotalityLemmas

/-! ## Texts that are not read -/

section
variable {o : Options} {text : String} {ts : List Token}

theorem result_run {logger : Logger} {request : ConversionRequest}
    (given : Options.ofEntries request.options = .ok o) (valid : o.level?.isSome) :
    (logger.run request).1.result = (convert o request.text).1 := by
  obtain ⟨level, found⟩ := Option.isSome_iff_exists.mp valid
  unfold Logger.run
  simp only [given, found]

/-- Tokens follow the grammar if they are read as a formula. -/
theorem isFormula_iff (named : WellNamed ts) : IsFormula ts ↔ ∃ f, Formula.ofTokens ts = .ok f := by
  simp only [RecognitionLemmas.ofTokens_eq_ok_iff_derivation
    (RecognitionLemmas.empty_not_mem_words named)]
  exact ⟨fun ⟨d, words⟩ => ⟨d.value, d, words, rfl⟩, fun ⟨_, d, words, _⟩ => ⟨d, words⟩⟩

/-- An error of the scanner ends the conversion. -/
theorem convert_of_unscanned {e : LexError} (failed : tokenize (unifySpellings text) = .error e) :
    (convert o text).1 = .error (.unreadable (.lexical e)) := by
  have fails : (convertAnnounced o text).Fails [] (.unreadable (.lexical e)) := by
    unfold convertAnnounced
    simp only [AnnouncedLemmas.fails_announce_bind, failed]
    exact AnnouncedLemmas.fails_lift_error
  exact fails

/-- An error of the parser ends the conversion. -/
theorem convert_of_unparsed {e : ReadError} (scanned : tokenize (unifySpellings text) = .ok ts)
    (failed : Formula.ofTokens ts = .error e) :
    (convert o text).1 = .error (.unreadable e) := by
  have fails : (convertAnnounced o text).Fails [] (.unreadable e) := by
    unfold convertAnnounced
    simp only [AnnouncedLemmas.fails_announce_bind, scanned, AnnouncedLemmas.fails_lift_ok, failed]
    exact AnnouncedLemmas.fails_lift_error
  exact fails

end

/-! ## Steps of a formula -/

section
variable {c : Conversion} {o : Options} {text : String} {f m : Formula} {base : String}

/-- The Skolem form of a matrix is a matrix. -/
theorem isMatrix_substEach {outer : Junctor} (shaped : m.IsMatrix outer)
    (terms : List (String × Term)) : (m.substEach terms).IsMatrix outer :=
  SkolemLemmas.substEach_induction (fun _ σ => ShapeLemmas.isMatrix_subst σ) terms shaped

/-- A text that is read as a formula is converted if the base is one that its quantifiers can be
renamed with: each later step accepts what the step before gives. -/
theorem exists_convert_of_renamed {ts : List Token} {n : Formula} {r : Renamed}
    (scanned : tokenize (unifySpellings text) = .ok ts) (parsed : Formula.ofTokens ts = .ok f)
    (pushed : f.expandIff.expandImp.negationNormal = .ok n)
    (renamed : Value.renameFormula o.variableBase n = .ok r) : ∃ c, (convert o text).1 = .ok c := by
  have normal : n.IsNegationNormal := NegationLemmas.isNegationNormal_pushNegations pushed
  obtain ⟨base, rfl⟩ := ApartLemmas.exists_base_of_renameFormula renamed
  obtain ⟨p, pulled⟩ :=
    PrenexLemmas.exists_prenex (ApartLemmas.isNegationNormal_renameApart base n normal)
  have forms := NormalFormLemmas.exists_matrixForm_of_prenex pulled
  obtain ⟨nestedCnf, inNestedCnf⟩ := forms .conj false
  obtain ⟨nestedDnf, inNestedDnf⟩ := forms .disj false
  obtain ⟨cnf, inCnf⟩ := forms .conj true
  obtain ⟨dnf, inDnf⟩ := forms .disj true
  have replaced : skolemize o.stems p.quantifiers cnf = .ok ⟨_, _⟩ :=
    SkolemLemmas.skolemize_eq (NormalFormLemmas.isQuantifierFree_matrixForm inCnf)
      (NormalFormLemmas.isArrowFree_matrixForm inCnf)
  obtain ⟨clauses, read, -⟩ := ShapeLemmas.exists_ofFormula
    (isMatrix_substEach (ShapeLemmas.isMatrix_matrixForm inCnf) _)
  have gives : ∃ c, (convertAnnounced o text).Gives [] c := by
    unfold convertAnnounced
    simp only [AnnouncedLemmas.gives_announce_bind, AnnouncedLemmas.gives_lift_bind,
      AnnouncedLemmas.gives_pure]
    exact ⟨_, ts, scanned, f, parsed, n, pushed, _, renamed, p, pulled, nestedCnf, inNestedCnf,
      nestedDnf, inNestedDnf, cnf, inCnf, dnf, inDnf, _, replaced, clauses, read, rfl⟩
  exact gives

/-- With a base that is a nonempty string, a text that is read as a formula is converted. -/
theorem exists_convert {ts : List Token} (based : o.variableBase = .text base) (named : base ≠ "")
    (scanned : tokenize (unifySpellings text) = .ok ts) (parsed : Formula.ofTokens ts = .ok f) :
    ∃ c, (convert o text).1 = .ok c := by
  obtain ⟨n, pushed⟩ := NormalFormLemmas.exists_negationNormal f
  have renamed : Value.renameFormula o.variableBase n = .ok (n.renameApart base) :=
    based ▸ ApartLemmas.renameFormula_text named n
  exact exists_convert_of_renamed scanned parsed pushed renamed

/-- If the steps that a formula goes through are known, so is what a text that is read as this formula
is converted to. -/
theorem exists_run_of_steps (logger : Logger) (request : ConversionRequest) {n : Formula}
    {p : PrenexForm} {terms : List (String × Term)} {cs : ClauseSet}
    (given : Options.ofEntries request.options = .ok o) (valid : o.level?.isSome)
    (based : o.variableBase = .text base) (named : base ≠ "")
    (parsed : Formula.parse request.text = .ok f)
    (pushed : f.expandIff.expandImp.negationNormal = .ok n)
    (pulled : (n.renameApart base).formula.prenex = .ok p)
    (formed : p.matrix.matrixForm .conj true = .ok m)
    (made : skolemTerms o.stems [] 1 1 p.quantifiers = terms)
    (read : ClauseSet.ofFormula (m.substEach terms) = .ok cs) :
    ∃ c, (logger.run request).1.result = .ok c ∧ c.formula = f ∧ c.skolem.terms = terms ∧
      c.clauses = cs := by
  obtain ⟨ts, scanned, ordered⟩ := RuleLemmas.parse_eq_ok.mp parsed
  obtain ⟨c, converted⟩ := exists_convert based named scanned ordered
  have records := ConversionLemmas.records_of_convert converted
  have sameTokens : tokenize (unifySpellings request.text) = .ok c.tokens := by
    rw [← records.text, ← records.unified]
    exact records.tokens
  cases Except.ok.inj (scanned.symm.trans sameTokens)
  cases Except.ok.inj (ordered.symm.trans records.formula)
  have sameNormal : n = c.negationNormal :=
    Except.ok.inj (pushed.symm.trans (RecordLemmas.negationNormal_eq records))
  have sameApart : n.renameApart base = c.apart :=
    Except.ok.inj ((ApartLemmas.renameFormula_text named n).symm.trans
      (based ▸ sameNormal ▸ records.apart))
  have samePrenex : p = c.prenex := Except.ok.inj (pulled.symm.trans (sameApart ▸ records.prenex))
  subst samePrenex
  cases Except.ok.inj (formed.symm.trans records.cnf)
  obtain ⟨sameTerms, replaced⟩ := RecordLemmas.skolem_eq records
  rw [made] at sameTerms replaced
  cases Except.ok.inj (read.symm.trans (replaced ▸ records.clauses))
  exact ⟨c, (result_run given valid).trans converted, rfl, sameTerms, rfl⟩

/-- The results of a conversion have the forms that its steps need. -/
theorem wellShaped_of_records (records : c.Records o text) : c.WellShaped := by
  obtain ⟨base, renamed⟩ := ApartLemmas.exists_base_of_renameFormula records.apart
  have quantifierFree := NormalFormLemmas.isQuantifierFree_matrixForm records.cnf
  have skolem := (RecordLemmas.skolem_eq records).2
  have shaped : c.skolem.matrix.IsMatrix .conj :=
    skolem ▸ isMatrix_substEach (ShapeLemmas.isMatrix_matrixForm records.cnf) _
  -- Reading the clauses off the matrix once more gives those of the conversion.
  obtain ⟨clauses, read, filled⟩ := ShapeLemmas.exists_ofFormula shaped
  cases Except.ok.inj (records.clauses.symm.trans read)
  exact {
    negationNormal := NegationLemmas.isNegationNormal_pushNegations records.negationNormal
    distinct := renamed ▸ ApartLemmas.nodup_renameApart base c.negationNormal
    apart := renamed ▸ ApartLemmas.disjoint_renameApart base c.negationNormal
    quantifierFree := PrenexLemmas.isQuantifierFree_prenex records.prenex
    cnf := ShapeLemmas.isFlatMatrix_matrixForm records.cnf
    dnf := ShapeLemmas.isFlatMatrix_matrixForm records.dnf
    skolem := fun b member existential => skolem ▸
      SkolemLemmas.not_mem_variableNames_substEach quantifierFree (RecordLemmas.nodup_names records)
        member existential
    clauses := filled }

end

end TotalityLemmas

/-! ## Every request is answered -/

open TotalityLemmas in
/-- With a level that can be set and a nonempty base for the names of bound variables, a text is
refused if a character in it starts no token, or if its tokens do not follow the grammar, and for no
other reason. Any other text is converted, and each result has the form that the next step needs. -/
theorem run_answers {logger : Logger} {request : ConversionRequest} {o : Options} {base : String}
    (given : Options.ofEntries request.options = .ok o) (valid : o.level?.isSome)
    (based : o.variableBase = .text base) (named : base ≠ "") :
    let result := (logger.run request).1.result
    let scanned := tokenize (unifySpellings request.text)
    (∀ e, result = .error (.unreadable (.lexical e)) ↔ scanned = .error e) ∧
    ((∃ e, result = .error e ∧ e.IsSyntactic) ↔ ∃ ts, scanned = .ok ts ∧ ¬ IsFormula ts) ∧
    ((∃ c, result = .ok c) ↔ ∃ ts, scanned = .ok ts ∧ IsFormula ts) ∧
    (∀ e, result = .error e → e.IsLexical ∨ e.IsSyntactic) ∧
    ∀ c, result = .ok c → c.WellShaped := by
  intro result scanned
  have shaped : ∀ c, result = .ok c → c.WellShaped := by
    intro c answered
    obtain ⟨_, _, records⟩ := ConversionLemmas.records_of_run answered
    exact wellShaped_of_records records
  have converted : result = (convert o request.text).1 := result_run given valid
  cases scan : scanned with
  | error e =>
      have failed := converted.trans (convert_of_unscanned scan)
      simp [failed, ConversionError.IsLexical, ConversionError.IsSyntactic]
  | ok ts =>
      -- A scan finds no empty name, which the parser would refuse for another reason.
      have wellNamed : WellNamed ts :=
        SpellingLemmas.wellNamed_of_isScanned (ScanLemmas.isScanned_of_tokenize scan)
      have formula := isFormula_iff wellNamed
      cases parse : Formula.ofTokens ts with
      | error e =>
          obtain ⟨e', rfl, syntactic⟩ := RefusalLemmas.isSyntactic_of_ofTokens wellNamed parse
          have failed := converted.trans (convert_of_unparsed scan parse)
          simp [failed, formula, parse, ConversionError.IsLexical, ConversionError.IsSyntactic,
            syntactic]
      | ok f =>
          obtain ⟨c, answered⟩ := exists_convert based named scan parse
          have succeeded := converted.trans answered
          simp [succeeded, formula, parse, shaped c succeeded]

open Grammar.Derivation in
/-- A text that is read, with a level given by name and another base than the default one. -/
theorem run_answers_existential :
    let request : ConversionRequest :=
      ⟨"∃y P(y)", [("log_level", .text "INFO"), ("variable_base", .text "v")]⟩
    ∃ c, (({} : Logger).run request).1.result = .ok c ∧ c.WellShaped := by
  intro request
  have scanned : tokenize (unifySpellings request.text) = .ok [⟨.ex, "∃", 0⟩, ⟨.name, "y", 1⟩,
      ⟨.name, "P", 3⟩, ⟨.lparen, "(", 4⟩, ⟨.name, "y", 5⟩, ⟨.rparen, ")", 6⟩] := by
    decide +kernel
  let closed : Derivation (.formula none) :=
    .quantified .ex "y" [] .none (.atomic (.call "P" (.terms (.var "y") .noTerm)))
  let d : Derivation (.formula (some .iff)) :=
    .joined (.joined (.joined (.joined closed .noOperand) .noOperand) .noOperand) .noOperand
  obtain ⟨-, -, converted, -, shaped⟩ :=
    @run_answers {} request { logLevel := .text "INFO", variableBase := .text "v" } "v" rfl
      (by decide) rfl (by decide)
  obtain ⟨c, answered⟩ := converted.mpr ⟨_, scanned, d, by decide⟩
  exact ⟨c, answered, shaped c answered⟩

end Clausal
