import Clausal.Proofs.Apart
import Clausal.Proofs.Matrix
import Clausal.Proofs.Prenex
import Clausal.Proofs.Stages

/-!
# Normal forms keep the meaning

The steps from a formula to its matrix normal forms are put together. Each step is defined on what the
step before it gives: negations can be pushed inwards when the arrows are gone, quantifiers can be
pulled out of a negation normal form, and doing so keeps the meaning because the quantifiers have been
renamed apart.

* `NormalFormLemmas` follows a formula through the steps: its meaning, its free variables and its
  function symbols.
* `RecordLemmas` says the same of the formulas that a conversion records.
* `sameMeaning_stages` is the whole chain.
-/

namespace Clausal

namespace NormalFormLemmas

open Formula

universe u

variable {f n m : Formula} {base : String} {p : PrenexForm} {outer : Junctor} {flat : Bool}

/-! ## Up to negation normal form -/

theorem sameMeaning_expandIff (f : Formula) : SameMeaning.{u} f f.expandIff :=
  fun _ I s => (ConnectiveLemmas.holds_expandIff f I s).symm

theorem sameMeaning_expandImp (f : Formula) : SameMeaning.{u} f f.expandImp :=
  fun _ I s => (ConnectiveLemmas.holds_expandImp f I s).symm

theorem sameMeaning_negationNormal (pushed : f.negationNormal = .ok n) : SameMeaning.{u} f n :=
  fun _ I s => (NegationLemmas.holds_pushNegations pushed I s).symm

/-- Every formula has a negation normal form, once its arrows are expanded. -/
theorem exists_negationNormal (f : Formula) :
    ∃ n, f.expandIff.expandImp.negationNormal = .ok n :=
  NegationLemmas.exists_pushNegations (ConnectiveLemmas.isArrowFree_expand f) .positive

theorem sameMeaning_expanded_negationNormal (pushed : f.expandIff.expandImp.negationNormal = .ok n) :
    SameMeaning.{u} f n :=
  ((sameMeaning_expandIff f).trans (sameMeaning_expandImp _)).trans
    (sameMeaning_negationNormal pushed)

theorem mem_free_negationNormal (pushed : f.expandIff.expandImp.negationNormal = .ok n) {x : String} :
    x ∈ n.free [] ↔ x ∈ f.free [] := by
  rw [NegationLemmas.free_pushNegations pushed, ConnectiveLemmas.free_expandImp,
    ConnectiveLemmas.mem_free_expandIff]

theorem mem_symbols_negationNormal (pushed : f.expandIff.expandImp.negationNormal = .ok n)
    {g : String × Nat} : g ∈ n.symbols ↔ g ∈ f.symbols := by
  rw [Formula.symbols, NegationLemmas.atoms_pushNegations pushed, ConnectiveLemmas.atoms_expandImp,
    Formula.symbols, List.mem_flatMap, List.mem_flatMap]
  exact exists_congr fun p => and_congr_left' ConnectiveLemmas.mem_atoms_expandIff

/-! ## Up to prenex form -/

theorem sameMeaning_renameApart (base : String) (n : Formula) :
    SameMeaning.{u} n (n.renameApart base).formula :=
  fun _ I s => (ApartLemmas.holds_renameApart base n I s).symm

/-- The quantifiers of a formula that was renamed apart may be pulled out. -/
theorem sameMeaning_prenex (pulled : (n.renameApart base).formula.prenex = .ok p) :
    SameMeaning.{u} n p.toFormula := by
  refine (sameMeaning_renameApart base n).trans fun _ I s => Iff.symm ?_
  exact PrenexLemmas.holds_prenex pulled (ApartLemmas.nodup_renameApart base n)
    (ApartLemmas.disjoint_renameApart base n) I s

theorem nodup_names (pulled : (n.renameApart base).formula.prenex = .ok p) :
    p.quantifiers.names.Nodup := by
  rw [PrenexLemmas.names_prenex pulled]
  exact ApartLemmas.nodup_renameApart base n

theorem mem_free_of_prenex (pulled : (n.renameApart base).formula.prenex = .ok p) {x : String}
    (found : x ∈ p.toFormula.free []) : x ∈ n.free [] := by
  rw [← ApartLemmas.free_renameApart base n]
  exact PrenexLemmas.free_of_free_prenex pulled found

theorem symbols_prenex (pulled : (n.renameApart base).formula.prenex = .ok p) :
    p.matrix.symbols = n.symbols := by
  rw [← ApartLemmas.symbols_renameApart base n, Formula.symbols, PrenexLemmas.atoms_prenex pulled]
  rfl

/-! ## Up to the matrix normal forms -/

theorem exists_matrixForm_of_prenex (pulled : f.prenex = .ok p) (outer : Junctor) (flat : Bool) :
    ∃ m, p.matrix.matrixForm outer flat = .ok m :=
  MatrixLemmas.exists_matrixForm outer flat (PrenexLemmas.isQuantifierFree_prenex pulled)
    (PrenexLemmas.isNegationNormal_prenex pulled)

theorem sameMeaning_quantify_matrixForm (formed : p.matrix.matrixForm outer flat = .ok m) :
    SameMeaning.{u} p.toFormula (p.quantifiers.quantify m) := by
  refine PrefixLemmas.sameMeaning_quantify (fun _ I s => ?_) p.quantifiers
  exact (MatrixLemmas.holds_matrixForm formed I s).symm

theorem isQuantifierFree_matrixForm (formed : p.matrix.matrixForm outer flat = .ok m) :
    m.IsQuantifierFree :=
  (SpineLemmas.leaves_isLiteral_iff.mp (MatrixLemmas.isLiteral_of_matrixForm formed)).1

theorem isArrowFree_matrixForm (formed : p.matrix.matrixForm outer flat = .ok m) :
    m.IsArrowFree :=
  NegationLemmas.isArrowFree_of_isNegationNormal
    (SpineLemmas.leaves_isLiteral_iff.mp (MatrixLemmas.isLiteral_of_matrixForm formed)).2

theorem mem_free_of_matrixForm (pulled : f.prenex = .ok p)
    (formed : p.matrix.matrixForm outer flat = .ok m) {x : String}
    (found : x ∈ (p.quantifiers.quantify m).free []) : x ∈ p.toFormula.free [] := by
  obtain ⟨inside, unbound⟩ := PrefixLemmas.mem_free_quantify.mp found
  refine PrefixLemmas.mem_free_quantify.mpr ⟨?_, unbound⟩
  rw [MeaningLemmas.free_of_isQuantifierFree (isQuantifierFree_matrixForm formed),
    List.mem_flatMap] at inside
  obtain ⟨q, member, inside⟩ := inside
  rw [MeaningLemmas.free_of_isQuantifierFree (PrenexLemmas.isQuantifierFree_prenex pulled),
    List.mem_flatMap]
  exact ⟨q, (MatrixLemmas.mem_atoms_matrixForm formed).mp member, inside⟩

theorem mem_symbols_matrixForm (formed : p.matrix.matrixForm outer flat = .ok m)
    {g : String × Nat} : g ∈ m.symbols ↔ g ∈ p.matrix.symbols := by
  rw [Formula.symbols, Formula.symbols, List.mem_flatMap, List.mem_flatMap]
  exact exists_congr fun q => and_congr_left' (MatrixLemmas.mem_atoms_matrixForm formed)

end NormalFormLemmas

/-! ## The formulas of a conversion -/

namespace RecordLemmas

universe u

variable {c : Conversion} {o : Options} {text : String}

theorem negationNormal_eq (records : c.Records o text) :
    c.formula.expandIff.expandImp.negationNormal = .ok c.negationNormal := by
  rw [← records.withoutIff, ← records.withoutImp]
  exact records.negationNormal

/-- Whatever the options say, the quantifiers are renamed apart before they are pulled out. -/
theorem exists_base (records : c.Records o text) :
    ∃ base, (c.negationNormal.renameApart base).formula.prenex = .ok c.prenex := by
  obtain ⟨base, renamed⟩ := ApartLemmas.exists_base_of_renameFormula records.apart
  exact ⟨base, renamed ▸ records.prenex⟩

theorem sameMeaning_prenex (records : c.Records o text) :
    Formula.SameMeaning.{u} c.formula c.prenex.toFormula := by
  obtain ⟨base, pulled⟩ := exists_base records
  exact (NormalFormLemmas.sameMeaning_expanded_negationNormal (negationNormal_eq records)).trans
    (NormalFormLemmas.sameMeaning_prenex pulled)

theorem sameMeaning_cnfFormula (records : c.Records o text) :
    Formula.SameMeaning.{u} c.formula c.cnfFormula :=
  (sameMeaning_prenex records).trans (NormalFormLemmas.sameMeaning_quantify_matrixForm records.cnf)

theorem sameMeaning_dnfFormula (records : c.Records o text) :
    Formula.SameMeaning.{u} c.formula c.dnfFormula :=
  (sameMeaning_prenex records).trans (NormalFormLemmas.sameMeaning_quantify_matrixForm records.dnf)

theorem mem_free_of_cnfFormula (records : c.Records o text) {x : String}
    (found : x ∈ c.cnfFormula.free []) : x ∈ c.formula.free [] := by
  obtain ⟨base, pulled⟩ := exists_base records
  have inPrenex := NormalFormLemmas.mem_free_of_matrixForm records.prenex records.cnf found
  have inNormal := NormalFormLemmas.mem_free_of_prenex pulled inPrenex
  exact (NormalFormLemmas.mem_free_negationNormal (negationNormal_eq records)).mp inNormal

theorem mem_symbols_cnf (records : c.Records o text) {g : String × Nat} :
    g ∈ c.cnf.symbols ↔ g ∈ c.formula.symbols := by
  obtain ⟨base, pulled⟩ := exists_base records
  rw [NormalFormLemmas.mem_symbols_matrixForm records.cnf, NormalFormLemmas.symbols_prenex pulled,
    NormalFormLemmas.mem_symbols_negationNormal (negationNormal_eq records)]

theorem nodup_names (records : c.Records o text) : c.prenex.quantifiers.names.Nodup := by
  obtain ⟨base, pulled⟩ := exists_base records
  exact NormalFormLemmas.nodup_names pulled

end RecordLemmas

/-! ## The whole chain -/

open Formula NormalFormLemmas in
/-- Every formula goes through all steps up to its matrix normal forms, with any nonempty base for the
names of bound variables, and keeps its meaning at each of them. The results are the ones that a
conversion with this base records. -/
theorem sameMeaning_stages.{u} (f : Formula) {base : String} (named : base ≠ "") :
    ∃ n r p,
      f.expandIff.expandImp.negationNormal = .ok n ∧
      Value.renameFormula (.text base) n = .ok r ∧
      r.formula.prenex = .ok p ∧
      (∀ g ∈ [f.expandIff, f.expandIff.expandImp, n, r.formula, p.toFormula],
        SameMeaning.{u} f g) ∧
      (∀ outer flat, ∃ m, p.matrix.matrixForm outer flat = .ok m ∧
        SameMeaning.{u} f (p.quantifiers.quantify m)) ∧
      ∀ (logger : Logger) (request : ConversionRequest) (o : Options) (c : Conversion),
        Options.ofEntries request.options = .ok o → o.variableBase = .text base →
        (logger.run request).1.result = .ok c → c.formula = f →
          c.withoutIff = f.expandIff ∧ c.withoutImp = f.expandIff.expandImp ∧
          c.negationNormal = n ∧ c.apart = r ∧ c.prenex = p ∧
          p.matrix.matrixForm .conj false = .ok c.nestedCnf ∧
          p.matrix.matrixForm .conj true = .ok c.cnf ∧
          p.matrix.matrixForm .disj false = .ok c.nestedDnf ∧
          p.matrix.matrixForm .disj true = .ok c.dnf ∧
          SameMeaning.{u} f c.cnfFormula ∧ SameMeaning.{u} f c.dnfFormula := by
  obtain ⟨n, pushed⟩ := exists_negationNormal f
  have normal : n.IsNegationNormal := NegationLemmas.isNegationNormal_pushNegations pushed
  have renamed := ApartLemmas.renameFormula_text named n
  obtain ⟨p, pulled⟩ :=
    PrenexLemmas.exists_prenex (ApartLemmas.isNegationNormal_renameApart base n normal)
  have upToNormal : SameMeaning.{u} f n := sameMeaning_expanded_negationNormal pushed
  have upToPrenex : SameMeaning.{u} f p.toFormula := upToNormal.trans (sameMeaning_prenex pulled)
  refine ⟨n, n.renameApart base, p, pushed, renamed, pulled, ?_, fun outer flat => ?_, ?_⟩
  · simp only [List.forall_mem_cons, List.not_mem_nil, false_implies, implies_true, and_true]
    refine ⟨sameMeaning_expandIff f, ?_, upToNormal, ?_, upToPrenex⟩
    · exact (sameMeaning_expandIff f).trans (sameMeaning_expandImp _)
    · exact upToNormal.trans (sameMeaning_renameApart base n)
  · obtain ⟨m, formed⟩ := exists_matrixForm_of_prenex pulled outer flat
    exact ⟨m, formed, upToPrenex.trans (sameMeaning_quantify_matrixForm formed)⟩
  · rintro logger request o c given based answered rfl
    obtain ⟨o', given', records⟩ := ConversionLemmas.records_of_run answered
    cases Except.ok.inj (given.symm.trans given')
    -- Each step is a function, so that what the conversion records is what was found above.
    have sameNormal : n = c.negationNormal :=
      Except.ok.inj (pushed.symm.trans (RecordLemmas.negationNormal_eq records))
    subst sameNormal
    have sameApart : c.negationNormal.renameApart base = c.apart :=
      Except.ok.inj (renamed.symm.trans (based ▸ records.apart))
    have samePrenex : p = c.prenex :=
      Except.ok.inj (pulled.symm.trans (sameApart.symm ▸ records.prenex))
    subst samePrenex
    refine ⟨records.withoutIff, ?_, rfl, sameApart.symm, rfl, records.nestedCnf, records.cnf,
      records.nestedDnf, records.dnf, RecordLemmas.sameMeaning_cnfFormula records,
      RecordLemmas.sameMeaning_dnfFormula records⟩
    rw [records.withoutImp, records.withoutIff]

/-- An equivalence of quantified formulas whose quantifiers bind one variable, which is free elsewhere
in it, and which is the base of the new names. -/
theorem sameMeaning_stages_shadowed :
    let f : Formula := .conj (.atom ⟨"R", [.var "x"]⟩)
      (.iff (.quant .all "x" (.atom ⟨"P", [.var "x"]⟩))
        (.quant .ex "x" (.imp (.atom ⟨"P", [.var "x"]⟩) (.quant .all "x" (.atom ⟨"R", [.var "x"]⟩)))))
    ∃ n r p, f.expandIff.expandImp.negationNormal = .ok n ∧
      Value.renameFormula (.text "x") n = .ok r ∧ r.formula.prenex = .ok p ∧
      Formula.SameMeaning.{0} f p.toFormula := by
  intro f
  obtain ⟨n, r, p, pushed, renamed, pulled, same, _⟩ :=
    sameMeaning_stages f (show "x" ≠ "" by decide)
  exact ⟨n, r, p, pushed, renamed, pulled, same _ (by simp)⟩

end Clausal
