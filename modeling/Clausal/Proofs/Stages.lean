import Clausal.Conversion.Logger
import Clausal.Proofs.Members

/-!
# The stages of a conversion

A conversion that is not refused records the results of its steps, each of which comes from the one
before by the function that belongs to it. What is announced on the way makes no difference.

* `Conversion.Records` lists what the fields of a conversion are, one equation a step.
* `ConversionLemmas.records_of_convert`, `ConversionLemmas.records_of_run`: what a conversion, on its
  own or by a logger, returns.
-/

namespace Clausal

/-- The fields of a conversion are the results of its steps. -/
structure Conversion.Records (c : Conversion) (o : Options) (given : String) : Prop where
  text : c.text = given
  unified : c.unified = unifySpellings c.text
  tokens : tokenize c.unified = .ok c.tokens
  formula : Formula.ofTokens c.tokens = .ok c.formula
  withoutIff : c.withoutIff = c.formula.expandIff
  withoutImp : c.withoutImp = c.withoutIff.expandImp
  negationNormal : c.withoutImp.negationNormal = .ok c.negationNormal
  apart : Value.renameFormula o.variableBase c.negationNormal = .ok c.apart
  prenex : c.apart.formula.prenex = .ok c.prenex
  nestedCnf : c.prenex.matrix.matrixForm .conj false = .ok c.nestedCnf
  nestedDnf : c.prenex.matrix.matrixForm .disj false = .ok c.nestedDnf
  cnf : c.prenex.matrix.matrixForm .conj true = .ok c.cnf
  dnf : c.prenex.matrix.matrixForm .disj true = .ok c.dnf
  skolem : skolemize o.stems c.prenex.quantifiers c.cnf = .ok c.skolem
  clauses : ClauseSet.ofFormula c.skolem.matrix = .ok c.clauses
  isHorn : c.isHorn = c.clauses.isHorn

/-! ## Announced computations -/

/-- The result of a computation after what was told before it. -/
def Announced.Gives {α : Type} (x : Announced α) (told : List Announcement) (a : α) : Prop :=
  (x.run.run told).1 = .ok a

/-- The error of a computation after what was told before it. -/
def Announced.Fails {α : Type} (x : Announced α) (told : List Announcement) (e : ConversionError) :
    Prop :=
  (x.run.run told).1 = .error e

namespace AnnouncedLemmas

variable {α β ε : Type} {told : List Announcement} {b : β} {e : ConversionError}

/-- An announcement makes no difference to what comes after it. -/
theorem gives_announce_bind {a : Announcement} {next : Unit → Announced β} :
    (Announced.announce a >>= next).Gives told b ↔ (next ()).Gives (told ++ [a]) b :=
  Iff.rfl

/-- A step hands on its result, and its error ends the computation. -/
theorem gives_lift_bind {cause : ε → ConversionError} {result : Except ε α}
    {next : α → Announced β} :
    (Announced.lift cause result >>= next).Gives told b ↔
      ∃ a, result = .ok a ∧ (next a).Gives told b := by
  cases result with
  | error e =>
      constructor
      · intro gives
        have failed : Except.error (cause e) = Except.ok b := gives
        cases failed
      · rintro ⟨a, given, _⟩
        cases given
  | ok a =>
      constructor
      · intro gives
        exact ⟨a, rfl, gives⟩
      · rintro ⟨a', given, gives⟩
        cases Except.ok.inj given
        exact gives

theorem gives_pure {a : β} : (pure a : Announced β).Gives told b ↔ a = b :=
  ⟨Except.ok.inj, congrArg _⟩

theorem fails_announce_bind {a : Announcement} {next : Unit → Announced β} :
    (Announced.announce a >>= next).Fails told e ↔ (next ()).Fails (told ++ [a]) e :=
  Iff.rfl

/-- The error of a step ends the computation. -/
theorem fails_lift_error {cause : ε → ConversionError} {error : ε} {next : α → Announced β} :
    (Announced.lift cause (.error error) >>= next).Fails told (cause error) :=
  rfl

theorem fails_lift_ok {cause : ε → ConversionError} {a : α} {next : α → Announced β} :
    (Announced.lift cause (.ok a) >>= next).Fails told e ↔ (next a).Fails told e :=
  Iff.rfl

end AnnouncedLemmas

/-! ## Conversions -/

namespace ConversionLemmas

/-- A conversion that is not refused records what its steps give. -/
theorem records_of_convert {o : Options} {text : String} {c : Conversion}
    (converted : (convert o text).1 = .ok c) : c.Records o text := by
  have gives : (convertAnnounced o text).Gives [] c := converted
  unfold convertAnnounced at gives
  simp only [AnnouncedLemmas.gives_announce_bind, AnnouncedLemmas.gives_lift_bind,
    AnnouncedLemmas.gives_pure] at gives
  obtain ⟨tokens, scanned, formula, parsed, negationNormal, pushed, apart, renamed, prenex, pulled,
    gives⟩ := gives
  obtain ⟨nestedCnf, inNestedCnf, nestedDnf, inNestedDnf, cnf, inCnf, dnf, inDnf, gives⟩ := gives
  obtain ⟨skolem, replaced, clauses, read, rfl⟩ := gives
  exact {
    text := rfl
    unified := rfl
    tokens := scanned
    formula := parsed
    withoutIff := rfl
    withoutImp := rfl
    negationNormal := pushed
    apart := renamed
    prenex := pulled
    nestedCnf := inNestedCnf
    nestedDnf := inNestedDnf
    cnf := inCnf
    dnf := inDnf
    skolem := replaced
    clauses := read
    isHorn := rfl }

/-- A logger hands the options of a request to the conversion. -/
theorem records_of_run {logger : Logger} {request : ConversionRequest} {c : Conversion}
    (answered : (logger.run request).1.result = .ok c) :
    ∃ o, Options.ofEntries request.options = .ok o ∧ c.Records o request.text := by
  unfold Logger.run at answered
  split at answered
  case h_1 => cases answered
  case h_2 o given =>
    refine ⟨o, given, records_of_convert ?_⟩
    dsimp only at answered
    split at answered
    case h_1 => cases answered
    case h_2 => exact answered

end ConversionLemmas

end Clausal
