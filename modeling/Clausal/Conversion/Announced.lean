import Clausal.Conversion.Options
import Clausal.Log.Elapsed

/-!
# Announced conversion

A text is read as a formula, and the formula is converted step by step. Each stage is announced before
it starts, so that the announcements tell how far a conversion came.

* `convert` gives the conversion or the error that ended it, with the announcements.
-/

namespace Clausal

/-- Why a text is not converted. -/
inductive ConversionError where
  | unknownOption (name : String)
  | unknownLevel (name : String)
  /-- The level that is asked for is neither a number nor a name. -/
  | notLevel (given : Value)
  | unreadable (error : ReadError)
  | step (error : StepError)
  deriving Repr

/-- The text of an error. -/
def ConversionError.message : ConversionError → String
  | .unknownOption name => "unknown option " ++ Text.quoted name
  | .unknownLevel name => "Unknown level: " ++ Text.quoted name
  | .notLevel given => "Level not an integer or a valid string: " ++ given.describe
  | .unreadable error => error.message
  | .step error => error.message

/-- Why a value is no level. -/
def ConversionError.ofLevel : Value → ConversionError
  | .text name => .unknownLevel name
  | v => .notLevel v

/-! ## Announcements -/

/-- What is told of a conversion while it goes on. -/
inductive Announcement where
  | options (o : Options)
  | reading
  | connectives
  | negations
  | apart
  | prenex
  | matrices
  | skolem
  | clauses
  | result (count : Nat) (isHorn : Bool)
  | finished
  deriving Repr

/-- The text of an announcement in the log. The conversion took a number of thousandths of a second. -/
def Announcement.text (took : Int) : Announcement → String
  | .options o => o.describe
  | .reading => "NormalForms.normal_forms: parsing"
  | .connectives => "NormalForms.normal_forms: eliminating ↔ and →"
  | .negations => "NormalForms.normal_forms: NNF"
  | .apart => "NormalForms.normal_forms: standardizing variables"
  | .prenex => "NormalForms.normal_forms: prenex form"
  | .matrices => "NormalForms.normal_forms: CNF and DNF"
  | .skolem => "NormalForms.normal_forms: Skolemization"
  | .clauses => "NormalForms.normal_forms: clauses"
  | .result count isHorn =>
      ": ".intercalate ["NormalForms.normal_forms",
        toString count ++ " clauses, horn=" ++ Text.truth isHorn]
  | .finished => " ".intercalate ["finished after", Elapsed.inSeconds took, "s"]

/-- A computation that announces its stages and may end with an error. -/
abbrev Announced := ExceptT ConversionError (StateM (List Announcement))

namespace Announced

/-- Adds an announcement. -/
def announce (a : Announcement) : Announced Unit :=
  modify (· ++ [a])

/-- Goes on with the result of a step, or ends with its error. -/
def lift {ε α : Type} (cause : ε → ConversionError) (result : Except ε α) : Announced α :=
  match result with
  | .ok value => pure value
  | .error error => throw (cause error)

end Announced

open Announced in
/-- Reads a text and converts it, announcing each stage. -/
def convertAnnounced (o : Options) (text : String) : Announced Conversion := do
  announce (.options o)
  announce .reading
  let unified := unifySpellings text
  let tokens ← lift (.unreadable ∘ .lexical) (tokenize unified)
  let formula ← lift .unreadable (Formula.ofTokens tokens)
  announce .connectives
  let withoutIff := formula.expandIff
  let withoutImp := withoutIff.expandImp
  announce .negations
  let negationNormal ← lift (.step ∘ .refused) withoutImp.negationNormal
  announce .apart
  let apart ← lift (.step ∘ .construction) (Value.renameFormula o.variableBase negationNormal)
  announce .prenex
  let prenex ← lift (.step ∘ .refused) apart.formula.prenex
  announce .matrices
  let nestedCnf ← lift (.step ∘ .refused) (prenex.matrix.matrixForm .conj false)
  let nestedDnf ← lift (.step ∘ .refused) (prenex.matrix.matrixForm .disj false)
  let cnf ← lift (.step ∘ .refused) (prenex.matrix.matrixForm .conj true)
  let dnf ← lift (.step ∘ .refused) (prenex.matrix.matrixForm .disj true)
  announce .skolem
  let skolem ← lift (.step ∘ .refused) (skolemize o.stems prenex.quantifiers cnf)
  announce .clauses
  let clauses ← lift (.step ∘ .refused) (ClauseSet.ofFormula skolem.matrix)
  announce (.result clauses.length clauses.isHorn)
  announce .finished
  return {
    text, unified, tokens, formula, withoutIff, withoutImp, negationNormal, apart, prenex,
    nestedCnf, cnf, nestedDnf, dnf, skolem, clauses, isHorn := clauses.isHorn }

/-- The conversion of a text, or the error that ended it, and the announcements up to there. -/
def convert (o : Options) (text : String) :
    Except ConversionError Conversion × List Announcement :=
  (convertAnnounced o text).run.run []

end Clausal
