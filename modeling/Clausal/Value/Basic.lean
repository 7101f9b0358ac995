import Clausal.Conversion.Basic
import Clausal.Decimal

/-!
# Unchecked values

Where a caller may hand over anything, not only a term or a formula, arguments are values of the type
`Value`. They are checked when something is built from them. Everything that the library computes is a
value too, so that a result may be handed over where it does not belong.

* `Value.kind` tells what a value is; `ValueKind.word` and `ValueKind.typeText` name kinds in messages.
* `Value.describe` is the constructor-style form, with text in quotes, as it stands in messages.
* `Value.render` is the symbolic form, in which text stands for itself.
-/

namespace Clausal

/-! ## Kinds of values -/

/-- The kinds of sequences. A clause is a sequence of literals, and a clause set one of clauses. -/
inductive SequenceKind where
  | list
  | tuple
  | clause
  | clauses
  deriving Repr, DecidableEq

/-- What a value is. -/
inductive ValueKind where
  | absent
  | truth
  | integer
  | real
  | text
  | sequence (kind : SequenceKind)
  | mapping
  | operator
  | expression (kind : Kind)
  | literal
  | token
  | bindings
  | prenexForm
  | renamed
  | skolemForm
  | conversion
  deriving Repr, DecidableEq

namespace ValueKind

/-- The word for a kind, as it stands in messages. -/
def word : ValueKind → String
  | .absent => "NoneType"
  | .truth => "bool"
  | .integer => "int"
  | .real => "float"
  | .text => "str"
  | .sequence .list => "list"
  | .sequence .tuple => "tuple"
  | .sequence .clause => "Clause"
  | .sequence .clauses => "ClauseSet"
  | .mapping => "dict"
  | .operator => "type"
  | .expression kind => kind.word
  | .literal => "Literal"
  | .token => "Token"
  | .bindings => "Prefix"
  | .prenexForm => "PrenexForm"
  | .renamed => "Standardization"
  | .skolemForm => "Skolemization"
  | .conversion => "Steps"

/-- What stands before the word of a kind in its full name; the kinds of plain data have nothing
there. -/
def qualifier : ValueKind → String
  | .absent | .truth | .integer | .real | .text | .mapping | .operator => ""
  | .sequence .list | .sequence .tuple => ""
  | .sequence .clause | .sequence .clauses | .literal => "normalforms.firstorder.clauses."
  | .expression .variable | .expression .application | .expression .predicate =>
      "normalforms.firstorder.atomic."
  | .expression .all | .expression .ex | .bindings => "normalforms.firstorder.quantified."
  | .expression _ => "normalforms.firstorder.boolean."
  | .token => "normalforms.parser.lexer."
  | .prenexForm => "normalforms.firstorder.pnf."
  | .renamed => "normalforms.firstorder.standardize."
  | .skolemForm => "normalforms.firstorder.skolem."
  | .conversion => "normalforms.pipeline."

/-- The full name of a kind, as it stands in messages about the type of a value. -/
def typeText (kind : ValueKind) : String :=
  "<class '" ++ kind.qualifier ++ kind.word ++ "'>"

end ValueKind

/-! ## Values -/

/-- Anything that may be handed over as an argument. -/
inductive Value where
  | absent
  | truth (b : Bool)
  | integer (n : Int)
  | real (x : Float)
  | text (s : String)
  | sequence (kind : SequenceKind) (elements : List Value)
  | mapping (entries : List (String × Value))
  /-- An operator on its own, without operands. -/
  | operator (kind : Kind)
  | term (t : Term)
  | formula (f : Formula)
  /-- An atom or its negation, where anything may stand for the atom. -/
  | literal (negated : Bool) (atom : Value)
  | token (t : Token)
  | bindings (p : Prefix)
  | prenexForm (p : PrenexForm)
  | renamed (r : Renamed)
  | skolemForm (s : SkolemForm)
  | conversion (c : Conversion)
  deriving Repr

namespace Value

instance : Inhabited Value := ⟨.absent⟩

/-- A list of values. -/
@[match_pattern] abbrev list (elements : List Value) : Value := .sequence .list elements

/-- A tuple of values. -/
@[match_pattern] abbrev tuple (elements : List Value) : Value := .sequence .tuple elements

/-- A pair of values. -/
@[match_pattern] abbrev pair (first second : Value) : Value := .sequence .tuple [first, second]

/-- The kind of a value. -/
def kind : Value → ValueKind
  | .absent => .absent
  | .truth _ => .truth
  | .integer _ => .integer
  | .real _ => .real
  | .text _ => .text
  | .sequence kind _ => .sequence kind
  | .mapping _ => .mapping
  | .operator _ => .operator
  | .term t => .expression t.kind
  | .formula f => .expression f.kind
  | .literal .. => .literal
  | .token _ => .token
  | .bindings _ => .bindings
  | .prenexForm _ => .prenexForm
  | .renamed _ => .renamed
  | .skolemForm _ => .skolemForm
  | .conversion _ => .conversion

/-! ## Text -/

/-- The constructor-style form of a sequence, from the texts of its elements. -/
def sequenceText (kind : SequenceKind) (elements : List String) : String :=
  match kind with
  | .list => Text.list elements
  | .tuple => Text.tuple elements
  | .clause => callText "Clause" [Text.list elements]
  | .clauses => callText "ClauseSet" [Text.list elements]

/-- The constructor-style form, which shows what a value is: text stands in quotes. -/
def describe : Value → String
  | .absent => "None"
  | .truth b => Text.truth b
  | .integer n => toString n
  | .real x => realText x
  | .text s => Text.quoted s
  | .sequence kind elements => sequenceText kind (elements.map describe)
  | .mapping entries =>
      Text.braces (entries.map fun entry => Text.quoted entry.1 ++ ": " ++ entry.2.describe)
  | .operator kind => (ValueKind.expression kind).typeText
  | .term t => t.render
  | .formula f => f.describe
  | .literal negated atom => Literal.record negated atom.describe
  | .token t => t.describe
  | .bindings p => p.describe
  | .prenexForm p => p.describe
  | .renamed r => r.describe
  | .skolemForm s => s.describe
  | .conversion c => c.describe
decreasing_by
  · decreasing_tactic
  · have inside := List.sizeOf_lt_of_mem (by assumption : entry ∈ entries)
    cases entry
    simp_all
    omega
  · decreasing_tactic

/-- The symbolic form, if a value has one; otherwise the constructor-style form. -/
def render : Value → String
  | .text s => s
  | .sequence .clause elements => Text.braces (elements.map render)
  | .sequence .clauses elements => Text.list (elements.map render)
  | .formula f => f.render
  | .literal negated atom => Literal.signed negated atom.render
  | .token t => t.text
  | .bindings p => p.render
  | .prenexForm p => p.render
  | v => v.describe

/-! ## Parts -/

/-- The term that a value is. -/
def term? : Value → Option Term
  | .term t => some t
  | _ => none

/-- The name of the variable that a value is. -/
def variableName? : Value → Option String
  | .term (.var x) => some x
  | _ => none

/-- The quantifier that a value is. -/
def quantifier? : Value → Option Quantifier
  | .operator kind => kind.quantifier?
  | _ => none

/-- The whole number that a value counts as; truth values count as zero and one. -/
def integer? : Value → Option Int
  | .integer n => some n
  | .truth b => some b.toInt
  | _ => none

end Value

/-! ## Results as values -/

/-- A binding as a value: its quantifier and its variable. -/
def Binding.toValue (b : Binding) : Value :=
  .pair (.operator b.quantifier.kind) (.term (.var b.name))

/-- A literal as a value. -/
def Literal.toValue (l : Literal) : Value :=
  .literal l.negated (.formula (.atom l.atom))

/-- A clause as a value. -/
def Clause.toValue (c : Clause) : Value :=
  .sequence .clause (c.map Literal.toValue)

/-- A clause set as a value. -/
def ClauseSet.toValue (cs : ClauseSet) : Value :=
  .sequence .clauses (cs.map Clause.toValue)

end Clausal
