import Clausal.Formula.Basic

/-!
# Written forms of formulas

A formula has a symbolic form, `∀x (P(x) → ¬Q)`, and a constructor-style form,
`All(x, Implies(P(x), Not(Q)))`. Atoms and terms look the same in both. The constructor-style form
can also be laid out over several lines; for that it is told to a printer as a list of events. What a
printer makes of an object that it is handed is up to the printer.

* `Formula.render` writes the symbolic form. An operand stands in parentheses if its operator does
  not bind more tightly than the operator around it.
* `Formula.describe` writes the constructor-style form.
* `Printer` is what the layout asks of a printer.
* `Formula.layout` is the list of events of the constructor-style form.
-/

namespace Clausal

/-- The written form of an atom: `P`, `P(x, c)`. -/
def Atom.render (p : Atom) : String :=
  callText p.symbol (p.terms.map Term.render)

/-! ## Symbolic form -/

/-- How tightly an operator binds. Atoms bind most tightly, then negation and the quantifiers, then
conjunction and disjunction alike, then implication and equivalence alike. -/
def Kind.precedence : Kind → Nat
  | .variable | .application | .predicate => 100
  | .neg | .all | .ex => 99
  | .conj | .disj => 50
  | .imp | .iff => 10

/-- The text of an operand below an operator of kind `parent` that stands between operands. -/
def operandText (parent child : Kind) (text : String) : String :=
  if child.precedence ≤ parent.precedence then "(" ++ text ++ ")" else text

/-- The text of a formula in the scope of a negation or a quantifier. A scope ends as soon as it
can, so that only an operator that stands between operands needs parentheses. -/
def scopeText (child : Kind) (text : String) : String :=
  if child.precedence < Kind.neg.precedence then "(" ++ text ++ ")" else text

namespace Formula

/-- The symbolic form. -/
def render : Formula → String
  | .atom p => p.render
  | .neg f => "¬" ++ scopeText f.kind f.render
  | .junction op a b rest =>
      (" " ++ op.symbol ++ " ").intercalate
        (operandText op.kind a.kind a.render :: operandText op.kind b.kind b.render ::
          rest.map fun f => operandText op.kind f.kind f.render)
  | .imp a b => operandText .imp a.kind a.render ++ " → " ++ operandText .imp b.kind b.render
  | .iff a b => operandText .iff a.kind a.render ++ " ↔ " ++ operandText .iff b.kind b.render
  | .quant q x f => q.symbol ++ x ++ " " ++ scopeText f.kind f.render

/-! ## Constructor-style form -/

/-- The constructor-style form. -/
def describe : Formula → String
  | .atom p => p.render
  | .neg f => callText "Not" [f.describe]
  | .junction op a b rest => callText op.kind.word (a.describe :: b.describe :: rest.map describe)
  | .imp a b => callText "Implies" [a.describe, b.describe]
  | .iff a b => callText "Equivalent" [a.describe, b.describe]
  | .quant q x f => callText q.kind.word [x, f.describe]

end Formula

/-! ## Layout events -/

/-- What a printer is told: to start a group with `text`, to finish it with `text`, to write `text`,
that the line may break here, where a blank stands otherwise, or that it breaks here in any case. -/
inductive LayoutEvent where
  | start (indent : Nat) (text : String)
  | finish (indent : Nat) (text : String)
  | write (text : String)
  | breakable
  | newline
  deriving Repr, DecidableEq

namespace LayoutEvent

/-- A group that opens with the word of an operator. Its parts are separated by a comma and a
possible line break, and continuation lines are indented by the length of the opening text. -/
def group (word : String) (parts : List (List LayoutEvent)) : List LayoutEvent :=
  [.start (word.length + 1) (word ++ "(")] ++ [.write ",", .breakable].intercalate parts
    ++ [.finish (word.length + 1) ")"]

/-- The text of an event on a line that is not broken where it only may be. A break in any case has
no text of its own. -/
def flat : LayoutEvent → String
  | .start _ text => text
  | .finish _ text => text
  | .write text => text
  | .breakable => " "
  | .newline => ""

end LayoutEvent

/-- How a printer treats an object that it is handed. The printer is not part of the library: it
may enclose the events of an object in groups of its own, and break a text into lines. -/
structure Printer where
  /-- The events of an object that lays itself out, from the events that it gives. -/
  object : List LayoutEvent → List LayoutEvent
  /-- The events of an object that has a text only. -/
  plain : String → List LayoutEvent

/-- The events that a formula gives a printer for its constructor-style form. Operands lay themselves
out; the variable of a quantifier has a text only. -/
def Formula.layout (p : Printer) : Formula → List LayoutEvent
  | .atom a => [.write a.render]
  | .neg f => LayoutEvent.group "Not" [p.object (f.layout p)]
  | .junction op a b rest =>
      LayoutEvent.group op.kind.word
        (p.object (a.layout p) :: p.object (b.layout p) ::
          rest.map fun f => p.object (f.layout p))
  | .imp a b => LayoutEvent.group "Implies" [p.object (a.layout p), p.object (b.layout p)]
  | .iff a b => LayoutEvent.group "Equivalent" [p.object (a.layout p), p.object (b.layout p)]
  | .quant q x f => LayoutEvent.group q.kind.word [p.plain x, p.object (f.layout p)]

end Clausal
