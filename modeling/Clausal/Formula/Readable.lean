import Clausal.Prefix
import Clausal.Token.Basic

/-!
# Formulas that can be read

A formula can be read from its written form if its names are names of the lexer. What is read may
differ from it in two ways: operands are joined from left to right, two at a time, and a function
symbol without arguments looks like a variable.

* `Formula.IsReadable`: all names are names, and a predicate symbol that stands alone starts with an
  uppercase letter.
* `Formula.asRead`: the formula that is read from the written form.
-/

namespace Clausal

/-- All variables and function symbols of a term are names. -/
def Term.IsReadable : Term → Prop
  | .var x => isName x = true
  | .app f ts => isName f = true ∧ ∀ t ∈ ts, t.IsReadable

/-- The term that is read from the written form of a term. -/
def Term.asRead : Term → Term
  | .var x => .var x
  | .app f ts => if ts.isEmpty then .var f else .app f (ts.map asRead)

/-- All names of an atom are names, and its symbol can stand alone if it does. -/
def Atom.IsReadable (p : Atom) : Prop :=
  isName p.symbol = true ∧ (p.terms = [] → startsUpper p.symbol = true) ∧
    ∀ t ∈ p.terms, t.IsReadable

/-- The atom that is read from the written form of an atom. -/
def Atom.asRead (p : Atom) : Atom :=
  { p with terms := p.terms.map Term.asRead }

namespace Formula

/-- All names of a formula are names, and the symbols of its atoms can stand alone if they do. -/
def IsReadable : Formula → Prop
  | .atom p => p.IsReadable
  | .neg f => f.IsReadable
  | .junction _ a b rest => a.IsReadable ∧ b.IsReadable ∧ ∀ f ∈ rest, f.IsReadable
  | .imp a b => a.IsReadable ∧ b.IsReadable
  | .iff a b => a.IsReadable ∧ b.IsReadable
  | .quant _ x f => isName x = true ∧ f.IsReadable

/-- The formula that is read from the written form of a formula. -/
def asRead : Formula → Formula
  | .atom p => .atom p.asRead
  | .neg f => .neg f.asRead
  | .junction op a b rest =>
      (rest.map asRead).foldl (fun f g => .junction op f g []) (.junction op a.asRead b.asRead [])
  | .imp a b => .imp a.asRead b.asRead
  | .iff a b => .iff a.asRead b.asRead
  | .quant q x f => .quant q x f.asRead

end Formula

end Clausal
