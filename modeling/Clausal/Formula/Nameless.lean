import Clausal.Formula.Occurrence

/-!
# Formulas without names of bound variables

Two formulas that differ in the names of their bound variables only are variants of one another. To
tell whether they are, every bound occurrence of a variable is written as the number of quantifiers
that stand between it and the quantifier that binds it; variants are then the same.

* `locate` finds what an occurrence of a variable refers to, below given quantifiers.
* `Formula.nameless` is the form without names of bound variables.
* `Formula.IsVariantOf` is equality of the nameless forms.
-/

namespace Clausal

/-- What an occurrence of a variable refers to: a quantifier around it, of which the innermost has
number 0, or a free variable. -/
inductive Reference where
  | binder (index : Nat)
  | free (name : String)
  deriving Repr, DecidableEq

/-- The same reference from below one more quantifier. -/
def Reference.below : Reference → Reference
  | .binder i => .binder (i + 1)
  | .free x => .free x

/-- What `x` refers to below quantifiers for the variables of a list, innermost first. -/
def locate : List String → String → Reference
  | [], x => .free x
  | y :: outer, x => if x = y then .binder 0 else (locate outer x).below

/-- A term with references in the place of variables. -/
inductive NamelessTerm where
  | ref (r : Reference)
  | app (symbol : String) (args : List NamelessTerm)

/-- A formula whose quantifiers have no names. -/
inductive NamelessFormula where
  | atom (symbol : String) (terms : List NamelessTerm)
  | neg (f : NamelessFormula)
  | junction (op : Junctor) (members : List NamelessFormula)
  | imp (a b : NamelessFormula)
  | iff (a b : NamelessFormula)
  | quant (q : Quantifier) (f : NamelessFormula)

/-- Writes references for the variables of a term, below quantifiers for `outer`. -/
def Term.nameless (outer : List String) : Term → NamelessTerm
  | .var x => .ref (locate outer x)
  | .app f ts => .app f (ts.map (nameless outer))

namespace Formula

/-- The form without names of bound variables, below quantifiers for `outer`. -/
def nameless (outer : List String) : Formula → NamelessFormula
  | .atom p => .atom p.symbol (p.terms.map (Term.nameless outer))
  | .neg f => .neg (f.nameless outer)
  | .junction op a b rest =>
      .junction op (a.nameless outer :: b.nameless outer :: rest.map (nameless outer))
  | .imp a b => .imp (a.nameless outer) (b.nameless outer)
  | .iff a b => .iff (a.nameless outer) (b.nameless outer)
  | .quant q x f => .quant q (f.nameless (x :: outer))

/-- Equality up to the names of bound variables. -/
def IsVariantOf (f g : Formula) : Prop :=
  f.nameless [] = g.nameless []

end Formula

end Clausal
