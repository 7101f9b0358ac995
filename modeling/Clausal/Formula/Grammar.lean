import Clausal.Formula.Parser

/-!
# The grammar of formulas

The grammar as data, stated without the parser: what is derived from a phrase is a tree, which has the
words that it derives from left to right and the term or formula that is read off it.

* `Word` is what the grammar sees of a token. Positions play no part, and of the text only that of a
  name.
* `Phrase` lists the phrases; `Derivation phrase` are the derivations from a phrase.
* `Derivation.words` and `Derivation.value` are the words and the value of a derivation.
-/

namespace Clausal

/-! ## Words -/

/-- A name, or a symbol of some kind. -/
inductive Grammar.Word where
  | name (text : String)
  | symbol (kind : TokenKind)
  deriving Repr, DecidableEq

/-- What the grammar sees of a token. -/
def Token.word (t : Token) : Grammar.Word :=
  if t.kind = .name then .name t.text else .symbol t.kind

/-- The token of a quantifier. -/
def Quantifier.token : Quantifier → TokenKind
  | .all => .all
  | .ex => .ex

namespace Grammar

/-! ## Phrases -/

/-- The phrases of the grammar. A repeated part of a rule is a phrase of its own. -/
inductive Phrase where
  | term
  /-- One or more terms, separated by commas. -/
  | terms
  /-- Terms, each after a comma. -/
  | moreTerms
  /-- A formula of the level of a connective; without one, a unary formula. -/
  | formula (level : Option Connective)
  /-- Operands of a connective, each after its symbol. -/
  | operands (op : Connective)
  | atomic
  deriving Repr, DecidableEq

/-- What is read off a derivation from a phrase. -/
abbrev Phrase.Value : Phrase → Type
  | .term => Term
  | .terms => List Term
  | .moreTerms => List Term
  | .formula _ => Formula
  | .operands _ => List Formula
  | .atomic => Formula

/-- What may stand between the variables of a quantifier and its scope. -/
inductive Separator where
  | none
  | dot
  | colon
  deriving Repr, DecidableEq

/-! ## Derivations -/

/-- The derivations from a phrase. -/
inductive Derivation : Phrase → Type where
  | var (x : String) : Derivation .term
  | app (f : String) (args : Derivation .terms) : Derivation .term
  | terms (first : Derivation .term) (more : Derivation .moreTerms) : Derivation .terms
  | noTerm : Derivation .moreTerms
  | nextTerm (next : Derivation .term) (more : Derivation .moreTerms) : Derivation .moreTerms
  | joined {op : Connective} (first : Derivation (.formula op.tighter?))
      (more : Derivation (.operands op)) : Derivation (.formula (some op))
  | noOperand {op : Connective} : Derivation (.operands op)
  | nextOperand {op : Connective} (next : Derivation (.formula op.tighter?))
      (more : Derivation (.operands op)) : Derivation (.operands op)
  | negation (scope : Derivation (.formula none)) : Derivation (.formula none)
  | quantified (q : Quantifier) (x : String) (others : List String) (separator : Separator)
      (scope : Derivation (.formula none)) : Derivation (.formula none)
  | atomic (f : Derivation .atomic) : Derivation (.formula none)
  | paren (f : Derivation (.formula (some .iff))) : Derivation .atomic
  | call (p : String) (args : Derivation .terms) : Derivation .atomic
  /-- On its own a predicate symbol starts with an uppercase letter. -/
  | bare (p : String) (upper : startsUpper p = true) : Derivation .atomic

/-- The words of a list of names, each after a comma. -/
def moreNames (xs : List String) : List Word :=
  xs.flatMap fun x => [.symbol .comma, .name x]

/-- The words of a separator. -/
def Separator.words : Separator → List Word
  | .none => []
  | .dot => [.symbol .dot]
  | .colon => [.symbol .colon]

namespace Derivation

/-- The words that are derived, from left to right. -/
def words : {p : Phrase} → Derivation p → List Word
  | _, .var x => [.name x]
  | _, .app f args => .name f :: .symbol .lparen :: (args.words ++ [.symbol .rparen])
  | _, .terms first more => first.words ++ more.words
  | _, .noTerm => []
  | _, .nextTerm next more => .symbol .comma :: (next.words ++ more.words)
  | _, .joined first more => first.words ++ more.words
  | _, .noOperand => []
  | _, @nextOperand op next more => .symbol op.token :: (next.words ++ more.words)
  | _, .negation scope => .symbol .neg :: scope.words
  | _, .quantified q x others separator scope =>
      .symbol q.token :: .name x :: (moreNames others ++ separator.words ++ scope.words)
  | _, .atomic f => f.words
  | _, .paren f => .symbol .lparen :: (f.words ++ [.symbol .rparen])
  | _, .call p args => .name p :: .symbol .lparen :: (args.words ++ [.symbol .rparen])
  | _, .bare p _ => [.name p]

/-- What is read off a derivation. Operands are joined from left to right; of the variables of a
quantifier the last is bound innermost; a name without arguments is a variable. -/
def value : {p : Phrase} → Derivation p → p.Value
  | _, .var x => .var x
  | _, .app f args => .app f args.value
  | _, .terms first more => first.value :: more.value
  | _, .noTerm => []
  | _, .nextTerm next more => next.value :: more.value
  | _, @joined op first more => more.value.foldl op.join first.value
  | _, .noOperand => []
  | _, .nextOperand next more => next.value :: more.value
  | _, .negation scope => .neg scope.value
  | _, .quantified q x others _ scope => (x :: others).foldr (Formula.quant q) scope.value
  | _, .atomic f => f.value
  | _, .paren f => f.value
  | _, .call p args => .atom ⟨p, args.value⟩
  | _, .bare p _ => .atom ⟨p, []⟩

end Derivation

end Grammar

end Clausal
