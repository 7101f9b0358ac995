import Clausal.Text.Bracketed
import Clausal.Text.Quoted

/-!
# Tokens

The tokens of formula text: operator symbols, punctuation and names.

* `TokenKind.label` is the word for a kind in messages and in token lists; `TokenKind.ofLabel` reads
  it back. A label of no known kind makes a kind that no rule of the grammar accepts.
* `TokenKind.ofSymbol?` is the kind of a token that is a single symbol.
-/

namespace Clausal

/-- The kinds of tokens. -/
inductive TokenKind where
  | all
  | ex
  | neg
  | conj
  | disj
  | imp
  | iff
  | name
  | lparen
  | rparen
  | comma
  | dot
  | colon
  | other (label : String)
  deriving Repr, DecidableEq

namespace TokenKind

/-- The word for a kind. -/
def label : TokenKind → String
  | .all => "forall"
  | .ex => "exists"
  | .neg => "not"
  | .conj => "and"
  | .disj => "or"
  | .imp => "implies"
  | .iff => "iff"
  | .name => "name"
  | .lparen => "("
  | .rparen => ")"
  | .comma => ","
  | .dot => "."
  | .colon => ":"
  | .other label => label

/-- The kinds that tokens of formula text have. -/
def known : List TokenKind :=
  [.all, .ex, .neg, .conj, .disj, .imp, .iff, .name, .lparen, .rparen, .comma, .dot, .colon]

/-- The kind with a given word. -/
def ofLabel (label : String) : TokenKind :=
  (known.find? (·.label == label)).getD (.other label)

/-- The kind of a token that consists of one symbol. -/
def ofSymbol? : Char → Option TokenKind
  | '∀' => some .all
  | '∃' => some .ex
  | '¬' => some .neg
  | '∧' => some .conj
  | '∨' => some .disj
  | '→' => some .imp
  | '↔' => some .iff
  | '(' => some .lparen
  | ')' => some .rparen
  | ',' => some .comma
  | '.' => some .dot
  | ':' => some .colon
  | _ => none

/-- Reading the word of a kind gives back a kind with this word. -/
theorem label_ofLabel (label : String) : (ofLabel label).label = label := by
  unfold ofLabel
  cases found : known.find? (·.label == label) with
  | none => rfl
  | some kind => simpa using List.find?_some found

end TokenKind

/-- A token with its text and the offset of its first character. -/
structure Token where
  kind : TokenKind
  text : String
  position : Int
  deriving Repr, DecidableEq

/-- The constructor-style form of a token. -/
def Token.describe (t : Token) : String :=
  Text.record "Token" [("kind", Text.quoted t.kind.label), ("value", Text.quoted t.text),
    ("position", toString t.position)]

/-! ## Names -/

/-- Names start with a letter or an underscore; letters are those of the basic Latin alphabet. -/
def isNameStart (c : Char) : Bool :=
  c.isAlpha || c = '_'

/-- Names go on with letters, underscores and decimal digits. -/
def isNameChar (c : Char) : Bool :=
  isNameStart c || c.isDigit

/-- A text that is a name as a whole. -/
def isName (text : String) : Bool :=
  match text.toList with
  | [] => false
  | c :: rest => isNameStart c && rest.all isNameChar

/-- Names that may stand alone as atomic formulas start with an uppercase letter. -/
def startsUpper (text : String) : Bool :=
  match text.toList with
  | [] => false
  | c :: _ => c.isUpper

end Clausal
