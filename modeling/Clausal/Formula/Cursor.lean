import Clausal.Formula.Parser

/-!
# Reading tokens step by step

A cursor stands between the tokens that were taken and those that are left. It answers requests for
a single token as well as for any phrase of the grammar, and it stays where a failed request left
it, so that the next request goes on from there.
-/

namespace Clausal

/-- A place in a list of tokens. -/
structure Cursor where
  taken : Nat
  remaining : List Token
  deriving Repr, DecidableEq

namespace Cursor

/-- The cursor before the first token. -/
def start (tokens : List Token) : Cursor :=
  ⟨0, tokens⟩

/-- The cursor that has taken all tokens but `rest`. -/
def moveTo (c : Cursor) (rest : List Token) : Cursor :=
  ⟨c.taken + (c.remaining.length - rest.length), rest⟩

/-- What can be asked of a cursor. -/
inductive Request where
  /-- The next token, which is not taken. -/
  | peek
  /-- Whether a token of this kind comes next; it is taken if so. -/
  | accept (kind : TokenKind)
  /-- The next token, which must be of this kind. -/
  | expect (kind : TokenKind)
  /-- A formula that takes up all tokens that are left. -/
  | formula
  | unary
  | atomic
  | term
  | terms
  /-- Operands joined by a connective. -/
  | binary (op : Connective)
  deriving Repr, DecidableEq

/-- What a cursor answers. -/
inductive Reply where
  | token (token : Option Token)
  | accepted (answer : Bool)
  | formula (f : Formula)
  | term (t : Term)
  | terms (ts : List Term)
  | error (error : ParseError)
  deriving Repr, DecidableEq

/-- Answers by a rule of the grammar, and moves to the tokens that it leaves. -/
def follow {α : Type} {n : Nat} (c : Cursor) (reply : α → Reply) (o : Outcome α n) :
    Reply × Cursor :=
  (match o.result with
    | .ok value => reply value
    | .error error => .error error, c.moveTo o.rest)

/-- Answers a request. -/
def answer (c : Cursor) : Request → Reply × Cursor
  | .peek => (.token c.remaining.head?, c)
  | .accept kind =>
      match Parser.accept kind c.remaining with
      | some rest => (.accepted true, c.moveTo rest)
      | none => (.accepted false, c)
  | .expect kind => c.follow (.token ∘ some) (Parser.expect kind c.remaining)
  | .formula => c.follow .formula (Parser.formula c.remaining)
  | .unary => c.follow .formula (Parser.unary c.remaining)
  | .atomic => c.follow .formula (Parser.atomic c.remaining)
  | .term => c.follow .term (Parser.term c.remaining)
  | .terms => c.follow .terms (Parser.terms c.remaining)
  | .binary op => c.follow .formula (Parser.binary op c.remaining)

end Cursor

end Clausal
