import Clausal.Token.Basic
import Clausal.Token.Spelling

/-!
# Ways to write tokens

A list of tokens is written by writing one token after the other, with space before, between and
after them. Two names in a row need some space between them.

* `Token.Writing` are the texts that write a list of tokens, given what counts as space and how a
  single token is written.
* `Text.IsSpacing` and `Token.IsSpelling` are the freedoms that formula text leaves: LaTeX commands
  that only make space, and all spellings of the operators. A LaTeX command may start with any
  number of backslashes.
-/

namespace Clausal

/-- Blanks and LaTeX commands that only make space. -/
inductive Text.IsSpacing : List Char → Prop
  | nil : IsSpacing []
  | blank {c : Char} {rest : List Char} (blank : isBlank c = true) (more : IsSpacing rest) :
      IsSpacing (c :: rest)
  | command {command : String} {rest : List Char} (n : Nat) (known : command ∈ spacingCommands)
      (more : IsSpacing rest) : IsSpacing (List.replicate n '\\' ++ command.toList ++ rest)

namespace Token

/-- A token as the scan of a text makes it: a name, or a symbol of its kind. -/
def IsScanned (t : Token) : Prop :=
  (t.kind = .name ∧ isName t.text = true) ∨
    ∃ c, TokenKind.ofSymbol? c = some t.kind ∧ t.text = c.toString

/-- A token is written as its own text; an operator also in each of its spellings, and those that
are LaTeX commands with further backslashes. -/
inductive IsSpelling (t : Token) : List Char → Prop
  | own : IsSpelling t t.text.toList
  | other {spelling : String} {c : Char} (n : Nat) (known : (spelling, c) ∈ spellings)
      (symbol : t.text = c.toString) (command : n ≠ 0 → spelling.toList.head? = some '\\') :
      IsSpelling t (List.replicate n '\\' ++ spelling.toList)

/-- The texts that write some tokens, `afterName` telling whether a name stands before them. Between
two names there is space. -/
inductive Writing (space : List Char → Prop) (spelling : Token → List Char → Prop) :
    (afterName : Bool) → List Token → List Char → Prop
  | nil {afterName : Bool} {gap : List Char} (spaced : space gap) :
      Writing space spelling afterName [] gap
  | cons {afterName : Bool} {t : Token} {ts : List Token} {gap text rest : List Char}
      (spaced : space gap) (apart : afterName = true → t.kind = .name → gap ≠ [])
      (spelled : spelling t text) (more : Writing space spelling (t.kind = .name) ts rest) :
      Writing space spelling afterName (t :: ts) (gap ++ (text ++ rest))

end Token

end Clausal
