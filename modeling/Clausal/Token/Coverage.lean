import Clausal.Token.Scan
import Clausal.Token.Writing

/-!
# What a scan covers

The tokens of a text and the blanks around them make up the whole text. This does not depend on which
characters are blank, as long as the space is blank and no character of a token is.

* `Text.Separates` are the tests for blanks that tell them from the characters of tokens.
* `Token.Covers` are the lists of tokens that make up a text together with blanks.
* `Text.IsStray` are the characters for which no blank and no token accounts.
-/

namespace Clausal

/-- A test for blanks that keeps them apart from the characters of tokens. The space is blank. -/
structure Text.Separates (blank : Char → Bool) : Prop where
  space : blank ' ' = true
  symbol : ∀ c kind, TokenKind.ofSymbol? c = some kind → blank c = false
  name : ∀ c, isNameChar c = true → blank c = false

/-! ## Texts that are covered -/

/-- The offset at which the text of a token has ended. -/
def Token.finish (t : Token) : Int :=
  t.position + t.text.length

/-- The text of a token stands at a place of a text. A name ends where no more of it follows. -/
structure Token.StandsAt (t : Token) (text : List Char) (place : Nat) : Prop where
  same : t.text.toList <+: text.drop place
  ends : t.kind = .name → ∀ c, text[place + t.text.length]? = some c → isNameChar c = false

/-- Tokens and blanks make up a text, whose first character has the offset `start`. The tokens are
names and symbols, one begins after the one before it has ended, each stands where its position says,
and what is not blank belongs to one of them. -/
structure Token.Covers (blank : Char → Bool) (start : Nat) (text : List Char) (ts : List Token) :
    Prop where
  ordered : ts.Pairwise fun t u => t.position < u.position ∧ t.finish ≤ u.position
  scanned : ∀ t ∈ ts, t.IsScanned
  placed : ∀ t ∈ ts, ∃ place : Nat, t.position = (start + place : Nat) ∧ t.StandsAt text place
  blank : ∀ place c, text[place]? = some c →
    blank c = true ∨ ∃ t ∈ ts, t.position ≤ (start + place : Nat) ∧ (start + place : Nat) < t.finish

/-! ## Stray characters -/

/-- The characters from `first` up to `last` are a name, and those of no larger part of the text around
them are one. -/
structure Text.IsMaximalName (text : List Char) (first last : Nat) : Prop where
  within : last ≤ text.length
  name : isName (String.ofList (text.extract first last)) = true
  maximal : ∀ first' last', first' ≤ first → last ≤ last' → last' ≤ text.length →
    isName (String.ofList (text.extract first' last')) = true → first' = first ∧ last' = last

/-- The character at a place is neither a blank nor a symbol, and belongs to no name. -/
def Text.IsStray (blank : Char → Bool) (text : List Char) (place : Nat) : Prop :=
  ∃ c, text[place]? = some c ∧ blank c = false ∧ TokenKind.ofSymbol? c = none ∧
    ¬ ∃ first last, IsMaximalName text first last ∧ first ≤ place ∧ place < last

/-- An error tells the first stray character of a text and where it stands. -/
structure LexError.IsFirstStray (blank : Char → Bool) (text : List Char) (e : LexError) : Prop where
  here : text[e.position]? = some e.character
  stray : Text.IsStray blank text e.position
  first : ∀ place < e.position, ¬ Text.IsStray blank text place

end Clausal
