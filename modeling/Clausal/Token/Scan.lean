import Clausal.Text.Blank
import Clausal.Text.Quoted
import Clausal.Token.Basic

/-!
# Splitting text into tokens

Blanks separate tokens and are otherwise ignored. Every operator and every punctuation mark is one
symbol; a name extends as far as it can. Any other character ends the scan with a `LexError`, which
tells the character and its offset.

* `scanBy` goes through the characters, given a test for blanks.
* `tokenize` scans a text with the blanks of formula text.
-/

namespace Clausal

/-- A character that starts no token. -/
structure LexError where
  character : Char
  position : Nat
  deriving Repr, DecidableEq

/-- The message about an unexpected character at an offset, from their texts. -/
def LexError.complaint (character position : String) : String :=
  "unexpected character " ++ character ++ " at position " ++ position

/-- The text of an error. -/
def LexError.message (e : LexError) : String :=
  LexError.complaint (Text.quoted e.character.toString) (toString e.position)

/-- The tokens of `text`, whose first character has the offset `position`, if the characters that pass
the test `blank` separate tokens. -/
def scanBy (blank : Char → Bool) (position : Nat) (text : List Char) :
    Except LexError (List Token) :=
  match text with
  | [] => .ok []
  | c :: rest =>
      if blank c then scanBy blank (position + 1) rest
      else
        match TokenKind.ofSymbol? c with
        | some kind => do
            let tokens ← scanBy blank (position + 1) rest
            return ⟨kind, c.toString, position⟩ :: tokens
        | none =>
            if isNameStart c then do
              let name := c :: rest.takeWhile isNameChar
              let tokens ← scanBy blank (position + name.length) (rest.dropWhile isNameChar)
              return ⟨.name, String.ofList name, position⟩ :: tokens
            else .error ⟨c, position⟩
termination_by text.length
decreasing_by
  · simp
  · simp
  · exact Nat.lt_succ_of_le (List.dropWhile_suffix isNameChar).length_le

/-- Splits text into tokens, with a given test for blanks. -/
def tokenizeBy (blank : Char → Bool) (text : String) : Except LexError (List Token) :=
  scanBy blank 0 text.toList

/-- Splits text into tokens, at the blanks of formula text. -/
def tokenize (text : String) : Except LexError (List Token) :=
  tokenizeBy Text.isBlank text

end Clausal
