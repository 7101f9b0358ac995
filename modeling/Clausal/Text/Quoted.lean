import Clausal.Text.Printable

/-!
# Quoted text

Text inside messages stands in quotes, so that its ends are visible, and on one line: a character
that cannot be shown as it is becomes an escape.

* `quoted` writes single quotes, or double quotes if only then no quote inside needs an escape.
* `escaped` is the text of one character between quotes of a given kind.
* `quoted_of_plain`: a text in which nothing needs an escape.
-/

namespace Clausal.Text

/-- The lowercase hexadecimal digits of `n`, padded with zeros to `width`. -/
def hexadecimal (width n : Nat) : String :=
  let digits := String.ofList (Nat.toDigits 16 n)
  "".pushn '0' (width - digits.length) ++ digits

/-- The escape of a character by its code point, in the shortest of the three forms that holds it. -/
def codePointEscape (c : Char) : String :=
  if c.toNat < 0x100 then "\\x" ++ hexadecimal 2 c.toNat
  else if c.toNat < 0x10000 then "\\u" ++ hexadecimal 4 c.toNat
  else "\\U" ++ hexadecimal 8 c.toNat

/-- A character as it stands between quotes `quote`. -/
def escaped (quote c : Char) : String :=
  if c = quote ∨ c = '\\' then "\\" ++ c.toString
  else if c = '\t' then "\\t"
  else if c = '\n' then "\\n"
  else if c = '\r' then "\\r"
  else if isPrintable c then c.toString
  else codePointEscape c

/-- Quotes are single, unless the text holds single quotes and no double ones. -/
def quoteFor (text : String) : Char :=
  if text.contains '\'' && !text.contains '"' then '"' else '\''

/-- The text in quotes. -/
def quoted (text : String) : String :=
  let quote := quoteFor text
  quote.toString ++ String.join (text.toList.map (escaped quote)) ++ quote.toString

/-- A text of printable characters other than single quotes and backslashes is left as it is. -/
theorem quoted_of_plain {text : String}
    (plain : (text.toList.all fun c => isPrintable c && c != '\'' && c != '\\') = true) :
    quoted text = "'" ++ text ++ "'" := by
  have each : ∀ c ∈ text.toList, isPrintable c ∧ c ≠ '\'' ∧ c ≠ '\\' := by
    simpa [and_assoc] using plain
  have single : quoteFor text = '\'' := by
    have absent : text.contains '\'' = false := by
      simpa using fun found => (each _ found).2.1 rfl
    rw [quoteFor, absent]
    rfl
  have unchanged : text.toList.map (escaped '\'') = text.toList.map Char.toString := by
    refine List.map_congr_left fun c member => ?_
    obtain ⟨printable, unquoted, unslashed⟩ := each c member
    have shown {d : Char} (hidden : isPrintable d = false) : c ≠ d := by
      rintro rfl
      rw [printable] at hidden
      exact Bool.noConfusion hidden
    rw [escaped, if_neg (by simp [unquoted, unslashed]), if_neg (shown (by decide)),
      if_neg (shown (by decide)), if_neg (shown (by decide)), if_pos printable]
  have joined : String.join (text.toList.map Char.toString) = text := by
    apply String.toList_inj.mp
    rw [String.toList_join, List.flatMap_map]
    simp [Char.toString]
  rw [quoted, single, unchanged, joined]
  rfl

end Clausal.Text
