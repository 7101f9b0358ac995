import Clausal.Text.Blank

/-!
# Spellings of operators

An operator may be written as its symbol, in ASCII, or as a LaTeX command. `unifySpellings` makes every
operator its symbol, so that the lexer sees symbols only:

* no-break spaces become spaces, and runs of backslashes a single one;
* LaTeX spacing commands become spaces;
* the spellings of operators become symbols, in the order of `spellings`;
* blanks at both ends are removed.
-/

namespace Clausal

/-- Replaces each occurrence of one of the `patterns` by `symbol`, from left to right and without
overlap; of patterns that occur at the same place the first in the list counts. -/
def replaceAny (patterns : List (List Char)) (symbol : Char) (text : List Char) : List Char :=
  match text with
  | [] => []
  | c :: rest =>
      match patterns.find? (·.isPrefixOf (c :: rest)) with
      | some pattern => symbol :: replaceAny patterns symbol (rest.drop (pattern.length - 1))
      | none => c :: replaceAny patterns symbol rest
termination_by text.length
decreasing_by
  · simp only [List.length_drop, List.length_cons]
    omega
  · simp

/-- Makes each run of backslashes a single one. -/
def collapseBackslashes : List Char → List Char
  | '\\' :: '\\' :: rest => collapseBackslashes ('\\' :: rest)
  | c :: rest => c :: collapseBackslashes rest
  | [] => []

/-- The LaTeX commands that only make space. -/
def spacingCommands : List String :=
  ["\\,", "\\;", "\\:", "\\!", "\\quad", "\\qquad", "\\ "]

/-- The spellings of operators with their symbols. They are replaced in this order, so that `<->` is
not taken for `<` before `->`. -/
def spellings : List (String × Char) :=
  [("\\forall", '∀'), ("\\exists", '∃'), ("\\neg", '¬'), ("\\lnot", '¬'), ("\\land", '∧'),
    ("\\lor", '∨'), ("\\leftrightarrow", '↔'), ("\\to", '→'), ("<->", '↔'), ("->", '→'), ("!", '¬'),
    ("~", '¬'), ("&", '∧'), ("|", '∨')]

/-- Makes every operator of a text its symbol. -/
def unifySpellingsChars (text : List Char) : List Char :=
  let spaced := text.map fun c => if c = '\u00a0' then ' ' else c
  let unspaced := replaceAny (spacingCommands.map String.toList) ' ' (collapseBackslashes spaced)
  Text.trimBlanks
    (spellings.foldl (fun t spelling => replaceAny [spelling.1.toList] spelling.2 t) unspaced)

/-- Makes every operator of a text its symbol. -/
def unifySpellings (text : String) : String :=
  String.ofList (unifySpellingsChars text.toList)

end Clausal
