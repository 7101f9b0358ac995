/-!
# Bracketed text

The texts of things that have parts, from the texts of the parts. A tuple of one part keeps a comma
after it, since parentheses alone only group.
-/

namespace Clausal.Text

/-- The word for a truth value. -/
def truth (b : Bool) : String :=
  if b then "True" else "False"

/-- Parts in square brackets: `[a, b]`. -/
def list (parts : List String) : String :=
  "[" ++ ", ".intercalate parts ++ "]"

/-- Parts in braces. -/
def braces (parts : List String) : String :=
  "\x7b" ++ ", ".intercalate parts ++ "\x7d"

/-- Parts in parentheses: `()`, `(a,)`, `(a, b)`. -/
def tuple : List String → String
  | [part] => "(" ++ part ++ ",)"
  | parts => "(" ++ ", ".intercalate parts ++ ")"

/-- Named parts in parentheses after a name: `Point(x=1, y=2)`. -/
def record (name : String) (fields : List (String × String)) : String :=
  name ++ "(" ++ ", ".intercalate (fields.map fun field => field.1 ++ "=" ++ field.2) ++ ")"

end Clausal.Text
