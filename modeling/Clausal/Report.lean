import Clausal.Token.Scan
import Clausal.Value.Basic

/-!
# Reporting errors

Errors that a user of the program can mend, such as a malformed formula, are shown as one line with
the class of the error and its message. All other errors are passed on to whoever handles them
otherwise. An interactive shell hands over only errors of the first sort, and each is shown.
-/

namespace Clausal

/-- An error to be reported: the name of its class, whether it is for the user, and its message. -/
structure Problem where
  className : String
  forUser : Bool
  message : String
  deriving Repr, DecidableEq

/-- The text that was shown, and the class names of the errors that were passed on. -/
structure Report where
  shown : String
  passedOn : List String
  deriving Repr, DecidableEq

namespace Problem

/-- The line that shows an error. -/
def line (p : Problem) : String :=
  p.className ++ ": " ++ p.message ++ "\n"

/-- Shows an error for the user, and passes on any other. -/
def report (p : Problem) : Report :=
  if p.forUser then ⟨p.line, []⟩ else ⟨"", [p.className]⟩

/-- Shows an error that an interactive shell hands over. -/
def reportInteractive (p : Problem) : Report :=
  ⟨p.line, []⟩

/-- The classes of errors that a user can mend. -/
def userClasses : List String :=
  ["LexError", "ParseError", "NoTraceException"]

/-- The message of an error that was made from the given arguments. The error about a character tells
the character and its offset, and that about a key shows the key as it is. Any other error shows a
single argument as it is read, and several as a tuple. -/
def messageOf (className : String) (args : List Value) : String :=
  match className, args with
  | "LexError", [character, position] => LexError.complaint character.describe position.render
  | "KeyError", [key] => key.describe
  | _, [] => ""
  | _, [v] => v.render
  | _, args => (Value.tuple args).describe

/-- The error of a class that was made from the given arguments. -/
def ofArguments (className : String) (args : List Value) : Problem :=
  ⟨className, userClasses.contains className, messageOf className args⟩

end Problem

end Clausal
