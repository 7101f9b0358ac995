import Clausal.Log.Level
import Clausal.Value.Steps

/-!
# Options of a conversion

Options are handed over by name and as unchecked values; each has a default. A name that is not that
of an option is an error, the values are looked at when they are used.
-/

namespace Clausal

/-- The options of a conversion. -/
structure Options where
  /-- The level at which messages are written. -/
  logLevel : Value := .integer LogLevel.warning
  /-- The base of the names of bound variables. -/
  variableBase : Value := .text "x"
  /-- The stem of the names of Skolem constants. -/
  constantStem : Value := .text "c"
  /-- The stem of the names of Skolem functions. -/
  functionStem : Value := .text "f"
  deriving Repr

namespace Options

/-- Sets the option of a given name. -/
def set? (o : Options) (name : String) (value : Value) : Option Options :=
  match name with
  | "log_level" => some { o with logLevel := value }
  | "variable_base" => some { o with variableBase := value }
  | "constant_prefix" => some { o with constantStem := value }
  | "function_prefix" => some { o with functionStem := value }
  | _ => none

/-- The options given by name; the first name that is not that of an option is an error. -/
def ofEntries (entries : List (String × Value)) : Except String Options :=
  entries.foldlM (fun o entry => (o.set? entry.1 entry.2).elim (.error entry.1) .ok) {}

/-- All options with their values, for the log. -/
def describe (o : Options) : String :=
  Text.record "Options" [("log_level", o.logLevel.describe),
    ("variable_base", o.variableBase.describe), ("constant_prefix", o.constantStem.describe),
    ("function_prefix", o.functionStem.describe)]

/-- The stems of the names of Skolem symbols. -/
def stems (o : Options) : SkolemStems :=
  ⟨o.constantStem.render, o.functionStem.render⟩

/-- The level that is asked for, by number or by name. -/
def level? (o : Options) : Option LogLevel :=
  match o.logLevel with
  | .text name => LogLevel.ofName? name
  | v => v.integer?

end Options

end Clausal
