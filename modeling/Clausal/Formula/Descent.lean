import Clausal.Formula.Cursor

/-!
# Reading tokens by an index

The rules of the grammar as routines that share an index into the tokens. A routine looks at the token at
the index, moves the index past the tokens that it takes, and leaves it where an error finds it.

Routines call one another, those for connectives without taking a token before, and they go round for
as long as a token of some kind follows. Nothing about them says that this ends. Each routine is
therefore given a limit on how many routines and rounds may be under way inside one another, and stops
without an answer where it meets the limit.

* `Routine`: a value or an error, and a change of the index, unless the limit is met.
* `Descent.level` and its companions, one for each rule.
* `Descent.call` answers a request that is made at an index; `Descent.indexAfter` makes several requests.
-/

namespace Clausal

/-- What changes the index and has a value or an error, if it ends within its limit. -/
abbrev Routine := ExceptT ParseError (StateT Nat Option)

/-- The reply that a value or an error makes. -/
def Cursor.Reply.ofResult : Except ParseError Cursor.Reply → Cursor.Reply
  | .ok reply => reply
  | .error e => .error e

/-- What a routine has done from an index. -/
def Routine.runFrom {α : Type} (m : Routine α) (i : Nat) : Option (Except ParseError α × Nat) :=
  m.run.run i

namespace Descent

/-- The limit is met. -/
def stop {α : Type} : Routine α :=
  ExceptT.mk fun _ => none

/-- Moves on to the next token. -/
def skip : Routine Unit :=
  modify (· + 1)

/-- A value made from `name`, which must not be empty. -/
def named {α : Type} (role : NameRole) (name : String) (value : α) : Routine α :=
  if name.isEmpty then throw (.emptyName role) else return value

section
variable (ts : List Token)

/-! ## Single tokens -/

/-- The token at the index. -/
def peek : Routine (Option Token) := do
  return ts[← get]?

/-- Takes a token of the given kind, if it comes next. -/
def accept (kind : TokenKind) : Routine Bool := do
  match ← peek ts with
  | none => return false
  | some t =>
      if t.kind = kind then
        skip
        return true
      else return false

/-- Takes a token of the given kind, which must come next. -/
def expect (kind : TokenKind) : Routine Token := do
  match ← peek ts with
  | none => throw (.expected kind none)
  | some t =>
      if t.kind = kind then
        skip
        return t
      else throw (.expected kind (some t.kind))

/-! ## Terms -/

mutual
/-- A variable, or a function symbol with its arguments. -/
def term : (limit : Nat) → Routine Term
  | 0 => stop
  | limit + 1 => do
      let name ← expect ts .name
      if ← accept ts .lparen then
        let args ← terms limit
        let _ ← expect ts .rparen
        named .function name.text (.app name.text args)
      else
        named .variable name.text (.var name.text)

/-- One or more terms, separated by commas. -/
def terms : (limit : Nat) → Routine (List Term)
  | 0 => stop
  | limit + 1 => do
      let first ← term limit
      let others ← moreTerms limit
      return first :: others

/-- The terms that follow a term, each after a comma. -/
def moreTerms : (limit : Nat) → Routine (List Term)
  | 0 => stop
  | limit + 1 => do
      if ← accept ts .comma then
        let next ← term limit
        let others ← moreTerms limit
        return next :: others
      else
        return []
end

/-! ## Variables of a quantifier -/

/-- The name of a variable. -/
def boundName : Routine String := do
  let name ← expect ts .name
  named .variable name.text name.text

/-- The variables that follow a variable, each after a comma. -/
def moreBoundNames : (limit : Nat) → Routine (List String)
  | 0 => stop
  | limit + 1 => do
      if ← accept ts .comma then
        let x ← boundName ts
        let others ← moreBoundNames limit
        return x :: others
      else
        return []

/-- One or more variables, separated by commas. -/
def boundNames (limit : Nat) : Routine (List String) := do
  let x ← boundName ts
  let others ← moreBoundNames ts limit
  return x :: others

/-- Takes the dot or colon that may follow the variables of a quantifier. -/
def skipSeparator : Routine Unit := do
  if ← accept ts .dot then
    return
  else
    let _ ← accept ts .colon

/-- What follows the symbol of a quantifier: its variables and its scope. -/
def quantified (q : Quantifier) (names : Routine (List String)) (scope : Routine Formula) :
    Routine Formula := do
  let xs ← names
  skipSeparator ts
  let f ← scope
  return xs.foldr (Formula.quant q) f

/-! ## Formulas -/

mutual
/-- A formula of the level of a connective; without one, a unary formula. -/
def level : (limit : Nat) → Option Connective → Routine Formula
  | 0, _ => stop
  | limit + 1, none => unary limit
  | limit + 1, some op => do
      let first ← level limit op.tighter?
      operands limit op first

/-- Joins `left` with the operands that follow it, each after `op`. -/
def operands : (limit : Nat) → Connective → (left : Formula) → Routine Formula
  | 0, _, _ => stop
  | limit + 1, op, left => do
      if ← accept ts op.token then
        let right ← level limit op.tighter?
        operands limit op (op.join left right)
      else
        return left

/-- A negation, a quantified formula, or an atomic formula. -/
def unary : (limit : Nat) → Routine Formula
  | 0 => stop
  | limit + 1 => do
      match ← peek ts with
      | none => throw .incomplete
      | some t =>
          match t.kind with
          | .neg =>
              skip
              let f ← unary limit
              return .neg f
          | .all =>
              skip
              quantified ts .all (boundNames ts limit) (unary limit)
          | .ex =>
              skip
              quantified ts .ex (boundNames ts limit) (unary limit)
          | _ => atomic limit

/-- A formula in parentheses, or a predicate symbol with or without arguments. -/
def atomic : (limit : Nat) → Routine Formula
  | 0 => stop
  | limit + 1 => do
      if ← accept ts .lparen then
        let f ← level limit (some .iff)
        let _ ← expect ts .rparen
        return f
      else
        let name ← expect ts .name
        if ← accept ts .lparen then
          let args ← terms ts limit
          let _ ← expect ts .rparen
          named .predicate name.text (.atom ⟨name.text, args⟩)
        else if startsUpper name.text then
          return .atom ⟨name.text, []⟩
        else
          throw (.ofBareName name.text)
end

/-- A formula that takes up all tokens. -/
def formula (limit : Nat) : Routine Formula := do
  let f ← level ts limit (some .iff)
  match ← peek ts with
  | none => return f
  | some t => throw (.leftover t)

/-! ## Requests -/

/-- Carries out a request. -/
def perform (limit : Nat) : Cursor.Request → Routine Cursor.Reply
  | .peek => return .token (← peek ts)
  | .accept kind => return .accepted (← accept ts kind)
  | .expect kind => return .token (← expect ts kind)
  | .formula => return .formula (← formula ts limit)
  | .unary => return .formula (← unary ts limit)
  | .atomic => return .formula (← atomic ts limit)
  | .term => return .term (← term ts limit)
  | .terms => return .terms (← terms ts limit)
  | .binary op => return .formula (← level ts limit (some op))

/-- What a request made at an index is answered, and the index after it. -/
def call (limit : Nat) (request : Cursor.Request) (i : Nat) : Option (Cursor.Reply × Nat) :=
  ((perform ts limit request).runFrom i).map fun (result, j) => (.ofResult result, j)

/-- The index after requests made one after the other. -/
def indexAfter (limit : Nat) (requests : List Cursor.Request) (i : Nat) : Option Nat :=
  requests.foldlM (fun i request => (call ts limit request i).map Prod.snd) i

end

end Descent

end Clausal
