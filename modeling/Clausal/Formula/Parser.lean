import Clausal.Formula.Basic
import Clausal.Token.Scan
import Clausal.Token.Spelling

/-!
# Reading formulas

A formula is read from its tokens by recursive descent. From loosest to tightest the levels are

    iff    ::= imp ('↔' imp)*
    imp    ::= disj ('→' disj)*
    disj   ::= conj ('∨' conj)*
    conj   ::= unary ('∧' unary)*
    unary  ::= '¬' unary | ('∀' | '∃') name (',' name)* ['.' | ':'] unary | atomic
    atomic ::= '(' iff ')' | name '(' term (',' term)* ')' | name
    term   ::= name '(' term (',' term)* ')' | name

Binary operators associate to the left, and the scope of a quantifier is a single unary formula. A
name that stands alone as an atomic formula starts with an uppercase letter.

Every rule looks at most one token ahead and never goes back. Its `Outcome` carries the tokens that
are left, also after an error, with a bound on their number: a rule that succeeds has consumed a
token, and that is why the recursion ends.
-/

namespace Clausal

/-- What a name stands for. -/
inductive NameRole where
  | variable
  | function
  | predicate
  deriving Repr, DecidableEq

/-- The word for a role in messages. -/
def NameRole.word : NameRole → String
  | .variable => "variable"
  | .function => "function"
  | .predicate => "predicate"

/-- Why tokens are not read as a formula. -/
inductive ParseError where
  /-- A token of kind `kind` must follow, but another one or the end does. -/
  | expected (kind : TokenKind) (found : Option TokenKind)
  /-- A formula must follow, but the end does. -/
  | incomplete
  /-- A name that cannot be an atomic formula on its own. -/
  | bareName (name : String)
  /-- A formula is complete, but tokens follow. -/
  | leftover (token : Token)
  /-- A name token without text. -/
  | emptyName (role : NameRole)
  /-- A name token without text stands alone, and has no first letter to look at. -/
  | noFirstLetter
  deriving Repr, DecidableEq

/-- The text of an error. -/
def ParseError.message : ParseError → String
  | .expected kind found =>
      "expected " ++ kind.label ++ ", got " ++ (found.map TokenKind.label).getD "EOF"
  | .incomplete => "incomplete formula"
  | .bareName name =>
      "invalid atomic use of identifier " ++ name ++
        "; use predicates like P(x) or a name starting with an uppercase letter"
  | .leftover token =>
      "leftover tokens after formula, starting with " ++ token.text ++ " at position " ++
        toString token.position
  | .emptyName role => "'' is not a valid " ++ role.word ++ " name"
  | .noFirstLetter => "string index out of range"

/-- The error about a name that cannot stand alone. -/
def ParseError.ofBareName (name : String) : ParseError :=
  if name.isEmpty then .noFirstLetter else .bareName name

/-- The operators that stand between two operands. -/
inductive Connective where
  | iff
  | imp
  | disj
  | conj
  deriving Repr, DecidableEq

namespace Connective

/-- The token of an operator. -/
def token : Connective → TokenKind
  | .iff => .iff
  | .imp => .imp
  | .disj => .disj
  | .conj => .conj

/-- The formula that an operator makes of its operands. -/
def join : Connective → Formula → Formula → Formula
  | .iff, a, b => .iff a b
  | .imp, a, b => .imp a b
  | .disj, a, b => .disj a b
  | .conj, a, b => .conj a b

/-- The operator that binds next more tightly; operands of a conjunction are unary. -/
def tighter? : Connective → Option Connective
  | .iff => some .imp
  | .imp => some .disj
  | .disj => some .conj
  | .conj => none

/-- The number of levels from an operator down to the unary formulas. -/
def height : Connective → Nat
  | .iff => 4
  | .imp => 3
  | .disj => 2
  | .conj => 1

theorem height_lt {op next : Connective} (below : op.tighter? = some next) :
    next.height < op.height := by
  cases op <;> simp [tighter?] at below <;> subst below <;> decide

end Connective

/-! ## Outcomes -/

/-- What a rule makes of some tokens: a value, or an error, and the tokens it leaves. A rule is given
a `bound`; when it succeeds it leaves fewer tokens than that. -/
inductive Outcome (α : Type) (bound : Nat) where
  | done (value : α) (rest : List Token) (shorter : rest.length < bound)
  | failed (error : ParseError) (rest : List Token) (within : rest.length ≤ bound)

namespace Outcome

variable {α β : Type} {m n : Nat}

/-- The value or the error. -/
def result : Outcome α n → Except ParseError α
  | .done value _ _ => .ok value
  | .failed error _ _ => .error error

/-- The tokens that are left. -/
def rest : Outcome α n → List Token
  | .done _ rest _ => rest
  | .failed _ rest _ => rest

/-- The same outcome under a greater bound. -/
def widen (larger : m ≤ n) : Outcome α m → Outcome α n
  | .done value rest shorter => .done value rest (Nat.lt_of_lt_of_le shorter larger)
  | .failed error rest within => .failed error rest (Nat.le_trans within larger)

/-- Goes on after a success; an error stays. -/
def andThen (o : Outcome α n)
    (next : α → (rest : List Token) → rest.length < n → Outcome β n) : Outcome β n :=
  match o with
  | .done value rest shorter => next value rest shorter
  | .failed error rest within => .failed error rest within

/-- Succeeds with a value made from `name`, which must not be empty. -/
def named (role : NameRole) (name : String) (value : α) (rest : List Token)
    (shorter : rest.length < n) : Outcome α n :=
  if name.isEmpty then .failed (.emptyName role) rest (Nat.le_of_lt shorter)
  else .done value rest shorter

end Outcome

namespace Parser

/-! ## Single tokens -/

/-- Takes a token of the given kind. -/
def expect (kind : TokenKind) : (ts : List Token) → Outcome Token ts.length
  | [] => .failed (.expected kind none) [] (by simp)
  | t :: rest =>
      if t.kind = kind then .done t rest (by simp)
      else .failed (.expected kind (some t.kind)) (t :: rest) (by simp)

/-- The tokens after a token of the given kind, if one comes next. -/
def accept (kind : TokenKind) :
    (ts : List Token) → Option { rest : List Token // rest.length < ts.length }
  | [] => none
  | t :: rest => if t.kind = kind then some ⟨rest, by simp⟩ else none

/-- The tokens after the dot or colon that may follow the variables of a quantifier. -/
def skipSeparator (ts : List Token) : { rest : List Token // rest.length ≤ ts.length } :=
  match accept .dot ts with
  | some ⟨rest, shorter⟩ => ⟨rest, Nat.le_of_lt shorter⟩
  | none =>
      match accept .colon ts with
      | some ⟨rest, shorter⟩ => ⟨rest, Nat.le_of_lt shorter⟩
      | none => ⟨ts, Nat.le_refl _⟩

/-! ## Terms -/

mutual
/-- A variable, or a function symbol with its arguments. -/
def term (ts : List Token) : Outcome Term ts.length :=
  (expect .name ts).andThen fun t rest _ =>
    match accept .lparen rest with
    | some ⟨inside, _⟩ =>
        ((terms inside).widen (by omega)).andThen fun args after _ =>
          ((expect .rparen after).widen (by omega)).andThen fun _ final shorter =>
            .named .function t.text (.app t.text args) final shorter
    | none => .named .variable t.text (.var t.text) rest (by omega)
termination_by (ts.length, 0)

/-- One or more terms, separated by commas. -/
def terms (ts : List Token) : Outcome (List Term) ts.length :=
  (term ts).andThen fun first rest _ =>
    ((moreTerms rest).widen (by omega)).andThen fun others after shorter =>
      .done (first :: others) after shorter
termination_by (ts.length, 1)

/-- The terms that follow a term, each after a comma. -/
def moreTerms (ts : List Token) : Outcome (List Term) (ts.length + 1) :=
  match accept .comma ts with
  | some ⟨inside, _⟩ =>
      Outcome.widen (Nat.le_succ _) <|
        ((term inside).widen (by omega) : Outcome Term ts.length).andThen fun next rest _ =>
          ((moreTerms rest).widen (by omega)).andThen fun others after shorter =>
            .done (next :: others) after shorter
  | none => .done [] ts (by omega)
termination_by (ts.length, 0)
end

/-! ## Variables of a quantifier -/

/-- The name of a variable. -/
def boundName (ts : List Token) : Outcome String ts.length :=
  (expect .name ts).andThen fun t rest shorter => .named .variable t.text t.text rest shorter

/-- The variables that follow a variable, each after a comma. -/
def moreBoundNames (ts : List Token) : Outcome (List String) (ts.length + 1) :=
  match accept .comma ts with
  | some ⟨inside, _⟩ =>
      Outcome.widen (Nat.le_succ _) <|
        ((boundName inside).widen (by omega) : Outcome String ts.length).andThen fun x rest _ =>
          ((moreBoundNames rest).widen (by omega)).andThen fun others after shorter =>
            .done (x :: others) after shorter
  | none => .done [] ts (by omega)
termination_by ts.length

/-- One or more variables, separated by commas. -/
def boundNames (ts : List Token) : Outcome (List String) ts.length :=
  (boundName ts).andThen fun x rest _ =>
    ((moreBoundNames rest).widen (by omega)).andThen fun others after shorter =>
      .done (x :: others) after shorter

/-! ## Formulas -/

mutual
/-- Operands joined by `op` from left to right. -/
def binary (op : Connective) (ts : List Token) : Outcome Formula ts.length :=
  (operand op ts).andThen fun first rest shorter => (operands op first rest).widen shorter
termination_by (ts.length, 2 * op.height + 2)

/-- An operand of `op`: a formula of the next level. -/
def operand (op : Connective) (ts : List Token) : Outcome Formula ts.length :=
  match _ : op.tighter? with
  | some next => binary next ts
  | none => unary ts
termination_by (ts.length, 2 * op.height + 1)
decreasing_by
  · rename_i below
    have := Connective.height_lt below
    exact Prod.Lex.right _ (by omega)
  · exact Prod.Lex.right _ (by cases op <;> simp [Connective.height])

/-- Joins `left` with the operands that follow it, each after `op`. -/
def operands (op : Connective) (left : Formula) (ts : List Token) :
    Outcome Formula (ts.length + 1) :=
  match accept op.token ts with
  | some ⟨inside, _⟩ =>
      Outcome.widen (Nat.le_succ _) <|
        ((operand op inside).widen (by omega) : Outcome Formula ts.length).andThen
          fun right rest _ => (operands op (op.join left right) rest).widen (by omega)
  | none => .done left ts (by omega)
termination_by (ts.length, 0)

/-- A negation, a quantified formula, or an atomic formula. -/
def unary (ts : List Token) : Outcome Formula ts.length :=
  match ts with
  | [] => .failed .incomplete [] (by simp)
  | t :: rest =>
      match t.kind with
      | .neg =>
          ((unary rest).widen (by simp)).andThen fun f after shorter =>
            .done (.neg f) after shorter
      | .all => (quantified .all rest).widen (by simp)
      | .ex => (quantified .ex rest).widen (by simp)
      | _ => atomic (t :: rest)
termination_by (ts.length, 2)

/-- What follows the symbol of a quantifier: its variables and its scope. -/
def quantified (q : Quantifier) (ts : List Token) : Outcome Formula ts.length :=
  (boundNames ts).andThen fun xs rest _ =>
    match skipSeparator rest with
    | ⟨scope, _⟩ =>
        ((unary scope).widen (by omega)).andThen fun f after shorter =>
          .done (xs.foldr (Formula.quant q) f) after shorter
termination_by (ts.length, 3)

/-- A formula in parentheses, or a predicate symbol with or without arguments. -/
def atomic (ts : List Token) : Outcome Formula ts.length :=
  match accept .lparen ts with
  | some ⟨inside, _⟩ =>
      ((binary .iff inside).widen (by omega)).andThen fun f after _ =>
        ((expect .rparen after).widen (by omega)).andThen fun _ final shorter =>
          .done f final shorter
  | none =>
      (expect .name ts).andThen fun t rest _ =>
        match accept .lparen rest with
        | some ⟨inside, _⟩ =>
            ((terms inside).widen (by omega)).andThen fun args after _ =>
              ((expect .rparen after).widen (by omega)).andThen fun _ final shorter =>
                .named .predicate t.text (.atom ⟨t.text, args⟩) final shorter
        | none =>
            if startsUpper t.text then .done (.atom ⟨t.text, []⟩) rest (by omega)
            else .failed (.ofBareName t.text) rest (by omega)
termination_by (ts.length, 1)
end

/-- A formula that takes up all tokens. -/
def formula (ts : List Token) : Outcome Formula ts.length :=
  (binary .iff ts).andThen fun f rest shorter =>
    match rest with
    | [] => .done f [] shorter
    | t :: more => .failed (.leftover t) (t :: more) (Nat.le_of_lt shorter)

end Parser

/-! ## Reading text -/

/-- Why a text is not read as a formula. -/
inductive ReadError where
  | lexical (error : LexError)
  | syntactic (error : ParseError)
  deriving Repr, DecidableEq

/-- The text of an error. -/
def ReadError.message : ReadError → String
  | .lexical error => error.message
  | .syntactic error => error.message

namespace Formula

/-- Reads a formula from tokens. -/
def ofTokens (ts : List Token) : Except ReadError Formula :=
  (Parser.formula ts).result.mapError .syntactic

/-- Reads a formula from text, in which operators may be written in any of their spellings. -/
def parse (text : String) : Except ReadError Formula :=
  (tokenize (unifySpellings text)).mapError .lexical >>= ofTokens

end Formula

end Clausal
