import Clausal.Formula.Grammar

/-!
# What the rules of the parser take

Each rule of the parser, said as what it takes from the front of a token list when it succeeds. The
rules are opened here once; what is proved of the parser elsewhere goes by these equivalences.

* `Outcome.Gives`: a rule succeeds with a value and leaves some tokens.
* `StartsWith`: a token of a kind comes next.
* `RuleLemmas.gives_term` and its companions, one for each rule.
-/

namespace Clausal

/-- The rule succeeds with `value` and leaves `rest`. -/
def Outcome.Gives {α : Type} {n : Nat} (o : Outcome α n) (value : α) (rest : List Token) : Prop :=
  o.result = .ok value ∧ o.rest = rest

/-- A token of kind `kind` comes next. -/
def StartsWith (kind : TokenKind) (ts : List Token) : Prop :=
  ∃ t rest, ts = t :: rest ∧ t.kind = kind

/-- The rule for formulas of the level of a connective, or for unary formulas. -/
def Parser.level (level : Option Connective) (ts : List Token) : Outcome Formula ts.length :=
  match level with
  | some op => binary op ts
  | none => unary ts

namespace RuleLemmas

open Clausal.Parser

/-! ## Outcomes -/

section
variable {α β : Type} {m n : Nat} {a v : α} {b : β} {rest after ts : List Token}

@[simp] theorem gives_done {shorter : rest.length < n} :
    (Outcome.done a rest shorter).Gives v after ↔ v = a ∧ after = rest := by
  simp only [Outcome.Gives, Outcome.result, Outcome.rest, Except.ok.injEq]
  exact and_congr eq_comm eq_comm

@[simp] theorem not_gives_failed {e : ParseError} {within : rest.length ≤ n} :
    ¬ (Outcome.failed e rest within : Outcome α n).Gives v after := by
  simp [Outcome.Gives, Outcome.result]

@[simp] theorem gives_widen {o : Outcome α m} {larger : m ≤ n} :
    (o.widen larger).Gives v after ↔ o.Gives v after := by
  cases o <;> rfl

theorem length_lt_of_gives {o : Outcome α n} (gives : o.Gives v after) : after.length < n := by
  cases o with
  | done a rest shorter =>
      rw [gives_done] at gives
      exact gives.2 ▸ shorter
  | failed e rest within => exact absurd gives not_gives_failed

/-- A rule that goes on after another one succeeds if both do, one after the other. -/
theorem gives_andThen {o : Outcome α n}
    {next : α → (rest : List Token) → rest.length < n → Outcome β n} :
    (o.andThen next).Gives b after ↔
      ∃ a rest, ∃ given : o.Gives a rest,
        (next a rest (length_lt_of_gives given)).Gives b after := by
  cases o with
  | done a rest shorter =>
      constructor
      · exact fun gives => ⟨a, rest, ⟨rfl, rfl⟩, gives⟩
      · rintro ⟨a, rest, ⟨same, rfl⟩, gives⟩
        cases Except.ok.inj same
        exact gives
  | failed e rest within => simp [Outcome.andThen]

@[simp] theorem gives_named {role : NameRole} {name : String} {shorter : rest.length < n} :
    (Outcome.named role name a rest shorter).Gives v after ↔
      name ≠ "" ∧ v = a ∧ after = rest := by
  unfold Outcome.named
  split
  case isTrue empty => simp [String.isEmpty_iff.mp empty]
  case isFalse filled =>
    rw [gives_done]
    exact (and_iff_right (filled ∘ String.isEmpty_iff.mpr)).symm

end

/-! ## Single tokens -/

section
variable {kind : TokenKind} {t : Token} {ts rest : List Token}

theorem gives_expect : (expect kind ts).Gives t rest ↔ ts = t :: rest ∧ t.kind = kind := by
  cases ts with
  | nil => simp [expect]
  | cons u after =>
      rw [expect]
      split
      case isTrue same =>
        rw [gives_done, List.cons.injEq]
        constructor
        · rintro ⟨rfl, rfl⟩
          exact ⟨⟨rfl, rfl⟩, same⟩
        · rintro ⟨⟨rfl, rfl⟩, _⟩
          exact ⟨rfl, rfl⟩
      case isFalse differ =>
        simp only [not_gives_failed, List.cons.injEq, false_iff, not_and]
        rintro ⟨rfl, rfl⟩
        exact differ

theorem startsWith_cons : StartsWith kind (t :: rest) ↔ t.kind = kind := by
  simp [StartsWith]

theorem accept_eq_none (stop : ¬ StartsWith kind ts) : accept kind ts = none := by
  cases ts with
  | nil => rfl
  | cons t rest => rw [accept, if_neg (stop ∘ startsWith_cons.mpr)]

theorem accept_cons (same : t.kind = kind) :
    accept kind (t :: rest) = some ⟨rest, Nat.lt_succ_self rest.length⟩ := by
  rw [accept, if_pos same]

theorem cons_of_accept_eq_some {shorter : rest.length < ts.length}
    (taken : accept kind ts = some ⟨rest, shorter⟩) : ∃ t, ts = t :: rest ∧ t.kind = kind := by
  cases ts with
  | nil => cases taken
  | cons t after =>
      rw [accept] at taken
      split at taken
      case isTrue same =>
        cases Option.some.inj taken
        exact ⟨t, rfl, same⟩
      case isFalse => cases taken

end

/-! ## Terms -/

section
variable {ts rest : List Token} {t : Term} {us : List Term}

theorem gives_term : (term ts).Gives t rest ↔
    ∃ n after, ts = n :: after ∧ n.kind = .name ∧ n.text ≠ "" ∧
      ((¬ StartsWith .lparen after ∧ t = .var n.text ∧ rest = after) ∨
        ∃ l inside args r, after = l :: inside ∧ l.kind = .lparen ∧
          (terms inside).Gives args (r :: rest) ∧ r.kind = .rparen ∧ t = .app n.text args) := by
  rw [term, gives_andThen]
  constructor
  · rintro ⟨n, after, taken, gives⟩
    obtain ⟨rfl, named⟩ := gives_expect.mp taken
    refine ⟨n, after, rfl, named, ?_⟩
    by_cases starts : StartsWith .lparen after
    · obtain ⟨l, inside, rfl, opening⟩ := starts
      simp only [accept_cons opening, gives_andThen, gives_widen, gives_expect, gives_named,
        exists_prop] at gives
      obtain ⟨args, _, inner, r, _, ⟨rfl, closing⟩, nonempty, rfl, rfl⟩ := gives
      exact ⟨nonempty, .inr ⟨l, inside, args, r, rfl, opening, inner, closing, rfl⟩⟩
    · rw [accept_eq_none starts, gives_named] at gives
      exact ⟨gives.1, .inl ⟨starts, gives.2⟩⟩
  · rintro ⟨n, after, rfl, named, nonempty, reads⟩
    refine ⟨n, after, gives_expect.mpr ⟨rfl, named⟩, ?_⟩
    rcases reads with ⟨stop, same⟩ | ⟨l, inside, args, r, rfl, opening, inner, closing, rfl⟩
    · rw [accept_eq_none stop, gives_named]
      exact ⟨nonempty, same⟩
    · simp only [accept_cons opening, gives_andThen, gives_widen, gives_expect, gives_named,
        exists_prop]
      exact ⟨args, r :: rest, inner, r, rest, ⟨rfl, closing⟩, nonempty, rfl, rfl⟩

theorem gives_terms : (terms ts).Gives us rest ↔
    ∃ t others after, (term ts).Gives t after ∧ (moreTerms after).Gives others rest ∧
      us = t :: others := by
  rw [terms]
  simp only [gives_andThen, gives_widen, gives_done, exists_prop]
  constructor
  · rintro ⟨t, after, first, others, _, more, rfl, rfl⟩
    exact ⟨t, others, after, first, more, rfl⟩
  · rintro ⟨t, others, after, first, more, rfl⟩
    exact ⟨t, after, first, others, rest, more, rfl, rfl⟩

theorem gives_moreTerms : (moreTerms ts).Gives us rest ↔
    (¬ StartsWith .comma ts ∧ us = [] ∧ rest = ts) ∨
      ∃ c inside t others after, ts = c :: inside ∧ c.kind = .comma ∧ (term inside).Gives t after ∧
        (moreTerms after).Gives others rest ∧ us = t :: others := by
  rw [moreTerms]
  constructor
  · intro gives
    by_cases starts : StartsWith .comma ts
    · obtain ⟨c, inside, rfl, comma⟩ := starts
      simp only [accept_cons comma, gives_andThen, gives_widen, gives_done, exists_prop] at gives
      obtain ⟨t, after, next, others, _, more, rfl, rfl⟩ := gives
      exact .inr ⟨c, inside, t, others, after, rfl, comma, next, more, rfl⟩
    · rw [accept_eq_none starts, gives_done] at gives
      exact .inl ⟨starts, gives⟩
  · rintro (⟨stop, same⟩ | ⟨c, inside, t, others, after, rfl, comma, next, more, rfl⟩)
    · rw [accept_eq_none stop, gives_done]
      exact same
    · simp only [accept_cons comma, gives_andThen, gives_widen, gives_done, exists_prop]
      exact ⟨t, after, next, others, rest, more, rfl, rfl⟩

end

/-! ## Variables of a quantifier -/

section
variable {ts rest : List Token} {x : String} {xs : List String}

theorem gives_boundName : (boundName ts).Gives x rest ↔
    ∃ n, ts = n :: rest ∧ n.kind = .name ∧ n.text ≠ "" ∧ x = n.text := by
  rw [boundName]
  simp only [gives_andThen, gives_expect, gives_named, exists_prop]
  constructor
  · rintro ⟨n, _, ⟨rfl, named⟩, nonempty, rfl, rfl⟩
    exact ⟨n, rfl, named, nonempty, rfl⟩
  · rintro ⟨n, rfl, named, nonempty, rfl⟩
    exact ⟨n, rest, ⟨rfl, named⟩, nonempty, rfl, rfl⟩

theorem gives_moreBoundNames : (moreBoundNames ts).Gives xs rest ↔
    (¬ StartsWith .comma ts ∧ xs = [] ∧ rest = ts) ∨
      ∃ c inside x others after, ts = c :: inside ∧ c.kind = .comma ∧
        (boundName inside).Gives x after ∧ (moreBoundNames after).Gives others rest ∧
        xs = x :: others := by
  rw [moreBoundNames]
  constructor
  · intro gives
    by_cases starts : StartsWith .comma ts
    · obtain ⟨c, inside, rfl, comma⟩ := starts
      simp only [accept_cons comma, gives_andThen, gives_widen, gives_done, exists_prop] at gives
      obtain ⟨x, after, next, others, _, more, rfl, rfl⟩ := gives
      exact .inr ⟨c, inside, x, others, after, rfl, comma, next, more, rfl⟩
    · rw [accept_eq_none starts, gives_done] at gives
      exact .inl ⟨starts, gives⟩
  · rintro (⟨stop, same⟩ | ⟨c, inside, x, others, after, rfl, comma, next, more, rfl⟩)
    · rw [accept_eq_none stop, gives_done]
      exact same
    · simp only [accept_cons comma, gives_andThen, gives_widen, gives_done, exists_prop]
      exact ⟨x, after, next, others, rest, more, rfl, rfl⟩

theorem gives_boundNames : (boundNames ts).Gives xs rest ↔
    ∃ x others after, (boundName ts).Gives x after ∧ (moreBoundNames after).Gives others rest ∧
      xs = x :: others := by
  rw [boundNames]
  simp only [gives_andThen, gives_widen, gives_done, exists_prop]
  constructor
  · rintro ⟨x, after, first, others, _, more, rfl, rfl⟩
    exact ⟨x, others, after, first, more, rfl⟩
  · rintro ⟨x, others, after, first, more, rfl⟩
    exact ⟨x, after, first, others, rest, more, rfl, rfl⟩

end

/-! ## Formulas -/

section
variable {op : Connective} {q : Quantifier} {t : Token} {ts rest : List Token} {f left : Formula}

/-- The operands of a connective are formulas of the next level. -/
theorem operand_eq (op : Connective) (ts : List Token) : operand op ts = level op.tighter? ts := by
  rw [operand]
  split
  next next below => rw [below, level]
  next below => rw [below, level]

theorem gives_binary : (binary op ts).Gives f rest ↔
    ∃ first after, (level op.tighter? ts).Gives first after ∧
      (operands op first after).Gives f rest := by
  rw [binary]
  simp only [gives_andThen, gives_widen, exists_prop, operand_eq]

theorem gives_operands : (operands op left ts).Gives f rest ↔
    (¬ StartsWith op.token ts ∧ f = left ∧ rest = ts) ∨
      ∃ t inside right after, ts = t :: inside ∧ t.kind = op.token ∧
        (level op.tighter? inside).Gives right after ∧
        (operands op (op.join left right) after).Gives f rest := by
  rw [operands]
  constructor
  · intro gives
    by_cases starts : StartsWith op.token ts
    · obtain ⟨t, inside, rfl, joint⟩ := starts
      simp only [accept_cons joint, gives_andThen, gives_widen, exists_prop, operand_eq] at gives
      obtain ⟨right, after, next, more⟩ := gives
      exact .inr ⟨t, inside, right, after, rfl, joint, next, more⟩
    · rw [accept_eq_none starts, gives_done] at gives
      exact .inl ⟨starts, gives⟩
  · rintro (⟨stop, same⟩ | ⟨t, inside, right, after, rfl, joint, next, more⟩)
    · rw [accept_eq_none stop, gives_done]
      exact same
    · simp only [accept_cons joint, gives_andThen, gives_widen, exists_prop, operand_eq]
      exact ⟨right, after, next, more⟩

theorem not_gives_unary_nil : ¬ (unary []).Gives f rest := by
  rw [unary]
  exact not_gives_failed

theorem gives_unary_neg (negation : t.kind = .neg) : (unary (t :: ts)).Gives f rest ↔
    ∃ g, (unary ts).Gives g rest ∧ f = .neg g := by
  rw [unary, negation]
  simp only [gives_andThen, gives_widen, gives_done, exists_prop]
  constructor
  · rintro ⟨g, _, scope, rfl, rfl⟩
    exact ⟨g, scope, rfl⟩
  · rintro ⟨g, scope, rfl⟩
    exact ⟨g, rest, scope, rfl, rfl⟩

theorem gives_unary_quantifier (quantifier : t.kind = q.token) :
    (unary (t :: ts)).Gives f rest ↔ (quantified q ts).Gives f rest := by
  rw [unary, quantifier]
  cases q <;> exact gives_widen

/-- What starts with neither a negation nor a quantifier is atomic. -/
theorem unary_eq_atomic (positive : t.kind ≠ .neg) (free : ∀ q : Quantifier, t.kind ≠ q.token) :
    unary (t :: ts) = atomic (t :: ts) := by
  rw [unary]
  split
  case h_1 negation => exact absurd negation positive
  case h_2 quantifier => exact absurd quantifier (free .all)
  case h_3 quantifier => exact absurd quantifier (free .ex)
  case h_4 => rfl

theorem gives_unary_atomic (positive : t.kind ≠ .neg) (free : ∀ q : Quantifier, t.kind ≠ q.token) :
    (unary (t :: ts)).Gives f rest ↔ (atomic (t :: ts)).Gives f rest := by
  rw [unary_eq_atomic positive free]

theorem gives_quantified : (quantified q ts).Gives f rest ↔
    ∃ xs after g, (boundNames ts).Gives xs after ∧ (unary (skipSeparator after).1).Gives g rest ∧
      f = xs.foldr (Formula.quant q) g := by
  rw [quantified]
  simp only [gives_andThen, gives_widen, gives_done, exists_prop]
  constructor
  · rintro ⟨xs, after, names, g, _, scope, rfl, rfl⟩
    exact ⟨xs, after, g, names, scope, rfl⟩
  · rintro ⟨xs, after, g, names, scope, rfl⟩
    exact ⟨xs, after, names, g, rest, scope, rfl, rfl⟩

theorem gives_atomic : (atomic ts).Gives f rest ↔
    (∃ l inside r, ts = l :: inside ∧ l.kind = .lparen ∧ (binary .iff inside).Gives f (r :: rest) ∧
        r.kind = .rparen) ∨
      ∃ n after, ts = n :: after ∧ n.kind = .name ∧
        ((¬ StartsWith .lparen after ∧ startsUpper n.text = true ∧ f = .atom ⟨n.text, []⟩ ∧
            rest = after) ∨
          ∃ l inside args r, after = l :: inside ∧ l.kind = .lparen ∧
            (terms inside).Gives args (r :: rest) ∧ r.kind = .rparen ∧ n.text ≠ "" ∧
            f = .atom ⟨n.text, args⟩) := by
  rw [atomic]
  constructor
  · intro gives
    by_cases starts : StartsWith .lparen ts
    · obtain ⟨l, inside, rfl, opening⟩ := starts
      simp only [accept_cons opening, gives_andThen, gives_widen, gives_expect, gives_done,
        exists_prop] at gives
      obtain ⟨f, _, inner, r, _, ⟨rfl, closing⟩, rfl, rfl⟩ := gives
      exact .inl ⟨l, inside, r, rfl, opening, inner, closing⟩
    · rw [accept_eq_none starts, gives_andThen] at gives
      obtain ⟨n, after, taken, gives⟩ := gives
      obtain ⟨rfl, named⟩ := gives_expect.mp taken
      refine .inr ⟨n, after, rfl, named, ?_⟩
      by_cases starts : StartsWith .lparen after
      · obtain ⟨l, inside, rfl, opening⟩ := starts
        simp only [accept_cons opening, gives_andThen, gives_widen, gives_expect, gives_named,
          exists_prop] at gives
        obtain ⟨args, _, inner, r, _, ⟨rfl, closing⟩, nonempty, rfl, rfl⟩ := gives
        exact .inr ⟨l, inside, args, r, rfl, opening, inner, closing, nonempty, rfl⟩
      · rw [accept_eq_none starts] at gives
        simp only at gives
        split at gives
        case isTrue upper => exact .inl ⟨starts, upper, gives_done.mp gives⟩
        case isFalse => exact absurd gives not_gives_failed
  · rintro (⟨l, inside, r, rfl, opening, inner, closing⟩ | ⟨n, after, rfl, named, reads⟩)
    · simp only [accept_cons opening, gives_andThen, gives_widen, gives_expect, gives_done,
        exists_prop]
      exact ⟨f, r :: rest, inner, r, rest, ⟨rfl, closing⟩, rfl, rfl⟩
    · have starts : ¬ StartsWith .lparen (n :: after) := by
        rw [startsWith_cons, named]
        decide
      rw [accept_eq_none starts, gives_andThen]
      refine ⟨n, after, gives_expect.mpr ⟨rfl, named⟩, ?_⟩
      rcases reads with ⟨stop, upper, same⟩ | call
      · simp only [accept_eq_none stop, upper, if_true, gives_done]
        exact same
      · obtain ⟨l, inside, args, r, rfl, opening, inner, closing, nonempty, rfl⟩ := call
        simp only [accept_cons opening, gives_andThen, gives_widen, gives_expect, gives_named,
          exists_prop]
        exact ⟨args, r :: rest, inner, r, rest, ⟨rfl, closing⟩, nonempty, rfl, rfl⟩

end

/-- A formula that is read takes up all tokens. -/
theorem gives_formula {ts rest : List Token} {f : Formula} :
    (formula ts).Gives f rest ↔ (binary .iff ts).Gives f [] ∧ rest = [] := by
  rw [formula, gives_andThen]
  constructor
  · rintro ⟨g, after, read, gives⟩
    cases after with
    | nil =>
        obtain ⟨rfl, rfl⟩ := gives_done.mp gives
        exact ⟨read, rfl⟩
    | cons t more => exact absurd gives not_gives_failed
  · rintro ⟨read, rfl⟩
    exact ⟨f, [], read, gives_done.mpr ⟨rfl, rfl⟩⟩

theorem ofTokens_eq_ok {ts : List Token} {f : Formula} :
    Formula.ofTokens ts = .ok f ↔ (binary .iff ts).Gives f [] := by
  have result : Formula.ofTokens ts = .ok f ↔ (formula ts).result = .ok f := by
    rw [Formula.ofTokens]
    cases (formula ts).result with
    | error e => exact ⟨nofun, nofun⟩
    | ok g =>
        exact ⟨fun read => congrArg _ (Except.ok.inj read),
          fun read => congrArg _ (Except.ok.inj read)⟩
  rw [result]
  constructor
  · exact fun read => (gives_formula.mp ⟨read, rfl⟩).1
  · exact fun read => (gives_formula.mpr ⟨read, rfl⟩).1

theorem parse_eq_ok {text : String} {f : Formula} : Formula.parse text = .ok f ↔
    ∃ ts, tokenize (unifySpellings text) = .ok ts ∧ Formula.ofTokens ts = .ok f := by
  rw [Formula.parse]
  cases tokenize (unifySpellings text) with
  | error e => exact ⟨nofun, nofun⟩
  | ok ts =>
      constructor
      · exact fun read => ⟨ts, rfl, read⟩
      · rintro ⟨_, ⟨⟩, read⟩
        exact read

end RuleLemmas

end Clausal
