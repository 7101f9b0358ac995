import Clausal.Formula.Cursor
import Clausal.Proofs.Rules
import Clausal.Proofs.Unambiguous

/-!
# The parser recognises the grammar

What a rule takes is derived from its phrase, by induction along the recursion of the rules; what is
derived is taken, by induction on the derivation. That the rules look one token ahead does no harm:
a phrase ends where the next word does not continue it.

* `Spans`: the words of the tokens that are taken.
* `RecognitionLemmas.derived_terms`, `RecognitionLemmas.derived_formulas`: what is taken is derived.
* `RecognitionLemmas.takes_of_derivation`: what is derived is taken.
* `recognises_grammar`: exactly the tokens with a derivation are read as a formula, the derivation
  is unique, and a request for any phrase is answered by a derivation from it.
-/

namespace Clausal

open Grammar

/-- The tokens before `rest` in `ts` have the words `ws`. -/
def Spans (ws : List Word) (ts rest : List Token) : Prop :=
  ∃ segment, ts = segment ++ rest ∧ segment.map Token.word = ws

namespace RecognitionLemmas

open Clausal.Parser Derivation DerivationLemmas RuleLemmas

/-! ## Words of tokens -/

section
variable {t : Token} {ts rest : List Token} {w : Word} {us ws : List Word}

theorem word_eq_name {x : String} : t.word = .name x ↔ t.kind = .name ∧ t.text = x := by
  unfold Token.word
  split <;> simp_all

theorem word_eq_symbol {kind : TokenKind} (plain : kind ≠ .name) :
    t.word = .symbol kind ↔ t.kind = kind := by
  unfold Token.word
  split
  case isTrue named => simpa [named] using plain.symm
  case isFalse => simp

theorem connective_token_ne_name (op : Connective) : op.token ≠ .name := by
  cases op <;> decide

theorem quantifier_token_ne_name (q : Quantifier) : q.token ≠ .name := by
  cases q <;> decide

theorem spans_nil : Spans [] ts rest ↔ ts = rest := by
  constructor
  · rintro ⟨segment, rfl, empty⟩
    rw [List.map_eq_nil_iff.mp empty, List.nil_append]
  · rintro rfl
    exact ⟨[], rfl, rfl⟩

theorem spans_cons : Spans (w :: ws) ts rest ↔
    ∃ t after, ts = t :: after ∧ t.word = w ∧ Spans ws after rest := by
  constructor
  · rintro ⟨segment, rfl, same⟩
    obtain ⟨t, more, rfl, first, others⟩ := List.map_eq_cons_iff.mp same
    exact ⟨t, more ++ rest, rfl, first, more, rfl, others⟩
  · rintro ⟨t, _, rfl, rfl, more, rfl, rfl⟩
    exact ⟨t :: more, rfl, rfl⟩

theorem spans_append : Spans (us ++ ws) ts rest ↔
    ∃ after, Spans us ts after ∧ Spans ws after rest := by
  constructor
  · rintro ⟨segment, rfl, same⟩
    obtain ⟨first, second, rfl, former, latter⟩ := List.map_eq_append_iff.mp same
    exact ⟨second ++ rest, ⟨first, List.append_assoc .., former⟩, second, rfl, latter⟩
  · rintro ⟨_, ⟨first, rfl, rfl⟩, second, rfl, rfl⟩
    exact ⟨first ++ second, (List.append_assoc ..).symm, List.map_append⟩

theorem spans_name {x : String} : Spans (.name x :: ws) ts rest ↔
    ∃ n after, ts = n :: after ∧ n.kind = .name ∧ n.text = x ∧ Spans ws after rest := by
  simp only [spans_cons, word_eq_name, and_assoc]

theorem spans_symbol {kind : TokenKind} (plain : kind ≠ .name) :
    Spans (.symbol kind :: ws) ts rest ↔
      ∃ t after, ts = t :: after ∧ t.kind = kind ∧ Spans ws after rest := by
  simp only [spans_cons, word_eq_symbol plain]

theorem spans_parens : Spans (.symbol .lparen :: (ws ++ [.symbol .rparen])) ts rest ↔
    ∃ l inside r, ts = l :: inside ∧ l.kind = .lparen ∧ Spans ws inside (r :: rest) ∧
      r.kind = .rparen := by
  have open_ne_name : TokenKind.lparen ≠ .name := nofun
  have close_ne_name : TokenKind.rparen ≠ .name := nofun
  simp only [spans_symbol open_ne_name, spans_append, spans_symbol close_ne_name, spans_nil]
  constructor
  · rintro ⟨l, inside, rfl, opening, _, inner, r, _, rfl, closing, rfl⟩
    exact ⟨l, inside, r, rfl, opening, inner, closing⟩
  · rintro ⟨l, inside, r, rfl, opening, inner, closing⟩
    exact ⟨l, inside, rfl, opening, r :: rest, inner, r, rest, rfl, closing, rfl⟩

end

/-! ## What is taken is derived -/

/-- The tokens before `rest` in `ts` are derived from a phrase, and `v` is read off the
derivation. -/
def Derived (p : Phrase) (ts : List Token) (v : p.Value) (rest : List Token) : Prop :=
  ∃ d : Derivation p, Spans d.words ts rest ∧ d.value = v

/-- What the rules for terms take is derived. -/
theorem derived_terms :
    (∀ ts t rest, (term ts).Gives t rest → Derived .term ts t rest) ∧
      (∀ ts us rest, (terms ts).Gives us rest → Derived .terms ts us rest) ∧
        ∀ ts us rest, (moreTerms ts).Gives us rest → Derived .moreTerms ts us rest := by
  refine term.mutual_induct
    (fun ts => ∀ t rest, (term ts).Gives t rest → Derived .term ts t rest)
    (fun ts => ∀ us rest, (terms ts).Gives us rest → Derived .terms ts us rest)
    (fun ts => ∀ us rest, (moreTerms ts).Gives us rest → Derived .moreTerms ts us rest)
    ?term ?terms ?next ?stop
  case term =>
    intro ts ih t rest gives
    obtain ⟨n, after, rfl, named, _, reads⟩ := gives_term.mp gives
    rcases reads with ⟨_, rfl, rfl⟩ | ⟨l, inside, args, r, rfl, opening, inner, closing, rfl⟩
    · exact ⟨.var n.text, spans_name.mpr ⟨n, rest, rfl, named, rfl, spans_nil.mpr rfl⟩, rfl⟩
    · obtain ⟨d, spans, rfl⟩ := ih (l :: inside) (by simp) inside (by simp) args _ inner
      refine ⟨.app n.text d, spans_name.mpr ⟨n, _, rfl, named, rfl, ?_⟩, rfl⟩
      exact spans_parens.mpr ⟨l, inside, r, rfl, opening, spans, closing⟩
  case terms =>
    intro ts ihFirst ihMore us rest gives
    obtain ⟨t, others, after, first, more, rfl⟩ := gives_terms.mp gives
    obtain ⟨d, spans, rfl⟩ := ihFirst t after first
    obtain ⟨d', spans', rfl⟩ := ihMore after (length_lt_of_gives first) others rest more
    exact ⟨.terms d d', spans_append.mpr ⟨after, spans, spans'⟩, rfl⟩
  case next =>
    intro ts inside _ taken ihNext ihMore us rest gives
    obtain ⟨c, rfl, comma⟩ := cons_of_accept_eq_some taken
    rcases gives_moreTerms.mp gives with
      ⟨stop, _⟩ | ⟨_, _, t, others, after, same, _, next, more, rfl⟩
    · exact absurd (startsWith_cons.mpr comma) stop
    · cases same
      obtain ⟨d, spans, rfl⟩ := ihNext t after next
      have within := length_lt_of_gives next
      obtain ⟨d', spans', rfl⟩ := ihMore after (by simp; omega) others rest more
      refine ⟨.nextTerm d d', (spans_symbol (by decide)).mpr ⟨c, inside, rfl, comma, ?_⟩, rfl⟩
      exact spans_append.mpr ⟨after, spans, spans'⟩
  case stop =>
    intro ts declined us rest gives
    rcases gives_moreTerms.mp gives with ⟨_, rfl, rfl⟩ | ⟨c, inside, _, _, _, rfl, comma, _⟩
    · exact ⟨.noTerm, spans_nil.mpr rfl, rfl⟩
    · rw [accept_cons comma] at declined
      cases declined

/-- What the rule for the variables of a quantifier takes. -/
theorem spans_moreBoundNames {ts rest : List Token} {xs : List String}
    (gives : (moreBoundNames ts).Gives xs rest) : Spans (moreNames xs) ts rest := by
  induction ts using moreBoundNames.induct generalizing xs with
  | case1 ts inside _ taken ih =>
      obtain ⟨c, rfl, comma⟩ := cons_of_accept_eq_some taken
      rcases gives_moreBoundNames.mp gives with
        ⟨stop, _⟩ | ⟨_, _, x, others, after, same, _, next, more, rfl⟩
      · exact absurd (startsWith_cons.mpr comma) stop
      · cases same
        have within := length_lt_of_gives next
        obtain ⟨n, rfl, named, _, rfl⟩ := gives_boundName.mp next
        have others := ih after (by simp only [List.length_cons] at within ⊢; omega) more
        exact (spans_symbol (by decide)).mpr ⟨c, _, rfl, comma,
          spans_name.mpr ⟨n, after, rfl, named, rfl, others⟩⟩
  | case2 ts declined =>
      rcases gives_moreBoundNames.mp gives with ⟨_, rfl, rfl⟩ | ⟨c, inside, _, _, _, rfl, comma, _⟩
      · exact spans_nil.mpr rfl
      · rw [accept_cons comma] at declined
        cases declined

theorem spans_boundNames {ts rest : List Token} {xs : List String}
    (gives : (boundNames ts).Gives xs rest) :
    ∃ x others, xs = x :: others ∧ Spans (.name x :: moreNames others) ts rest := by
  obtain ⟨x, others, after, first, more, rfl⟩ := gives_boundNames.mp gives
  obtain ⟨n, rfl, named, _, rfl⟩ := gives_boundName.mp first
  exact ⟨n.text, others, rfl, spans_name.mpr ⟨n, after, rfl, named, rfl, spans_moreBoundNames more⟩⟩

theorem spans_skipSeparator (ts : List Token) :
    ∃ s : Separator, Spans s.words ts (skipSeparator ts).1 := by
  unfold skipSeparator
  split
  next rest _ taken =>
    obtain ⟨t, rfl, dot⟩ := cons_of_accept_eq_some taken
    exact ⟨.dot, (spans_symbol (by decide)).mpr ⟨t, rest, rfl, dot, spans_nil.mpr rfl⟩⟩
  next =>
    split
    next rest _ taken =>
      obtain ⟨t, rfl, colon⟩ := cons_of_accept_eq_some taken
      exact ⟨.colon, (spans_symbol (by decide)).mpr ⟨t, rest, rfl, colon, spans_nil.mpr rfl⟩⟩
    next => exact ⟨.none, spans_nil.mpr rfl⟩

/-- What the rules for formulas take is derived. -/
theorem derived_formulas :
    (∀ op ts f rest, (binary op ts).Gives f rest → Derived (.formula (some op)) ts f rest) ∧
      (∀ op left ts f rest, (operands op left ts).Gives f rest →
        ∃ fs, Derived (.operands op) ts fs rest ∧ f = fs.foldl op.join left) ∧
      (∀ op ts f rest, (operand op ts).Gives f rest → Derived (.formula op.tighter?) ts f rest) ∧
      (∀ ts f rest, (unary ts).Gives f rest → Derived (.formula none) ts f rest) ∧
      (∀ ts (f : Formula) rest, (atomic ts).Gives f rest → Derived .atomic ts f rest) ∧
      ∀ (q : Quantifier) ts (t : Token) (f : Formula) rest, t.kind = q.token →
        (quantified q ts).Gives f rest → Derived (.formula none) (t :: ts) f rest := by
  -- One motive for each rule, in the order in which the parser has them.
  refine binary.mutual_induct
    (fun op ts =>
      ∀ f rest, (binary op ts).Gives f rest → Derived (.formula (some op)) ts f rest)
    (fun op left ts => ∀ f rest, (operands op left ts).Gives f rest →
      ∃ fs, Derived (.operands op) ts fs rest ∧ f = fs.foldl op.join left)
    (fun op ts =>
      ∀ f rest, (operand op ts).Gives f rest → Derived (.formula op.tighter?) ts f rest)
    (fun ts => ∀ f rest, (unary ts).Gives f rest → Derived (.formula none) ts f rest)
    (fun ts => ∀ (f : Formula) rest, (atomic ts).Gives f rest → Derived .atomic ts f rest)
    (fun q ts => ∀ (t : Token) (f : Formula) rest, t.kind = q.token →
      (quantified q ts).Gives f rest → Derived (.formula none) (t :: ts) f rest)
    ?binary ?next ?stop ?tighter ?tightest ?incomplete ?negation ?universal ?existential ?atomic
    ?paren ?named ?quantified
  case binary =>
    intro op ts ihFirst ihMore f rest gives
    obtain ⟨first, after, leading, more⟩ := gives_binary.mp gives
    obtain ⟨d, spans, rfl⟩ := ihFirst first after (operand_eq op ts ▸ leading)
    obtain ⟨_, ⟨d', spans', rfl⟩, rfl⟩ := ihMore _ after (length_lt_of_gives leading) f rest more
    exact ⟨.joined d d', spans_append.mpr ⟨after, spans, spans'⟩, rfl⟩
  case next =>
    intro op left ts inside _ taken ihNext ihMore f rest gives
    obtain ⟨t, rfl, joint⟩ := cons_of_accept_eq_some taken
    rcases gives_operands.mp gives with ⟨stop, _⟩ | ⟨_, _, right, after, same, _, next, more⟩
    · exact absurd (startsWith_cons.mpr joint) stop
    · cases same
      obtain ⟨d, spans, rfl⟩ := ihNext right after (operand_eq op inside ▸ next)
      have within := length_lt_of_gives next
      obtain ⟨_, ⟨d', spans', rfl⟩, rfl⟩ := ihMore _ after (by simp; omega) f rest more
      refine ⟨_, ⟨.nextOperand d d', ?_, rfl⟩, rfl⟩
      refine (spans_symbol (connective_token_ne_name op)).mpr ⟨t, inside, rfl, joint, ?_⟩
      exact spans_append.mpr ⟨after, spans, spans'⟩
  case stop =>
    intro op left ts declined f rest gives
    rcases gives_operands.mp gives with ⟨_, rfl, rfl⟩ | ⟨t, inside, _, _, rfl, joint, _⟩
    · exact ⟨[], ⟨.noOperand, spans_nil.mpr rfl, rfl⟩, rfl⟩
    · rw [accept_cons joint] at declined
      cases declined
  case tighter =>
    intro op ts next below ih f rest gives
    rw [operand_eq, below] at gives
    rw [below]
    exact ih f rest gives
  case tightest =>
    intro op ts below ih f rest gives
    rw [operand_eq, below] at gives
    rw [below]
    exact ih f rest gives
  case incomplete => exact fun f rest gives => absurd gives not_gives_unary_nil
  case negation =>
    intro t ts negation ih f rest gives
    obtain ⟨g, scope, rfl⟩ := (gives_unary_neg negation).mp gives
    obtain ⟨d, spans, rfl⟩ := ih g rest scope
    exact ⟨.negation d, (spans_symbol (by decide)).mpr ⟨t, ts, rfl, negation, spans⟩, rfl⟩
  case universal =>
    intro t ts universal ih f rest gives
    exact ih t f rest universal ((gives_unary_quantifier (q := .all) universal).mp gives)
  case existential =>
    intro t ts existential ih f rest gives
    exact ih t f rest existential ((gives_unary_quantifier (q := .ex) existential).mp gives)
  case atomic =>
    intro t ts positive notAll notEx ih f rest gives
    have free : ∀ q : Quantifier, t.kind ≠ q.token := fun q => by cases q <;> assumption
    obtain ⟨d, spans, rfl⟩ := ih f rest ((gives_unary_atomic positive free).mp gives)
    exact ⟨.atomic d, spans, rfl⟩
  case paren =>
    intro ts inside _ taken ih f rest gives
    obtain ⟨l, rfl, opening⟩ := cons_of_accept_eq_some taken
    rcases gives_atomic.mp gives with ⟨_, _, r, same, _, inner, closing⟩ | ⟨n, _, same, named, _⟩
    · cases same
      obtain ⟨d, spans, rfl⟩ := ih f _ inner
      exact ⟨.paren d, spans_parens.mpr ⟨l, inside, r, rfl, opening, spans, closing⟩, rfl⟩
    · cases same
      rw [opening] at named
      cases named
  case named =>
    intro ts declined f rest gives
    rcases gives_atomic.mp gives with ⟨_, _, _, rfl, opening, _⟩ | ⟨n, after, rfl, named, reads⟩
    · rw [accept_cons opening] at declined
      cases declined
    · rcases reads with
        ⟨_, upper, rfl, rfl⟩ | ⟨l, inside, args, r, rfl, opening, inner, closing, _, rfl⟩
      · refine ⟨.bare n.text upper, ?_, rfl⟩
        exact spans_name.mpr ⟨n, rest, rfl, named, rfl, spans_nil.mpr rfl⟩
      · obtain ⟨d, spans, rfl⟩ := derived_terms.2.1 inside args _ inner
        refine ⟨.call n.text d, spans_name.mpr ⟨n, _, rfl, named, rfl, ?_⟩, rfl⟩
        exact spans_parens.mpr ⟨l, inside, r, rfl, opening, spans, closing⟩
  case quantified =>
    intro q ts ih t f rest quantifier gives
    obtain ⟨xs, after, g, names, scope, rfl⟩ := gives_quantified.mp gives
    obtain ⟨x, others, rfl, spansNames⟩ := spans_boundNames names
    obtain ⟨s, spansSeparator⟩ := spans_skipSeparator after
    obtain ⟨d, spans, rfl⟩ :=
      ih after (length_lt_of_gives names) _ (skipSeparator after).2 g rest scope
    refine ⟨.quantified q x others s d, ?_, rfl⟩
    refine (spans_symbol (quantifier_token_ne_name q)).mpr ⟨t, ts, rfl, quantifier, ?_⟩
    have inner : Spans ((.name x :: moreNames others) ++ s.words ++ d.words) ts rest :=
      spans_append.mpr ⟨_, spans_append.mpr ⟨after, spansNames, spansSeparator⟩, spans⟩
    exact inner

/-! ## What is derived is taken -/

/-- The rule for a phrase takes the tokens before `rest`. The rule for the operands of a connective
joins them to the formula that stands on their left. -/
def Takes : (p : Phrase) → List Token → p.Value → List Token → Prop
  | .term, ts, t, rest => (term ts).Gives t rest
  | .terms, ts, us, rest => (terms ts).Gives us rest
  | .moreTerms, ts, us, rest => (moreTerms ts).Gives us rest
  | .formula op, ts, f, rest => (level op ts).Gives f rest
  | .operands op, ts, fs, rest =>
      ∀ left, (operands op left ts).Gives (fs.foldl op.join left) rest
  | .atomic, ts, f, rest => (atomic ts).Gives f rest

section
variable {p : Phrase} {ts rest : List Token}

theorem head_map_word {kind : TokenKind} (plain : kind ≠ .name) :
    (ts.map Token.word).head? = some (.symbol kind) ↔ StartsWith kind ts := by
  cases ts with
  | nil => simp [StartsWith]
  | cons t rest => rw [startsWith_cons, List.map_cons, List.head?_cons, Option.some.injEq,
      word_eq_symbol plain]

theorem not_startsWith {kind : TokenKind} (ends : p.Ends (rest.map Token.word))
    (member : kind ∈ p.continuing) (plain : kind ≠ .name) : ¬ StartsWith kind rest :=
  fun starts => ends kind member ((head_map_word plain).mpr starts)

/-- Some tokens have all the words if they are all tokens. -/
theorem spans_all {ws : List Word} : Spans ws ts [] ↔ ws = ts.map Token.word := by
  simp [Spans, eq_comm]

/-- Every phrase ends before a closing parenthesis. -/
theorem ends_of_rparen {r : Token} (closing : r.kind = .rparen) (p : Phrase) :
    p.Ends ((r :: rest).map Token.word) := by
  have plain : TokenKind.rparen ≠ .name := by decide
  rw [List.map_cons, (word_eq_symbol plain).mpr closing]
  exact ends_rparen p _

/-- The words of the tokens that are left when some words were taken. -/
theorem map_word_of_spans {ws : List Word} (spans : Spans ws ts rest) :
    ts.map Token.word = ws ++ rest.map Token.word := by
  obtain ⟨segment, rfl, rfl⟩ := spans
  exact List.map_append

theorem gives_moreBoundNames_of_spans {xs : List String} (spans : Spans (moreNames xs) ts rest)
    (named : ∀ x ∈ xs, x ≠ "") (stop : ¬ StartsWith .comma rest) :
    (moreBoundNames ts).Gives xs rest := by
  induction xs generalizing ts with
  | nil =>
      obtain rfl := spans_nil.mp spans
      exact gives_moreBoundNames.mpr (.inl ⟨stop, rfl, rfl⟩)
  | cons x xs ih =>
      change Spans (.symbol .comma :: .name x :: moreNames xs) ts rest at spans
      obtain ⟨c, _, rfl, comma, next⟩ := (spans_symbol (by decide)).mp spans
      obtain ⟨n, after, rfl, name, rfl, others⟩ := spans_name.mp next
      rw [List.forall_mem_cons] at named
      refine gives_moreBoundNames.mpr (.inr ⟨c, n :: after, n.text, xs, after, rfl, comma, ?_,
        ih others named.2, rfl⟩)
      exact gives_boundName.mpr ⟨n, rfl, name, named.1, rfl⟩

theorem skipSeparator_of_spans {s : Separator} (spans : Spans s.words ts rest)
    (noDot : ¬ StartsWith .dot rest) (noColon : ¬ StartsWith .colon rest) :
    (skipSeparator ts).1 = rest := by
  unfold skipSeparator
  cases s with
  | none =>
      obtain rfl := spans_nil.mp spans
      rw [accept_eq_none noDot, accept_eq_none noColon]
  | dot =>
      obtain ⟨t, after, rfl, dot, nothing⟩ := (spans_symbol (by decide)).mp spans
      obtain rfl := spans_nil.mp nothing
      rw [accept_cons dot]
  | colon =>
      obtain ⟨t, after, rfl, colon, nothing⟩ := (spans_symbol (by decide)).mp spans
      obtain rfl := spans_nil.mp nothing
      have noDot : ¬ StartsWith .dot (t :: after) := by
        rw [startsWith_cons, colon]
        decide
      rw [accept_eq_none noDot, accept_cons colon]

theorem ne_empty_of_not_mem_moreNames {xs : List String} (named : .name "" ∉ moreNames xs) :
    ∀ x ∈ xs, x ≠ "" := by
  rintro x member rfl
  exact named (List.mem_flatMap.mpr ⟨"", member, by simp⟩)

/-- No comma follows the variables of a quantifier. -/
theorem not_startsWith_comma (s : Separator) (scope : Derivation (.formula none))
    (spans : Spans (s.words ++ scope.words) ts rest) : ¬ StartsWith .comma ts := by
  rw [← head_map_word (by decide), map_word_of_spans spans, List.append_assoc]
  exact head_separator_append s scope

/-- A scope does not start with a separator. -/
theorem not_startsWith_separator (scope : Derivation (.formula none))
    (spans : Spans scope.words ts rest) : ¬ StartsWith .dot ts ∧ ¬ StartsWith .colon ts := by
  obtain ⟨w, ws, starts, plain⟩ := head_unary scope
  rw [← head_map_word (by decide), ← head_map_word (by decide), map_word_of_spans spans, starts]
  simp_all

/-- What is derived from a phrase is taken by its rule, if no word is an empty name and the phrase
ends there. The induction is on the derivation. -/
theorem takes_of_derivation (d : Derivation p) (spans : Spans d.words ts rest)
    (named : .name "" ∉ d.words) (ends : p.Ends (rest.map Token.word)) :
    Takes p ts d.value rest := by
  induction d generalizing ts rest with
  | var x =>
      obtain ⟨n, after, rfl, name, rfl, nothing⟩ := spans_name.mp spans
      obtain rfl := spans_nil.mp nothing
      have stop : ¬ StartsWith .lparen after :=
        not_startsWith ends (by simp [Phrase.continuing]) (by decide)
      have nonempty : n.text ≠ "" := fun empty => named (by simp [words, empty])
      exact gives_term.mpr ⟨n, after, rfl, name, nonempty, .inl ⟨stop, rfl, rfl⟩⟩
  | app f args ih =>
      obtain ⟨n, _, rfl, name, rfl, call⟩ := spans_name.mp spans
      obtain ⟨l, inside, r, rfl, opening, inner, closing⟩ := spans_parens.mp call
      have nonempty : n.text ≠ "" := fun empty => named (by simp [words, empty])
      have taken := ih inner (fun member => named (by simp [words, member]))
        (ends_of_rparen closing _)
      exact gives_term.mpr ⟨n, _, rfl, name, nonempty,
        .inr ⟨l, inside, args.value, r, rfl, opening, taken, closing, rfl⟩⟩
  | terms first more ihFirst ihMore =>
      simp only [words, List.mem_append, not_or] at named
      obtain ⟨after, leading, others⟩ := spans_append.mp spans
      have behind := map_word_of_spans others
      exact gives_terms.mpr ⟨first.value, more.value, after,
        ihFirst leading named.1 (behind ▸ ends_term_append more ends),
        ihMore others named.2 ends, rfl⟩
  | noTerm =>
      obtain rfl := spans_nil.mp spans
      have stop : ¬ StartsWith .comma ts :=
        not_startsWith ends (by simp [Phrase.continuing]) (by decide)
      exact gives_moreTerms.mpr (.inl ⟨stop, rfl, rfl⟩)
  | nextTerm next more ihNext ihMore =>
      simp only [words, List.mem_cons, List.mem_append, reduceCtorEq, false_or, not_or] at named
      obtain ⟨c, inside, rfl, comma, inner⟩ := (spans_symbol (by decide)).mp spans
      obtain ⟨after, leading, others⟩ := spans_append.mp inner
      have behind := map_word_of_spans others
      exact gives_moreTerms.mpr (.inr ⟨c, inside, next.value, more.value, after, rfl, comma,
        ihNext leading named.1 (behind ▸ ends_term_append more ends),
        ihMore others named.2 ends, rfl⟩)
  | joined first more ihFirst ihMore =>
      simp only [words, List.mem_append, not_or] at named
      obtain ⟨after, leading, others⟩ := spans_append.mp spans
      have behind := map_word_of_spans others
      exact gives_binary.mpr ⟨first.value, after,
        ihFirst leading named.1 (behind ▸ ends_operand_append more ends),
        ihMore others named.2 ends first.value⟩
  | @noOperand op =>
      intro left
      obtain rfl := spans_nil.mp spans
      have stop := not_startsWith ends (token_mem_continuing op) (connective_token_ne_name op)
      exact gives_operands.mpr (.inl ⟨stop, rfl, rfl⟩)
  | @nextOperand op next more ihNext ihMore =>
      intro left
      simp only [words, List.mem_cons, List.mem_append, reduceCtorEq, false_or, not_or] at named
      obtain ⟨t, inside, rfl, joint, inner⟩ :=
        (spans_symbol (connective_token_ne_name op)).mp spans
      obtain ⟨after, leading, others⟩ := spans_append.mp inner
      have behind := map_word_of_spans others
      exact gives_operands.mpr (.inr ⟨t, inside, next.value, after, rfl, joint,
        ihNext leading named.1 (behind ▸ ends_operand_append more ends),
        ihMore others named.2 ends (op.join left next.value)⟩)
  | negation scope ih =>
      simp only [words, List.mem_cons, reduceCtorEq, false_or] at named
      obtain ⟨t, after, rfl, negation, inner⟩ := (spans_symbol (by decide)).mp spans
      exact (gives_unary_neg negation).mpr ⟨scope.value, ih inner named ends, rfl⟩
  | quantified q x others separator scope ih =>
      simp only [words, List.mem_cons, List.mem_append, reduceCtorEq, false_or, not_or,
        Word.name.injEq] at named
      obtain ⟨t, _, rfl, quantifier, names⟩ := (spans_symbol (quantifier_token_ne_name q)).mp spans
      obtain ⟨n, next, rfl, name, rfl, behind⟩ := spans_name.mp names
      rw [List.append_assoc] at behind
      obtain ⟨after, more, separated⟩ := spans_append.mp behind
      obtain ⟨inside, skipped, inner⟩ := spans_append.mp separated
      have first : (boundName (n :: next)).Gives n.text next :=
        gives_boundName.mpr ⟨n, rfl, name, Ne.symm named.1, rfl⟩
      have following := gives_moreBoundNames_of_spans more
        (ne_empty_of_not_mem_moreNames named.2.1.1) (not_startsWith_comma separator scope separated)
      have start := not_startsWith_separator scope inner
      have scopeAt : (skipSeparator after).1 = inside :=
        skipSeparator_of_spans skipped start.1 start.2
      refine (gives_unary_quantifier quantifier).mpr (gives_quantified.mpr ⟨n.text :: others, after,
        scope.value, gives_boundNames.mpr ⟨_, _, next, first, following, rfl⟩, ?_, rfl⟩)
      exact scopeAt.symm ▸ ih inner named.2.2 ends
  | atomic f ih =>
      obtain ⟨w, ws, starts, start⟩ := head_atomic f
      have inner : Spans (w :: ws) ts rest := starts ▸ spans
      obtain ⟨t, after, rfl, rfl, _⟩ := spans_cons.mp inner
      have taken : (Parser.atomic (t :: after)).Gives f.value rest := ih spans named ends
      have plain : t.kind ≠ .neg ∧ ∀ q : Quantifier, t.kind ≠ q.token := by
        rcases start with paren | ⟨x, name⟩
        · rw [word_eq_symbol (by decide)] at paren
          exact ⟨by simp [paren], fun q => by cases q <;> simp [paren, Quantifier.token]⟩
        · rw [word_eq_name] at name
          exact ⟨by simp [name.1], fun q => by cases q <;> simp [name.1, Quantifier.token]⟩
      exact (gives_unary_atomic plain.1 plain.2).mpr taken
  | paren f ih =>
      obtain ⟨l, inside, r, rfl, opening, inner, closing⟩ := spans_parens.mp spans
      have taken := ih inner (fun member => named (by simp [words, member]))
        (ends_of_rparen closing _)
      exact gives_atomic.mpr (.inl ⟨l, inside, r, rfl, opening, taken, closing⟩)
  | call p args ih =>
      obtain ⟨n, _, rfl, name, rfl, call⟩ := spans_name.mp spans
      obtain ⟨l, inside, r, rfl, opening, inner, closing⟩ := spans_parens.mp call
      have nonempty : n.text ≠ "" := fun empty => named (by simp [words, empty])
      have taken := ih inner (fun member => named (by simp [words, member]))
        (ends_of_rparen closing _)
      exact gives_atomic.mpr (.inr ⟨n, _, rfl, name,
        .inr ⟨l, inside, args.value, r, rfl, opening, taken, closing, nonempty, rfl⟩⟩)
  | bare p upper =>
      obtain ⟨n, after, rfl, name, rfl, nothing⟩ := spans_name.mp spans
      obtain rfl := spans_nil.mp nothing
      have stop : ¬ StartsWith .lparen after :=
        not_startsWith ends (by simp [Phrase.continuing]) (by decide)
      exact gives_atomic.mpr (.inr ⟨n, after, rfl, name, .inl ⟨stop, upper, rfl, rfl⟩⟩)

/-- Without an empty name, the formula that is read from tokens is read off a derivation of their
words. -/
theorem ofTokens_eq_ok_iff_derivation {f : Formula} (named : .name "" ∉ ts.map Token.word) :
    Formula.ofTokens ts = .ok f ↔
      ∃ d : Derivation (.formula (some .iff)), d.words = ts.map Token.word ∧ d.value = f := by
  rw [ofTokens_eq_ok]
  constructor
  · intro gives
    obtain ⟨d, spans, rfl⟩ := derived_formulas.1 .iff ts f [] gives
    exact ⟨d, spans_all.mp spans, rfl⟩
  · rintro ⟨d, same, rfl⟩
    exact takes_of_derivation d (spans_all.mpr same) (same ▸ named) fun _ _ => nofun

end

/-! ## Requests -/

/-- A success of a rule leaves tokens behind those that it takes. -/
theorem eq_of_gives {α : Type} {c c' : Cursor} {say : α → Cursor.Reply} {n : Nat} {o : Outcome α n}
    {reply : Cursor.Reply} (answered : c.follow say o = (reply, c'))
    (success : ∀ e, reply ≠ .error e) :
    ∃ v, o.Gives v c'.remaining ∧ reply = say v ∧ c' = c.moveTo c'.remaining := by
  cases o with
  | done v rest shorter =>
      obtain ⟨rfl, rfl⟩ := Prod.mk.inj answered
      exact ⟨v, ⟨rfl, rfl⟩, rfl, rfl⟩
  | failed e rest within => exact absurd (Prod.mk.inj answered).1.symm (success e)

end RecognitionLemmas

namespace Cursor

/-- Whether a request is for a phrase of the grammar, and not for a single token. -/
def Request.isForPhrase : Request → Bool
  | .peek | .accept _ | .expect _ => false
  | .formula | .unary | .atomic | .term | .terms | .binary _ => true

/-- The words are derived from the phrase that is asked for, and the reply is read off the
derivation. -/
def Request.Derives (words : List Word) (reply : Reply) : Request → Prop
  | .peek | .accept _ | .expect _ => False
  | .formula => ∃ d : Derivation (.formula (some .iff)), d.words = words ∧ reply = .formula d.value
  | .unary => ∃ d : Derivation (.formula none), d.words = words ∧ reply = .formula d.value
  | .atomic => ∃ d : Derivation .atomic, d.words = words ∧ reply = .formula d.value
  | .term => ∃ d : Derivation .term, d.words = words ∧ reply = .term d.value
  | .terms => ∃ d : Derivation .terms, d.words = words ∧ reply = .terms d.value
  | .binary op => ∃ d : Derivation (.formula (some op)), d.words = words ∧ reply = .formula d.value

end Cursor

/-- Every name token is a name of the lexer. -/
def WellNamed (ts : List Token) : Prop :=
  ∀ t ∈ ts, t.kind = .name → isName t.text = true

instance (ts : List Token) : Decidable (WellNamed ts) :=
  inferInstanceAs (Decidable (∀ t ∈ ts, _))

namespace RecognitionLemmas

open Clausal.Parser RuleLemmas

theorem isName_of_mem_words {ts : List Token} {x : String} (named : WellNamed ts)
    (member : .name x ∈ ts.map Token.word) : isName x = true := by
  obtain ⟨t, inside, word⟩ := List.mem_map.mp member
  obtain ⟨name, rfl⟩ := word_eq_name.mp word
  exact named t inside name

theorem empty_not_mem_words {ts : List Token} (named : WellNamed ts) :
    .name "" ∉ ts.map Token.word :=
  fun member => absurd (isName_of_mem_words named member) (by decide)

/-- A cursor that takes some tokens moves over them. -/
theorem moveTo_of_spans {i : Nat} {ts rest : List Token} {ws : List Word}
    (spans : Spans ws (ts.drop i) rest) (shorter : rest.length < (ts.drop i).length) :
    ∃ j, i < j ∧ j ≤ ts.length ∧ (Cursor.mk i (ts.drop i)).moveTo rest = ⟨j, ts.drop j⟩ ∧
      ws = (ts.extract i j).map Token.word := by
  obtain ⟨segment, same, rfl⟩ := spans
  have length := congrArg List.length same
  rw [List.length_append, List.length_drop] at length
  rw [List.length_drop] at shorter
  refine ⟨i + segment.length, by omega, by omega, ?_, ?_⟩
  · have behind : ts.drop (i + segment.length) = rest := by
      rw [← List.drop_drop, same, List.drop_left]
    simp only [Cursor.moveTo, behind, Cursor.mk.injEq, and_true, List.length_drop]
    omega
  · rw [List.extract_eq_take_drop, Nat.add_sub_cancel_left, same, List.take_left]

/-- A request for a phrase that succeeds is answered from the front of the tokens that are left. -/
theorem derives_of_answer {c c' : Cursor} {request : Cursor.Request} {reply : Cursor.Reply}
    (phrase : request.isForPhrase) (answered : c.answer request = (reply, c'))
    (success : ∀ e, reply ≠ .error e) :
    c' = c.moveTo c'.remaining ∧ c'.remaining.length < c.remaining.length ∧
      ∃ ws, Spans ws c.remaining c'.remaining ∧ request.Derives ws reply := by
  cases request with
  | peek | accept kind | expect kind => simp [Cursor.Request.isForPhrase] at phrase
  | formula =>
      obtain ⟨f, gives, rfl, moved⟩ := eq_of_gives answered success
      obtain ⟨inner, exhausted⟩ := gives_formula.mp gives
      obtain ⟨d, spans, rfl⟩ := derived_formulas.1 _ _ _ _ inner
      exact ⟨moved, length_lt_of_gives gives, d.words, exhausted ▸ spans, d, rfl, rfl⟩
  | unary =>
      obtain ⟨f, gives, rfl, moved⟩ := eq_of_gives answered success
      obtain ⟨d, spans, rfl⟩ := derived_formulas.2.2.2.1 _ _ _ gives
      exact ⟨moved, length_lt_of_gives gives, d.words, spans, d, rfl, rfl⟩
  | atomic =>
      obtain ⟨f, gives, rfl, moved⟩ := eq_of_gives answered success
      obtain ⟨d, spans, rfl⟩ := derived_formulas.2.2.2.2.1 _ _ _ gives
      exact ⟨moved, length_lt_of_gives gives, d.words, spans, d, rfl, rfl⟩
  | term =>
      obtain ⟨t, gives, rfl, moved⟩ := eq_of_gives answered success
      obtain ⟨d, spans, rfl⟩ := derived_terms.1 _ _ _ gives
      exact ⟨moved, length_lt_of_gives gives, d.words, spans, d, rfl, rfl⟩
  | terms =>
      obtain ⟨us, gives, rfl, moved⟩ := eq_of_gives answered success
      obtain ⟨d, spans, rfl⟩ := derived_terms.2.1 _ _ _ gives
      exact ⟨moved, length_lt_of_gives gives, d.words, spans, d, rfl, rfl⟩
  | binary op =>
      obtain ⟨f, gives, rfl, moved⟩ := eq_of_gives answered success
      obtain ⟨d, spans, rfl⟩ := derived_formulas.1 _ _ _ _ gives
      exact ⟨moved, length_lt_of_gives gives, d.words, spans, d, rfl, rfl⟩

end RecognitionLemmas

/-! ## Recognition -/

open RecognitionLemmas in
/-- The parser recognises the grammar. Tokens whose names are names of the lexer are read as a
formula exactly if their words have a derivation; there is only one derivation, and the formula is
read off it. A request for a phrase that succeeds, wherever the cursor stands, takes tokens that are
derived from the phrase and is answered by what is read off the derivation. -/
theorem recognises_grammar {ts : List Token} (named : WellNamed ts) :
    (∀ f, Formula.ofTokens ts = .ok f ↔
      ∃ d : Derivation (.formula (some .iff)), d.words = ts.map Token.word ∧ d.value = f) ∧
    (∀ d d' : Derivation (.formula (some .iff)), d.words = ts.map Token.word →
      d'.words = ts.map Token.word → d = d') ∧
    ∀ (i : Nat) (request : Cursor.Request) (reply : Cursor.Reply) (c : Cursor),
      request.isForPhrase → (Cursor.mk i (ts.drop i)).answer request = (reply, c) →
      (∀ e, reply ≠ .error e) →
        ∃ j, i < j ∧ j ≤ ts.length ∧ c = ⟨j, ts.drop j⟩ ∧
          request.Derives ((ts.extract i j).map Token.word) reply := by
  refine ⟨fun f => ofTokens_eq_ok_iff_derivation (empty_not_mem_words named), ?_, ?_⟩
  · intro d d' words words'
    exact DerivationLemmas.eq_of_words_eq (words.trans words'.symm)
  · intro i request reply c phrase answered success
    obtain ⟨moved, shorter, ws, spans, derives⟩ := derives_of_answer phrase answered success
    obtain ⟨j, before, within, same, rfl⟩ := moveTo_of_spans spans shorter
    exact ⟨j, before, within, moved.trans same, derives⟩

open Grammar.Derivation in
/-- The scope of the quantifiers in `∀x, y: P(x) ∧ Q` is `P(x)`. -/
theorem recognises_grammar_scope :
    let ts : List Token := [⟨.all, "∀", 0⟩, ⟨.name, "x", 1⟩, ⟨.comma, ",", 2⟩, ⟨.name, "y", 4⟩,
      ⟨.colon, ":", 5⟩, ⟨.name, "P", 7⟩, ⟨.lparen, "(", 8⟩, ⟨.name, "x", 9⟩, ⟨.rparen, ")", 10⟩,
      ⟨.conj, "∧", 12⟩, ⟨.name, "Q", 14⟩]
    WellNamed ts ∧ Formula.ofTokens ts =
      .ok (.conj (.quant .all "x" (.quant .all "y" (.atom ⟨"P", [.var "x"]⟩)))
        (.atom ⟨"Q", []⟩)) := by
  intro ts
  have named : WellNamed ts := by decide
  let closed : Derivation (.formula none) :=
    .quantified .all "x" ["y"] .colon (.atomic (.call "P" (.terms (.var "x") .noTerm)))
  let conjunction : Derivation (.formula (some .conj)) :=
    .joined closed (.nextOperand (.atomic (.bare "Q" (by decide))) .noOperand)
  let d : Derivation (.formula (some .iff)) :=
    .joined (.joined (.joined conjunction .noOperand) .noOperand) .noOperand
  exact ⟨named, ((recognises_grammar named).1 _).mpr ⟨d, by decide, rfl⟩⟩

end Clausal
