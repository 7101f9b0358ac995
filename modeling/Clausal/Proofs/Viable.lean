import Clausal.Proofs.Progress
import Clausal.Proofs.Refusals

/-!
# Where reading fails

The rules of the parser are prompt for the phrases of the grammar, by induction along the recursion of
the rules. So the parser stops at the first token after which no formula can follow: what it took can be
completed to a formula, and with the next token it cannot.

* `Grammar.Phrase.Generates`: the words of a phrase; `Viable`: tokens that a formula can start with.
* `ViableLemmas.isPrompt_terms`, `ViableLemmas.isPrompt_formulas`: the rules are prompt.
* `stops_at_first_impossible_token`: the place where a failed request for a formula leaves the cursor.
-/

namespace Clausal

open Grammar

/-- The words have a derivation from the phrase. -/
def Grammar.Phrase.Generates (p : Phrase) (ws : List Word) : Prop :=
  ∃ d : Derivation p, d.words = ws

/-- Further tokens make the tokens a formula. -/
def Viable (ts : List Token) : Prop :=
  ∃ more f, Formula.ofTokens (ts ++ more) = .ok f

namespace ViableLemmas

open Clausal.Parser RuleLemmas RecognitionLemmas LookAheadLemmas Reader

/-! ## Terms -/

section
variable {ts : List Token}

/-- Behind a name and an opening parenthesis, terms and a closing parenthesis are read. -/
theorem isPrompt_call {α : Type} {close : List Term → Reader α} {language : List Word → Prop}
    (prompt : (ofRule terms).IsPrompt Phrase.terms.Generates ts)
    (within : ∀ d : Derivation .terms, language (d.words ++ [.symbol .rparen]))
    (closes : ∀ a rest (empty : List Word → Prop), empty [] → (close a).IsPrompt empty rest) :
    ((ofRule terms).closed close).IsPrompt language ts := by
  refine isPrompt_closed prompt (fun args rest took => ?_) ?_ closes
  · obtain ⟨d, spans, _⟩ := derived_terms.2.1 _ _ _ (gives_of_ofRule took)
    exact ⟨d.words, spans, d, rfl⟩
  · rintro _ ⟨d, rfl⟩
    exact within d

/-- A term with terms behind it, each after a comma. -/
theorem isPrompt_term_andThen {language : List Word → Prop}
    (prompt : (ofRule term).IsPrompt Phrase.term.Generates ts)
    (more : ∀ rest, rest.length < ts.length →
      (ofRule moreTerms).IsPrompt Phrase.moreTerms.Generates rest)
    (joined : ∀ (d : Derivation .term) (d' : Derivation .moreTerms), language (d.words ++ d'.words)) :
    ((ofRule term).andThen fun t =>
      (ofRule moreTerms).andThen fun others => done (t :: others)).IsPrompt language ts := by
  have alone : Begins Phrase.moreTerms.Generates [] := begins_self ⟨.noTerm, rfl⟩
  refine isPrompt_followed prompt (fun t rest took => ?_) alone ?_
  · have gives := gives_of_ofRule took
    obtain ⟨d, spans, _⟩ := derived_terms.1 _ _ _ gives
    exact ⟨d.words, spans, ⟨d, rfl⟩, isPrompt_map (more rest (length_lt_of_gives gives))⟩
  · rintro _ _ ⟨d, rfl⟩ ⟨d', rfl⟩
    exact joined d d'

/-- The rules for terms. -/
theorem isPrompt_terms :
    (∀ ts, (ofRule term).IsPrompt Phrase.term.Generates ts) ∧
      (∀ ts, (ofRule terms).IsPrompt Phrase.terms.Generates ts) ∧
        ∀ ts, (ofRule moreTerms).IsPrompt Phrase.moreTerms.Generates ts := by
  refine term.mutual_induct (fun ts => (ofRule term).IsPrompt Phrase.term.Generates ts)
    (fun ts => (ofRule terms).IsPrompt Phrase.terms.Generates ts)
    (fun ts => (ofRule moreTerms).IsPrompt Phrase.moreTerms.Generates ts) ?term ?terms ?next ?stop
  case term =>
    intro ts ih
    rw [ofRule_term]
    have possible : Begins Phrase.term.Generates [] := begins_name "x" (by decide) ⟨.var "x", rfl⟩
    refine isPrompt_andThen (isPrompt_expect possible) fun n rest took => ?_
    obtain ⟨rfl, name⟩ := eq_of_expect took
    refine ⟨[n.word], spans_singleton, ?_⟩
    rw [word_eq_name.mpr ⟨name, rfl⟩]
    cases taken : accept .lparen rest with
    | none => exact isPrompt_decline taken (isPrompt_named ⟨.var n.text, rfl⟩)
    | some inside =>
        refine isPrompt_accept (by decide) taken ?_
        exact isPrompt_call (ih rest (Nat.lt_succ_self _) inside.1 inside.2)
          (fun d => ⟨.app n.text d, rfl⟩) fun _ _ _ => isPrompt_named
  case terms =>
    intro ts ihFirst ihMore
    rw [ofRule_terms]
    exact isPrompt_term_andThen ihFirst ihMore fun d d' => ⟨.terms d d', rfl⟩
  case next =>
    intro ts inside shorter taken ihNext ihMore
    rw [ofRule_moreTerms]
    refine isPrompt_accept (by decide) taken ?_
    exact isPrompt_term_andThen ihNext (fun rest within => ihMore rest (Nat.lt_trans within shorter))
      fun d d' => ⟨.nextTerm d d', rfl⟩
  case stop =>
    intro ts declined
    rw [ofRule_moreTerms]
    exact isPrompt_decline declined isPrompt_done

end

/-! ## Variables of a quantifier -/

section
variable {ts : List Token}

theorem isPrompt_boundName {language : List Word → Prop} (named : ∀ x, language [.name x]) :
    (ofRule boundName).IsPrompt language ts := by
  rw [ofRule_boundName]
  have possible : Begins language [] := begins_name "x" (by decide) (named "x")
  refine isPrompt_andThen (isPrompt_expect possible) fun n rest took => ?_
  obtain ⟨rfl, name⟩ := eq_of_expect took
  refine ⟨[n.word], spans_singleton, isPrompt_named ?_⟩
  rw [word_eq_name.mpr ⟨name, rfl⟩]
  exact named n.text

/-- Names behind a name, each after a comma. -/
def IsMoreNames (ws : List Word) : Prop :=
  ∃ others, moreNames others = ws

/-- One or more names, separated by commas. -/
def IsNames (ws : List Word) : Prop :=
  ∃ x others, .name x :: moreNames others = ws

/-- A name with names behind it. -/
theorem isPrompt_boundName_andThen {language : List Word → Prop}
    (more : ∀ rest, rest.length < ts.length → (ofRule moreBoundNames).IsPrompt IsMoreNames rest)
    (named : ∀ x others, language (.name x :: moreNames others)) :
    ((ofRule boundName).andThen fun x =>
      (ofRule moreBoundNames).andThen fun others => done (x :: others)).IsPrompt language ts := by
  have single : (ofRule boundName).IsPrompt (fun ws => ∃ x, ws = [.name x]) ts :=
    isPrompt_boundName fun x => ⟨x, rfl⟩
  have alone : Begins IsMoreNames [] := begins_self ⟨[], rfl⟩
  refine isPrompt_followed single (fun x rest took => ?_) alone ?_
  · obtain ⟨n, rfl, name, _, rfl⟩ := gives_boundName.mp (gives_of_ofRule took)
    refine ⟨[n.word], spans_singleton, ⟨n.text, ?_⟩, isPrompt_map (more rest (Nat.lt_succ_self _))⟩
    rw [word_eq_name.mpr ⟨name, rfl⟩]
  · rintro _ _ ⟨x, rfl⟩ ⟨others, rfl⟩
    exact named x others

theorem isPrompt_moreBoundNames : (ofRule moreBoundNames).IsPrompt IsMoreNames ts := by
  induction ts using moreBoundNames.induct with
  | case1 ts inside shorter taken ih =>
      rw [ofRule_moreBoundNames]
      refine isPrompt_accept (by decide) taken ?_
      exact isPrompt_boundName_andThen (fun rest within => ih rest (Nat.lt_trans within shorter))
        fun x others => ⟨x :: others, rfl⟩
  | case2 ts declined =>
      rw [ofRule_moreBoundNames]
      exact isPrompt_decline declined isPrompt_done

theorem isPrompt_boundNames : (ofRule boundNames).IsPrompt IsNames ts := by
  rw [ofRule_boundNames]
  exact isPrompt_boundName_andThen (fun _ _ => isPrompt_moreBoundNames) fun x others => ⟨x, others, rfl⟩

end

/-! ## Formulas -/

section
variable {ts : List Token}

/-- What follows the variables of a quantifier. -/
def IsScope (ws : List Word) : Prop :=
  ∃ (s : Separator) (d : Derivation (.formula none)), s.words ++ d.words = ws

/-- The scope of a quantifier starts behind a dot or a colon, or at once. -/
theorem isPrompt_scope {r : Reader Formula}
    (prompt : ∀ scope, scope.length ≤ ts.length → r.IsPrompt (Phrase.formula none).Generates scope) :
    (ifNext .dot r (ifNext .colon r r)).IsPrompt IsScope ts := by
  cases dot : accept .dot ts with
  | some inside =>
      refine isPrompt_accept (by decide) dot ?_
      refine isPrompt_mono ?_ (prompt inside.1 (Nat.le_of_lt inside.2))
      rintro _ ⟨d, rfl⟩
      exact ⟨.dot, d, rfl⟩
  | none =>
      refine isPrompt_decline dot ?_
      cases colon : accept .colon ts with
      | some inside =>
          refine isPrompt_accept (by decide) colon ?_
          refine isPrompt_mono ?_ (prompt inside.1 (Nat.le_of_lt inside.2))
          rintro _ ⟨d, rfl⟩
          exact ⟨.colon, d, rfl⟩
      | none =>
          refine isPrompt_decline colon (isPrompt_mono ?_ (prompt ts (Nat.le_refl _)))
          rintro _ ⟨d, rfl⟩
          exact ⟨.none, d, rfl⟩

theorem begins_unary : Begins (Phrase.formula none).Generates [] :=
  begins_name "P" (by decide) ⟨.atomic (.bare "P" (by decide)), rfl⟩

/-- An operand with operands behind it, each after the connective. -/
theorem isPrompt_operand_andThen {op : Connective} {next : Formula → Reader Formula}
    {language : List Word → Prop}
    (prompt : (ofRule (operand op)).IsPrompt (Phrase.formula op.tighter?).Generates ts)
    (more : ∀ f rest, rest.length < ts.length →
      (next f).IsPrompt (Phrase.operands op).Generates rest)
    (joined : ∀ (d : Derivation (.formula op.tighter?)) (d' : Derivation (.operands op)),
      language (d.words ++ d'.words)) : ((ofRule (operand op)).andThen next).IsPrompt language ts := by
  have alone : Begins (Phrase.operands op).Generates [] := begins_self ⟨.noOperand, rfl⟩
  refine isPrompt_followed prompt (fun f rest took => ?_) alone ?_
  · have gives := gives_of_ofRule took
    obtain ⟨d, spans, _⟩ := derived_formulas.2.2.1 _ _ _ _ gives
    exact ⟨d.words, spans, ⟨d, rfl⟩, more f rest (length_lt_of_gives gives)⟩
  · rintro _ _ ⟨d, rfl⟩ ⟨d', rfl⟩
    exact joined d d'

/-- The rules for formulas. -/
theorem isPrompt_formulas :
    (∀ op ts, (ofRule (binary op)).IsPrompt (Phrase.formula (some op)).Generates ts) ∧
      (∀ op left ts, (ofRule (operands op left)).IsPrompt (Phrase.operands op).Generates ts) ∧
      (∀ op ts, (ofRule (operand op)).IsPrompt (Phrase.formula op.tighter?).Generates ts) ∧
      (∀ ts, (ofRule unary).IsPrompt (Phrase.formula none).Generates ts) ∧
      (∀ ts, (ofRule atomic).IsPrompt Phrase.atomic.Generates ts) ∧
      ∀ (q : Quantifier) ts, (ofRule (quantified q)).IsPrompt
        (fun ws => (Phrase.formula none).Generates (.symbol q.token :: ws)) ts := by
  refine binary.mutual_induct
    (fun op ts => (ofRule (binary op)).IsPrompt (Phrase.formula (some op)).Generates ts)
    (fun op left ts => (ofRule (operands op left)).IsPrompt (Phrase.operands op).Generates ts)
    (fun op ts => (ofRule (operand op)).IsPrompt (Phrase.formula op.tighter?).Generates ts)
    (fun ts => (ofRule unary).IsPrompt (Phrase.formula none).Generates ts)
    (fun ts => (ofRule atomic).IsPrompt Phrase.atomic.Generates ts)
    (fun q ts => (ofRule (quantified q)).IsPrompt
      (fun ws => (Phrase.formula none).Generates (.symbol q.token :: ws)) ts)
    ?binary ?next ?stop ?tighter ?tightest ?incomplete ?negation ?universal ?existential ?atomic
    ?paren ?named ?quantified
  case binary =>
    intro op ts ihFirst ihMore
    rw [ofRule_binary]
    exact isPrompt_operand_andThen ihFirst ihMore fun d d' => ⟨.joined d d', rfl⟩
  case next =>
    intro op left ts inside shorter taken ihNext ihMore
    rw [ofRule_operands]
    refine isPrompt_accept (connective_token_ne_name op) taken ?_
    exact isPrompt_operand_andThen ihNext
      (fun f rest within => ihMore f rest (Nat.lt_trans within shorter))
      fun d d' => ⟨.nextOperand d d', rfl⟩
  case stop =>
    intro op left ts declined
    rw [ofRule_operands]
    exact isPrompt_decline declined isPrompt_done
  case tighter =>
    intro op ts next below ih
    rw [ofRule_operand, below]
    exact ih
  case tightest =>
    intro op ts below ih
    rw [ofRule_operand, below]
    exact ih
  case incomplete =>
    rw [ofRule_unary]
    exact isPrompt_peek (isPrompt_failed begins_unary)
  case negation =>
    intro t ts negation ih
    rw [ofRule_unary]
    refine isPrompt_peek (isPrompt_accept (by decide) (accept_cons negation) (isPrompt_map ?_))
    refine isPrompt_mono ?_ ih
    rintro _ ⟨d, rfl⟩
    exact ⟨.negation d, rfl⟩
  case universal =>
    intro t ts universal ih
    rw [ofRule_unary]
    have positive : t.kind ≠ .neg := by simp [universal]
    refine isPrompt_peek (isPrompt_decline (accept_of_ne positive) ?_)
    exact isPrompt_accept (by decide) (accept_cons universal) ih
  case existential =>
    intro t ts existential ih
    rw [ofRule_unary]
    have positive : t.kind ≠ .neg := by simp [existential]
    have notAll : t.kind ≠ .all := by simp [existential]
    refine isPrompt_peek (isPrompt_decline (accept_of_ne positive) ?_)
    refine isPrompt_decline (accept_of_ne notAll) ?_
    exact isPrompt_accept (by decide) (accept_cons existential) ih
  case atomic =>
    intro t ts positive notAll notEx ih
    rw [ofRule_unary]
    refine isPrompt_peek (isPrompt_decline (accept_of_ne positive) ?_)
    refine isPrompt_decline (accept_of_ne notAll) (isPrompt_decline (accept_of_ne notEx) ?_)
    refine isPrompt_mono ?_ ih
    rintro _ ⟨d, rfl⟩
    exact ⟨.atomic d, rfl⟩
  case paren =>
    intro ts inside shorter taken ih
    rw [ofRule_atomic]
    refine isPrompt_accept (by decide) taken ?_
    refine isPrompt_closed ih (fun f rest took => ?_) ?_ fun _ _ _ _ => isPrompt_done
    · obtain ⟨d, spans, _⟩ := derived_formulas.1 _ _ _ _ (gives_of_ofRule took)
      exact ⟨d.words, spans, d, rfl⟩
    · rintro _ ⟨d, rfl⟩
      exact ⟨.paren d, rfl⟩
  case named =>
    intro ts declined
    rw [ofRule_atomic]
    refine isPrompt_decline declined ?_
    have possible : Begins Phrase.atomic.Generates [] :=
      begins_name "P" (by decide) ⟨.bare "P" (by decide), rfl⟩
    refine isPrompt_andThen (isPrompt_expect possible) fun n rest took => ?_
    obtain ⟨rfl, name⟩ := eq_of_expect took
    refine ⟨[n.word], spans_singleton, ?_⟩
    rw [word_eq_name.mpr ⟨name, rfl⟩]
    cases taken : accept .lparen rest with
    | none =>
        refine isPrompt_decline taken ?_
        split
        next upper => exact isPrompt_done
        next lower =>
          -- A name that cannot stand alone may still be followed by arguments.
          have arguments : WellNamed [⟨.lparen, "(", 0⟩, ⟨.name, "x", 0⟩, ⟨.rparen, ")", 0⟩] := by
            decide
          exact isPrompt_failed
            (begins_nil _ arguments ⟨.call n.text (.terms (.var "x") .noTerm), rfl⟩)
    | some inside =>
        refine isPrompt_accept (by decide) taken ?_
        exact isPrompt_call (isPrompt_terms.2.1 inside.1) (fun d => ⟨.call n.text d, rfl⟩)
          fun _ _ _ => isPrompt_named
  case quantified =>
    intro q ts ih
    rw [ofRule_quantified]
    have possible : Begins IsScope [] :=
      begins_name "P" (by decide) ⟨.none, .atomic (.bare "P" (by decide)), rfl⟩
    refine isPrompt_followed isPrompt_boundNames (fun xs rest took => ?_) possible ?_
    · have gives := gives_of_ofRule took
      obtain ⟨x, others, rfl, spans⟩ := spans_boundNames gives
      have within := length_lt_of_gives gives
      exact ⟨_, spans, ⟨x, others, rfl⟩,
        isPrompt_scope fun scope shorter => isPrompt_map (ih rest within scope shorter)⟩
    · rintro _ _ ⟨x, others, rfl⟩ ⟨s, d, rfl⟩
      refine ⟨.quantified q x others s d, ?_⟩
      rw [Derivation.words, List.append_assoc]
      rfl

end

/-! ## Tokens -/

section
variable {ts : List Token}

/-- A formula that takes up all tokens. -/
theorem isPrompt_formula (ts : List Token) :
    (ofRule formula).IsPrompt (Phrase.formula (some .iff)).Generates ts := by
  rw [ofRule_formula]
  refine isPrompt_andThen (isPrompt_formulas.1 .iff ts) fun f rest took => ?_
  obtain ⟨d, spans, _⟩ := derived_formulas.1 _ _ _ _ (gives_of_ofRule took)
  refine ⟨d.words, spans, isPrompt_peek ?_⟩
  cases rest with
  | nil => exact isPrompt_done
  | cons t rest => exact isPrompt_failed (begins_self ⟨d, (List.append_nil _).symm⟩)

/-- Tokens that start a formula are viable, with names of the lexer. -/
theorem exists_ofTokens_of_begins (named : WellNamed ts)
    (begins : Begins (Phrase.formula (some .iff)).Generates (ts.map Token.word)) :
    ∃ more, WellNamed more ∧ ∃ f, Formula.ofTokens (ts ++ more) = .ok f := by
  obtain ⟨more, named', d, words⟩ := begins
  have both := wellNamed_append named named'
  refine ⟨more, named', d.value, ?_⟩
  rw [ofTokens_eq_ok_iff_derivation (empty_not_mem_words both), List.map_append]
  exact ⟨d, words, rfl⟩

/-- What a viable list of tokens starts with is viable. -/
theorem viable_take {m n : Nat} (shorter : m ≤ n) (viable : Viable (ts.take n)) :
    Viable (ts.take m) := by
  obtain ⟨more, f, read⟩ := viable
  have split := List.take_append_drop m (ts.take n)
  rw [List.take_take, Nat.min_eq_left shorter] at split
  refine ⟨(ts.take n).drop m ++ more, f, ?_⟩
  rwa [← List.append_assoc, split]

/-- A request for a formula that fails leaves what the rule for formulas leaves. -/
theorem eq_of_answer {e : ParseError} {c : Cursor}
    (failed : (Cursor.start ts).answer .formula = (.error e, c)) :
    ofRule formula ts = (.error e, c.remaining) ∧ c = (Cursor.start ts).moveTo c.remaining := by
  unfold Cursor.answer Cursor.follow at failed
  obtain ⟨reply, rfl⟩ := Prod.mk.inj failed
  refine ⟨Prod.ext ?_ rfl, rfl⟩
  change (formula ts).result = .error e
  split at reply
  next f result => cases reply
  next e' result =>
    cases reply
    exact result

theorem moveTo_start {taken rest : List Token} :
    (Cursor.start (taken ++ rest)).moveTo rest = ⟨taken.length, rest⟩ := by
  simp [Cursor.start, Cursor.moveTo]

/-- If the rule for formulas fails, the tokens are not read. -/
theorem ofTokens_eq_error {e : ParseError} {rest : List Token}
    (failed : ofRule formula ts = (.error e, rest)) :
    Formula.ofTokens ts = .error (.syntactic e) := by
  have result : (formula ts).result = .error e := (Prod.mk.inj failed).1
  rw [Formula.ofTokens, result]
  rfl

end

end ViableLemmas

/-! ## Main result -/

open ViableLemmas RefusalLemmas in
/-- If tokens whose names are names of the lexer are not read as a formula, the error is one about the
grammar, and the cursor stops at the first token that is impossible: the tokens before it can be
completed to a formula, by tokens with names of the lexer, and with this token they cannot be, by any
tokens. So the place where the cursor stops is the length of the longest viable prefix. -/
theorem stops_at_first_impossible_token {ts : List Token} {e : ParseError} {c : Cursor}
    (named : WellNamed ts) (failed : (Cursor.start ts).answer .formula = (.error e, c)) :
    e.IsSyntactic ∧ c.taken ≤ ts.length ∧ c.remaining = ts.drop c.taken ∧
      (∃ more, WellNamed more ∧ ∃ f, Formula.ofTokens (ts.take c.taken ++ more) = .ok f) ∧
      (c.taken < ts.length →
        ∀ more f, Formula.ofTokens (ts.take (c.taken + 1) ++ more) ≠ .ok f) ∧
      ∀ n ≤ ts.length, Viable (ts.take n) ↔ n ≤ c.taken := by
  obtain ⟨i, rest⟩ := c
  obtain ⟨read, moved⟩ := eq_of_answer failed
  obtain ⟨_, same, syntactic⟩ := isSyntactic_of_ofTokens named (ofTokens_eq_error read)
  cases same
  obtain ⟨taken, rest', result, rfl, begins, same⟩ := isPrompt_formula ts
  obtain ⟨rfl, rfl⟩ := Prod.mk.inj ((same rest' rfl).symm.trans read)
  obtain ⟨rfl, -⟩ := Cursor.mk.inj (moved.trans moveTo_start)
  have possible : ∃ more, WellNamed more ∧ ∃ f, Formula.ofTokens (taken ++ more) = .ok f :=
    exists_ofTokens_of_begins (fun t member => named t (List.mem_append_left _ member)) (begins e rfl)
  have impossible (short : taken.length < (taken ++ rest').length) :
      ∀ more f, Formula.ofTokens ((taken ++ rest').take (taken.length + 1) ++ more) ≠ .ok f := by
    obtain ⟨t, after, rfl⟩ := List.exists_cons_of_length_pos (by simpa using short : 0 < rest'.length)
    intro more f
    rw [List.take_length_add_append, List.take_succ_cons, List.take_zero, List.append_assoc,
      ofTokens_eq_error (same ([t] ++ more) rfl)]
    exact nofun
  refine ⟨syntactic, by simp, List.drop_left.symm, List.take_left.symm ▸ possible, impossible,
    fun n within => ⟨fun viable => ?_, fun shorter => ?_⟩⟩
  · -- A longer viable prefix would contain the token that is impossible.
    refine Nat.le_of_not_lt fun longer => ?_
    obtain ⟨more, f, formed⟩ := viable_take longer viable
    exact impossible (Nat.lt_of_lt_of_le longer within) more f formed
  · obtain ⟨more, -, f, formed⟩ := possible
    exact viable_take shorter ⟨more, f, by rwa [List.take_left]⟩

/-- In `(P ∧ x)` the name `x` is taken before it is refused: arguments might still follow it, but a
closing parenthesis cannot. -/
theorem stops_at_first_impossible_token_lowercase :
    let ts : List Token := [⟨.lparen, "(", 0⟩, ⟨.name, "P", 1⟩, ⟨.conj, "∧", 3⟩, ⟨.name, "x", 5⟩,
      ⟨.rparen, ")", 6⟩]
    (Cursor.start ts).answer .formula = (.error (.bareName "x"), ⟨4, [⟨.rparen, ")", 6⟩]⟩) ∧
      ∀ n ≤ 5, Viable (ts.take n) ↔ n ≤ 4 := by
  intro ts
  have failed : (Cursor.start ts).answer .formula =
      (.error (.bareName "x"), ⟨4, [⟨.rparen, ")", 6⟩]⟩) :=
    ProgressLemmas.answer_of_call (Nat.zero_le ts.length) (Nat.le_refl _) (by decide)
  have named : WellNamed ts := by decide
  exact ⟨failed, (stops_at_first_impossible_token named failed).2.2.2.2.2⟩

end Clausal
