import Clausal.Proofs.Recognition

/-!
# One token of look-ahead

Without the bounds on the tokens that are left, the rules of the parser are put together from a few
steps, each of which takes a token, looks at the next one, or goes on with another rule. So what a rule
makes of some tokens depends on the tokens that it takes and on the one that comes next, and on nothing
behind. If it fails, what it took can be completed to words of the language that it reads, provided that
this is so wherever one of its steps fails.

* `Reader`: rules without bounds, with the steps that they are made of.
* `Begins`: words that can be completed to words of a language.
* `Reader.IsPrompt`: a rule fails at the first token after which its language has no words.
* `LookAheadLemmas.isPrompt_andThen`, `LookAheadLemmas.isPrompt_followed` and their companions: how
  prompt rules are put together.
* `LookAheadLemmas.ofRule_term` and its companions: the rules of the parser, put together from steps.
-/

namespace Clausal

open Grammar

/-! ## Readers -/

/-- What a rule makes of some tokens, and what it leaves of them. -/
abbrev Reader (α : Type) := List Token → Except ParseError α × List Token

/-- What a rule made of some tokens, without the bound on what it leaves of them. -/
def Outcome.seen {α : Type} {n : Nat} (o : Outcome α n) : Except ParseError α × List Token :=
  (o.result, o.rest)

namespace Reader

variable {α β : Type}

/-- A rule without its bounds. -/
def ofRule {bound : List Token → Nat} (rule : (ts : List Token) → Outcome α (bound ts)) : Reader α :=
  fun ts => (rule ts).seen

def done (value : α) : Reader α :=
  fun ts => (.ok value, ts)

def failed (error : ParseError) : Reader α :=
  fun ts => (.error error, ts)

/-- Goes on after a success; an error stays. -/
def andThen (m : Reader α) (next : α → Reader β) : Reader β := fun ts =>
  match m ts with
  | (.ok a, rest) => next a rest
  | (.error e, rest) => (.error e, rest)

/-- Goes on as the next token says, which is not taken. -/
def peek (choose : Option Token → Reader α) : Reader α :=
  fun ts => choose ts.head? ts

/-- Takes the next token, whatever it is. -/
def skip (m : Reader α) : Reader α :=
  fun ts => m ts.tail

/-- Goes on with `yes` after a token of the given kind, and with `no` if none comes next. -/
def ifNext (kind : TokenKind) (yes no : Reader α) : Reader α :=
  peek fun
    | none => no
    | some t => if t.kind = kind then skip yes else no

/-- Takes a token of the given kind. -/
def expect (kind : TokenKind) : Reader Token :=
  peek fun
    | none => failed (.expected kind none)
    | some t => if t.kind = kind then skip (done t) else failed (.expected kind (some t.kind))

/-- Succeeds with a value made from `name`, which must not be empty. -/
def named (role : NameRole) (name : String) (value : α) : Reader α :=
  if name.isEmpty then failed (.emptyName role) else done value

/-- Goes on after a success and a closing parenthesis. -/
def closed (m : Reader α) (next : α → Reader β) : Reader β :=
  m.andThen fun a => (expect .rparen).andThen fun _ => next a

end Reader

/-! ## Prompt rules -/

/-- The words can be completed to words of the language, by tokens whose names are names of the lexer. -/
def Begins (language : List Word → Prop) (ws : List Word) : Prop :=
  ∃ more : List Token, WellNamed more ∧ language (ws ++ more.map Token.word)

/-- What the rule makes of the tokens does not depend on those that it leaves, but for the next one. If
it fails, the words of the tokens that it took begin words of the language. -/
def Reader.IsPrompt {α : Type} (m : Reader α) (language : List Word → Prop) (ts : List Token) : Prop :=
  ∃ taken rest result, ts = taken ++ rest ∧
    (∀ e, result = .error e → Begins language (taken.map Token.word)) ∧
    ∀ rest', rest'.head? = rest.head? → m (taken ++ rest') = (result, rest')

namespace LookAheadLemmas

open Clausal.Parser RuleLemmas RecognitionLemmas Reader

/-! ## Beginnings -/

section
variable {language language' : List Word → Prop} {ws : List Word}

theorem wellNamed_append {ts more : List Token} (named : WellNamed ts) (named' : WellNamed more) :
    WellNamed (ts ++ more) :=
  fun t member => (List.mem_append.mp member).elim (named t) (named' t)

theorem begins_self (complete : language ws) : Begins language ws :=
  ⟨[], nofun, by rwa [List.map_nil, List.append_nil]⟩

theorem begins_nil (more : List Token) (named : WellNamed more)
    (complete : language (more.map Token.word)) : Begins language [] :=
  ⟨more, named, complete⟩

/-- A name that completes what is missing. -/
theorem begins_name (x : String) (named : isName x = true) (complete : language [.name x]) :
    Begins language [] := by
  refine begins_nil [⟨.name, x, 0⟩] (fun t member _ => ?_) complete
  rw [List.mem_singleton.mp member]
  exact named

/-- What begins words of a language begins those words followed by others. -/
theorem begins_append {after : List Token} (named : WellNamed after)
    (within : ∀ vs, language vs → language' (vs ++ after.map Token.word))
    (begins : Begins language ws) : Begins language' ws := by
  obtain ⟨more, named', complete⟩ := begins
  refine ⟨more ++ after, wellNamed_append named' named, ?_⟩
  rw [List.map_append, ← List.append_assoc]
  exact within _ complete

end

/-! ## How prompt rules are put together -/

section
variable {α β : Type} {m : Reader α} {next : α → Reader β} {first language language' : List Word → Prop}
  {ts : List Token}

theorem isPrompt_done {a : α} : (done a).IsPrompt language ts :=
  ⟨[], ts, .ok a, rfl, nofun, fun _ _ => rfl⟩

theorem isPrompt_failed {e : ParseError} (begins : Begins language []) :
    (failed e : Reader α).IsPrompt language ts :=
  ⟨[], ts, .error e, rfl, fun _ _ => begins, fun _ _ => rfl⟩

/-- A rule that is prompt for a language is prompt for its words followed by others. -/
theorem isPrompt_append {after : List Token} (named : WellNamed after)
    (within : ∀ vs, language vs → language' (vs ++ after.map Token.word))
    (prompt : m.IsPrompt language ts) : m.IsPrompt language' ts := by
  obtain ⟨taken, rest, result, split, begins, same⟩ := prompt
  exact ⟨taken, rest, result, split, fun e error => begins_append named within (begins e error), same⟩

/-- A rule that is prompt for a language is prompt for each larger one. -/
theorem isPrompt_mono (within : ∀ vs, language vs → language' vs) (prompt : m.IsPrompt language ts) :
    m.IsPrompt language' ts := by
  refine isPrompt_append (List.forall_mem_nil _) (fun vs given => ?_) prompt
  rw [List.map_nil, List.append_nil]
  exact within vs given

theorem isPrompt_skip {t : Token} (prompt : m.IsPrompt (fun ws => language (t.word :: ws)) ts) :
    (skip m).IsPrompt language (t :: ts) := by
  obtain ⟨taken, rest, result, rfl, begins, same⟩ := prompt
  exact ⟨t :: taken, rest, result, rfl, begins, same⟩

/-- Tokens with the same next token behind the same tokens have the same next token. -/
theorem head?_append_congr {taken rest rest' : List Token} (looks : rest'.head? = rest.head?) :
    (taken ++ rest').head? = (taken ++ rest).head? := by
  rw [List.head?_append, List.head?_append, looks]

theorem isPrompt_peek {choose : Option Token → Reader α}
    (prompt : (choose ts.head?).IsPrompt language ts) : (peek choose).IsPrompt language ts := by
  obtain ⟨taken, rest, result, rfl, begins, same⟩ := prompt
  refine ⟨taken, rest, result, rfl, begins, fun rest' looks => ?_⟩
  rw [peek, head?_append_congr looks]
  exact same rest' looks

/-- A rule goes on promptly after another one if it is prompt for what may follow the words that the
other one took. -/
theorem isPrompt_andThen (prompt : m.IsPrompt language ts)
    (others : ∀ a rest, m ts = (.ok a, rest) →
      ∃ us, Spans us ts rest ∧ (next a).IsPrompt (fun ws => language (us ++ ws)) rest) :
    (m.andThen next).IsPrompt language ts := by
  obtain ⟨taken, rest, result, rfl, begins, same⟩ := prompt
  cases result with
  | error e =>
      refine ⟨taken, rest, .error e, rfl, fun _ _ => begins e rfl, fun rest' looks => ?_⟩
      rw [andThen, same rest' looks]
  | ok a =>
      obtain ⟨us, ⟨segment, split, rfl⟩, taken', rest', result, rfl, begins', same'⟩ :=
        others a rest (same rest rfl)
      obtain rfl := List.append_cancel_right split
      refine ⟨taken ++ taken', rest', result, (List.append_assoc ..).symm, fun e error => ?_,
        fun behind looks => ?_⟩
      · obtain ⟨more, named, complete⟩ := begins' e error
        refine ⟨more, named, ?_⟩
        rwa [List.map_append, List.append_assoc]
      · rw [List.append_assoc, andThen, same _ (head?_append_congr looks)]
        exact same' behind looks

/-- What a prompt rule takes stands before what it leaves. -/
theorem exists_spans {a : α} {rest : List Token} (prompt : m.IsPrompt language ts)
    (took : m ts = (.ok a, rest)) : ∃ us, Spans us ts rest := by
  obtain ⟨taken, rest', result, rfl, _, same⟩ := prompt
  obtain rfl : rest' = rest := (Prod.mk.inj ((same rest' rfl).symm.trans took)).2
  exact ⟨_, taken, rfl, rfl⟩

/-- The value that a rule gives has no influence on where it stops. -/
theorem isPrompt_map {value : α → β} (prompt : m.IsPrompt language ts) :
    (m.andThen fun a => done (value a)).IsPrompt language ts := by
  refine isPrompt_andThen prompt fun a rest took => ?_
  obtain ⟨us, spans⟩ := exists_spans prompt took
  exact ⟨us, spans, isPrompt_done⟩

/-- A rule goes on promptly after another one if it is prompt for a language of its own, whatever the
other one took. Where the other one fails, words of this language complete what it took. -/
theorem isPrompt_followed {second : List Word → Prop} (prompt : m.IsPrompt first ts)
    (others : ∀ a rest, m ts = (.ok a, rest) →
      ∃ us, Spans us ts rest ∧ first us ∧ (next a).IsPrompt second rest)
    (possible : Begins second []) (joined : ∀ us vs, first us → second vs → language (us ++ vs)) :
    (m.andThen next).IsPrompt language ts := by
  obtain ⟨after, named, complete⟩ := possible
  refine isPrompt_andThen ?_ fun a rest took => ?_
  · exact isPrompt_append named (fun us given => joined us _ given complete) prompt
  · obtain ⟨us, spans, given, prompt'⟩ := others a rest took
    exact ⟨us, spans, isPrompt_mono (joined us · given) prompt'⟩

theorem kind_ne_of_accept {kind : TokenKind} {t : Token} (declined : accept kind (t :: ts) = none) :
    t.kind ≠ kind := by
  intro same
  rw [accept_cons same] at declined
  cases declined

theorem accept_of_ne {kind : TokenKind} {t : Token} (differ : t.kind ≠ kind) :
    accept kind (t :: ts) = none :=
  accept_eq_none (differ ∘ startsWith_cons.mp)

/-- A token that comes next is taken. -/
theorem isPrompt_accept {kind : TokenKind} {yes no : Reader α} {inside : List Token}
    {shorter : inside.length < ts.length} (plain : kind ≠ .name)
    (taken : accept kind ts = some ⟨inside, shorter⟩)
    (prompt : yes.IsPrompt (fun ws => language (.symbol kind :: ws)) inside) :
    (ifNext kind yes no).IsPrompt language ts := by
  obtain ⟨t, rfl, same⟩ := cons_of_accept_eq_some taken
  refine isPrompt_peek ?_
  simp only [List.head?_cons]
  rw [if_pos same]
  refine isPrompt_skip ?_
  rwa [(word_eq_symbol plain).mpr same]

/-- A token that does not come next is not taken. -/
theorem isPrompt_decline {kind : TokenKind} {yes no : Reader α} (declined : accept kind ts = none)
    (prompt : no.IsPrompt language ts) : (ifNext kind yes no).IsPrompt language ts := by
  refine isPrompt_peek ?_
  cases ts with
  | nil => exact prompt
  | cons t inside =>
      simp only [List.head?_cons]
      rwa [if_neg (kind_ne_of_accept declined)]

theorem isPrompt_expect {kind : TokenKind} (begins : Begins language []) :
    (Reader.expect kind).IsPrompt language ts := by
  refine isPrompt_peek ?_
  cases ts with
  | nil => exact isPrompt_failed begins
  | cons t inside =>
      simp only [List.head?_cons]
      split
      · exact isPrompt_skip isPrompt_done
      · exact isPrompt_failed begins

theorem isPrompt_named {role : NameRole} {name : String} {a : α} (complete : language []) :
    (named role name a).IsPrompt language ts := by
  rw [named]
  split
  · exact isPrompt_failed (begins_self complete)
  · exact isPrompt_done

end

/-! ## Outcomes without their bounds -/

section
variable {α β : Type} {m n : Nat} {a : α} {kind : TokenKind} {ts rest inside : List Token}

@[simp] theorem seen_widen {o : Outcome α m} {larger : m ≤ n} : (o.widen larger).seen = o.seen := by
  cases o <;> rfl

theorem seen_andThen {o : Outcome α n} {r : Reader α} {next' : α → Reader β}
    {next : α → (rest : List Token) → rest.length < n → Outcome β n} (first : o.seen = r ts)
    (others : ∀ a rest shorter, (next a rest shorter).seen = next' a rest) :
    (o.andThen next).seen = r.andThen next' ts := by
  rw [Reader.andThen, ← first]
  cases o with
  | done a rest shorter => exact others a rest shorter
  | failed e rest within => rfl

theorem seen_named {role : NameRole} {name : String} {shorter : rest.length < n} :
    (Outcome.named role name a rest shorter).seen = Reader.named role name a rest := by
  rw [Outcome.named, Reader.named]
  split <;> rfl

theorem seen_expect : (Parser.expect kind ts).seen = Reader.expect kind ts := by
  cases ts with
  | nil => rfl
  | cons t rest =>
      simp only [Parser.expect, Reader.expect, peek, List.head?_cons]
      split <;> rfl

theorem ifNext_cons {t : Token} {yes no : Reader α} :
    ifNext kind yes no (t :: rest) = if t.kind = kind then yes rest else no (t :: rest) := by
  simp only [ifNext, peek, List.head?_cons]
  split <;> rfl

theorem ifNext_of_some {yes no : Reader α} {shorter : inside.length < ts.length}
    (taken : accept kind ts = some ⟨inside, shorter⟩) : ifNext kind yes no ts = yes inside := by
  obtain ⟨t, rfl, same⟩ := cons_of_accept_eq_some taken
  rw [ifNext_cons, if_pos same]

theorem ifNext_of_none {yes no : Reader α} (stop : accept kind ts = none) :
    ifNext kind yes no ts = no ts := by
  cases ts with
  | nil => rfl
  | cons t inside => rw [ifNext_cons, if_neg (kind_ne_of_accept stop)]

/-- The dot or colon that `skipSeparator` takes. -/
theorem ifNext_separator {r : Reader α} :
    ifNext .dot r (ifNext .colon r r) ts = r (skipSeparator ts).1 := by
  unfold skipSeparator
  split
  next rest _ dot => exact ifNext_of_some dot
  next noDot =>
    rw [ifNext_of_none noDot]
    split
    next rest _ colon => exact ifNext_of_some colon
    next noColon => exact ifNext_of_none noColon

end

/-! ## What the steps took -/

section
variable {α β : Type} {m : Reader α} {close : α → Reader β} {kind : TokenKind} {t : Token}
  {ts rest : List Token}

theorem gives_of_ofRule {a : α} {bound : List Token → Nat}
    {rule : (ts : List Token) → Outcome α (bound ts)} (took : ofRule rule ts = (.ok a, rest)) :
    (rule ts).Gives a rest :=
  Prod.mk.inj took

theorem eq_of_expect (took : Reader.expect kind ts = (.ok t, rest)) :
    ts = t :: rest ∧ t.kind = kind := by
  rw [← seen_expect] at took
  exact gives_expect.mp (Prod.mk.inj took)

theorem spans_singleton : Spans [t.word] (t :: rest) rest :=
  ⟨[t], rfl, rfl⟩

/-- A prompt rule goes on promptly behind a closing parenthesis if there it is complete. -/
theorem isPrompt_closed {first language : List Word → Prop} (prompt : m.IsPrompt first ts)
    (others : ∀ a rest, m ts = (.ok a, rest) → ∃ us, Spans us ts rest ∧ first us)
    (within : ∀ us, first us → language (us ++ [.symbol .rparen]))
    (closes : ∀ a rest (empty : List Word → Prop), empty [] → (close a).IsPrompt empty rest) :
    (m.closed close).IsPrompt language ts := by
  have possible : Begins (· = [.symbol .rparen]) [] :=
    begins_nil [⟨.rparen, ")", 0⟩] (by decide) rfl
  refine isPrompt_followed prompt (fun a rest took => ?_) possible fun us vs given same =>
    same ▸ within us given
  obtain ⟨us, spans, given⟩ := others a rest took
  refine ⟨us, spans, given, isPrompt_andThen (isPrompt_expect possible) fun r after paren => ?_⟩
  obtain ⟨rfl, closing⟩ := eq_of_expect paren
  have word : r.word = .symbol .rparen := (word_eq_symbol (by decide)).mpr closing
  exact ⟨[r.word], spans_singleton, closes a after _ (by rw [word]; rfl)⟩

end

/-! ## The rules of the parser -/

theorem ofRule_term : ofRule term =
    (Reader.expect .name).andThen fun n =>
      ifNext .lparen
        ((ofRule terms).closed fun args => Reader.named .function n.text (.app n.text args))
        (Reader.named .variable n.text (.var n.text)) := by
  funext ts
  rw [ofRule, term]
  refine seen_andThen seen_expect fun n rest _ => ?_
  split
  next inside _ taken =>
    rw [ifNext_of_some taken]
    refine seen_andThen seen_widen fun args after _ => ?_
    exact seen_andThen (seen_widen.trans seen_expect) fun _ final _ => seen_named
  next declined =>
    rw [ifNext_of_none declined]
    exact seen_named

theorem ofRule_terms : ofRule terms =
    (ofRule term).andThen fun t => (ofRule moreTerms).andThen fun others => done (t :: others) := by
  funext ts
  rw [ofRule, terms]
  exact seen_andThen rfl fun t rest _ => seen_andThen seen_widen fun others after _ => rfl

theorem ofRule_moreTerms : ofRule moreTerms =
    ifNext .comma
      ((ofRule term).andThen fun t => (ofRule moreTerms).andThen fun others => done (t :: others))
      (done []) := by
  funext ts
  rw [ofRule, moreTerms]
  split
  next inside _ taken =>
    rw [ifNext_of_some taken, seen_widen]
    exact seen_andThen seen_widen fun t rest _ => seen_andThen seen_widen fun others after _ => rfl
  next declined =>
    rw [ifNext_of_none declined]
    rfl

theorem ofRule_boundName : ofRule boundName =
    (Reader.expect .name).andThen fun n => Reader.named .variable n.text n.text := by
  funext ts
  rw [ofRule, boundName]
  exact seen_andThen seen_expect fun n rest _ => seen_named

theorem ofRule_moreBoundNames : ofRule moreBoundNames =
    ifNext .comma
      ((ofRule boundName).andThen fun x =>
        (ofRule moreBoundNames).andThen fun others => done (x :: others))
      (done []) := by
  funext ts
  rw [ofRule, moreBoundNames]
  split
  next inside _ taken =>
    rw [ifNext_of_some taken, seen_widen]
    exact seen_andThen seen_widen fun x rest _ => seen_andThen seen_widen fun others after _ => rfl
  next declined =>
    rw [ifNext_of_none declined]
    rfl

theorem ofRule_boundNames : ofRule boundNames =
    (ofRule boundName).andThen fun x =>
      (ofRule moreBoundNames).andThen fun others => done (x :: others) := by
  funext ts
  rw [ofRule, boundNames]
  exact seen_andThen rfl fun x rest _ => seen_andThen seen_widen fun others after _ => rfl

theorem ofRule_binary (op : Connective) : ofRule (binary op) =
    (ofRule (operand op)).andThen fun f => ofRule (operands op f) := by
  funext ts
  rw [ofRule, binary]
  exact seen_andThen rfl fun f rest _ => seen_widen

theorem ofRule_operand (op : Connective) : ofRule (operand op) = ofRule (level op.tighter?) :=
  congrArg ofRule (funext (operand_eq op))

theorem ofRule_operands (op : Connective) (left : Formula) : ofRule (operands op left) =
    ifNext op.token
      ((ofRule (operand op)).andThen fun right => ofRule (operands op (op.join left right)))
      (done left) := by
  funext ts
  rw [ofRule, operands]
  split
  next inside _ taken =>
    rw [ifNext_of_some taken, seen_widen]
    exact seen_andThen seen_widen fun right rest _ => seen_widen
  next declined =>
    rw [ifNext_of_none declined]
    rfl

theorem ofRule_unary : ofRule unary =
    peek fun
      | none => failed .incomplete
      | some _ =>
          ifNext .neg ((ofRule unary).andThen fun f => done (.neg f)) <|
            ifNext .all (ofRule (quantified .all)) <|
              ifNext .ex (ofRule (quantified .ex)) (ofRule atomic) := by
  funext ts
  cases ts with
  | nil =>
      rw [ofRule, unary]
      rfl
  | cons t rest =>
      rw [ofRule, unary]
      simp only [peek, List.head?_cons, ifNext_cons]
      split
      next negation =>
        rw [if_pos negation]
        exact seen_andThen seen_widen fun f after _ => rfl
      next universal =>
        rw [universal, if_neg (by decide), if_pos rfl]
        exact seen_widen
      next existential =>
        rw [existential, if_neg (by decide), if_neg (by decide), if_pos rfl]
        exact seen_widen
      next positive notAll notEx =>
        rw [if_neg positive, if_neg notAll, if_neg notEx]
        rfl

theorem ofRule_quantified (q : Quantifier) : ofRule (quantified q) =
    (ofRule boundNames).andThen fun xs =>
      let scope := (ofRule unary).andThen fun f => done (xs.foldr (Formula.quant q) f)
      ifNext .dot scope (ifNext .colon scope scope) := by
  funext ts
  rw [ofRule, quantified]
  refine seen_andThen rfl fun xs rest _ => ?_
  rw [ifNext_separator]
  exact seen_andThen seen_widen fun f after _ => rfl

theorem ofRule_atomic : ofRule atomic =
    ifNext .lparen ((ofRule (binary .iff)).closed done)
      ((Reader.expect .name).andThen fun n =>
        ifNext .lparen
          ((ofRule terms).closed fun args => Reader.named .predicate n.text (.atom ⟨n.text, args⟩))
          (if startsUpper n.text then done (.atom ⟨n.text, []⟩) else failed (.ofBareName n.text))) := by
  funext ts
  rw [ofRule, atomic]
  split
  next inside _ taken =>
    rw [ifNext_of_some taken]
    refine seen_andThen seen_widen fun f after _ => ?_
    exact seen_andThen (seen_widen.trans seen_expect) fun _ final _ => rfl
  next declined =>
    rw [ifNext_of_none declined]
    refine seen_andThen seen_expect fun n rest _ => ?_
    split
    next inside _ taken =>
      rw [ifNext_of_some taken]
      refine seen_andThen seen_widen fun args after _ => ?_
      exact seen_andThen (seen_widen.trans seen_expect) fun _ final _ => seen_named
    next declined =>
      rw [ifNext_of_none declined]
      split <;> rfl

theorem ofRule_formula : ofRule formula =
    (ofRule (binary .iff)).andThen fun f =>
      peek fun
        | none => done f
        | some t => failed (.leftover t) := by
  funext ts
  rw [ofRule, formula]
  refine seen_andThen rfl fun f rest _ => ?_
  cases rest <;> rfl

end LookAheadLemmas

end Clausal
