import Clausal.Proofs.Recognition

/-!
# Errors of the parser

Names of the lexer are not empty, so that of the errors of the parser those about names without text
do not occur. Each rule hands on what is left of its tokens, and their names are names of the lexer
again.

* `ParseError.IsSyntactic`: the errors about the grammar.
* `RefusalLemmas.isOrdinary_terms`, `RefusalLemmas.isOrdinary_formulas`: the rules fail with no
  other error.
* `RefusalLemmas.isSyntactic_of_ofTokens`: nor does reading a formula.
-/

namespace Clausal

/-- An error about tokens that do not follow the grammar, and not about a name without text. -/
def ParseError.IsSyntactic : ParseError → Prop
  | .expected _ _ | .incomplete | .bareName _ | .leftover _ => True
  | .emptyName _ | .noFirstLetter => False

/-- If the rule fails, it does so with an error about the grammar. -/
def Outcome.IsOrdinary {α : Type} {n : Nat} (o : Outcome α n) : Prop :=
  ∀ e, o.result = .error e → e.IsSyntactic

namespace RefusalLemmas

open Clausal.Parser RuleLemmas RecognitionLemmas

/-! ## Outcomes -/

section
variable {α β : Type} {m n : Nat} {a : α} {ts rest : List Token}

theorem isOrdinary_done {shorter : rest.length < n} : (Outcome.done a rest shorter).IsOrdinary :=
  nofun

theorem isOrdinary_failed {e : ParseError} {within : rest.length ≤ n} (syntactic : e.IsSyntactic) :
    (Outcome.failed e rest within : Outcome α n).IsOrdinary := by
  rintro _ ⟨⟩
  exact syntactic

theorem isOrdinary_widen {o : Outcome α m} {larger : m ≤ n} (ordinary : o.IsOrdinary) :
    (o.widen larger).IsOrdinary := by
  cases o <;> exact ordinary

theorem isOrdinary_andThen {o : Outcome α n}
    {next : α → (rest : List Token) → rest.length < n → Outcome β n} (ordinary : o.IsOrdinary)
    (others : ∀ a rest (given : o.Gives a rest),
      (next a rest (length_lt_of_gives given)).IsOrdinary) : (o.andThen next).IsOrdinary := by
  cases o with
  | done a rest shorter => exact others a rest ⟨rfl, rfl⟩
  | failed e rest within => exact isOrdinary_failed (ordinary e rfl)

theorem isOrdinary_named {role : NameRole} {name : String} {shorter : rest.length < n}
    (nonempty : name ≠ "") : (Outcome.named role name a rest shorter).IsOrdinary := by
  rw [Outcome.named, if_neg (nonempty ∘ String.isEmpty_iff.mp)]
  exact isOrdinary_done

theorem isOrdinary_expect (kind : TokenKind) : (expect kind ts).IsOrdinary := by
  cases ts with
  | nil => exact isOrdinary_failed trivial
  | cons t rest =>
      rw [expect]
      split
      · exact isOrdinary_done
      · exact isOrdinary_failed trivial

end

/-! ## Rules -/

section
variable {t : Token} {ts rest : List Token}

theorem wellNamed_of_spans {ws : List Grammar.Word} (named : WellNamed ts)
    (spans : Spans ws ts rest) : WellNamed rest := by
  obtain ⟨segment, rfl, _⟩ := spans
  exact fun t member => named t (List.mem_append_right segment member)

theorem wellNamed_of_cons (named : WellNamed (t :: rest)) : WellNamed rest :=
  fun u member => named u (List.mem_cons_of_mem t member)

theorem text_ne_empty (named : WellNamed (t :: rest)) (name : t.kind = .name) : t.text ≠ "" := by
  intro empty
  have isName := named t List.mem_cons_self name
  rw [empty] at isName
  exact absurd isName (by decide)

/-- The rules for terms. -/
theorem isOrdinary_terms :
    (∀ ts, WellNamed ts → (term ts).IsOrdinary) ∧ (∀ ts, WellNamed ts → (terms ts).IsOrdinary) ∧
      ∀ ts, WellNamed ts → (moreTerms ts).IsOrdinary := by
  refine term.mutual_induct (fun ts => WellNamed ts → (term ts).IsOrdinary)
    (fun ts => WellNamed ts → (terms ts).IsOrdinary)
    (fun ts => WellNamed ts → (moreTerms ts).IsOrdinary) ?term ?terms ?next ?stop
  case term =>
    intro ts ih named
    rw [term]
    refine isOrdinary_andThen (isOrdinary_expect .name) fun n after given => ?_
    obtain ⟨rfl, name⟩ := gives_expect.mp given
    have nonempty := text_ne_empty named name
    split
    next inside shorter taken =>
      obtain ⟨l, rfl, opening⟩ := cons_of_accept_eq_some taken
      have inner := wellNamed_of_cons (wellNamed_of_cons named)
      refine isOrdinary_andThen (isOrdinary_widen (ih _ (by simp) inside shorter inner))
        fun _ _ _ => ?_
      exact isOrdinary_andThen (isOrdinary_widen (isOrdinary_expect .rparen)) fun _ _ _ =>
        isOrdinary_named nonempty
    next => exact isOrdinary_named nonempty
  case terms =>
    intro ts ihFirst ihMore named
    rw [terms]
    refine isOrdinary_andThen (ihFirst named) fun t after given => ?_
    obtain ⟨d, spans, _⟩ := derived_terms.1 ts t after given
    have behind := ihMore after (length_lt_of_gives given) (wellNamed_of_spans named spans)
    exact isOrdinary_andThen (isOrdinary_widen behind) fun _ _ _ => isOrdinary_done
  case next =>
    intro ts inside shorter taken ihNext ihMore named
    obtain ⟨c, rfl, comma⟩ := cons_of_accept_eq_some taken
    have inner := wellNamed_of_cons named
    rw [moreTerms, taken]
    refine isOrdinary_widen (isOrdinary_andThen (isOrdinary_widen (ihNext inner))
      fun t after given => ?_)
    have within := length_lt_of_gives given
    obtain ⟨d, spans, _⟩ := derived_terms.1 inside t after (gives_widen.mp given)
    have behind := ihMore after within (wellNamed_of_spans inner spans)
    exact isOrdinary_andThen (isOrdinary_widen behind) fun _ _ _ => isOrdinary_done
  case stop =>
    intro ts declined _
    rw [moreTerms, declined]
    exact isOrdinary_done

theorem isOrdinary_boundName (named : WellNamed ts) : (boundName ts).IsOrdinary := by
  rw [boundName]
  refine isOrdinary_andThen (isOrdinary_expect .name) fun n after given => ?_
  obtain ⟨rfl, name⟩ := gives_expect.mp given
  exact isOrdinary_named (text_ne_empty named name)

theorem isOrdinary_moreBoundNames (named : WellNamed ts) : (moreBoundNames ts).IsOrdinary := by
  induction ts using moreBoundNames.induct with
  | case1 ts inside shorter taken ih =>
      obtain ⟨c, rfl, comma⟩ := cons_of_accept_eq_some taken
      have inner := wellNamed_of_cons named
      rw [moreBoundNames, taken]
      refine isOrdinary_widen (isOrdinary_andThen (isOrdinary_widen (isOrdinary_boundName inner))
        fun x after given => ?_)
      have within := length_lt_of_gives given
      obtain ⟨n, rfl, _⟩ := gives_boundName.mp (gives_widen.mp given)
      have behind := ih after within (wellNamed_of_cons inner)
      exact isOrdinary_andThen (isOrdinary_widen behind) fun _ _ _ => isOrdinary_done
  | case2 ts declined =>
      rw [moreBoundNames, declined]
      exact isOrdinary_done

theorem isOrdinary_boundNames (named : WellNamed ts) : (boundNames ts).IsOrdinary := by
  rw [boundNames]
  refine isOrdinary_andThen (isOrdinary_boundName named) fun x after given => ?_
  obtain ⟨n, rfl, _⟩ := gives_boundName.mp given
  have behind := isOrdinary_moreBoundNames (wellNamed_of_cons named)
  exact isOrdinary_andThen (isOrdinary_widen behind) fun _ _ _ => isOrdinary_done

/-- The rules for formulas. -/
theorem isOrdinary_formulas :
    (∀ op ts, WellNamed ts → (binary op ts).IsOrdinary) ∧
      (∀ op left ts, WellNamed ts → (operands op left ts).IsOrdinary) ∧
      (∀ op ts, WellNamed ts → (operand op ts).IsOrdinary) ∧
      (∀ ts, WellNamed ts → (unary ts).IsOrdinary) ∧
      (∀ ts, WellNamed ts → (atomic ts).IsOrdinary) ∧
      ∀ q ts, WellNamed ts → (quantified q ts).IsOrdinary := by
  refine binary.mutual_induct (fun op ts => WellNamed ts → (binary op ts).IsOrdinary)
    (fun op left ts => WellNamed ts → (operands op left ts).IsOrdinary)
    (fun op ts => WellNamed ts → (operand op ts).IsOrdinary)
    (fun ts => WellNamed ts → (unary ts).IsOrdinary)
    (fun ts => WellNamed ts → (atomic ts).IsOrdinary)
    (fun q ts => WellNamed ts → (quantified q ts).IsOrdinary)
    ?binary ?next ?stop ?tighter ?tightest ?incomplete ?negation ?universal ?existential ?atomic
    ?paren ?named ?quantified
  case binary =>
    intro op ts ihFirst ihMore named
    rw [binary]
    refine isOrdinary_andThen (ihFirst named) fun f after given => ?_
    obtain ⟨d, spans, _⟩ := derived_formulas.2.2.1 op ts f after given
    have behind := wellNamed_of_spans named spans
    exact isOrdinary_widen (ihMore f after (length_lt_of_gives given) behind)
  case next =>
    intro op left ts inside shorter taken ihNext ihMore named
    obtain ⟨t, rfl, joint⟩ := cons_of_accept_eq_some taken
    have inner := wellNamed_of_cons named
    rw [operands, taken]
    refine isOrdinary_widen (isOrdinary_andThen (isOrdinary_widen (ihNext inner))
      fun f after given => ?_)
    have within := length_lt_of_gives given
    obtain ⟨d, spans, _⟩ := derived_formulas.2.2.1 op inside f after (gives_widen.mp given)
    exact isOrdinary_widen (ihMore f after within (wellNamed_of_spans inner spans))
  case stop =>
    intro op left ts declined _
    rw [operands, declined]
    exact isOrdinary_done
  case tighter =>
    intro op ts next below ih named
    rw [operand_eq, below]
    exact ih named
  case tightest =>
    intro op ts below ih named
    rw [operand_eq, below]
    exact ih named
  case incomplete =>
    intro _
    rw [unary]
    exact isOrdinary_failed trivial
  case negation =>
    intro t ts negation ih named
    rw [unary, negation]
    exact isOrdinary_andThen (isOrdinary_widen (ih (wellNamed_of_cons named))) fun _ _ _ =>
      isOrdinary_done
  case universal =>
    intro t ts universal ih named
    rw [unary, universal]
    exact isOrdinary_widen (ih (wellNamed_of_cons named))
  case existential =>
    intro t ts existential ih named
    rw [unary, existential]
    exact isOrdinary_widen (ih (wellNamed_of_cons named))
  case atomic =>
    intro t ts positive notAll notEx ih named
    rw [unary_eq_atomic positive fun q => by cases q <;> assumption]
    exact ih named
  case paren =>
    intro ts inside shorter taken ih named
    obtain ⟨l, rfl, opening⟩ := cons_of_accept_eq_some taken
    rw [atomic, taken]
    refine isOrdinary_andThen (isOrdinary_widen (ih (wellNamed_of_cons named))) fun _ _ _ => ?_
    exact isOrdinary_andThen (isOrdinary_widen (isOrdinary_expect .rparen)) fun _ _ _ =>
      isOrdinary_done
  case named =>
    intro ts declined named
    rw [atomic, declined]
    refine isOrdinary_andThen (isOrdinary_expect .name) fun n after given => ?_
    obtain ⟨rfl, name⟩ := gives_expect.mp given
    have nonempty := text_ne_empty named name
    split
    next inside _ taken =>
      obtain ⟨l, rfl, opening⟩ := cons_of_accept_eq_some taken
      have inner := wellNamed_of_cons (wellNamed_of_cons named)
      refine isOrdinary_andThen (isOrdinary_widen (isOrdinary_terms.2.1 inside inner))
        fun _ _ _ => ?_
      exact isOrdinary_andThen (isOrdinary_widen (isOrdinary_expect .rparen)) fun _ _ _ =>
        isOrdinary_named nonempty
    next =>
      split
      · exact isOrdinary_done
      · have bare : ParseError.ofBareName n.text = .bareName n.text :=
          if_neg (nonempty ∘ String.isEmpty_iff.mp)
        exact isOrdinary_failed (bare ▸ trivial)
  case quantified =>
    intro q ts ih named
    rw [quantified]
    refine isOrdinary_andThen (isOrdinary_boundNames named) fun xs after given => ?_
    obtain ⟨x, others, _, spans⟩ := spans_boundNames given
    obtain ⟨s, separated⟩ := spans_skipSeparator after
    have scope := wellNamed_of_spans (wellNamed_of_spans named spans) separated
    have read := ih after (length_lt_of_gives given) _ (skipSeparator after).2 scope
    exact isOrdinary_andThen (isOrdinary_widen read) fun _ _ _ => isOrdinary_done

/-- Well-named tokens that are not read as a formula fail with an error about the grammar. -/
theorem isSyntactic_of_ofTokens {e : ReadError} (named : WellNamed ts)
    (failed : Formula.ofTokens ts = .error e) : ∃ e', e = .syntactic e' ∧ e'.IsSyntactic := by
  have ordinary : (formula ts).IsOrdinary := by
    rw [formula]
    refine isOrdinary_andThen (isOrdinary_formulas.1 .iff ts named) fun f after given => ?_
    cases after with
    | nil => exact isOrdinary_done
    | cons t more => exact isOrdinary_failed trivial
  rw [Formula.ofTokens] at failed
  cases result : (formula ts).result with
  | ok f =>
      rw [result] at failed
      cases failed
  | error e' =>
      rw [result] at failed
      exact ⟨e', (Except.error.inj failed).symm, ordinary e' result⟩

end

end RefusalLemmas

end Clausal
