import Clausal.Formula.Grammar

/-!
# Derivations are unique

A phrase ends where the next word cannot continue it, and where it ends is seen from this word
alone. So no two derivations from a phrase start at the same word, unless they are equal.

* `Phrase.continuing` lists the kinds of symbols that may continue a phrase; `Phrase.Ends` says that
  the words after a phrase do not.
* `DerivationLemmas.eq_of_words_append_eq`: of two derivations at the front of a list of words.
* `DerivationLemmas.eq_of_words_eq`: of two derivations of the same words.
-/

namespace Clausal

/-- The symbols of a connective and of those that bind more tightly. -/
def Connective.tokens : Connective → List TokenKind
  | .iff => [.iff, .imp, .disj, .conj]
  | .imp => [.imp, .disj, .conj]
  | .disj => [.disj, .conj]
  | .conj => [.conj]

namespace Grammar

/-- The symbols that may continue a phrase after it could end. An opening parenthesis makes a call
of a name. -/
def Phrase.continuing : Phrase → List TokenKind
  | .term | .atomic | .formula none => [.lparen]
  | .terms | .moreTerms => [.lparen, .comma]
  | .formula (some op) | .operands op => .lparen :: op.tokens

/-- What comes after a phrase does not continue it. -/
def Phrase.Ends (p : Phrase) (after : List Word) : Prop :=
  ∀ kind ∈ p.continuing, after.head? ≠ some (.symbol kind)

namespace DerivationLemmas

open Grammar.Derivation

/-! ## Where phrases end -/

section
variable {p r : Phrase} {w : Word} {ws after : List Word}

theorem ends_cons : p.Ends (w :: ws) ↔ ∀ kind ∈ p.continuing, w ≠ .symbol kind := by
  simp [Phrase.Ends]

theorem Ends.mono (ends : p.Ends after) (fewer : r.continuing ⊆ p.continuing) : r.Ends after :=
  fun kind member => ends kind (fewer member)

theorem not_ends {kind : TokenKind} (member : kind ∈ p.continuing) :
    ¬ p.Ends (.symbol kind :: ws) :=
  fun ends => ends_cons.mp ends kind member rfl

/-- A closing parenthesis continues no phrase. -/
theorem ends_rparen (p : Phrase) (ws : List Word) : p.Ends (.symbol .rparen :: ws) := by
  rw [ends_cons]
  match p with
  | .term | .terms | .moreTerms | .atomic | .formula none => simp [Phrase.continuing]
  | .formula (some op) | .operands op => cases op <;> simp [Phrase.continuing, Connective.tokens]

/-- A term ends where further terms may follow. -/
theorem ends_term_append (more : Derivation .moreTerms) (ends : Phrase.Ends .moreTerms after) :
    Phrase.Ends .term (more.words ++ after) := by
  cases more with
  | noTerm => exact Ends.mono ends (by simp [Phrase.continuing])
  | nextTerm next more =>
      rw [words, List.cons_append, ends_cons]
      simp [Phrase.continuing]

/-- The symbol of a connective does not continue its operands. -/
theorem ends_operand_append {op : Connective} (more : Derivation (.operands op))
    (ends : Phrase.Ends (.operands op) after) :
    Phrase.Ends (.formula op.tighter?) (more.words ++ after) := by
  cases more with
  | noOperand =>
      refine Ends.mono ends ?_
      cases op <;> simp [Phrase.continuing, Connective.tokens, Connective.tighter?]
  | nextOperand next more =>
      rw [words, List.cons_append, ends_cons]
      cases op <;>
        simp [Phrase.continuing, Connective.tokens, Connective.token, Connective.tighter?]

theorem token_mem_continuing (op : Connective) : op.token ∈ (Phrase.operands op).continuing := by
  cases op <;> simp [Phrase.continuing, Connective.tokens, Connective.token]

/-- The words that an atomic formula can start with. -/
theorem head_atomic (d : Derivation .atomic) :
    ∃ w ws, d.words = w :: ws ∧ (w = .symbol .lparen ∨ ∃ x, w = .name x) := by
  cases d with
  | paren f => exact ⟨_, _, rfl, .inl rfl⟩
  | call p args => exact ⟨_, _, rfl, .inr ⟨p, rfl⟩⟩
  | bare p upper => exact ⟨_, _, rfl, .inr ⟨p, rfl⟩⟩

theorem atomic_append_ne (f : Derivation .atomic) {kind : TokenKind} (other : kind ≠ .lparen)
    {us vs : List Word} : f.words ++ us ≠ .symbol kind :: vs := by
  obtain ⟨w, ws, starts, start⟩ := head_atomic f
  rw [starts]
  rcases start with rfl | ⟨x, rfl⟩ <;> simp [other.symm]

/-- A unary formula does not start with a punctuation mark. -/
theorem head_unary (d : Derivation (.formula none)) :
    ∃ w ws, d.words = w :: ws ∧ w ∉ [.symbol .comma, .symbol .dot, .symbol .colon] := by
  cases d with
  | negation scope => exact ⟨_, _, rfl, by simp⟩
  | quantified q x others separator scope =>
      exact ⟨_, _, rfl, by cases q <;> simp [Quantifier.token]⟩
  | atomic f =>
      obtain ⟨w, ws, same, start⟩ := head_atomic f
      refine ⟨w, ws, same, ?_⟩
      rcases start with rfl | ⟨x, rfl⟩ <;> simp

end

/-! ## Uniqueness -/

theorem quantifier_token_injective {q q' : Quantifier} (same : q.token = q'.token) : q = q' := by
  cases q <;> cases q' <;> simp_all [Quantifier.token]

theorem quantifier_token_ne_lparen (q : Quantifier) : q.token ≠ .lparen := by
  cases q <;> decide

/-- A list of names ends where no comma follows. -/
theorem eq_of_moreNames_append_eq {xs ys : List String} {us vs : List Word}
    (same : moreNames xs ++ us = moreNames ys ++ vs) (endsX : us.head? ≠ some (.symbol .comma))
    (endsY : vs.head? ≠ some (.symbol .comma)) : xs = ys ∧ us = vs := by
  induction xs generalizing ys with
  | nil =>
      cases ys with
      | nil => exact ⟨rfl, same⟩
      | cons y ys => exact absurd (congrArg List.head? same) endsX
  | cons x xs ih =>
      cases ys with
      | nil => exact absurd (congrArg List.head? same).symm endsY
      | cons y ys =>
          simp only [moreNames, List.flatMap_cons, List.cons_append, List.nil_append,
            List.cons.injEq, Word.name.injEq, true_and] at same
          obtain ⟨rfl, same⟩ := same
          obtain ⟨rfl, rfl⟩ := ih same
          exact ⟨rfl, rfl⟩

/-- No comma stands between the variables of a quantifier and its scope. -/
theorem head_separator_append (s : Separator) (d : Derivation (.formula none)) {us : List Word} :
    (s.words ++ (d.words ++ us)).head? ≠ some (.symbol .comma) := by
  obtain ⟨w, ws, start, plain⟩ := head_unary d
  rw [start]
  cases s <;> simp_all [Separator.words]

/-- A separator is seen from the word that comes next. -/
theorem eq_of_separator_append_eq {s s' : Separator} {d d' : Derivation (.formula none)}
    {us vs : List Word} (same : s.words ++ (d.words ++ us) = s'.words ++ (d'.words ++ vs)) :
    s = s' ∧ d.words ++ us = d'.words ++ vs := by
  obtain ⟨w, ws, start, plain⟩ := head_unary d
  obtain ⟨w', ws', start', plain'⟩ := head_unary d'
  rw [start, start'] at same ⊢
  cases s <;> cases s' <;> simp_all [Separator.words]

/-- Of two derivations from a phrase at the front of a list of words, both ending where the phrase
ends, neither is longer. The induction is on the first derivation; the next word tells how the
second one was made. -/
theorem eq_of_words_append_eq {p : Phrase} {d d' : Derivation p} {us vs : List Word}
    (same : d.words ++ us = d'.words ++ vs) (ends : p.Ends us) (ends' : p.Ends vs) :
    d = d' ∧ us = vs := by
  induction d generalizing us vs with
  | var x =>
      cases d' with
      | var y => simpa [words] using same
      | app g args =>
          obtain ⟨_, rfl⟩ := List.cons.inj same
          exact absurd ends (not_ends (by simp [Phrase.continuing]))
  | app f args ih =>
      cases d' with
      -- A variable would end before a parenthesis, but no term ends there.
      | var y =>
          obtain ⟨_, rfl⟩ := List.cons.inj same
          exact absurd ends' (not_ends (by simp [Phrase.continuing]))
      | app g args' =>
          simp only [words, List.cons_append, List.append_assoc, List.nil_append, List.cons.injEq,
            Word.name.injEq, true_and] at same
          obtain ⟨rfl, same⟩ := same
          obtain ⟨rfl, after⟩ := ih same (ends_rparen _ _) (ends_rparen _ _)
          exact ⟨rfl, (List.cons.inj after).2⟩
  | terms first more ihFirst ihMore =>
      cases d' with
      | terms first' more' =>
          simp only [words, List.append_assoc] at same
          obtain ⟨rfl, behind⟩ :=
            ihFirst same (ends_term_append more ends) (ends_term_append more' ends')
          obtain ⟨rfl, rfl⟩ := ihMore behind ends ends'
          exact ⟨rfl, rfl⟩
  | noTerm =>
      cases d' with
      | noTerm => exact ⟨rfl, same⟩
      | nextTerm next more =>
          obtain rfl : us = _ := same
          exact absurd ends (not_ends (by simp [Phrase.continuing]))
  | nextTerm next more ihNext ihMore =>
      cases d' with
      | noTerm =>
          obtain rfl : vs = _ := same.symm
          exact absurd ends' (not_ends (by simp [Phrase.continuing]))
      | nextTerm next' more' =>
          simp only [words, List.cons_append, List.append_assoc, List.cons.injEq, true_and] at same
          obtain ⟨rfl, behind⟩ :=
            ihNext same (ends_term_append more ends) (ends_term_append more' ends')
          obtain ⟨rfl, rfl⟩ := ihMore behind ends ends'
          exact ⟨rfl, rfl⟩
  | joined first more ihFirst ihMore =>
      cases d' with
      | joined first' more' =>
          simp only [words, List.append_assoc] at same
          obtain ⟨rfl, behind⟩ :=
            ihFirst same (ends_operand_append more ends) (ends_operand_append more' ends')
          obtain ⟨rfl, rfl⟩ := ihMore behind ends ends'
          exact ⟨rfl, rfl⟩
  | @noOperand op =>
      cases d' with
      | noOperand => exact ⟨rfl, same⟩
      | nextOperand next more =>
          obtain rfl : us = _ := same
          exact absurd ends (not_ends (token_mem_continuing op))
  | @nextOperand op next more ihNext ihMore =>
      cases d' with
      | noOperand =>
          obtain rfl : vs = _ := same.symm
          exact absurd ends' (not_ends (token_mem_continuing op))
      | nextOperand next' more' =>
          simp only [words, List.cons_append, List.append_assoc, List.cons.injEq, true_and] at same
          obtain ⟨rfl, behind⟩ :=
            ihNext same (ends_operand_append more ends) (ends_operand_append more' ends')
          obtain ⟨rfl, rfl⟩ := ihMore behind ends ends'
          exact ⟨rfl, rfl⟩
  | negation scope ih =>
      cases d' with
      | negation scope' =>
          obtain ⟨rfl, after⟩ := ih (List.cons.inj same).2 ends ends'
          exact ⟨rfl, after⟩
      | quantified q x others separator scope' =>
          cases q <;> simp [words, Quantifier.token] at same
      | atomic f => exact absurd same.symm (atomic_append_ne f (by decide))
  | quantified q x others separator scope ih =>
      cases d' with
      | negation scope' => cases q <;> simp [words, Quantifier.token] at same
      | quantified q' x' others' separator' scope' =>
          simp only [words, List.cons_append, List.append_assoc, List.cons.injEq,
            Word.symbol.injEq, Word.name.injEq] at same
          obtain ⟨token, rfl, same⟩ := same
          obtain rfl := quantifier_token_injective token
          obtain ⟨rfl, behind⟩ := eq_of_moreNames_append_eq same
            (head_separator_append separator scope) (head_separator_append separator' scope')
          obtain ⟨rfl, scopes⟩ := eq_of_separator_append_eq behind
          obtain ⟨rfl, rfl⟩ := ih scopes ends ends'
          exact ⟨rfl, rfl⟩
      | atomic f => exact absurd same.symm (atomic_append_ne f (quantifier_token_ne_lparen q))
  | atomic f ih =>
      cases d' with
      | negation scope' => exact absurd same (atomic_append_ne f (by decide))
      | quantified q x others separator scope' =>
          exact absurd same (atomic_append_ne f (quantifier_token_ne_lparen q))
      | atomic f' =>
          obtain ⟨rfl, after⟩ := ih same ends ends'
          exact ⟨rfl, after⟩
  | paren f ih =>
      cases d' with
      | paren f' =>
          simp only [words, List.cons_append, List.append_assoc, List.nil_append, List.cons.injEq,
            true_and] at same
          obtain ⟨rfl, after⟩ := ih same (ends_rparen _ _) (ends_rparen _ _)
          exact ⟨rfl, (List.cons.inj after).2⟩
      | call p args => simp [words] at same
      | bare p upper => simp [words] at same
  | call p args ih =>
      cases d' with
      | paren f => simp [words] at same
      | call p' args' =>
          simp only [words, List.cons_append, List.append_assoc, List.nil_append, List.cons.injEq,
            Word.name.injEq, true_and] at same
          obtain ⟨rfl, same⟩ := same
          obtain ⟨rfl, after⟩ := ih same (ends_rparen _ _) (ends_rparen _ _)
          exact ⟨rfl, (List.cons.inj after).2⟩
      | bare p' upper =>
          obtain ⟨_, rfl⟩ := List.cons.inj same
          exact absurd ends' (not_ends (by simp [Phrase.continuing]))
  | bare p upper =>
      cases d' with
      | paren f => simp [words] at same
      | call p' args' =>
          obtain ⟨_, rfl⟩ := List.cons.inj same
          exact absurd ends (not_ends (by simp [Phrase.continuing]))
      | bare p' upper' =>
          simp only [words, List.cons_append, List.nil_append, List.cons.injEq,
            Word.name.injEq] at same
          obtain ⟨rfl, after⟩ := same
          exact ⟨rfl, after⟩

/-- No words have two derivations from a phrase. -/
theorem eq_of_words_eq {p : Phrase} {d d' : Derivation p} (same : d.words = d'.words) : d = d' := by
  have nothing : p.Ends [] := fun _ _ => nofun
  have appended : d.words ++ [] = d'.words ++ [] := by rw [same]
  exact (eq_of_words_append_eq appended nothing nothing).1

end DerivationLemmas

end Grammar

end Clausal
