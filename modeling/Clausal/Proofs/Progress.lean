import Mathlib.Order.Nat
import Clausal.Formula.Descent
import Clausal.Proofs.LookAhead

/-!
# Progress of the parser

Routines that share an index are compared with the readers that the parser is made of, which hand on the
tokens that are left. From an index `i` within the tokens, a routine that follows a reader ends with the
reader's value or error. The tokens that the reader leaves begin at the index that the routine leaves,
also after an error.

Two things bound the limit that a routine needs. A phrase that has been read has taken a token, so that
whatever comes after it has fewer tokens left. Before a token is taken, only the routines of tighter
and tighter levels call one another: `rank` counts them. Seven for each token left and six for the
levels are enough, whatever the tokens are.

* `Routine.Follows`, with a lemma for each way to put routines together.
* `ProgressLemmas.follows_terms`, `ProgressLemmas.follows_formulas`: the routines for phrases.
* `ProgressLemmas.exists_answer`, `ProgressLemmas.exists_after`: one request, and several.
* `requests_advance_index`: requests end, and the index goes on within the tokens.
-/

namespace Clausal

/-- From index `i` the routine does what the reader does with the tokens from there on: it has the same
value or error, and leaves the index before the tokens that the reader leaves. -/
def Routine.Follows {α : Type} (m : Routine α) (r : Reader α) (ts : List Token) (i : Nat) : Prop :=
  ∃ j, i ≤ j ∧ j ≤ ts.length ∧ (r (ts.drop i)).2 = ts.drop j ∧
    m.runFrom i = some ((r (ts.drop i)).1, j)

/-- The reader that answers a request. -/
def Reader.ofRequest : Cursor.Request → Reader Cursor.Reply
  | .peek => Reader.peek fun t => done (.token t)
  | .accept kind => ifNext kind (done (.accepted true)) (done (.accepted false))
  | .expect kind => (Reader.expect kind).andThen fun t => done (.token (some t))
  | .formula => (ofRule Parser.formula).andThen fun f => done (.formula f)
  | .unary => (ofRule Parser.unary).andThen fun f => done (.formula f)
  | .atomic => (ofRule Parser.atomic).andThen fun f => done (.formula f)
  | .term => (ofRule Parser.term).andThen fun t => done (.term t)
  | .terms => (ofRule Parser.terms).andThen fun us => done (.terms us)
  | .binary op => (ofRule (Parser.binary op)).andThen fun f => done (.formula f)

namespace Cursor

/-- Answers by a reader, and moves to the tokens that it leaves. -/
def readBy (c : Cursor) (r : Reader Reply) : Reply × Cursor :=
  (.ofResult (r c.remaining).1, c.moveTo (r c.remaining).2)

/-- The cursor after requests made one after the other. -/
def after (c : Cursor) (requests : List Request) : Cursor :=
  requests.foldl (fun c request => (c.answer request).2) c

end Cursor

namespace ProgressLemmas

open Routine

/-! ## How routines follow readers -/

section
variable {α β : Type} {m : Routine α} {next : α → Routine β} {r r' : Reader α} {next' : α → Reader β}
  {ts : List Token} {i : Nat}

theorem runFrom_bind :
    (m >>= next).runFrom i = (m.runFrom i).bind fun
      | (.ok a, j) => (next a).runFrom j
      | (.error e, j) => some (.error e, j) := by
  change ((m.runFrom i).bind fun p => ExceptT.bindCont next p.1 p.2) = _
  refine congrArg _ (funext ?_)
  rintro ⟨_ | _, j⟩ <;> rfl

theorem follows_pure {a : α} (within : i ≤ ts.length) : (pure a : Routine α).Follows (.done a) ts i :=
  ⟨i, le_rfl, within, rfl, rfl⟩

theorem follows_throw {e : ParseError} (within : i ≤ ts.length) :
    (throw e : Routine α).Follows (.failed e) ts i :=
  ⟨i, le_rfl, within, rfl, rfl⟩

theorem follows_bind (first : m.Follows r ts i)
    (others : ∀ a j, i ≤ j → j ≤ ts.length → r (ts.drop i) = (.ok a, ts.drop j) →
      (next a).Follows (next' a) ts j) : (m >>= next).Follows (r.andThen next') ts i := by
  obtain ⟨j, onward, within, left, does⟩ := first
  rw [Follows, runFrom_bind, does, Reader.andThen]
  cases took : r (ts.drop i) with
  | mk result rest =>
      rw [took] at left
      obtain rfl : rest = ts.drop j := left
      cases result with
      | error e => exact ⟨j, onward, within, rfl, rfl⟩
      | ok a =>
          obtain ⟨k, further, within, left, does⟩ := others a j onward within took
          exact ⟨k, onward.trans further, within, left, does⟩

theorem follows_map {say : α → β} (follows : m.Follows r ts i) :
    (m >>= fun a => pure (say a)).Follows (r.andThen fun a => .done (say a)) ts i :=
  follows_bind follows fun _ _ _ within _ => follows_pure within

theorem follows_peek {choose : Option Token → Routine α} {choose' : Option Token → Reader α}
    (chosen : (choose ts[i]?).Follows (choose' ts[i]?) ts i) :
    (Descent.peek ts >>= choose).Follows (Reader.peek choose') ts i := by
  rw [Follows, runFrom_bind, Reader.peek, List.head?_drop]
  exact chosen

theorem follows_skip {m : Routine α} (follows : m.Follows r ts (i + 1)) :
    (Descent.skip >>= fun _ => m).Follows (Reader.skip r) ts i := by
  obtain ⟨j, onward, within, left, does⟩ := follows
  rw [Follows, runFrom_bind, Reader.skip, List.tail_drop]
  exact ⟨j, Nat.le_of_succ_le onward, within, left, does⟩

theorem lt_length_of_getElem? {t : Token} (here : ts[i]? = some t) : i < ts.length := by
  obtain ⟨inside, _⟩ := List.getElem?_eq_some_iff.mp here
  exact inside

theorem follows_accept {kind : TokenKind} {next : Bool → Routine α} {yes no : Reader α}
    (taken : i < ts.length → (next true).Follows yes ts (i + 1))
    (declined : (next false).Follows no ts i) :
    (Descent.accept ts kind >>= next).Follows (Reader.ifNext kind yes no) ts i := by
  rw [Descent.accept, bind_assoc, Reader.ifNext]
  refine follows_peek ?_
  cases here : ts[i]? with
  | none => exact declined
  | some t =>
      simp only
      split
      · exact follows_skip (taken (lt_length_of_getElem? here))
      · exact declined

/-- A routine that branches on whether a token of some kind comes next. -/
theorem follows_ifNext {kind : TokenKind} {yes no : Routine α} {yes' no' : Reader α}
    (taken : i < ts.length → yes.Follows yes' ts (i + 1)) (declined : no.Follows no' ts i) :
    (Descent.accept ts kind >>= fun found => if found then yes else no).Follows
      (Reader.ifNext kind yes' no') ts i :=
  follows_accept taken declined

theorem follows_congr (same : r (ts.drop i) = r' (ts.drop i)) :
    m.Follows r ts i ↔ m.Follows r' ts i := by
  rw [Follows, Follows, same]

theorem drop_eq_cons {t : Token} (here : ts[i]? = some t) : ts.drop i = t :: ts.drop (i + 1) := by
  obtain ⟨inside, rfl⟩ := List.getElem?_eq_some_iff.mp here
  exact List.drop_eq_getElem_cons inside

/-- The token at the index is of the kind that the reader looks for. -/
theorem follows_of_kind {kind : TokenKind} {t : Token} {yes no : Reader α} (here : ts[i]? = some t)
    (same : t.kind = kind) (follows : m.Follows (Reader.skip yes) ts i) :
    m.Follows (Reader.ifNext kind yes no) ts i := by
  refine (follows_congr ?_).mp follows
  rw [drop_eq_cons here, LookAheadLemmas.ifNext_cons, if_pos same]
  rfl

/-- The token at the index is of another kind. -/
theorem follows_of_ne {kind : TokenKind} {t : Token} {yes no : Reader α} (here : ts[i]? = some t)
    (differ : t.kind ≠ kind) (follows : m.Follows no ts i) :
    m.Follows (Reader.ifNext kind yes no) ts i := by
  refine (follows_congr ?_).mp follows
  rw [drop_eq_cons here, LookAheadLemmas.ifNext_cons, if_neg differ]

theorem follows_expect {kind : TokenKind} (within : i ≤ ts.length) :
    (Descent.expect ts kind).Follows (Reader.expect kind) ts i := by
  rw [Descent.expect, Reader.expect]
  refine follows_peek ?_
  cases here : ts[i]? with
  | none => exact follows_throw within
  | some t =>
      simp only
      split
      · exact follows_skip (follows_pure (lt_length_of_getElem? here))
      · exact follows_throw within

theorem follows_named {role : NameRole} {name : String} {a : α} (within : i ≤ ts.length) :
    (Descent.named role name a).Follows (Reader.named role name a) ts i := by
  rw [Descent.named, Reader.named]
  split
  · exact follows_throw within
  · exact follows_pure within

end

/-! ## Taking tokens -/

section
variable {α : Type} {ts : List Token} {i j : Nat}

theorem lt_of_length_drop (shorter : (ts.drop j).length < (ts.drop i).length) : i < j := by
  rw [List.length_drop, List.length_drop] at shorter
  omega

theorem lt_of_expect {kind : TokenKind} {t : Token}
    (took : Reader.expect kind (ts.drop i) = (.ok t, ts.drop j)) : i < j := by
  obtain ⟨split, _⟩ := LookAheadLemmas.eq_of_expect took
  have shorter : (ts.drop j).length < (ts.drop i).length := by
    rw [split]
    exact Nat.lt_succ_self _
  exact lt_of_length_drop shorter

/-- A rule that succeeds has taken a token. -/
theorem lt_of_ofRule {rule : (ts : List Token) → Outcome α ts.length} {a : α}
    (took : Reader.ofRule rule (ts.drop i) = (.ok a, ts.drop j)) : i < j :=
  lt_of_length_drop (RuleLemmas.length_lt_of_gives (LookAheadLemmas.gives_of_ofRule took))

end

/-! ## The rules of the parser -/

section
variable (ts : List Token)

open LookAheadLemmas Reader in
/-- The routines for terms. A routine needs one more than the routines that it calls before a token is
taken, and the tokens that have been taken pay for those after it. -/
theorem follows_terms (limit : Nat) :
    (∀ i ≤ ts.length, 7 * (ts.length - i) + 1 ≤ limit →
      (Descent.term ts limit).Follows (ofRule Parser.term) ts i) ∧
    (∀ i ≤ ts.length, 7 * (ts.length - i) + 2 ≤ limit →
      (Descent.terms ts limit).Follows (ofRule Parser.terms) ts i) ∧
    ∀ i ≤ ts.length, 7 * (ts.length - i) + 1 ≤ limit →
      (Descent.moreTerms ts limit).Follows (ofRule Parser.moreTerms) ts i := by
  induction limit with
  | zero => exact ⟨by omega, by omega, by omega⟩
  | succ limit ih =>
      obtain ⟨ihTerm, ihTerms, ihMore⟩ := ih
      refine ⟨fun i within enough => ?term, fun i within enough => ?terms, fun i within enough => ?more⟩
      case term =>
        rw [Descent.term, ofRule_term]
        refine follows_bind (follows_expect within) fun n j _ within took => ?_
        have := lt_of_expect took
        refine follows_ifNext (fun inside => ?_) (follows_named within)
        refine follows_bind (ihTerms (j + 1) inside (by omega)) fun args k _ within _ => ?_
        exact follows_bind (follows_expect within) fun _ l _ within _ => follows_named within
      case terms =>
        rw [Descent.terms, ofRule_terms]
        refine follows_bind (ihTerm i within (by omega)) fun first j _ within took => ?_
        have := lt_of_ofRule took
        exact follows_map (ihMore j within (by omega))
      case more =>
        rw [Descent.moreTerms, ofRule_moreTerms]
        refine follows_ifNext (fun inside => ?_) (follows_pure within)
        refine follows_bind (ihTerm (i + 1) inside (by omega)) fun next j _ within took => ?_
        have := lt_of_ofRule took
        exact follows_map (ihMore j within (by omega))

open LookAheadLemmas Reader in
theorem follows_boundName {i : Nat} (within : i ≤ ts.length) :
    (Descent.boundName ts).Follows (ofRule Parser.boundName) ts i := by
  rw [Descent.boundName, ofRule_boundName]
  exact follows_bind (follows_expect within) fun n j _ within _ => follows_named within

open LookAheadLemmas Reader in
theorem follows_moreBoundNames (limit : Nat) : ∀ i ≤ ts.length, 7 * (ts.length - i) + 1 ≤ limit →
    (Descent.moreBoundNames ts limit).Follows (ofRule Parser.moreBoundNames) ts i := by
  induction limit with
  | zero => omega
  | succ limit ih =>
      intro i within enough
      rw [Descent.moreBoundNames, ofRule_moreBoundNames]
      refine follows_ifNext (fun inside => ?_) (follows_pure within)
      refine follows_bind (follows_boundName ts inside) fun x j _ within took => ?_
      have := lt_of_ofRule took
      exact follows_map (ih j within (by omega))

open LookAheadLemmas Reader in
theorem follows_boundNames {limit i : Nat} (within : i ≤ ts.length)
    (enough : 7 * (ts.length - i) ≤ limit) :
    (Descent.boundNames ts limit).Follows (ofRule Parser.boundNames) ts i := by
  rw [Descent.boundNames, ofRule_boundNames]
  refine follows_bind (follows_boundName ts within) fun x j _ within took => ?_
  have := lt_of_ofRule took
  exact follows_map (follows_moreBoundNames ts limit j within (by omega))

/-- What follows the variables of a quantifier starts behind a dot or a colon, or at once. -/
theorem follows_skipSeparator {α : Type} {m : Routine α} {r : Reader α} {i : Nat}
    (within : i ≤ ts.length) (follows : ∀ j, i ≤ j → j ≤ ts.length → m.Follows r ts j) :
    (Descent.skipSeparator ts >>= fun _ => m).Follows
      (Reader.ifNext .dot r (Reader.ifNext .colon r r)) ts i := by
  have here := follows i le_rfl within
  have behind (inside : i < ts.length) := follows (i + 1) (Nat.le_succ i) inside
  rw [Descent.skipSeparator, bind_assoc]
  refine follows_accept behind ?_
  rw [if_neg Bool.false_ne_true, bind_assoc]
  exact follows_accept behind here

open LookAheadLemmas Reader in
theorem follows_quantified (q : Quantifier) {names : Routine (List String)} {scope : Routine Formula}
    {i : Nat} (first : names.Follows (ofRule Parser.boundNames) ts i)
    (inner : ∀ j, i < j → j ≤ ts.length → scope.Follows (ofRule Parser.unary) ts j) :
    (Descent.quantified ts q names scope).Follows (ofRule (Parser.quantified q)) ts i := by
  rw [Descent.quantified, ofRule_quantified]
  refine follows_bind first fun xs j _ within took => ?_
  have := lt_of_ofRule took
  refine follows_skipSeparator ts within fun k later within => ?_
  exact follows_map (inner k (by omega) within)

open LookAheadLemmas Reader in
/-- The routine for unary formulas: the formulas inside start behind a token, and an atomic formula starts
at the index. -/
theorem follows_unary {limit i : Nat} (within : i ≤ ts.length) (enough : 7 * (ts.length - i) ≤ limit + 7)
    (inner : ∀ j, i < j → j ≤ ts.length → (Descent.unary ts limit).Follows (ofRule Parser.unary) ts j)
    (plain : i < ts.length → (Descent.atomic ts limit).Follows (ofRule Parser.atomic) ts i) :
    (Descent.unary ts (limit + 1)).Follows (ofRule Parser.unary) ts i := by
  rw [Descent.unary, ofRule_unary]
  refine follows_peek ?_
  cases here : ts[i]? with
  | none => exact follows_throw within
  | some t =>
      have inside := lt_length_of_getElem? here
      have quantified (q : Quantifier) : (Descent.quantified ts q (Descent.boundNames ts limit)
          (Descent.unary ts limit)).Follows (ofRule (Parser.quantified q)) ts (i + 1) :=
        follows_quantified ts q (follows_boundNames ts inside (by omega))
          fun j later within => inner j (by omega) within
      simp only
      -- The reader looks for the three symbols in this order.
      split
      next negation =>
        refine follows_of_kind here negation (follows_skip ?_)
        exact follows_map (inner (i + 1) (Nat.lt_succ_self i) inside)
      next universal =>
        refine follows_of_ne here (by simp [universal]) ?_
        exact follows_of_kind here universal (follows_skip (quantified .all))
      next existential =>
        refine follows_of_ne here (by simp [existential]) ?_
        refine follows_of_ne here (by simp [existential]) ?_
        exact follows_of_kind here existential (follows_skip (quantified .ex))
      next positive notAll notEx =>
        refine follows_of_ne here positive ?_
        exact follows_of_ne here notAll (follows_of_ne here notEx (plain inside))

open LookAheadLemmas Reader in
/-- The routine for atomic formulas: a formula in parentheses starts behind the first of them. -/
theorem follows_atomic {limit i : Nat} (within : i ≤ ts.length) (enough : 7 * (ts.length - i) ≤ limit + 1)
    (inner : ∀ j, i < j → j ≤ ts.length →
      (Descent.level ts limit (some .iff)).Follows (ofRule (Parser.level (some .iff))) ts j) :
    (Descent.atomic ts (limit + 1)).Follows (ofRule Parser.atomic) ts i := by
  rw [Descent.atomic, ofRule_atomic]
  refine follows_ifNext (fun inside => ?_) ?_
  · refine follows_bind (inner (i + 1) (Nat.lt_succ_self i) inside) fun f j _ within _ => ?_
    exact follows_map (follows_expect within)
  · refine follows_bind (follows_expect within) fun n j _ within took => ?_
    have := lt_of_expect took
    refine follows_ifNext (fun inside => ?_) ?_
    · refine follows_bind ((follows_terms ts limit).2.1 (j + 1) inside (by omega))
        fun args k _ within _ => ?_
      exact follows_bind (follows_expect within) fun _ l _ within _ => follows_named within
    · split
      · exact follows_pure within
      · exact follows_throw within

/-- How many routines may be under way inside one another at one index, from a level on down to the unary
formulas. -/
def rank : Option Connective → Nat
  | none => 2
  | some op => op.height + 2

theorem rank_le (lvl : Option Connective) : rank lvl ≤ 6 := by
  rcases lvl with _ | _ | _ | _ | _ <;> decide

theorem rank_tighter_lt (op : Connective) : rank op.tighter? < rank (some op) := by
  cases op <;> decide

open LookAheadLemmas Reader in
/-- The routines for formulas. Parentheses lead back to the loosest level, whose rank is 6. With the
routine that takes the parenthesis this makes seven, which is what one token pays for. -/
theorem follows_formulas (limit : Nat) :
    (∀ lvl, ∀ i ≤ ts.length, 7 * (ts.length - i) + rank lvl ≤ limit →
      (Descent.level ts limit lvl).Follows (ofRule (Parser.level lvl)) ts i) ∧
    (∀ op left, ∀ i ≤ ts.length, 7 * (ts.length - i) + 1 ≤ limit →
      (Descent.operands ts limit op left).Follows (ofRule (Parser.operands op left)) ts i) ∧
    (∀ i ≤ ts.length, 7 * (ts.length - i) + 1 ≤ limit →
      (Descent.unary ts limit).Follows (ofRule Parser.unary) ts i) ∧
    ∀ i ≤ ts.length, max (7 * (ts.length - i)) 1 ≤ limit →
      (Descent.atomic ts limit).Follows (ofRule Parser.atomic) ts i := by
  induction limit with
  | zero =>
      refine ⟨fun lvl => ?_, by omega, by omega, by omega⟩
      cases lvl <;> simp [rank]
  | succ limit ih =>
      obtain ⟨ihLevel, ihOperands, ihUnary, ihAtomic⟩ := ih
      refine ⟨fun lvl i within enough => ?level, fun op left i within enough => ?operands,
        fun i within enough => ?unary, fun i within enough => ?atomic⟩
      case level =>
        cases lvl with
        | none =>
            rw [rank] at enough
            rw [Descent.level]
            exact ihUnary i within (by omega)
        | some op =>
            have := rank_tighter_lt op
            change Routine.Follows _ (ofRule (Parser.binary op)) ts i
            rw [Descent.level, ofRule_binary, ofRule_operand]
            refine follows_bind (ihLevel op.tighter? i within (by omega)) fun f j _ within took => ?_
            have := lt_of_ofRule took
            exact ihOperands op f j within (by omega)
      case operands =>
        have := rank_le op.tighter?
        rw [Descent.operands, ofRule_operands, ofRule_operand]
        refine follows_ifNext (fun inside => ?_) (follows_pure within)
        refine follows_bind (ihLevel op.tighter? (i + 1) inside (by omega)) fun f j _ within took => ?_
        have := lt_of_ofRule took
        exact ihOperands op _ j within (by omega)
      case unary =>
        exact follows_unary ts within (by omega) (fun j later within => ihUnary j within (by omega))
          fun inside => ihAtomic i within (by omega)
      case atomic =>
        have := rank_le (some .iff)
        exact follows_atomic ts within (by omega) fun j later within => ihLevel _ j within (by omega)

open LookAheadLemmas Reader in
theorem follows_formula {limit i : Nat} (within : i ≤ ts.length)
    (enough : 7 * (ts.length - i) + 6 ≤ limit) :
    (Descent.formula ts limit).Follows (ofRule Parser.formula) ts i := by
  have loosest := (follows_formulas ts limit).1 (some .iff) i within enough
  rw [Descent.formula, ofRule_formula]
  refine follows_bind loosest fun f j _ within _ => follows_peek ?_
  cases ts[j]? with
  | none => exact follows_pure within
  | some t => exact follows_throw within

end

/-! ## Requests -/

section
variable {ts : List Token} {i : Nat}

theorem moveTo_drop {j : Nat} (onward : i ≤ j) (within : j ≤ ts.length) :
    (Cursor.mk i (ts.drop i)).moveTo (ts.drop j) = ⟨j, ts.drop j⟩ := by
  simp only [Cursor.moveTo, List.length_drop, Cursor.mk.injEq, and_true]
  omega

theorem moveTo_remaining {c : Cursor} : c.moveTo c.remaining = c := by
  rw [Cursor.moveTo, Nat.sub_self, Nat.add_zero]

theorem eq_of_drop_eq {j k : Nat} (within : j ≤ ts.length) (within' : k ≤ ts.length)
    (same : ts.drop j = ts.drop k) : j = k := by
  have lengths := congrArg List.length same
  rw [List.length_drop, List.length_drop] at lengths
  omega

theorem follow_eq_readBy {α : Type} {n : Nat} {o : Outcome α n} {r : Reader α}
    {say : α → Cursor.Reply} {c : Cursor} (same : o.seen = r c.remaining) :
    c.follow say o = c.readBy (r.andThen fun a => Reader.done (say a)) := by
  rw [Cursor.readBy, Reader.andThen, ← same]
  cases o <;> rfl

theorem answer_eq_readBy (c : Cursor) (request : Cursor.Request) :
    c.answer request = c.readBy (Reader.ofRequest request) := by
  cases request with
  | peek => exact Prod.ext rfl moveTo_remaining.symm
  | accept kind =>
      rw [Cursor.answer, Cursor.readBy, Reader.ofRequest]
      split
      next rest _ taken =>
        rw [LookAheadLemmas.ifNext_of_some taken]
        rfl
      next declined =>
        rw [LookAheadLemmas.ifNext_of_none declined]
        exact Prod.ext rfl moveTo_remaining.symm
  | expect kind => exact follow_eq_readBy LookAheadLemmas.seen_expect
  | formula | unary | atomic | term | terms | binary op => exact follow_eq_readBy rfl

theorem follows_perform {limit : Nat} (within : i ≤ ts.length)
    (enough : 7 * (ts.length - i) + 6 ≤ limit) (request : Cursor.Request) :
    (Descent.perform ts limit request).Follows (Reader.ofRequest request) ts i := by
  obtain ⟨level, -, unary, atomic⟩ := follows_formulas ts limit
  obtain ⟨term, terms, -⟩ := follows_terms ts limit
  cases request with
  | peek => exact follows_peek (follows_pure within)
  | accept kind => exact follows_accept follows_pure (follows_pure within)
  | expect kind => exact follows_map (follows_expect within)
  | formula => exact follows_map (follows_formula ts within enough)
  | unary => exact follows_map (unary i within (by omega))
  | atomic => exact follows_map (atomic i within (by omega))
  | term => exact follows_map (term i within (by omega))
  | terms => exact follows_map (terms i within (by omega))
  | binary op =>
      have := rank_le (some op)
      exact follows_map (level (some op) i within (by omega))

/-- One request: the index goes on within the tokens, and the routines answer it within the limit. -/
theorem exists_answer (within : i ≤ ts.length) (request : Cursor.Request) :
    ∃ k reply, i ≤ k ∧ k ≤ ts.length ∧
      (Cursor.mk i (ts.drop i)).answer request = (reply, ⟨k, ts.drop k⟩) ∧
      ∀ limit, 7 * (ts.length - i) + 6 ≤ limit →
        Descent.call ts limit request i = some (reply, k) := by
  obtain ⟨k, onward, within', left, -⟩ := follows_perform within le_rfl request
  refine ⟨k, _, onward, within', Prod.ext rfl ?_, fun limit enough => ?_⟩
  · rw [answer_eq_readBy, Cursor.readBy]
    simp only
    rw [left, moveTo_drop onward within']
  · obtain ⟨k', -, within'', left', does⟩ := follows_perform within enough request
    obtain rfl := eq_of_drop_eq within' within'' (left.symm.trans left')
    rw [answer_eq_readBy, Cursor.readBy, Descent.call, does]
    rfl

/-- What the routines answer within the limit is the answer. -/
theorem answer_of_call {k limit : Nat} {reply : Cursor.Reply} {request : Cursor.Request}
    (within : i ≤ ts.length) (enough : 7 * (ts.length - i) + 6 ≤ limit)
    (called : Descent.call ts limit request i = some (reply, k)) :
    (Cursor.mk i (ts.drop i)).answer request = (reply, ⟨k, ts.drop k⟩) := by
  obtain ⟨k', reply', -, -, answered, ends⟩ := exists_answer within request
  obtain ⟨rfl, rfl⟩ := Prod.mk.inj (Option.some.inj (called.symm.trans (ends limit enough)))
  exact answered

/-- A request for a phrase that succeeds takes a token. -/
theorem lt_of_answer {k : Nat} {request : Cursor.Request} {reply : Cursor.Reply}
    (answered : (Cursor.mk i (ts.drop i)).answer request = (reply, ⟨k, ts.drop k⟩))
    (phrase : request.isForPhrase) (success : ∀ e, reply ≠ .error e) : i < k :=
  lt_of_length_drop (RecognitionLemmas.derives_of_answer phrase answered success).2.1

/-- Requests one after the other. -/
theorem exists_after (within : i ≤ ts.length) (requests : List Cursor.Request) :
    ∃ j, i ≤ j ∧ j ≤ ts.length ∧ (Cursor.mk i (ts.drop i)).after requests = ⟨j, ts.drop j⟩ ∧
      ∀ limit, 7 * (ts.length - i) + 6 ≤ limit →
        Descent.indexAfter ts limit requests i = some j := by
  induction requests generalizing i with
  | nil => exact ⟨i, le_rfl, within, rfl, fun _ _ => rfl⟩
  | cons request others ih =>
      obtain ⟨k, reply, onward, within, answered, called⟩ := exists_answer within request
      obtain ⟨j, further, within, after, indexed⟩ := ih within
      refine ⟨j, onward.trans further, within, ?_, fun limit enough => ?_⟩
      · rw [Cursor.after, List.foldl_cons, answered]
        exact after
      · rw [Descent.indexAfter, List.foldlM_cons, called limit enough]
        exact indexed limit (by omega)

end

end ProgressLemmas

/-! ## Main result -/

open ProgressLemmas in
/-- The parser makes progress and stays in bounds. From an index within the tokens, after any requests and
for any request after them, the index does not go back and does not leave the tokens, no matter which of
the requests fail. A request for a phrase that succeeds moves it on, for a unary formula as well as for
each connective. The routines, which only share the index, come to the same answers: every request ends
within a limit of seven for each token left and six more. -/
theorem requests_advance_index {ts : List Token} {i : Nat} (within : i ≤ ts.length)
    (earlier : List Cursor.Request) (request : Cursor.Request) :
    ∃ j k reply, (Cursor.mk i (ts.drop i)).after earlier = ⟨j, ts.drop j⟩ ∧
      (Cursor.mk j (ts.drop j)).answer request = (reply, ⟨k, ts.drop k⟩) ∧
      i ≤ j ∧ j ≤ k ∧ k ≤ ts.length ∧
      (request.isForPhrase → (∀ e, reply ≠ .error e) → j < k) ∧
      ∀ limit, 7 * (ts.length - i) + 6 ≤ limit →
        Descent.indexAfter ts limit earlier i = some j ∧
        Descent.call ts limit request j = some (reply, k) := by
  obtain ⟨j, onward, within, after, indexed⟩ := exists_after within earlier
  obtain ⟨k, reply, further, within, answered, called⟩ := exists_answer within request
  exact ⟨j, k, reply, after, answered, onward, further, within, lt_of_answer answered,
    fun limit enough => ⟨indexed limit enough, called limit (by omega)⟩⟩

/-- In `(P ∧ x) y` the request for a formula fails behind `x`. The requests after it go on from there. -/
theorem requests_advance_index_after_error :
    let ts : List Token := [⟨.lparen, "(", 0⟩, ⟨.name, "P", 1⟩, ⟨.conj, "∧", 3⟩, ⟨.name, "x", 5⟩,
      ⟨.rparen, ")", 6⟩, ⟨.name, "y", 8⟩]
    0 ≤ ts.length ∧ (Cursor.mk 0 ts).answer .formula = (.error (.bareName "x"), ⟨4, ts.drop 4⟩) ∧
      Descent.indexAfter ts 48 [.formula, .expect .rparen] 0 = some 5 ∧
      Descent.call ts 48 .term 5 = some (.term (.var "y"), 6) := by
  intro ts
  obtain ⟨j, k, reply, start, answered, -, -, -, -, ends⟩ :=
    requests_advance_index (Nat.zero_le ts.length) [] .formula
  obtain ⟨rfl, -⟩ := Cursor.mk.inj (start : Cursor.mk 0 ts = ⟨j, ts.drop j⟩)
  have called : some (reply, k) = some (.error (.bareName "x"), 4) :=
    (ends 48 (by decide)).2.symm.trans (by decide)
  obtain ⟨rfl, rfl⟩ := Prod.mk.inj (Option.some.inj called)
  exact ⟨Nat.zero_le _, answered, by decide, by decide⟩

/-- The limit cannot be less: an opening parenthesis alone needs 13. -/
example : Descent.call [⟨.lparen, "(", 0⟩] 12 .formula 0 = none := by decide

end Clausal
