import Clausal.Formula.Readable
import Clausal.Proofs.Prenex
import Clausal.Proofs.Spelling

/-!
# Written forms are read back

The printer goes by precedences and the parser by levels. Their agreement comes down to one fact: an
operand that gets no parentheses is of a level that binds tightly enough for its place. Everything
else follows the structure of the formula: the text of a part writes a derivation from its phrase,
whatever is written after it.

* `ReadsAs`: a text writes a derivation from a phrase from which a value is read off.
* `RenderingLemmas.readsAs_term`, `RenderingLemmas.readsAs_formula`, `RenderingLemmas.readsAs_prenex`:
  what the written forms are read as.
* `RenderingLemmas.isStable_value`: what is read off a derivation is read again as it is.
* `reads_back`: reading undoes writing.
-/

namespace Clausal

open Grammar

/-- The text writes tokens that have the words `ws`. -/
def WritesWords (afterName : Bool) (ws : List Word) (text : List Char) : Prop :=
  ∃ ts, ts.map Token.word = ws ∧ (∀ t ∈ ts, t.IsScanned) ∧
    Token.Writing Text.IsSpacing Token.IsSpelling afterName ts text

/-- The text writes a derivation from a phrase, from which `v` is read off; after the text there may
stand anything but a name that is glued to it. -/
def ReadsAs (afterName : Bool) (p : Phrase) (text : List Char) (v : p.Value) : Prop :=
  ∃ d : Derivation p, d.value = v ∧
    ∀ ws rest, WritesWords true ws rest → WritesWords afterName (d.words ++ ws) (text ++ rest)

/-- How loosely the formulas of a level bind. -/
def levelHeight : Option Connective → Nat
  | none => 0
  | some op => op.height

/-- The connective that a junction is written with. -/
def Junctor.connective : Junctor → Connective
  | .conj => .conj
  | .disj => .disj

/-- The symbol that is written between operands. -/
def Connective.sign : Connective → Char
  | .iff => '↔'
  | .imp => '→'
  | .disj => '∨'
  | .conj => '∧'

/-- The symbol that is written before the variable. -/
def Quantifier.sign : Quantifier → Char
  | .all => '∀'
  | .ex => '∃'

/-- The kind of a formula with this connective outermost. -/
def Connective.kind : Connective → Kind
  | .iff => .iff
  | .imp => .imp
  | .disj => .disj
  | .conj => .conj

/-- The connective outside of all others, if there is one that stands between operands. -/
def Formula.outermost : Formula → Option Connective
  | .atom _ | .neg _ | .quant _ _ _ => none
  | .junction op _ _ _ => some op.connective
  | .imp _ _ => some .imp
  | .iff _ _ => some .iff

/-- A term that can be read, and is read as it is. -/
def Term.IsStable (t : Term) : Prop :=
  t.IsReadable ∧ t.asRead = t

/-- A formula that can be read, and is read as it is. -/
def Formula.IsStable (f : Formula) : Prop :=
  f.IsReadable ∧ f.asRead = f

namespace RenderingLemmas

open Derivation

/-! ## Writing words one by one -/

section
variable {afterName before : Bool} {ws : List Word} {text : List Char} {kind : TokenKind} {c : Char}

theorem writesWords_nil : WritesWords true [] [] :=
  ⟨[], rfl, by simp, .nil .nil⟩

/-- What may be written after a name may be written anywhere. -/
theorem writesWords_mono (written : WritesWords true ws text) : WritesWords afterName ws text := by
  obtain ⟨ts, words, scanned, writing⟩ := written
  refine ⟨ts, words, scanned, ?_⟩
  cases writing with
  | nil spaced => exact .nil spaced
  | cons spaced apart spelled more => exact .cons spaced (fun _ => apart rfl) spelled more

theorem writesWords_blank (written : WritesWords before ws text) :
    WritesWords afterName ws (' ' :: text) := by
  obtain ⟨ts, words, scanned, writing⟩ := written
  have blank : Text.isBlank ' ' = true := by decide
  refine ⟨ts, words, scanned, ?_⟩
  cases writing with
  | nil spaced => exact .nil (.blank blank spaced)
  | cons spaced apart spelled more =>
      exact .cons (.blank blank spaced) (fun _ _ => List.cons_ne_nil _ _) spelled more

theorem writesWords_symbol (symbol : TokenKind.ofSymbol? c = some kind)
    (written : WritesWords false ws text) :
    WritesWords afterName (.symbol kind :: ws) (c :: text) := by
  obtain ⟨ts, rfl, scanned, writing⟩ := written
  have plain := (ScanLemmas.plain_of_ofSymbol? symbol).2.2
  refine ⟨⟨kind, c.toString, 0⟩ :: ts, ?_, ?_, ?_⟩
  · rw [List.map_cons, (RecognitionLemmas.word_eq_symbol plain).mpr rfl]
  · exact List.forall_mem_cons.mpr ⟨.inr ⟨c, symbol, rfl⟩, scanned⟩
  · have own : c :: text = [] ++ (c.toString.toList ++ text) := by
      rw [ScanLemmas.toList_toString]
      rfl
    rw [own]
    rw [← decide_eq_false plain] at writing
    exact .cons .nil (fun _ named => absurd named plain) .own writing

theorem writesWords_name {x : String} (name : isName x = true)
    (written : WritesWords true ws text) : WritesWords false (.name x :: ws) (x.toList ++ text) := by
  obtain ⟨ts, rfl, scanned, writing⟩ := written
  let t : Token := ⟨.name, x, 0⟩
  refine ⟨t :: ts, rfl, List.forall_mem_cons.mpr ⟨.inl ⟨rfl, name⟩, scanned⟩, ?_⟩
  change Token.Writing _ _ false (t :: ts) ([] ++ (t.text.toList ++ text))
  exact .cons .nil nofun .own writing

end

/-! ## Phrases -/

section
variable {afterName before : Bool} {p : Phrase} {text more : List Char} {x f : String}
variable {op : Connective} {q : Quantifier} {t : Term} {ts : List Term} {g h : Formula}
variable {gs : List Formula}

/-- What stands in parentheses. -/
theorem writesWords_parens {words : List Word}
    (inner : ∀ ws rest, WritesWords true ws rest → WritesWords false (words ++ ws) (text ++ rest)) :
    ∀ ws rest, WritesWords true ws rest →
      WritesWords true ((.symbol .lparen :: (words ++ [.symbol .rparen])) ++ ws)
        (('(' :: (text ++ [')'])) ++ rest) := by
  intro ws rest written
  have close : WritesWords true (.symbol .rparen :: ws) (')' :: rest) :=
    writesWords_symbol rfl (writesWords_mono written)
  simpa using writesWords_symbol rfl (inner _ _ close)

theorem readsAs_var (name : isName x = true) : ReadsAs false .term x.toList (.var x) :=
  ⟨.var x, rfl, fun _ _ written => writesWords_name name written⟩

theorem readsAs_app (name : isName f = true) (args : ReadsAs false .terms text ts) :
    ReadsAs false .term (f.toList ++ '(' :: (text ++ [')'])) (.app f ts) := by
  obtain ⟨d, rfl, writes⟩ := args
  refine ⟨.app f d, rfl, fun ws rest written => ?_⟩
  have behind := writesWords_name name (writesWords_parens writes ws rest written)
  simpa [words] using behind

/-- The parts of a list after the first, each after a separator. -/
theorem intercalate_cons (separator first : List Char) (others : List (List Char)) :
    separator.intercalate (first :: others) = first ++ others.flatMap (separator ++ ·) := by
  induction others generalizing first with
  | nil => simp
  | cons next others ih =>
      rw [List.intercalate_cons_cons, ih, List.flatMap_cons, List.append_assoc, List.append_assoc]

theorem readsAs_moreTerms {texts : List (List Char)}
    (each : List.Forall₂ (ReadsAs false .term) texts ts) :
    ReadsAs true .moreTerms (texts.flatMap ([',', ' '] ++ ·)) ts := by
  induction each with
  | nil => exact ⟨.noTerm, rfl, fun _ _ written => written⟩
  | cons first _ ih =>
      obtain ⟨d, rfl, writes⟩ := first
      obtain ⟨d', rfl, writes'⟩ := ih
      refine ⟨.nextTerm d d', rfl, fun ws rest written => ?_⟩
      have terms := writes _ _ (writes' ws rest written)
      have behind : WritesWords true (.symbol .comma :: _) (',' :: ' ' :: _) :=
        writesWords_symbol rfl (writesWords_blank terms)
      simpa [words] using behind

theorem readsAs_terms {texts : List (List Char)} (first : ReadsAs false .term text t)
    (each : List.Forall₂ (ReadsAs false .term) texts ts) :
    ReadsAs false .terms ([',', ' '].intercalate (text :: texts)) (t :: ts) := by
  obtain ⟨d, rfl, writes⟩ := first
  obtain ⟨d', rfl, writes'⟩ := readsAs_moreTerms each
  refine ⟨.terms d d', rfl, fun ws rest written => ?_⟩
  rw [intercalate_cons, words, List.append_assoc, List.append_assoc]
  exact writes _ _ (writes' ws rest written)

/-! ## Formulas -/

theorem ofSymbol?_sign (op : Connective) : TokenKind.ofSymbol? op.sign = some op.token := by
  cases op <;> rfl

theorem ofSymbol?_quantifier_sign (q : Quantifier) :
    TokenKind.ofSymbol? q.sign = some q.token := by
  cases q <;> rfl

theorem readsAs_operands {texts : List (List Char)}
    (each : List.Forall₂ (ReadsAs false (.formula op.tighter?)) texts gs) :
    ReadsAs true (.operands op) (texts.flatMap ([' ', op.sign, ' '] ++ ·)) gs := by
  induction each with
  | nil => exact ⟨.noOperand, rfl, fun _ _ written => written⟩
  | cons first _ ih =>
      obtain ⟨d, rfl, writes⟩ := first
      obtain ⟨d', rfl, writes'⟩ := ih
      refine ⟨.nextOperand d d', rfl, fun ws rest written => ?_⟩
      have operands := writes _ _ (writes' ws rest written)
      have joint : WritesWords false (.symbol op.token :: _) (op.sign :: ' ' :: _) :=
        writesWords_symbol (ofSymbol?_sign op) (writesWords_blank operands)
      have behind : WritesWords true (.symbol op.token :: _) (' ' :: op.sign :: ' ' :: _) :=
        writesWords_blank joint
      simpa [words] using behind

/-- Operands of a connective with its symbol between them. -/
theorem readsAs_joined {texts : List (List Char)}
    (first : ReadsAs false (.formula op.tighter?) text g)
    (each : List.Forall₂ (ReadsAs false (.formula op.tighter?)) texts gs) :
    ReadsAs false (.formula (some op)) ([' ', op.sign, ' '].intercalate (text :: texts))
      (gs.foldl op.join g) := by
  obtain ⟨d, rfl, writes⟩ := first
  obtain ⟨d', rfl, writes'⟩ := readsAs_operands each
  refine ⟨.joined d d', rfl, fun ws rest written => ?_⟩
  rw [intercalate_cons, words, List.append_assoc, List.append_assoc]
  exact writes _ _ (writes' ws rest written)

/-- A formula of the next level is one of the level of a connective. -/
theorem readsAs_single (reads : ReadsAs false (.formula op.tighter?) text g) :
    ReadsAs false (.formula (some op)) text g := by
  obtain ⟨d, rfl, writes⟩ := reads
  exact ⟨.joined d .noOperand, rfl, by simpa [words] using writes⟩

/-- A formula of a level is one of each looser level. -/
theorem readsAs_loosen {level looser : Option Connective}
    (le : levelHeight level ≤ levelHeight looser)
    (reads : ReadsAs false (.formula level) text g) : ReadsAs false (.formula looser) text g := by
  by_cases same : level = looser
  · exact same ▸ reads
  · match looser with
    | none =>
        cases level with
        | none => exact reads
        | some op => cases op <;> simp [levelHeight, Connective.height] at le
    | some op =>
        have next : levelHeight level ≤ levelHeight op.tighter? := by
          rcases level with _ | inner
          · exact Nat.zero_le _
          · cases inner <;> cases op <;>
              simp_all [levelHeight, Connective.height, Connective.tighter?]
        exact readsAs_single (readsAs_loosen next reads)
termination_by levelHeight looser
decreasing_by cases op <;> simp [levelHeight, Connective.height, Connective.tighter?]

theorem levelHeight_le (level : Option Connective) :
    levelHeight level ≤ levelHeight (some .iff) := by
  rcases level with _ | op
  · exact Nat.zero_le _
  · cases op <;> decide

theorem readsAs_parens {level : Option Connective}
    (reads : ReadsAs false (.formula level) text g) :
    ReadsAs false (.formula none) ('(' :: (text ++ [')'])) g := by
  obtain ⟨d, rfl, writes⟩ := readsAs_loosen (levelHeight_le level) reads
  refine ⟨.atomic (.paren d), rfl, fun ws rest written => ?_⟩
  exact writesWords_mono (writesWords_parens writes ws rest written)

theorem readsAs_neg (reads : ReadsAs false (.formula none) text g) :
    ReadsAs false (.formula none) ('¬' :: text) (.neg g) := by
  obtain ⟨d, rfl, writes⟩ := reads
  exact ⟨.negation d, rfl, fun ws rest written => writesWords_symbol rfl (writes ws rest written)⟩

theorem readsAs_quant (name : isName x = true) (reads : ReadsAs false (.formula none) text g) :
    ReadsAs false (.formula none) (q.sign :: (x.toList ++ ' ' :: text)) (.quant q x g) := by
  obtain ⟨d, rfl, writes⟩ := reads
  refine ⟨.quantified q x [] .none d, rfl, fun ws rest written => ?_⟩
  have scope : WritesWords true (d.words ++ ws) (' ' :: (text ++ rest)) :=
    writesWords_blank (writes ws rest written)
  simpa [words, moreNames, Separator.words] using
    writesWords_symbol (ofSymbol?_quantifier_sign q) (writesWords_name name scope)

theorem readsAs_call (name : isName x = true) (args : ReadsAs false .terms text ts) :
    ReadsAs false (.formula none) (x.toList ++ '(' :: (text ++ [')'])) (.atom ⟨x, ts⟩) := by
  obtain ⟨d, rfl, writes⟩ := args
  refine ⟨.atomic (.call x d), rfl, fun ws rest written => ?_⟩
  simpa [words] using writesWords_name name (writesWords_parens writes ws rest written)

theorem readsAs_bare (name : isName x = true) (upper : startsUpper x = true) :
    ReadsAs false (.formula none) x.toList (.atom ⟨x, []⟩) :=
  ⟨.atomic (.bare x upper), rfl, fun _ _ written => writesWords_name name written⟩

end

/-! ## Written forms -/

theorem toList_callText {name arg : String} {args : List String} :
    (callText name (arg :: args)).toList = name.toList ++
      '(' :: ([',', ' '].intercalate (arg.toList :: args.map String.toList) ++ [')']) := by
  have separator : ", ".toList = [',', ' '] := rfl
  have opening : "(".toList = ['('] := rfl
  have closing : ")".toList = [')'] := rfl
  simp [callText, String.toList_intercalate, separator, opening, closing]

theorem forall₂_map {α β γ : Type} {R : β → γ → Prop} {f : α → β} {g : α → γ} {xs : List α}
    (each : ∀ x ∈ xs, R (f x) (g x)) : List.Forall₂ R (xs.map f) (xs.map g) := by
  rw [List.forall₂_map_left_iff, List.forall₂_map_right_iff]
  exact List.forall₂_same.mpr each

/-- The arguments of a call, as they stand between the parentheses. -/
theorem readsAs_arguments {t : Term} {ts : List Term}
    (each : ∀ u ∈ t :: ts, ReadsAs false .term u.render.toList u.asRead) :
    ReadsAs false .terms
      ([',', ' '].intercalate (t.render.toList :: (ts.map Term.render).map String.toList))
      (t.asRead :: ts.map Term.asRead) := by
  rw [List.forall_mem_cons] at each
  rw [List.map_map]
  exact readsAs_terms each.1 (forall₂_map each.2)

/-- The written form of a term is read as a term. -/
theorem readsAs_term {t : Term} (readable : t.IsReadable) :
    ReadsAs false .term t.render.toList t.asRead := by
  induction t using Term.render.induct with
  | case1 x =>
      rw [Term.IsReadable] at readable
      rw [Term.render, Term.asRead]
      exact readsAs_var readable
  | case2 f ts ih =>
      rw [Term.IsReadable] at readable
      have each : ∀ t ∈ ts, ReadsAs false .term t.render.toList t.asRead :=
        fun t member => ih t member (readable.2 t member)
      rw [Term.render, Term.asRead]
      cases ts with
      | nil => exact readsAs_var readable.1
      | cons t ts =>
          rw [List.map_cons, toList_callText]
          exact readsAs_app readable.1 (readsAs_arguments each)

/-- The written form of an atom is read as an atom. -/
theorem readsAs_atom {p : Atom} (readable : p.IsReadable) :
    ReadsAs false (.formula none) p.render.toList (.atom p.asRead) := by
  obtain ⟨name, upper, terms⟩ := readable
  obtain ⟨symbol, ts⟩ := p
  have each : ∀ t ∈ ts, ReadsAs false .term t.render.toList t.asRead :=
    fun t member => readsAs_term (terms t member)
  rw [Atom.render, Atom.asRead]
  cases ts with
  | nil => exact readsAs_bare name (upper rfl)
  | cons t ts =>
      rw [List.map_cons, toList_callText]
      exact readsAs_call name (readsAs_arguments each)

theorem kind_of_outermost {f : Formula} {op : Connective} (outermost : f.outermost = some op) :
    f.kind = op.kind := by
  cases f with
  | junction inner a b rest =>
      cases Option.some.inj outermost
      cases inner <;> rfl
  | imp a b | iff a b =>
      cases Option.some.inj outermost
      rfl
  | atom p | neg f | quant q x f => cases outermost

/-- An operand that gets no parentheses is of a level that is tight enough. -/
theorem precedence_le_or_levelHeight_le (op : Connective) (f : Formula) :
    f.kind.precedence ≤ op.kind.precedence ∨
      levelHeight f.outermost ≤ levelHeight op.tighter? := by
  cases outermost : f.outermost with
  | none => exact .inr (Nat.zero_le _)
  | some inner =>
      rw [kind_of_outermost outermost]
      cases op <;> cases inner <;> decide

theorem toList_parens (text : String) :
    ("(" ++ text ++ ")").toList = '(' :: (text.toList ++ [')']) := by
  have opening : "(".toList = ['('] := rfl
  have closing : ")".toList = [')'] := rfl
  simp [opening, closing]

theorem readsAs_operand {op : Connective} {f : Formula}
    (reads : ReadsAs false (.formula f.outermost) f.render.toList f.asRead) :
    ReadsAs false (.formula op.tighter?) (operandText op.kind f.kind f.render).toList f.asRead := by
  unfold operandText
  split
  case isTrue le =>
    rw [toList_parens]
    exact readsAs_loosen (Nat.zero_le _) (readsAs_parens reads)
  case isFalse lt =>
    exact readsAs_loosen ((precedence_le_or_levelHeight_le op f).resolve_left lt) reads

theorem readsAs_binary (op : Connective) {f g : Formula}
    (left : ReadsAs false (.formula f.outermost) f.render.toList f.asRead)
    (right : ReadsAs false (.formula g.outermost) g.render.toList g.asRead) :
    ReadsAs false (.formula (some op))
      ((operandText op.kind f.kind f.render).toList ++ [' ', op.sign, ' '] ++
        (operandText op.kind g.kind g.render).toList)
      (op.join f.asRead g.asRead) := by
  have joined : ReadsAs false (.formula (some op)) _ _ :=
    readsAs_joined (readsAs_operand left) (.cons (readsAs_operand right) .nil)
  rwa [List.intercalate_cons_cons, List.intercalate_singleton] at joined

theorem toList_quantifier (q : Quantifier) (x text : String) :
    (q.symbol ++ x ++ " " ++ text).toList = q.sign :: (x.toList ++ ' ' :: text.toList) := by
  have sign : q.symbol.toList = [q.sign] := by cases q <;> rfl
  have blank : " ".toList = [' '] := rfl
  simp [sign, blank]

/-- A scope is put into parentheses unless it is a unary formula. -/
theorem readsAs_scope {f : Formula}
    (reads : ReadsAs false (.formula f.outermost) f.render.toList f.asRead) :
    ReadsAs false (.formula none) (scopeText f.kind f.render).toList f.asRead := by
  unfold scopeText
  split
  case isTrue lt =>
    rw [toList_parens]
    exact readsAs_parens reads
  case isFalse ge =>
    have unary : f.outermost = none := by
      cases outermost : f.outermost with
      | none => rfl
      | some op =>
          rw [kind_of_outermost outermost] at ge
          cases op <;> exact absurd (by decide) ge
    exact unary ▸ reads

/-- The written form of a formula is read at the level of its outermost operator. -/
theorem readsAs_formula {f : Formula} (readable : f.IsReadable) :
    ReadsAs false (.formula f.outermost) f.render.toList f.asRead := by
  induction f using Formula.rec_members with
  | atom p =>
      rw [Formula.IsReadable] at readable
      rw [Formula.render, Formula.asRead]
      exact readsAs_atom readable
  | neg f ih =>
      rw [Formula.IsReadable] at readable
      rw [Formula.render, Formula.asRead, String.toList_append]
      exact readsAs_neg (readsAs_scope (ih readable))
  -- The operands of a junction are joined from left to right when they are read.
  | junction op a b rest iha ihb ih =>
      rw [Formula.IsReadable] at readable
      have kind : op.kind = op.connective.kind := by cases op <;> rfl
      have separator : (" " ++ op.symbol ++ " ").toList = [' ', op.connective.sign, ' '] := by
        cases op <;> rfl
      have join : op.connective.join = fun f g => .junction op f g [] := by cases op <;> rfl
      have others : ∀ f ∈ b :: rest, ReadsAs false (.formula op.connective.tighter?)
          (operandText op.connective.kind f.kind f.render).toList f.asRead :=
        List.forall_mem_cons.mpr ⟨readsAs_operand (ihb readable.2.1),
          fun f member => readsAs_operand (ih f member (readable.2.2 f member))⟩
      have joined := readsAs_joined (readsAs_operand (iha readable.1)) (forall₂_map others)
      rw [join, List.map_cons, List.map_cons, List.foldl_cons] at joined
      rw [Formula.render, Formula.asRead, String.toList_intercalate, separator, kind, List.map_cons,
        List.map_cons, List.map_map]
      exact joined
  | imp a b iha ihb =>
      rw [Formula.IsReadable] at readable
      rw [Formula.render, Formula.asRead, String.toList_append, String.toList_append]
      exact readsAs_binary .imp (iha readable.1) (ihb readable.2)
  | iff a b iha ihb =>
      rw [Formula.IsReadable] at readable
      rw [Formula.render, Formula.asRead, String.toList_append, String.toList_append]
      exact readsAs_binary .iff (iha readable.1) (ihb readable.2)
  | quant q x f ih =>
      rw [Formula.IsReadable] at readable
      rw [Formula.render, Formula.asRead, toList_quantifier]
      exact readsAs_quant readable.1 (readsAs_scope (ih readable.2))

/-! ## Prefixes -/

theorem asRead_quantify (bindings : Prefix) (f : Formula) :
    (bindings.quantify f).asRead = bindings.quantify f.asRead := by
  induction bindings with
  | nil => rfl
  | cons b bindings ih => rw [Prefix.quantify_cons, Prefix.quantify_cons, Formula.asRead, ih]

theorem isReadable_quantify {bindings : Prefix} {f : Formula} :
    (bindings.quantify f).IsReadable ↔ (∀ b ∈ bindings, isName b.name = true) ∧ f.IsReadable := by
  induction bindings with
  | nil => simp [Prefix.quantify]
  | cons b bindings ih =>
      rw [Prefix.quantify_cons, Formula.IsReadable, List.forall_mem_cons, and_assoc, ih]

/-- A prefix that is written before a unary formula. -/
theorem readsAs_prefix {b : Binding} {bindings : Prefix} {text : List Char} {g : Formula}
    (names : ∀ c ∈ b :: bindings, isName c.name = true)
    (reads : ReadsAs false (.formula none) text g) :
    ReadsAs false (.formula none) ((Prefix.render (b :: bindings)).toList ++ ' ' :: text)
      (Prefix.quantify (b :: bindings) g) := by
  have sign (q : Quantifier) : q.symbol.toList = [q.sign] := by cases q <;> rfl
  have blank : " ".toList = [' '] := rfl
  induction bindings generalizing b with
  | nil =>
      rw [List.forall_mem_singleton] at names
      have first := readsAs_quant (q := b.quantifier) names reads
      simpa [Prefix.render, Prefix.quantify, sign] using first
  | cons next bindings ih =>
      rw [List.forall_mem_cons] at names
      have first := readsAs_quant (q := b.quantifier) names.1 (ih names.2)
      change ReadsAs false (.formula none) _
        (Formula.quant b.quantifier b.name (Prefix.quantify (next :: bindings) g))
      simpa [Prefix.render, String.toList_intercalate, List.intercalate_cons_cons, sign, blank]
        using first

/-- The written form of a prenex form is read as a unary formula, or like its matrix. -/
theorem readsAs_prenex {p : PrenexForm} (readable : p.toFormula.IsReadable) :
    ReadsAs false (.formula (some .iff)) p.render.toList p.toFormula.asRead := by
  obtain ⟨bindings, matrix⟩ := p
  obtain ⟨names, readable⟩ := isReadable_quantify.mp readable
  have reads := readsAs_formula readable
  rw [PrenexForm.toFormula, asRead_quantify, PrenexForm.render]
  cases bindings with
  | nil => exact readsAs_loosen (levelHeight_le _) reads
  | cons b bindings =>
      have opening : " (".toList = [' ', '('] := rfl
      have closing : ")".toList = [')'] := rfl
      have written := readsAs_prefix names (readsAs_parens reads)
      refine readsAs_loosen (levelHeight_le none) ?_
      simpa [opening, closing] using written

/-- A text that is read at some level, and nothing else, is the text of what is read. -/
theorem parse_of_readsAs {level : Option Connective} {text : String} {f : Formula}
    (reads : ReadsAs false (.formula level) text.toList f) : Formula.parse text = .ok f := by
  obtain ⟨d, rfl, writes⟩ := readsAs_loosen (levelHeight_le level) reads
  obtain ⟨ts, words, scanned, writing⟩ := writes [] [] writesWords_nil
  rw [List.append_nil] at words writing
  have named :=
    RecognitionLemmas.empty_not_mem_words (SpellingLemmas.wellNamed_of_isScanned scanned)
  rw [SpellingLemmas.parse_eq_ok_iff writing scanned,
    RecognitionLemmas.ofTokens_eq_ok_iff_derivation named]
  exact ⟨d, words.symm, rfl⟩

/-! ## What is read -/

/-- Values that can be read, and are read as they are. -/
def IsStable : (p : Phrase) → p.Value → Prop
  | .term, t => t.IsStable
  | .terms, ts | .moreTerms, ts => ∀ t ∈ ts, t.IsStable
  | .formula _, f | .atomic, f => f.IsStable
  | .operands _, fs => ∀ f ∈ fs, f.IsStable

theorem isStable_join {f g : Formula} (op : Connective) (left : f.IsStable) (right : g.IsStable) :
    (op.join f g).IsStable := by
  cases op <;> simp_all [Connective.join, Formula.IsStable, Formula.IsReadable, Formula.asRead]

theorem isStable_foldl {f : Formula} {fs : List Formula} (op : Connective) (first : f.IsStable)
    (others : ∀ g ∈ fs, g.IsStable) : (fs.foldl op.join f).IsStable := by
  induction fs generalizing f with
  | nil => exact first
  | cons g fs ih =>
      rw [List.forall_mem_cons] at others
      exact ih (isStable_join op first others.1) others.2

theorem isStable_foldr {g : Formula} {xs : List String} (q : Quantifier) (scope : g.IsStable)
    (names : ∀ x ∈ xs, isName x = true) : (xs.foldr (Formula.quant q) g).IsStable := by
  induction xs with
  | nil => exact scope
  | cons x xs ih =>
      rw [List.forall_mem_cons] at names
      obtain ⟨readable, same⟩ := ih names.2
      rw [List.foldr_cons, Formula.IsStable, Formula.IsReadable, Formula.asRead, same]
      exact ⟨⟨names.1, readable⟩, rfl⟩

theorem map_asRead {ts : List Term} (each : ∀ t ∈ ts, t.IsStable) : ts.map Term.asRead = ts :=
  (List.map_congr_left fun t member => (each t member).2).trans (List.map_id ts)

theorem value_terms_ne_nil (d : Derivation .terms) : d.value ≠ [] := by
  cases d with
  | terms first more => exact List.cons_ne_nil _ _

/-- What is read off a derivation is read again as it is. -/
theorem isStable_value {p : Phrase} (d : Derivation p)
    (named : ∀ x, .name x ∈ d.words → isName x = true) : IsStable p d.value := by
  induction d with
  | var x =>
      have name := named x (by simp [words])
      exact ⟨by rwa [value, Term.IsReadable], by rw [value, Term.asRead]⟩
  | app f args ih =>
      have name := named f (by simp [words])
      have each := ih fun x member => named x (by simp [words, member])
      have nonempty := value_terms_ne_nil args
      constructor
      · rw [value, Term.IsReadable]
        exact ⟨name, fun t member => (each t member).1⟩
      · rw [value, Term.asRead, map_asRead each]
        simp [nonempty]
  | terms first more ihFirst ihMore | nextTerm first more ihFirst ihMore
  | nextOperand first more ihFirst ihMore =>
      have one := ihFirst fun x member => named x (by simp [words, member])
      have others := ihMore fun x member => named x (by simp [words, member])
      exact List.forall_mem_cons.mpr ⟨one, others⟩
  | noTerm | noOperand => exact fun _ member => absurd member List.not_mem_nil
  | joined first more ihFirst ihMore =>
      have one := ihFirst fun x member => named x (by simp [words, member])
      have others := ihMore fun x member => named x (by simp [words, member])
      exact isStable_foldl _ one others
  | negation scope ih =>
      obtain ⟨readable, same⟩ := ih fun x member => named x (by simp [words, member])
      exact ⟨by rwa [value, Formula.IsReadable], by rw [value, Formula.asRead, same]⟩
  | quantified q x others separator scope ih =>
      have stable := ih fun x member => named x (by simp [words, member])
      refine isStable_foldr q stable fun y member => named y ?_
      rcases List.mem_cons.mp member with rfl | later
      · simp [words]
      · simp [words, moreNames, later]
  | atomic f ih | paren f ih => exact ih fun x member => named x (by simp [words, member])
  | call p args ih =>
      have name := named p (by simp [words])
      have each := ih fun x member => named x (by simp [words, member])
      have nonempty := value_terms_ne_nil args
      constructor
      · rw [value, Formula.IsReadable]
        exact ⟨name, fun empty => absurd empty nonempty, fun t member => (each t member).1⟩
      · rw [value, Formula.asRead, Atom.asRead, map_asRead each]
  | bare p upper =>
      have name := named p (by simp [words])
      constructor
      · rw [value, Formula.IsReadable]
        exact ⟨name, fun _ => upper, by simp⟩
      · rw [value, Formula.asRead]
        rfl

/-- A formula that is read from a text can be read again, and is read as it is. -/
theorem isStable_of_parse {text : String} {f : Formula} (parsed : Formula.parse text = .ok f) :
    f.IsStable := by
  obtain ⟨ts, scanned, read⟩ := RuleLemmas.parse_eq_ok.mp parsed
  have named := SpellingLemmas.wellNamed_of_isScanned (ScanLemmas.isScanned_of_tokenize scanned)
  have spoken := RecognitionLemmas.empty_not_mem_words named
  obtain ⟨d, words, rfl⟩ := (RecognitionLemmas.ofTokens_eq_ok_iff_derivation spoken).mp read
  refine isStable_value d fun x member => RecognitionLemmas.isName_of_mem_words named ?_
  exact words ▸ member

/-- A text is read as the formula whose written form it is, if this is read as it is. -/
theorem parse_of_render {text : String} {f : Formula} (stable : f.IsStable)
    (written : f.render = text) : Formula.parse text = .ok f := by
  obtain ⟨readable, same⟩ := stable
  have read := parse_of_readsAs (readsAs_formula readable)
  rwa [same, written] at read

end RenderingLemmas

/-- Written forms are read back. A readable formula is read from its written form, but for operands
that are joined from left to right and constants that look like variables; a formula that was read
from a text is read from its written form; and a prenex form is read as the formula that it stands
for. -/
theorem reads_back :
    (∀ f : Formula, f.IsReadable → Formula.parse f.render = .ok f.asRead) ∧
    (∀ (text : String) (f : Formula), Formula.parse text = .ok f → Formula.parse f.render = .ok f) ∧
    ∀ p : PrenexForm, p.toFormula.IsReadable → Formula.parse p.render = .ok p.toFormula.asRead := by
  refine ⟨fun f readable => ?_, fun text f parsed => ?_, fun p readable => ?_⟩
  · exact RenderingLemmas.parse_of_readsAs (RenderingLemmas.readsAs_formula readable)
  · exact RenderingLemmas.parse_of_render (RenderingLemmas.isStable_of_parse parsed) rfl
  · exact RenderingLemmas.parse_of_readsAs (RenderingLemmas.readsAs_prenex readable)

/-- A conjunction of three members in a scope, with a constant and an implication inside it, and a
prenex form with this matrix. -/
theorem reads_back_nested :
    let m : Formula := .junction .conj (.atom ⟨"P", [.var "x", .app "c" []]⟩) (.atom ⟨"Q", []⟩)
      [.imp (.atom ⟨"Q", []⟩) (.neg (.atom ⟨"R", []⟩))]
    let m' : Formula := .conj (.conj (.atom ⟨"P", [.var "x", .var "c"]⟩) (.atom ⟨"Q", []⟩))
      (.imp (.atom ⟨"Q", []⟩) (.neg (.atom ⟨"R", []⟩)))
    let f : Formula := .quant .all "x" m
    let p : PrenexForm := ⟨[⟨.ex, "y"⟩, ⟨.all, "x"⟩], m⟩
    f.IsReadable ∧ Formula.parse f.render = .ok (.quant .all "x" m') ∧
      Formula.parse (Formula.quant .all "x" m').render = .ok (.quant .all "x" m') ∧
      p.toFormula.IsReadable ∧ p.render = "∃y ∀x (P(x, c) ∧ Q ∧ (Q → ¬R))" ∧
      Formula.parse p.render = .ok (.quant .ex "y" (.quant .all "x" m')) := by
  intro m m' f p
  have readable : f.IsReadable := by
    simp [f, m, Formula.IsReadable, Atom.IsReadable, Term.IsReadable, isName, isNameStart,
      startsUpper]
  have readable' : p.toFormula.IsReadable :=
    RenderingLemmas.isReadable_quantify.mpr ⟨by decide, (Formula.IsReadable.eq_def f ▸ readable).2⟩
  have read : Formula.parse f.render = .ok (.quant .all "x" m') :=
    (reads_back.1 f readable).trans (congrArg Except.ok (by cbv))
  have read' : Formula.parse p.render = .ok (.quant .ex "y" (.quant .all "x" m')) :=
    (reads_back.2.2 p readable').trans (congrArg Except.ok (by cbv))
  exact ⟨readable, read, reads_back.2.1 _ _ read, readable', by cbv, read'⟩

end Clausal
