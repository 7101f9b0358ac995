import Clausal.Proofs.Recognition
import Clausal.Proofs.Scan

/-!
# Spellings do not matter

Operators become symbols by blind replacement on the whole text. What makes this safe is that no
pass looks across the border of two written tokens: a pattern that could start in one of them would
have to go on in it, and does not. So each pass rewrites the text piece by piece (`Rewrites`), and
the passes compose.

* `isClear`: no pattern can start in a text, whatever comes after it; for the spellings, whose order
  matters, and for the LaTeX commands this is checked by evaluation.
* `SpellingLemmas.rewrites_unify_char`, `SpellingLemmas.rewrites_unify_spacing`,
  `SpellingLemmas.rewrites_unify_spelling`: what all passes together make of the pieces of a text.
* `SpellingLemmas.contents_tokenize`, `spellings_agree`: tokens are found in whatever spelling they
  are written, and read as the same formula.
-/

namespace Clausal

/-- `f` makes `written` into `meant`, whatever comes after it. -/
def Rewrites (f : List Char → List Char) (written meant : List Char) : Prop :=
  ∀ rest, f (written ++ rest) = meant ++ f rest

/-- Of two texts one continues the other. -/
def clashes (pattern text : List Char) : Bool :=
  pattern.isPrefixOf text || text.isPrefixOf pattern

/-- No pattern starts in a text, whatever comes after it. -/
def isClear (patterns : List (List Char)) : List Char → Bool
  | [] => true
  | c :: rest => !patterns.any (clashes · (c :: rest)) && isClear patterns rest

/-- A backslash and at least one other character. -/
def isCommand : List Char → Bool
  | '\\' :: c :: rest => c != '\\' && rest.all (· != '\\')
  | _ => false

/-- All replacements of spellings by symbols, in their order. -/
def replaceSpellings (replaced : List (String × Char)) (text : List Char) : List Char :=
  replaced.foldl (fun t spelling => replaceAny [spelling.1.toList] spelling.2 t) text

/-- The character of a no-break space is a blank among others. -/
def respaced (c : Char) : Char :=
  if c = '\u00a0' then ' ' else c

/-- Makes every operator of a text its symbol, without removing blanks. -/
def unify : List Char → List Char :=
  replaceSpellings spellings ∘ replaceAny (spacingCommands.map String.toList) ' ' ∘
    collapseBackslashes ∘ List.map respaced

namespace SpellingLemmas

open Token ScanLemmas

/-! ## Rewriting from left to right -/

section
variable {f g : List Char → List Char} {c s : Char} {p p' q q' r text rest : List Char}
variable {patterns : List (List Char)}

theorem rewrites_nil : Rewrites f [] [] :=
  fun _ => rfl

theorem rewrites_append (first : Rewrites f p q) (second : Rewrites f p' q') :
    Rewrites f (p ++ p') (q ++ q') := by
  intro rest
  rw [List.append_assoc, first, second, List.append_assoc]

theorem rewrites_cons (first : Rewrites f [c] [s]) (second : Rewrites f p q) :
    Rewrites f (c :: p) (s :: q) :=
  rewrites_append first second

/-- One pass after the other. -/
theorem rewrites_comp (first : Rewrites f p q) (second : Rewrites g q r) :
    Rewrites (g ∘ f) p r := by
  intro rest
  rw [Function.comp_apply, first, second, Function.comp_apply]

theorem rewrites_map (h : Char → Char) : Rewrites (List.map h) p (p.map h) :=
  fun _ => List.map_append

/-! ## Replacing patterns -/

theorem clashes_of_prefixes (former : p.isPrefixOf text = true)
    (latter : q.isPrefixOf text = true) : clashes p q = true := by
  rw [List.isPrefixOf_iff_prefix] at former latter
  rw [clashes, Bool.or_eq_true, List.isPrefixOf_iff_prefix, List.isPrefixOf_iff_prefix]
  exact List.prefix_or_prefix_of_prefix former latter

theorem isPrefixOf_append (p rest : List Char) : p.isPrefixOf (p ++ rest) = true := by
  rw [List.isPrefixOf_iff_prefix]
  exact List.prefix_append p rest

theorem replaceAny_cons_of_none (unmatched : patterns.find? (·.isPrefixOf (c :: rest)) = none) :
    replaceAny patterns s (c :: rest) = c :: replaceAny patterns s rest := by
  rw [replaceAny, unmatched]

/-- A text in which no pattern starts stays as it is. -/
theorem rewrites_of_isClear (clear : isClear patterns p = true) :
    Rewrites (replaceAny patterns s) p p := by
  intro rest
  induction p with
  | nil => rfl
  | cons c p ih =>
      simp only [isClear, Bool.and_eq_true, Bool.not_eq_true', List.any_eq_false] at clear
      have unmatched : patterns.find? (·.isPrefixOf (c :: (p ++ rest))) = none := by
        rw [List.find?_eq_none]
        intro pattern member starts
        exact clear.1 pattern member (clashes_of_prefixes starts (isPrefixOf_append (c :: p) rest))
      rw [List.cons_append, replaceAny_cons_of_none unmatched, ih clear.2, List.cons_append]

/-- A pattern is replaced, if it clashes with no other one. -/
theorem rewrites_of_mem (member : p ∈ patterns) (nonempty : p ≠ [])
    (only : ∀ q ∈ patterns, clashes q p = true → q = p) :
    Rewrites (replaceAny patterns s) p [s] := by
  intro rest
  have found : patterns.find? (·.isPrefixOf (p ++ rest)) = Option.some p := by
    have starts := isPrefixOf_append p rest
    cases first : patterns.find? (·.isPrefixOf (p ++ rest)) with
    | none => exact absurd starts (List.find?_eq_none.mp first p member)
    | some q =>
        have starts' := List.find?_some (p := fun q : List Char => q.isPrefixOf (p ++ rest)) first
        have clash := clashes_of_prefixes starts' starts
        rw [only q (List.mem_of_find?_eq_some first) clash]
  obtain ⟨c, p, rfl⟩ := List.exists_cons_of_ne_nil nonempty
  rw [List.cons_append] at found ⊢
  rw [replaceAny, found]
  simp

/-! ## Backslashes -/

theorem collapse_cons (other : c ≠ '\\') :
    collapseBackslashes (c :: rest) = c :: collapseBackslashes rest := by
  rw [collapseBackslashes]
  rintro _ rfl
  exact absurd rfl other

/-- A text without backslashes stays as it is. -/
theorem rewrites_collapse (letters : ∀ c ∈ p, c ≠ '\\') : Rewrites collapseBackslashes p p := by
  intro rest
  induction p with
  | nil => rfl
  | cons c p ih =>
      rw [List.forall_mem_cons] at letters
      rw [List.cons_append, collapse_cons letters.1, ih letters.2, List.cons_append]

theorem isCommand_iff : isCommand p = true ↔
    ∃ c rest, p = '\\' :: c :: rest ∧ c ≠ '\\' ∧ ∀ d ∈ rest, d ≠ '\\' := by
  unfold isCommand
  split
  case h_1 c rest =>
    simp only [Bool.and_eq_true, bne_iff_ne, List.all_eq_true, List.cons.injEq, true_and]
    constructor
    · exact fun command => ⟨c, rest, ⟨rfl, rfl⟩, command⟩
    · rintro ⟨_, _, ⟨rfl, rfl⟩, command⟩
      exact command
  case h_2 other =>
    simp only [Bool.false_eq_true, false_iff, not_exists, not_and]
    rintro c rest rfl
    exact absurd rfl (other c rest)

theorem rewrites_isCommand (command : isCommand p = true) : Rewrites collapseBackslashes p p := by
  obtain ⟨c, p, rfl, letter, letters⟩ := isCommand_iff.mp command
  intro rest
  have first : collapseBackslashes ('\\' :: c :: (p ++ rest)) =
      '\\' :: collapseBackslashes (c :: (p ++ rest)) := by
    rw [collapseBackslashes]
    rintro _ _ ⟨⟩
    exact letter rfl
  rw [List.cons_append, List.cons_append, first, collapse_cons letter, rewrites_collapse letters,
    List.cons_append, List.cons_append]

/-- Further backslashes before a command are removed. -/
theorem rewrites_collapse_command (n : Nat) (command : isCommand p = true) :
    Rewrites collapseBackslashes (List.replicate n '\\' ++ p) p := by
  intro rest
  obtain ⟨c, q, rfl, _⟩ := isCommand_iff.mp command
  induction n with
  | zero => exact rewrites_isCommand command rest
  | succ n ih =>
      have front (text : List Char) :
          List.replicate n '\\' ++ '\\' :: text = '\\' :: (List.replicate n '\\' ++ text) := by
        rw [List.append_cons, ← List.replicate_succ', List.replicate_succ, List.cons_append]
      rw [← ih, List.replicate_succ, List.cons_append, List.cons_append, front, List.cons_append,
        collapseBackslashes]

end

/-! ## Replacing the spellings in their order -/

section
variable {replaced : List (String × Char)} {c : Char} {p : List Char}

/-- A text in which no spelling starts stays as it is. -/
theorem rewrites_replaceSpellings
    (clear : ∀ spelling ∈ replaced, isClear [spelling.1.toList] p = true) :
    Rewrites (replaceSpellings replaced) p p := by
  induction replaced with
  | nil => exact fun _ => rfl
  | cons spelling replaced ih =>
      rw [List.forall_mem_cons] at clear
      exact rewrites_comp (rewrites_of_isClear clear.1) (ih clear.2)

/-- A spelling is replaced by its symbol, if no earlier one starts in it and no later one at the
symbol. -/
theorem rewrites_spelling {spelling : String} (member : (spelling, c) ∈ replaced)
    (apart : replaced.Pairwise fun earlier later =>
      isClear [earlier.1.toList] later.1.toList = true)
    (nonempty : ∀ other ∈ replaced, other.1.toList ≠ [])
    (symbol : ∀ other ∈ replaced, isClear [other.1.toList] [c] = true) :
    Rewrites (replaceSpellings replaced) spelling.toList [c] := by
  induction replaced with
  | nil => cases member
  | cons first replaced ih =>
      rw [List.forall_mem_cons] at nonempty symbol
      rw [List.pairwise_cons] at apart
      rcases List.mem_cons.mp member with rfl | later
      · have only :
            ∀ q ∈ [spelling.toList], clashes q spelling.toList = true → q = spelling.toList :=
          fun q inside _ => List.mem_singleton.mp inside
        exact rewrites_comp (rewrites_of_mem List.mem_cons_self nonempty.1 only)
          (rewrites_replaceSpellings symbol.2)
      · exact rewrites_comp (rewrites_of_isClear (apart.1 _ later))
          (ih later apart.2 nonempty.2 symbol.2)

end

/-! ## All passes together -/

section
variable {c d : Char} {p q r text rest : List Char} {patterns : List (List Char)}

/-- What the passes make of a text, put together from the three that change it. -/
theorem rewrites_unify (collapsed : Rewrites collapseBackslashes (p.map respaced) q)
    (spaced : Rewrites (replaceAny (spacingCommands.map String.toList) ' ') q r)
    (replaced : Rewrites (replaceSpellings spellings) r text) : Rewrites unify p text := by
  unfold unify
  exact rewrites_comp (rewrites_comp (rewrites_comp (rewrites_map respaced) collapsed) spaced)
    replaced

/-- The characters that LaTeX commands and other spellings start with. -/
def openers : List Char :=
  ['\\', '<', '-', '!', '~', '&', '|']

theorem forall_openers {property : Char → Prop} [DecidablePred property]
    (all : openers.all property = true) : ∀ c ∈ openers, property c := by
  simpa [List.all_eq_true] using all

theorem isClear_singleton (openings : ∀ pattern ∈ patterns, pattern.head? ∈ openers.map some)
    (plain : c ∉ openers) : isClear patterns [c] = true := by
  have unclashed : ∀ pattern ∈ patterns, clashes pattern [c] = false := by
    intro pattern member
    obtain ⟨o, opener, head⟩ := List.mem_map.mp (openings pattern member)
    obtain ⟨more, rfl⟩ := List.head?_eq_some_iff.mp head.symm
    have differ : o ≠ c := fun same => plain (same ▸ opener)
    simp [clashes, List.isPrefixOf, differ, differ.symm]
  simpa [isClear] using unclashed

theorem openings_spacing :
    ∀ pattern ∈ spacingCommands.map String.toList, pattern.head? ∈ openers.map some := by
  decide

theorem openings_spellings :
    ∀ spelling ∈ spellings, spelling.1.toList.head? ∈ openers.map some := by
  decide

theorem isClear_spelling (plain : c ∉ openers) :
    ∀ spelling ∈ spellings, isClear [spelling.1.toList] [c] = true := by
  intro spelling member
  refine isClear_singleton ?_ plain
  rintro _ pattern
  rw [List.mem_singleton.mp pattern]
  exact openings_spellings spelling member

/-- A character that starts no LaTeX command and no other spelling stays as it is, except for a
no-break space. -/
theorem rewrites_unify_char (plain : c ∉ openers) : Rewrites unify [c] [respaced c] := by
  have space : ' ' ∉ openers := by decide
  have still : respaced c ∉ openers := by
    unfold respaced
    split <;> assumption
  refine rewrites_unify (rewrites_collapse ?_)
    (rewrites_of_isClear (isClear_singleton openings_spacing still))
    (rewrites_replaceSpellings (isClear_spelling still))
  rw [List.map_singleton, List.forall_mem_singleton]
  rintro same
  exact still (same ▸ by decide)

theorem rewrites_unify_text (plain : ∀ c ∈ p, c ∉ openers ∧ c ≠ '\u00a0') : Rewrites unify p p := by
  induction p with
  | nil => exact rewrites_nil
  | cons c p ih =>
      rw [List.forall_mem_cons] at plain
      have first := rewrites_unify_char plain.1.1
      rw [respaced, if_neg plain.1.2] at first
      exact rewrites_cons first (ih plain.2)

/-- What passes through the first pass, and loses the further backslashes before it in the
second. -/
theorem rewrites_collapse_replicate (n : Nat) (still : p.map respaced = p)
    (shape : isCommand p = true ∨ n = 0 ∧ ∀ c ∈ p, c ≠ '\\') :
    Rewrites collapseBackslashes ((List.replicate n '\\' ++ p).map respaced) p := by
  have backslash : respaced '\\' = '\\' := by decide
  rw [List.map_append, List.map_replicate, backslash, still]
  rcases shape with command | ⟨rfl, letters⟩
  · exact rewrites_collapse_command n command
  · exact rewrites_collapse letters

/-- A LaTeX command that only makes space becomes a blank. -/
theorem rewrites_unify_spacing {command : String} (n : Nat) (known : command ∈ spacingCommands) :
    Rewrites unify (List.replicate n '\\' ++ command.toList) [' '] := by
  have shape : ∀ command ∈ spacingCommands, isCommand command.toList = true ∧
      command.toList.map respaced = command.toList ∧ command.toList ≠ [] ∧
      ∀ q ∈ spacingCommands.map String.toList, clashes q command.toList = true →
        q = command.toList := by
    decide
  obtain ⟨isCommand, still, nonempty, only⟩ := shape command known
  exact rewrites_unify (rewrites_collapse_replicate n still (.inl isCommand))
    (rewrites_of_mem (List.mem_map_of_mem known) nonempty only)
    (rewrites_replaceSpellings (isClear_spelling (by decide)))

/-- A spelling of an operator becomes its symbol. -/
theorem rewrites_unify_spelling {spelling : String} (n : Nat) (known : (spelling, c) ∈ spellings)
    (command : n ≠ 0 → spelling.toList.head? = some '\\') :
    Rewrites unify (List.replicate n '\\' ++ spelling.toList) [c] := by
  have shape : ∀ s ∈ spellings,
      (isCommand s.1.toList = true ∨
        s.1.toList.head? ≠ some '\\' ∧ '\\' ∉ s.1.toList) ∧
      s.1.toList.map respaced = s.1.toList ∧ s.1.toList ≠ [] ∧ s.2 ∉ openers ∧
      isClear (spacingCommands.map String.toList) s.1.toList = true := by
    decide
  have apart : spellings.Pairwise fun earlier later =>
      isClear [earlier.1.toList] later.1.toList = true := by
    decide
  obtain ⟨isCommand, still, _, symbol, clear⟩ := shape _ known
  have shaped :
      Clausal.isCommand spelling.toList = true ∨ n = 0 ∧ ∀ c ∈ spelling.toList, c ≠ '\\' :=
    isCommand.imp_right fun plain =>
      ⟨Decidable.not_not.mp (plain.1 ∘ command), List.forall_mem_ne'.mpr plain.2⟩
  exact rewrites_unify (rewrites_collapse_replicate n still shaped) (rewrites_of_isClear clear)
    (rewrites_spelling known apart (fun other member => (shape other member).2.2.1)
      (isClear_spelling symbol))

end

/-! ## Written tokens -/

section
variable {t : Token} {ts : List Token} {text gap : List Char} {afterName : Bool}

/-- Space between tokens becomes blanks. -/
theorem rewrites_isSpacing (spacing : Text.IsSpacing gap) :
    ∃ blanks, Rewrites unify gap blanks ∧ (∀ c ∈ blanks, Text.isBlank c = true) ∧
      (gap ≠ [] → blanks ≠ []) := by
  induction spacing with
  | nil => exact ⟨[], rewrites_nil, by simp, id⟩
  | @blank c rest blank more ih =>
      obtain ⟨blanks, rewrites, blank', _⟩ := ih
      have plain : c ∉ openers := by
        intro opener
        have visible : ∀ c ∈ openers, Text.isBlank c = false := forall_openers (by decide)
        exact absurd blank (Bool.eq_false_iff.mp (visible c opener))
      have space : Text.isBlank (respaced c) = true := by
        unfold respaced
        split
        · decide
        · exact blank
      exact ⟨respaced c :: blanks, rewrites_cons (rewrites_unify_char plain) rewrites,
        List.forall_mem_cons.mpr ⟨space, blank'⟩, fun _ => List.cons_ne_nil _ _⟩
  | command n known more ih =>
      obtain ⟨blanks, rewrites, blank', _⟩ := ih
      exact ⟨' ' :: blanks, rewrites_append (rewrites_unify_spacing n known) rewrites,
        List.forall_mem_cons.mpr ⟨by decide, blank'⟩, fun _ => List.cons_ne_nil _ _⟩

/-- The own text of a token holds nothing that is replaced. -/
theorem rewrites_own (scanned : t.IsScanned) : Rewrites unify t.text.toList t.text.toList := by
  refine rewrites_unify_text fun c member => ?_
  rcases scanned with ⟨_, name⟩ | ⟨s, symbol, text⟩
  · have named := isNameChar_of_mem name member
    constructor
    · intro opener
      have unnamed : ∀ c ∈ openers, isNameChar c = false := forall_openers (by decide)
      rw [unnamed c opener] at named
      cases named
    · rintro rfl
      exact absurd named (by decide)
  · rw [text, toList_toString, List.mem_singleton] at member
    subst member
    constructor
    · intro opener
      have other : ∀ c ∈ openers, TokenKind.ofSymbol? c = none := forall_openers (by decide)
      rw [other c opener] at symbol
      cases symbol
    · rintro rfl
      exact absurd symbol nofun

theorem rewrites_isSpelling (spelled : t.IsSpelling text) (scanned : t.IsScanned) :
    Rewrites unify text t.text.toList := by
  cases spelled with
  | own => exact rewrites_own scanned
  | other n known symbol command =>
      rw [symbol, toList_toString]
      exact rewrites_unify_spelling n known command

/-- A text that writes tokens in any spellings and with any space becomes one that writes them as
they are, with blanks around them. -/
theorem exists_plainWriting (written : Writing Text.IsSpacing IsSpelling afterName ts text)
    (scanned : ∀ t ∈ ts, t.IsScanned) :
    ∃ plain, Rewrites unify text plain ∧ PlainWriting afterName ts plain := by
  induction written with
  | nil spaced =>
      obtain ⟨blanks, rewrites, blank, _⟩ := rewrites_isSpacing spaced
      exact ⟨blanks, rewrites, .nil blank⟩
  | cons spaced apart spelled more ih =>
      rw [List.forall_mem_cons] at scanned
      obtain ⟨blanks, rewrites, blank, filled⟩ := rewrites_isSpacing spaced
      obtain ⟨rest, rewritesRest, writing⟩ := ih scanned.2
      have own := rewrites_isSpelling spelled scanned.1
      exact ⟨_, rewrites_append rewrites (rewrites_append own rewritesRest),
        .cons blank (fun after name => filled (apart after name)) rfl writing⟩

theorem unifySpellingsChars_eq (text : List Char) :
    unifySpellingsChars text = Text.trimBlanks (unify text) := by
  simp only [unifySpellingsChars, unify, replaceSpellings, Function.comp_apply]
  rfl

/-- What is scanned in a text that writes tokens. -/
theorem contents_tokenize {source : String}
    (written : Writing Text.IsSpacing IsSpelling afterName ts source.toList)
    (scanned : ∀ t ∈ ts, t.IsScanned) :
    contents (tokenize (unifySpellings source)) = some (ts.map fun t => (t.kind, t.text)) := by
  obtain ⟨plain, rewrites, writing⟩ := exists_plainWriting written scanned
  have unified : unify source.toList = plain := by
    have nothing : unify [] = [] := by decide +kernel
    simpa [nothing] using rewrites []
  rw [tokenize, tokenizeBy, unifySpellings, String.toList_ofList, unifySpellingsChars_eq, unified,
    contents_trimBlanks 0 0, contents_scanBy_of_writing writing scanned]

theorem exists_of_contents {scanned : Except LexError (List Token)} {l : List (TokenKind × String)}
    (found : contents scanned = some l) :
    ∃ ts, scanned = .ok ts ∧ ts.map (fun t => (t.kind, t.text)) = l := by
  cases scanned with
  | error e => cases found
  | ok ts => exact ⟨ts, rfl, Option.some.inj found⟩

/-- The grammar sees the kinds and the texts of tokens. -/
theorem map_word_eq {us : List Token}
    (same : us.map (fun t => (t.kind, t.text)) = ts.map fun t => (t.kind, t.text)) :
    us.map Token.word = ts.map Token.word := by
  let word (content : TokenKind × String) : Grammar.Word :=
    if content.1 = .name then .name content.2 else .symbol content.1
  have words := congrArg (List.map word) same
  rwa [List.map_map, List.map_map] at words

theorem wellNamed_of_isScanned (scanned : ∀ t ∈ ts, t.IsScanned) : WellNamed ts := by
  intro t member named
  rcases scanned t member with ⟨_, name⟩ | ⟨c, symbol, _⟩
  · exact name
  · exact absurd named (plain_of_ofSymbol? symbol).2.2

/-- A text that writes tokens is read as they are. -/
theorem parse_eq_ok_iff {source : String} {f : Formula}
    (written : Writing Text.IsSpacing IsSpelling afterName ts source.toList)
    (scanned : ∀ t ∈ ts, t.IsScanned) :
    Formula.parse source = .ok f ↔ Formula.ofTokens ts = .ok f := by
  obtain ⟨us, found, same⟩ := exists_of_contents (contents_tokenize written scanned)
  have words := map_word_eq same
  have named := RecognitionLemmas.empty_not_mem_words (wellNamed_of_isScanned scanned)
  have parsed : Formula.parse source = .ok f ↔ Formula.ofTokens us = .ok f := by
    simp [RuleLemmas.parse_eq_ok, found]
  rw [parsed, RecognitionLemmas.ofTokens_eq_ok_iff_derivation (words ▸ named),
    RecognitionLemmas.ofTokens_eq_ok_iff_derivation named, words]

end

end SpellingLemmas

open SpellingLemmas in
/-- Spellings do not matter. A text that writes tokens which some scan has found, with any spelling
of each operator and any space around the tokens, is scanned to tokens of the same kinds and texts,
and is read as the same formula. -/
theorem spellings_agree {source text : String} {ts : List Token}
    (scanned : tokenize source = .ok ts)
    (written : Token.Writing Text.IsSpacing Token.IsSpelling false ts text.toList) :
    (∃ us, tokenize (unifySpellings text) = .ok us ∧
      us.map (fun t => (t.kind, t.text)) = ts.map fun t => (t.kind, t.text)) ∧
    ∀ f, Formula.parse text = .ok f ↔ Formula.ofTokens ts = .ok f := by
  have each := ScanLemmas.isScanned_of_tokenize scanned
  exact ⟨exists_of_contents (contents_tokenize written each), fun f => parse_eq_ok_iff written each⟩

open Token Text in
/-- Commands with two backslashes, an arrow in ASCII glued to its neighbours, and space of several
kinds. -/
theorem spellings_agree_commands :
    let ts : List Token := [⟨.all, "∀", 0⟩, ⟨.name, "x", 1⟩, ⟨.name, "P", 3⟩, ⟨.imp, "→", 5⟩,
      ⟨.neg, "¬", 7⟩, ⟨.name, "Q", 8⟩]
    tokenize "∀x P → ¬Q" = .ok ts ∧
      Writing IsSpacing IsSpelling false ts "\\\\forall x\u00a0\\\\,P->!Q\\quad".toList ∧
      ∃ us, tokenize (unifySpellings "\\\\forall x\u00a0\\\\,P->!Q\\quad") = .ok us ∧
        us.map (fun t => (t.kind, t.text)) = ts.map fun t => (t.kind, t.text) := by
  intro ts
  have scanned : tokenize "∀x P → ¬Q" = .ok ts := by decide +kernel
  have written :
      Writing IsSpacing IsSpelling false ts "\\\\forall x\u00a0\\\\,P->!Q\\quad".toList := by
    refine cast (congrArg (Writing IsSpacing IsSpelling false ts) ?same)
      (.cons .nil (by decide)
          (.other 1 (show ("\\forall", '∀') ∈ spellings by decide) rfl fun _ => rfl) <|
        .cons (.blank (show isBlank ' ' = true by decide) .nil) (by decide) .own <|
        .cons (.blank (show isBlank '\u00a0' = true by decide)
          (.command 1 (show "\\," ∈ spacingCommands by decide) .nil)) (by decide) .own <|
        .cons .nil (by decide) (.other 0 (show ("->", '→') ∈ spellings by decide) rfl (by decide)) <|
        .cons .nil (by decide) (.other 0 (show ("!", '¬') ∈ spellings by decide) rfl (by decide)) <|
        .cons .nil (by decide) .own <|
        .nil (.command 0 (show "\\quad" ∈ spacingCommands by decide) .nil))
    decide
  exact ⟨scanned, written, (spellings_agree scanned written).1⟩

end Clausal
