import Mathlib.Data.List.TakeWhile
import Clausal.Token.Coverage

/-!
# Scanning written tokens

A token ends where the next character does not belong to it, and blanks belong to no token. So
tokens that are written with blanks around them are found again, whatever the blanks are.

* `ScanLemmas.isScanned_of_scanBy`: what a scan finds are names and symbols.
* `ScanLemmas.contents_scanBy`, `ScanLemmas.contents_trimBlanks`: blanks at the ends of a text move
  its tokens and change nothing else.
* `ScanLemmas.contents_scanBy_of_writing`: a scan finds the tokens that were written.
-/

namespace Clausal

/-- What a scan finds, without the positions; nothing if it fails. -/
def Token.contents (scanned : Except LexError (List Token)) : Option (List (TokenKind × String)) :=
  scanned.toOption.map (·.map fun t => (t.kind, t.text))

namespace ScanLemmas

open Token

/-! ## Characters -/

section
variable {c : Char} {kind : TokenKind}

/-- The characters of names stand between the blanks. -/
theorem toNat_of_isNameChar (named : isNameChar c = true) : 33 ≤ c.toNat ∧ c.toNat ≤ 122 := by
  simp only [isNameChar, isNameStart, Bool.or_eq_true, decide_eq_true_eq] at named
  -- Letters and digits are intervals of code points.
  have capital (upper : c.isUpper = true) : 65 ≤ c.toNat ∧ c.toNat ≤ 90 := of_decide_eq_true upper
  have small (lower : c.isLower = true) : 97 ≤ c.toNat ∧ c.toNat ≤ 122 :=
    (Bool.and_eq_true_iff.mp lower).imp of_decide_eq_true of_decide_eq_true
  have figure (digit : c.isDigit = true) : 48 ≤ c.toNat ∧ c.toNat ≤ 57 :=
    (Bool.and_eq_true_iff.mp digit).imp of_decide_eq_true of_decide_eq_true
  rcases named with (letter | rfl) | digit
  · rcases Bool.or_eq_true_iff.mp letter with upper | lower
    · have := capital upper
      omega
    · have := small lower
      omega
  · decide
  · have := figure digit
    omega

theorem not_isBlank_of_isNameChar (named : isNameChar c = true) : Text.isBlank c = false := by
  have bounds := toNat_of_isNameChar named
  simp [Text.isBlank, Text.blankRanges, -Char.toNat_val]
  omega

theorem isNameChar_of_isNameStart (start : isNameStart c = true) : isNameChar c = true := by
  rw [isNameChar, start, Bool.true_or]

/-- A symbol is neither a blank nor a character of names. -/
theorem plain_of_ofSymbol? (symbol : TokenKind.ofSymbol? c = some kind) :
    Text.isBlank c = false ∧ isNameChar c = false ∧ kind ≠ .name := by
  unfold TokenKind.ofSymbol? at symbol
  split at symbol <;> cases symbol <;> decide

/-- The blanks of formula text are no characters of tokens. -/
theorem separates_isBlank : Text.Separates Text.isBlank where
  space := by decide
  symbol _ _ symbol := (plain_of_ofSymbol? symbol).1
  name _ := not_isBlank_of_isNameChar

theorem ofSymbol?_of_isNameStart (start : isNameStart c = true) : TokenKind.ofSymbol? c = none := by
  cases symbol : TokenKind.ofSymbol? c with
  | none => rfl
  | some kind =>
      have plain := (plain_of_ofSymbol? symbol).2.1
      rw [isNameChar_of_isNameStart start] at plain
      cases plain

end

/-! ## Steps of a scan -/

section
variable {blank : Char → Bool} {c : Char} {kind : TokenKind} {p : Nat} {rest : List Char}

@[simp] theorem scanBy_nil : scanBy blank p [] = .ok [] := by
  rw [scanBy]

theorem scanBy_blank (isBlank : blank c = true) :
    scanBy blank p (c :: rest) = scanBy blank (p + 1) rest := by
  rw [scanBy, if_pos isBlank]

theorem scanBy_symbol (separates : Text.Separates blank) (symbol : TokenKind.ofSymbol? c = some kind) :
    scanBy blank p (c :: rest) =
      (scanBy blank (p + 1) rest).map (⟨kind, c.toString, p⟩ :: ·) := by
  rw [scanBy, if_neg (by simp [separates.symbol c kind symbol]), symbol]
  rfl

/-- A name is taken as far as it goes. -/
theorem scanBy_start (separates : Text.Separates blank) (start : isNameStart c = true) :
    scanBy blank p (c :: rest) =
      (scanBy blank (p + (c :: rest.takeWhile isNameChar).length) (rest.dropWhile isNameChar)).map
        (⟨.name, String.ofList (c :: rest.takeWhile isNameChar), p⟩ :: ·) := by
  have visible := separates.name c (isNameChar_of_isNameStart start)
  rw [scanBy, if_neg (by simp [visible]), ofSymbol?_of_isNameStart start]
  simp only [start, if_true]
  rfl

theorem scanBy_error (visible : blank c = false) (symbol : TokenKind.ofSymbol? c = none)
    (start : isNameStart c = false) : scanBy blank p (c :: rest) = .error ⟨c, p⟩ := by
  rw [scanBy, if_neg (by simp [visible]), symbol]
  simp only [start, Bool.false_eq_true, if_false]

end

/-! ## Tokens that are found -/

@[simp] theorem contents_error (e : LexError) : contents (.error e) = none :=
  rfl

@[simp] theorem contents_ok (ts : List Token) :
    contents (.ok ts) = some (ts.map fun t => (t.kind, t.text)) :=
  rfl

@[simp] theorem contents_map_cons (t : Token) (scanned : Except LexError (List Token)) :
    contents (scanned.map (t :: ·)) = (contents scanned).map ((t.kind, t.text) :: ·) := by
  cases scanned <;> rfl

/-- What a scan finds does not depend on the offset of the text. -/
theorem contents_scanBy {blank : Char → Bool} (separates : Text.Separates blank) (p q : Nat)
    (text : List Char) : contents (scanBy blank p text) = contents (scanBy blank q text) := by
  induction p, text using scanBy.induct blank generalizing q with
  | case1 => simp
  | case2 p c rest isBlank ih =>
      rw [scanBy_blank isBlank, scanBy_blank isBlank]
      exact ih _
  | case3 p c rest visible kind symbol ih =>
      rw [scanBy_symbol separates symbol, scanBy_symbol separates symbol, contents_map_cons,
        contents_map_cons, ih (q + 1)]
  | case4 p c rest visible symbol start name ih =>
      rw [scanBy_start separates start, scanBy_start separates start, contents_map_cons,
        contents_map_cons]
      exact congrArg _ (ih _)
  | case5 p c rest visible symbol start =>
      have visible := Bool.eq_false_iff.mpr visible
      have start := Bool.eq_false_iff.mpr start
      rw [scanBy_error visible symbol start, scanBy_error visible symbol start, contents_error,
        contents_error]

theorem map_cons_eq_ok {t : Token} {ts : List Token} {scanned : Except LexError (List Token)}
    (same : scanned.map (t :: ·) = .ok ts) : ∃ more, scanned = .ok more ∧ ts = t :: more := by
  cases scanned with
  | error e => cases same
  | ok more => exact ⟨more, rfl, (Except.ok.inj same).symm⟩

theorem map_eq_error {t : Token} {scanned : Except LexError (List Token)} {e : LexError}
    (same : scanned.map (t :: ·) = .error e) : scanned = .error e := by
  cases scanned with
  | error e' => exact same
  | ok ts => cases same

theorem toList_toString (c : Char) : c.toString.toList = [c] := by
  simp

theorem isName_iff {text : String} : isName text = true ↔
    ∃ c rest, text.toList = c :: rest ∧ isNameStart c = true ∧ ∀ d ∈ rest, isNameChar d = true := by
  unfold isName
  split
  case h_1 empty => simp [empty]
  case h_2 c rest same =>
    simp only [same, Bool.and_eq_true, List.all_eq_true, List.cons.injEq]
    constructor
    · exact fun named => ⟨c, rest, ⟨rfl, rfl⟩, named⟩
    · rintro ⟨_, _, ⟨rfl, rfl⟩, named⟩
      exact named

theorem isNameChar_of_mem {text : String} {c : Char} (name : isName text = true)
    (member : c ∈ text.toList) : isNameChar c = true := by
  obtain ⟨first, rest, own, start, named⟩ := isName_iff.mp name
  rw [own] at member
  rcases List.mem_cons.mp member with rfl | member
  · exact isNameChar_of_isNameStart start
  · exact named c member

theorem isName_takeWhile {c : Char} {rest : List Char} (start : isNameStart c = true) :
    isName (String.ofList (c :: rest.takeWhile isNameChar)) = true := by
  simp [isName, String.toList_ofList, start]

/-- Every token that is found is a name or a symbol of its kind. -/
theorem isScanned_of_scanBy {blank : Char → Bool} (separates : Text.Separates blank) {p : Nat}
    {text : List Char} {ts : List Token} (scanned : scanBy blank p text = .ok ts) :
    ∀ t ∈ ts, t.IsScanned := by
  induction p, text using scanBy.induct blank generalizing ts with
  | case1 =>
      cases Except.ok.inj (scanBy_nil.symm.trans scanned)
      simp
  | case2 p c rest isBlank ih =>
      rw [scanBy_blank isBlank] at scanned
      exact ih scanned
  | case3 p c rest visible kind symbol ih =>
      rw [scanBy_symbol separates symbol] at scanned
      obtain ⟨more, found, rfl⟩ := map_cons_eq_ok scanned
      exact List.forall_mem_cons.mpr ⟨.inr ⟨c, symbol, rfl⟩, ih found⟩
  | @case4 p c rest visible symbol start name ih =>
      rw [scanBy_start separates start] at scanned
      obtain ⟨more, found, rfl⟩ := map_cons_eq_ok scanned
      exact List.forall_mem_cons.mpr ⟨.inl ⟨rfl, isName_takeWhile start⟩, ih found⟩
  | case5 p c rest visible symbol start =>
      have visible := Bool.eq_false_iff.mpr visible
      have start := Bool.eq_false_iff.mpr start
      rw [scanBy_error visible symbol start] at scanned
      cases scanned

theorem isScanned_of_tokenize {text : String} {ts : List Token} (scanned : tokenize text = .ok ts) :
    ∀ t ∈ ts, t.IsScanned :=
  isScanned_of_scanBy separates_isBlank scanned

/-! ## Blanks at the ends -/

section
variable {blank : Char → Bool} {p : Nat} {ys text gap : List Char}

/-- A name does not go on into a text that does not start with a character of names. -/
theorem takeWhile_append_of_stop (xs : List Char) (stop : ∀ c ∈ ys.head?, isNameChar c = false) :
    (xs ++ ys).takeWhile isNameChar = xs.takeWhile isNameChar ∧
      (xs ++ ys).dropWhile isNameChar = xs.dropWhile isNameChar ++ ys := by
  induction xs with
  | nil =>
      cases ys with
      | nil => exact ⟨rfl, rfl⟩
      | cons c rest =>
          have stops : ¬ isNameChar c = true := by simp [stop c rfl]
          exact ⟨List.takeWhile_cons_of_neg stops, List.dropWhile_cons_of_neg stops⟩
  | cons x xs ih =>
      by_cases named : isNameChar x = true
      · simp [named, ih]
      · simp [named]

theorem scanBy_append_blank (separates : Text.Separates blank) {b : Char} (isBlank : blank b = true) :
    scanBy blank p (text ++ [b]) = scanBy blank p text := by
  induction p, text using scanBy.induct blank with
  | case1 p => rw [List.nil_append, scanBy_blank isBlank, scanBy_nil, scanBy_nil]
  | case2 p c rest isBlank ih => rw [List.cons_append, scanBy_blank isBlank, scanBy_blank isBlank, ih]
  | case3 p c rest visible kind symbol ih =>
      rw [List.cons_append, scanBy_symbol separates symbol, scanBy_symbol separates symbol, ih]
  | case4 p c rest visible symbol start name ih =>
      have stop : ∀ c ∈ [b].head?, isNameChar c = false := by
        rintro c ⟨⟩
        exact Bool.eq_false_iff.mpr fun named =>
          Bool.eq_false_iff.mp (separates.name b named) isBlank
      obtain ⟨taken, dropped⟩ := takeWhile_append_of_stop rest stop
      rw [List.cons_append, scanBy_start separates start, scanBy_start separates start, taken, dropped]
      exact congrArg _ ih
  | case5 p c rest visible symbol start =>
      have visible := Bool.eq_false_iff.mpr visible
      have start := Bool.eq_false_iff.mpr start
      rw [List.cons_append, scanBy_error visible symbol start, scanBy_error visible symbol start]

/-- Blanks after a text change nothing. -/
theorem scanBy_append_blanks (separates : Text.Separates blank)
    (blanks : ∀ c ∈ gap, blank c = true) : scanBy blank p (text ++ gap) = scanBy blank p text := by
  induction gap generalizing text with
  | nil => rw [List.append_nil]
  | cons b gap ih =>
      rw [List.forall_mem_cons] at blanks
      rw [List.append_cons, ih blanks.2, scanBy_append_blank separates blanks.1]

/-- Blanks before a text are passed over. -/
theorem scanBy_blanks_append (blanks : ∀ c ∈ gap, blank c = true) :
    scanBy blank p (gap ++ text) = scanBy blank (p + gap.length) text := by
  induction gap generalizing p with
  | nil => rfl
  | cons b gap ih =>
      rw [List.forall_mem_cons] at blanks
      rw [List.cons_append, scanBy_blank blanks.1, ih blanks.2, List.length_cons,
        Nat.add_comm gap.length, Nat.add_assoc]

theorem exists_trimBlanks (text : List Char) : ∃ before after,
    text = before ++ Text.trimBlanks text ++ after ∧ (∀ c ∈ before, Text.isBlank c = true) ∧
      ∀ c ∈ after, Text.isBlank c = true := by
  let rest := text.dropWhile Text.isBlank
  refine ⟨text.takeWhile Text.isBlank, (rest.reverse.takeWhile Text.isBlank).reverse, ?_, ?_, ?_⟩
  · have trimmed :
        Text.trimBlanks text ++ (rest.reverse.takeWhile Text.isBlank).reverse = rest := by
      rw [Text.trimBlanks, ← List.reverse_append, List.takeWhile_append_dropWhile,
        List.reverse_reverse]
    rw [List.append_assoc, trimmed, List.takeWhile_append_dropWhile]
  · exact fun c member => List.all_eq_true.mp List.all_takeWhile c member
  · exact fun c member => List.all_eq_true.mp List.all_takeWhile c (List.mem_reverse.mp member)

/-- Trimming a text moves its tokens, and changes nothing else. -/
theorem contents_trimBlanks (p q : Nat) (text : List Char) :
    contents (scanBy Text.isBlank p (Text.trimBlanks text)) =
      contents (scanBy Text.isBlank q text) := by
  obtain ⟨before, after, same, former, latter⟩ := exists_trimBlanks text
  have separates := separates_isBlank
  calc contents (scanBy Text.isBlank p (Text.trimBlanks text))
    _ = contents (scanBy Text.isBlank (q + before.length) (Text.trimBlanks text)) :=
          contents_scanBy separates ..
    _ = contents (scanBy Text.isBlank q (before ++ Text.trimBlanks text ++ after)) := by
          rw [List.append_assoc, scanBy_blanks_append former, scanBy_append_blanks separates latter]
    _ = contents (scanBy Text.isBlank q text) := by rw [← same]

end

/-! ## Written tokens -/

/-- A token is found in front of what it does not go on into. -/
theorem contents_scanBy_token {blank : Char → Bool} {t : Token} {rest : List Char}
    (separates : Text.Separates blank) (scanned : t.IsScanned)
    (ends : t.kind = .name → ∀ c ∈ rest.head?, isNameChar c = false) (p : Nat) :
    contents (scanBy blank p (t.text.toList ++ rest)) =
      (contents (scanBy blank (p + t.text.toList.length) rest)).map ((t.kind, t.text) :: ·) := by
  rcases scanned with ⟨named, name⟩ | ⟨c, symbol, same⟩
  · obtain ⟨c, others, own, start, goesOn⟩ := isName_iff.mp name
    obtain ⟨taken, dropped⟩ := takeWhile_append_of_stop others (ends named)
    rw [List.takeWhile_eq_self_iff.mpr goesOn] at taken
    rw [List.dropWhile_eq_nil_iff.mpr goesOn, List.nil_append] at dropped
    rw [own, List.cons_append, scanBy_start separates start, taken, dropped, contents_map_cons,
      ← own, String.ofList_toList, named]
  · rw [same, toList_toString, List.singleton_append, scanBy_symbol separates symbol,
      contents_map_cons]
    rfl

/-- Writes tokens as they are, with blanks around them. -/
abbrev PlainWriting : Bool → List Token → List Char → Prop :=
  Writing (fun gap => ∀ c ∈ gap, Text.isBlank c = true) (fun t text => text = t.text.toList)

section
variable {t : Token} {ts : List Token} {text gap : List Char} {p : Nat} {afterName : Bool}

theorem not_isNameChar_of_blanks (blank : ∀ c ∈ gap, Text.isBlank c = true) :
    ∀ c ∈ gap.head?, isNameChar c = false := by
  intro c head
  refine Bool.eq_false_iff.mpr fun named => ?_
  have visible := not_isBlank_of_isNameChar named
  rw [blank c (List.mem_of_mem_head? head)] at visible
  cases visible

/-- A name ends before the tokens that are written after it. -/
theorem not_isNameChar_of_writing (written : PlainWriting true ts text)
    (scanned : ∀ t ∈ ts, t.IsScanned) : ∀ c ∈ text.head?, isNameChar c = false := by
  cases written with
  | nil spaced => exact not_isNameChar_of_blanks spaced
  | @cons _ t ts gap _ rest spaced apart spelled more =>
      subst spelled
      cases gap with
      | cons b gap =>
          intro c head
          exact not_isNameChar_of_blanks spaced c head
      | nil =>
          rcases scanned t List.mem_cons_self with ⟨named, _⟩ | ⟨c, symbol, text⟩
          · exact absurd rfl (apart rfl named)
          · rw [text, toList_toString]
            rintro _ ⟨⟩
            exact (plain_of_ofSymbol? symbol).2.1

/-- A text that writes tokens with blanks around them is scanned to these tokens. -/
theorem contents_scanBy_of_writing (written : PlainWriting afterName ts text)
    (scanned : ∀ t ∈ ts, t.IsScanned) :
    contents (scanBy Text.isBlank p text) = some (ts.map fun t => (t.kind, t.text)) := by
  have separates := separates_isBlank
  induction written generalizing p with
  | @nil _ gap spaced =>
      have blank : scanBy Text.isBlank p gap = .ok [] := by
        rw [← List.nil_append gap, scanBy_append_blanks separates spaced, scanBy_nil]
      rw [blank, contents_ok]
  | @cons _ t ts gap _ rest spaced apart spelled more ih =>
      subst spelled
      rw [List.forall_mem_cons] at scanned
      have ends : t.kind = .name → ∀ c ∈ rest.head?, isNameChar c = false := by
        intro named
        rw [decide_eq_true named] at more
        exact not_isNameChar_of_writing more scanned.2
      rw [scanBy_blanks_append spaced, contents_scanBy_token separates scanned.1 ends, ih scanned.2]
      rfl

end

end ScanLemmas

end Clausal
