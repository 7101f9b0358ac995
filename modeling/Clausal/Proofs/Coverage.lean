import Mathlib.Data.Nat.Find
import Clausal.Proofs.Scan

/-!
# A scan covers the text

A scan goes through a text from its beginning, and every piece that it takes is a blank, a symbol or
a name up to its end. No name crosses the border between two pieces, so that what is true of a piece
and of the text after it is true of both together.

* `CoverageLemmas.covers_scanBy`: the tokens that are found make up the text together with blanks.
* `CoverageLemmas.isStray_iff`: whether a character is stray can be told from the text before it.
* `CoverageLemmas.isFirstStray_scanBy`: an error tells the first stray character.
* `tokens_cover_text`: what is found, when a scan fails, and where.
-/

namespace Clausal

/-- A name ends where the text ends. -/
def Text.EndsInName (text : List Char) : Prop :=
  ∃ name, isName (String.ofList name) = true ∧ name <:+ text

/-- No name goes on from the first text into the second. -/
def Text.IsBorder (front rest : List Char) : Prop :=
  ∀ c ∈ front.getLast?, isNameChar c = true → ∀ d ∈ rest.head?, isNameChar d = false

namespace CoverageLemmas

open Token Text ScanLemmas

/-! ## Names -/

section
variable {name more : List Char} {c : Char}

theorem isName_ofList_iff : isName (String.ofList name) = true ↔
    ∃ c rest, name = c :: rest ∧ isNameStart c = true ∧ ∀ d ∈ rest, isNameChar d = true := by
  rw [isName_iff, String.toList_ofList]

theorem isNameChar_of_mem_ofList (named : isName (String.ofList name) = true) (member : c ∈ name) :
    isNameChar c = true :=
  isNameChar_of_mem named (String.toList_ofList.symm ▸ member)

/-- The beginning of a name is a name. -/
theorem isName_take {n : Nat} (named : isName (String.ofList name) = true) (positive : 0 < n) :
    isName (String.ofList (name.take n)) = true := by
  obtain ⟨c, rest, rfl, start, others⟩ := isName_ofList_iff.mp named
  obtain ⟨m, rfl⟩ := Nat.exists_eq_add_one.mpr positive
  rw [List.take_succ_cons]
  exact isName_ofList_iff.mpr ⟨c, rest.take m, rfl, start,
    fun d member => others d (List.mem_of_mem_take member)⟩

theorem isName_append (named : isName (String.ofList name) = true)
    (goesOn : ∀ d ∈ more, isNameChar d = true) : isName (String.ofList (name ++ more)) = true := by
  obtain ⟨c, rest, rfl, start, others⟩ := isName_ofList_iff.mp named
  refine isName_ofList_iff.mpr ⟨c, rest ++ more, rfl, start, fun d member => ?_⟩
  rcases List.mem_append.mp member with inside | after
  · exact others d inside
  · exact goesOn d after

/-- What is left of a text after a name does not go on with the name. -/
theorem not_isNameChar_dropWhile (rest : List Char) :
    ∀ c ∈ (rest.dropWhile isNameChar).head?, isNameChar c = false := by
  intro c head
  have stops := List.head?_dropWhile_not isNameChar rest
  rw [Option.mem_def.mp head] at stops
  exact stops

theorem ne_nil_of_isName (named : isName (String.ofList name) = true) : name ≠ [] := by
  obtain ⟨c, rest, rfl, -, -⟩ := isName_ofList_iff.mp named
  exact List.cons_ne_nil c rest

end

/-! ## Tokens and blanks make up the text -/

section
variable {blank : Char → Bool} {t : Token} {ts : List Token} {front rest text : List Char} {p : Nat}

theorem length_pos_of_isScanned (scanned : t.IsScanned) : 0 < t.text.length := by
  rw [← String.length_toList]
  rcases scanned with ⟨-, named⟩ | ⟨c, -, same⟩
  · obtain ⟨c, rest, same, -, -⟩ := isName_iff.mp named
    simp [same]
  · simp [same]

/-- A token stands in front of what it does not go on into. -/
theorem standsAt_zero (ends : t.kind = .name → ∀ c ∈ rest.head?, isNameChar c = false) :
    t.StandsAt (t.text.toList ++ rest) 0 where
  same := List.prefix_append _ _
  ends named c found := by
    rw [Nat.zero_add, ← String.length_toList, List.getElem?_append_right le_rfl, Nat.sub_self,
      ← List.head?_eq_getElem?] at found
    exact ends named c found

theorem standsAt_append {place : Nat} (stands : t.StandsAt rest place) :
    t.StandsAt (front ++ rest) (front.length + place) where
  same := by
    rw [List.drop_length_add_append]
    exact stands.same
  ends named c found := by
    rw [Nat.add_assoc, List.getElem?_append_right (Nat.le_add_right _ _),
      Nat.add_sub_cancel_left] at found
    exact stands.ends named c found

/-- Where the tokens of a text stand when another text is put in front of it. -/
theorem placed_append (front : List Char) (later : Covers blank (p + front.length) rest ts)
    (member : t ∈ ts) :
    ∃ place : Nat, t.position = (p + place : Nat) ∧ t.StandsAt (front ++ rest) place := by
  obtain ⟨place, position, stands⟩ := later.placed t member
  exact ⟨front.length + place, by rw [position, Nat.add_assoc], standsAt_append stands⟩

/-- What is not blank belongs to a token, also after a text that is put in front. -/
theorem blank_append (front : List Char) (later : Covers blank (p + front.length) rest ts)
    {place : Nat} {c : Char} (after : front.length ≤ place) (found : (front ++ rest)[place]? = some c) :
    blank c = true ∨ ∃ t ∈ ts, t.position ≤ (p + place : Nat) ∧ (p + place : Nat) < t.finish := by
  obtain ⟨k, rfl⟩ := Nat.exists_eq_add_of_le after
  rw [List.getElem?_append_right after, Nat.add_sub_cancel_left] at found
  rw [← Nat.add_assoc]
  exact later.blank k c found

theorem covers_nil : Covers blank p [] [] where
  ordered := .nil
  scanned := by simp
  placed := by simp
  blank := by simp

/-- A blank in front of a text that is covered. -/
theorem covers_blank {c : Char} (isBlank : blank c = true)
    (later : Covers blank (p + 1) rest ts) : Covers blank p (c :: rest) ts where
  ordered := later.ordered
  scanned := later.scanned
  placed t member := placed_append [c] later member
  blank place d found := by
    cases place with
    | zero =>
        cases Option.some.inj found
        exact .inl isBlank
    | succ k => exact blank_append [c] later (Nat.le_add_left 1 k) found

/-- A token in front of a text that is covered. -/
theorem covers_cons (position : t.position = p) (scanned : t.IsScanned)
    (stands : t.StandsAt (t.text.toList ++ rest) 0)
    (later : Covers blank (p + t.text.toList.length) rest ts) :
    Covers blank p (t.text.toList ++ rest) (t :: ts) where
  ordered := by
    refine List.pairwise_cons.mpr ⟨fun u member => ?_, later.ordered⟩
    obtain ⟨place, after, -⟩ := later.placed u member
    have nonempty := length_pos_of_isScanned scanned
    rw [String.length_toList] at after
    rw [finish, position, after]
    omega
  scanned := List.forall_mem_cons.mpr ⟨scanned, later.scanned⟩
  placed := List.forall_mem_cons.mpr ⟨⟨0, position, stands⟩, fun u member =>
    placed_append t.text.toList later member⟩
  blank place c found := by
    by_cases inside : place < t.text.toList.length
    · refine .inr ⟨t, List.mem_cons_self, ?_⟩
      rw [String.length_toList] at inside
      rw [finish, position]
      omega
    · refine (blank_append t.text.toList later (Nat.le_of_not_lt inside) found).imp_right ?_
      rintro ⟨u, member, within⟩
      exact ⟨u, List.mem_cons_of_mem t member, within⟩

/-- A text is covered by the tokens that a scan finds in it. -/
theorem covers_scanBy (separates : Separates blank) (scanned : scanBy blank p text = .ok ts) :
    Covers blank p text ts := by
  induction p, text using scanBy.induct blank generalizing ts with
  | case1 p =>
      cases Except.ok.inj (scanBy_nil.symm.trans scanned)
      exact covers_nil
  | case2 p c rest isBlank ih =>
      rw [scanBy_blank isBlank] at scanned
      exact covers_blank isBlank (ih scanned)
  | case3 p c rest visible kind symbol ih =>
      rw [scanBy_symbol separates symbol] at scanned
      obtain ⟨more, found, rfl⟩ := map_cons_eq_ok scanned
      have noName := (plain_of_ofSymbol? symbol).2.2
      have covers := covers_cons (t := ⟨kind, c.toString, p⟩) (p := p) rfl (.inr ⟨c, symbol, rfl⟩)
        (standsAt_zero fun named => absurd named noName) (by simpa using ih found)
      simpa using covers
  | @case4 p c rest visible symbol start name ih =>
      rw [scanBy_start separates start] at scanned
      obtain ⟨more, found, rfl⟩ := map_cons_eq_ok scanned
      have covers := covers_cons (t := ⟨.name, String.ofList name, p⟩) (p := p) rfl
        (.inl ⟨rfl, isName_takeWhile start⟩)
        (standsAt_zero fun _ => not_isNameChar_dropWhile rest) (by simpa using ih found)
      simpa [name] using covers
  | case5 p c rest visible symbol start =>
      have visible := Bool.eq_false_iff.mpr visible
      have start := Bool.eq_false_iff.mpr start
      rw [scanBy_error visible symbol start] at scanned
      cases scanned

end

/-! ## Stray characters -/

section
variable {blank : Char → Bool} {front rest text : List Char} {place : Nat}

/-- A part of a text that begins at the same place and ends earlier. -/
theorem take_extract {i m n : Nat} (earlier : m ≤ n) :
    (text.extract i n).take (m - i) = text.extract i m := by
  rw [List.extract_eq_take_drop, List.extract_eq_take_drop, List.take_take,
    Nat.min_eq_left (Nat.sub_le_sub_right earlier i)]

theorem extract_append_extract {i m n : Nat} (former : i ≤ m) (latter : m ≤ n) :
    text.extract i m ++ text.extract m n = text.extract i n := by
  have later : (text.extract i n).drop (m - i) = text.extract m n := by
    rw [List.extract_eq_take_drop, List.extract_eq_take_drop, List.drop_take, List.drop_drop,
      Nat.sub_sub_sub_cancel_right former, Nat.add_sub_cancel' former]
  rw [← take_extract latter, ← later, List.take_append_drop]

theorem lt_of_isName_extract {i n : Nat}
    (named : isName (String.ofList (text.extract i n)) = true) : i < n := by
  have nonempty := ne_nil_of_isName named
  rw [List.extract_eq_take_drop] at nonempty
  by_contra after
  rw [Nat.sub_eq_zero_of_le (Nat.le_of_not_lt after), List.take_zero] at nonempty
  exact nonempty rfl

/-- A name that holds the character at a place can be cut off after this character. -/
theorem endsInName_of_extract {first last : Nat}
    (named : isName (String.ofList (text.extract first last)) = true) (after : first ≤ place)
    (before : place < last) : EndsInName (text.take (place + 1)) := by
  refine ⟨text.extract first (place + 1), ?_, ?_⟩
  · rw [← take_extract before]
    exact isName_take named (by omega)
  · rw [List.extract_eq_take_drop, ← List.drop_take]
    exact List.drop_suffix _ _

/-- A name does not go on beyond a character that belongs to no name. -/
theorem le_of_stops {i last n : Nat} (stops : ∀ c, text[last]? = some c → isNameChar c = false)
    (former : i ≤ last) (within : n ≤ text.length)
    (named : isName (String.ofList (text.extract i n)) = true) : n ≤ last := by
  by_contra beyond
  have exceeds : last < text.length := by omega
  have inside : text[last] ∈ text.extract i n := by
    rw [List.extract_eq_take_drop, List.mem_iff_getElem?]
    refine ⟨last - i, ?_⟩
    rw [List.getElem?_take, if_pos (by omega), List.getElem?_drop, Nat.add_sub_cancel' former]
    exact List.getElem?_eq_getElem exceeds
  have plain := stops _ (List.getElem?_eq_getElem exceeds)
  rw [isNameChar_of_mem_ofList named inside] at plain
  cases plain

/-- A name that ends with the character at a place is part of a name that is as long as can be. -/
theorem exists_isMaximalName (inside : place < text.length)
    (ends : EndsInName (text.take (place + 1))) :
    ∃ first last, IsMaximalName text first last ∧ first ≤ place ∧ place < last := by
  classical
  obtain ⟨name, named, before, same⟩ := ends
  -- It begins as early as a name can that ends here, and goes on as far as it can.
  have begins : ∃ first, isName (String.ofList (text.extract first (place + 1))) = true := by
    refine ⟨before.length, ?_⟩
    rwa [List.extract_eq_take_drop, ← List.drop_take, ← same, List.drop_append_length]
  let first := Nat.find begins
  let more := (text.drop (place + 1)).takeWhile isNameChar
  let left := (text.drop (place + 1)).dropWhile isNameChar
  have split : text.drop (place + 1) = more ++ left := List.takeWhile_append_dropWhile.symm
  have after : text.extract (place + 1) (place + 1 + more.length) = more := by
    rw [List.extract_eq_take_drop, Nat.add_sub_cancel_left, split, List.take_left]
  have stops : ∀ c, text[place + 1 + more.length]? = some c → isNameChar c = false := by
    rw [← List.head?_drop, ← List.drop_drop, split, List.drop_left]
    exact not_isNameChar_dropWhile (text.drop (place + 1))
  have early : first ≤ place := Nat.le_of_lt_succ (lt_of_isName_extract (Nat.find_spec begins))
  refine ⟨first, place + 1 + more.length, ⟨?within, ?name, ?maximal⟩, early, by omega⟩
  case within =>
    have lengths := congrArg List.length split
    rw [List.length_drop, List.length_append] at lengths
    omega
  case name =>
    rw [← extract_append_extract (Nat.le_succ_of_le early) (Nat.le_add_right _ _), after]
    exact isName_append (Nat.find_spec begins) fun d member => List.mem_takeWhile_imp member
  case maximal =>
    intro i n former latter within larger
    have cut := isName_take (n := place + 1 - i) larger (by omega)
    rw [take_extract (by omega)] at cut
    exact ⟨Nat.le_antisymm former (Nat.find_min' begins cut),
      Nat.le_antisymm (le_of_stops stops (by omega) within larger) latter⟩

/-- Whether a character is stray can be told from the text up to it. -/
theorem isStray_iff : IsStray blank text place ↔
    ∃ c, text[place]? = some c ∧ blank c = false ∧ TokenKind.ofSymbol? c = none ∧
      ¬ EndsInName (text.take (place + 1)) := by
  refine exists_congr fun c => and_congr_right fun found => ?_
  have inside : place < text.length := (List.getElem?_eq_some_iff.mp found).1
  refine and_congr_right fun _ => and_congr_right fun _ => not_congr ⟨?_, ?_⟩
  · rintro ⟨first, last, name, after, before⟩
    exact endsInName_of_extract name.name after before
  · exact exists_isMaximalName inside

theorem isStray_take {n : Nat} (before : place < n) :
    IsStray blank (text.take n) place ↔ IsStray blank text place := by
  simp only [isStray_iff, List.take_take, List.getElem?_take, if_pos before,
    Nat.min_eq_left (Nat.succ_le_of_lt before)]

theorem endsInName_append (border : IsBorder front rest) (nonempty : rest ≠ []) :
    EndsInName (front ++ rest) ↔ EndsInName rest := by
  constructor
  · rintro ⟨name, named, before, same⟩
    refine ⟨name, named, ?_⟩
    rcases List.append_eq_append_iff.mp same with ⟨m, rfl, rfl⟩ | ⟨m, rfl, rfl⟩
    · -- A name that began in the first text would go on over the border.
      rcases List.eq_nil_or_concat m with rfl | ⟨m, c, rfl⟩
      · exact List.suffix_rfl
      · obtain ⟨d, others, rfl⟩ := List.exists_cons_of_ne_nil nonempty
        have last : isNameChar c = true := isNameChar_of_mem_ofList named (by simp)
        have next : isNameChar d = true := isNameChar_of_mem_ofList named (by simp)
        rw [border c (by simp) last d (by simp)] at next
        cases next
    · exact List.suffix_append m name
  · rintro ⟨name, named, suffix⟩
    exact ⟨name, named, suffix.trans (List.suffix_append front rest)⟩

/-- Behind a border the stray characters are those of the second text. -/
theorem isStray_append (border : IsBorder front rest) :
    IsStray blank (front ++ rest) (front.length + place) ↔ IsStray blank rest place := by
  have taken : (front ++ rest).take (front.length + place + 1) = front ++ rest.take (place + 1) := by
    rw [Nat.add_assoc, List.take_length_add_append]
  have found : (front ++ rest)[front.length + place]? = rest[place]? := by
    rw [List.getElem?_append_right (Nat.le_add_right _ _), Nat.add_sub_cancel_left]
  simp only [isStray_iff, taken, found]
  refine exists_congr fun c => and_congr_right fun here => ?_
  have nonempty : rest.take (place + 1) ≠ [] := by
    have inside : place < rest.length := (List.getElem?_eq_some_iff.mp here).1
    intro empty
    have length := congrArg List.length empty
    rw [List.length_take, List.length_nil] at length
    omega
  have shorter : IsBorder front (rest.take (place + 1)) := by
    rw [IsBorder, List.head?_take, if_neg (Nat.succ_ne_zero place)]
    exact border
  rw [endsInName_append shorter nonempty]

/-- The first stray character of a text stays the first behind a border, if there is none before. -/
theorem isFirstStray_append (front : List Char) {c : Char} (border : IsBorder front rest)
    (clear : ∀ k < front.length, ¬ IsStray blank (front ++ rest) k)
    (later : LexError.IsFirstStray blank rest ⟨c, place⟩) :
    LexError.IsFirstStray blank (front ++ rest) ⟨c, front.length + place⟩ where
  here := by
    rw [List.getElem?_append_right (Nat.le_add_right _ _), Nat.add_sub_cancel_left]
    exact later.here
  stray := (isStray_append border).mpr later.stray
  first k before := by
    by_cases inside : k < front.length
    · exact clear k inside
    · obtain ⟨i, rfl⟩ := Nat.exists_eq_add_of_le (Nat.le_of_not_lt inside)
      rw [isStray_append border]
      exact later.first i (Nat.lt_of_add_lt_add_left before)

/-- The characters of a name are not stray. -/
theorem not_isStray_name (named : isName (String.ofList front) = true) :
    ∀ k < front.length, ¬ IsStray blank (front ++ rest) k := by
  intro k inside stray
  obtain ⟨c, -, -, -, noName⟩ := isStray_iff.mp stray
  rw [List.take_append_of_le_length (Nat.succ_le_of_lt inside)] at noName
  exact noName ⟨_, isName_take named (Nat.succ_pos k), List.suffix_rfl⟩

/-- A blank or a symbol is not stray. -/
theorem not_isStray_head {c : Char} (known : blank c = true ∨ (TokenKind.ofSymbol? c).isSome) :
    ∀ k < [c].length, ¬ IsStray blank ([c] ++ rest) k := by
  intro k inside stray
  cases Nat.lt_one_iff.mp inside
  obtain ⟨d, here, visible, symbol, -⟩ := stray
  cases Option.some.inj here
  rcases known with isBlank | isSymbol
  · rw [visible] at isBlank
    cases isBlank
  · rw [symbol] at isSymbol
    cases isSymbol

theorem isBorder_singleton {c : Char} (plain : isNameChar c = false) : IsBorder [c] rest := by
  intro d last named
  cases Option.some.inj last
  rw [List.getLast_singleton, plain] at named
  cases named

/-- An error tells the first stray character of the text. -/
theorem isFirstStray_scanBy (separates : Separates blank) {p : Nat} {e : LexError}
    (failed : scanBy blank p text = .error e) :
    ∃ c place, e = ⟨c, p + place⟩ ∧ LexError.IsFirstStray blank text ⟨c, place⟩ := by
  induction p, text using scanBy.induct blank with
  | case1 p => rw [scanBy_nil] at failed; cases failed
  | case2 p c rest isBlank ih =>
      rw [scanBy_blank isBlank] at failed
      obtain ⟨d, place, rfl, later⟩ := ih failed
      have plain : isNameChar c = false := Bool.eq_false_iff.mpr fun named => by
        rw [separates.name c named] at isBlank
        cases isBlank
      exact ⟨d, 1 + place, by rw [Nat.add_assoc], isFirstStray_append [c]
        (isBorder_singleton plain) (not_isStray_head (.inl isBlank)) later⟩
  | case3 p c rest visible kind symbol ih =>
      rw [scanBy_symbol separates symbol] at failed
      obtain ⟨d, place, rfl, later⟩ := ih (map_eq_error failed)
      exact ⟨d, 1 + place, by rw [Nat.add_assoc], isFirstStray_append [c]
        (isBorder_singleton (plain_of_ofSymbol? symbol).2.1)
        (not_isStray_head (.inr (by rw [symbol]; rfl))) later⟩
  | case4 p c rest visible symbol start name ih =>
      rw [scanBy_start separates start] at failed
      obtain ⟨d, place, rfl, later⟩ := ih (map_eq_error failed)
      have border : IsBorder name (rest.dropWhile isNameChar) :=
        fun _ _ _ d next => not_isNameChar_dropWhile rest d next
      have found := isFirstStray_append name border (not_isStray_name (isName_takeWhile start)) later
      rw [List.cons_append, List.takeWhile_append_dropWhile] at found
      exact ⟨d, name.length + place, by rw [Nat.add_assoc], found⟩
  | case5 p c rest visible symbol start =>
      have visible := Bool.eq_false_iff.mpr visible
      have start := Bool.eq_false_iff.mpr start
      rw [scanBy_error visible symbol start] at failed
      cases Except.error.inj failed
      refine ⟨c, 0, rfl, rfl, isStray_iff.mpr ⟨c, rfl, visible, symbol, ?_⟩,
        fun k before => absurd before (Nat.not_lt_zero k)⟩
      rintro ⟨name, named, suffix⟩
      obtain ⟨d, others, rfl, starts, -⟩ := isName_ofList_iff.mp named
      rcases List.suffix_cons_iff.mp suffix with same | short
      · rw [(List.cons.inj same).1, start] at starts
        cases starts
      · cases List.suffix_nil.mp short

theorem extract_of_standsAt {t : Token} {first : Nat} (stands : t.StandsAt text first) :
    text.extract first (first + t.text.length) = t.text.toList := by
  rw [List.extract_eq_take_drop, Nat.add_sub_cancel_left, ← String.length_toList]
  exact (List.prefix_iff_eq_take.mp stands.same).symm

/-- What belongs to a token is not stray. -/
theorem not_isStray_of_covers {ts : List Token} (covers : Covers blank 0 text ts) (place : Nat) :
    ¬ IsStray blank text place := by
  intro stray
  obtain ⟨c, here, visible, symbol, noName⟩ := isStray_iff.mp stray
  rcases covers.blank place c here with isBlank | ⟨t, member, after, before⟩
  · rw [visible] at isBlank
    cases isBlank
  · obtain ⟨first, position, stands⟩ := covers.placed t member
    rw [finish, position] at before
    rw [position] at after
    rcases covers.scanned t member with ⟨-, named⟩ | ⟨d, isSymbol, same⟩
    · rw [← t.text.ofList_toList, ← extract_of_standsAt stands] at named
      exact noName (endsInName_of_extract named (by omega) (by omega))
    · have length : t.text.length = 1 := by simp [same]
      cases show place = first by omega
      obtain ⟨rest, starts⟩ := stands.same
      rw [same, toList_toString] at starts
      have head : text[place]? = some d := by
        rw [← List.head?_drop, ← starts]
        rfl
      rw [here] at head
      rw [Option.some.inj head, isSymbol] at symbol
      cases symbol

/-- A scan fails if some character is stray. -/
theorem exists_error_iff (separates : Separates blank) :
    (∃ e, scanBy blank 0 text = .error e) ↔ ∃ place, IsStray blank text place := by
  constructor
  · rintro ⟨e, failed⟩
    obtain ⟨c, place, -, found⟩ := isFirstStray_scanBy separates failed
    exact ⟨place, found.stray⟩
  · rintro ⟨place, stray⟩
    cases scanned : scanBy blank 0 text with
    | error e => exact ⟨e, rfl⟩
    | ok ts => exact absurd stray (not_isStray_of_covers (covers_scanBy separates scanned) place)

/-- The text before the first stray character is scanned. -/
theorem exists_ok_take (separates : Separates blank) {n : Nat}
    (clear : ∀ place < n, ¬ IsStray blank text place) :
    ∃ ts, scanBy blank 0 (text.take n) = .ok ts := by
  cases scanned : scanBy blank 0 (text.take n) with
  | ok ts => exact ⟨ts, rfl⟩
  | error e =>
      obtain ⟨place, stray⟩ := (exists_error_iff separates).mp ⟨e, scanned⟩
      obtain ⟨c, here, -⟩ := id stray
      have inside : place < n := by
        have short := (List.getElem?_eq_some_iff.mp here).1
        rw [List.length_take] at short
        omega
      exact absurd ((isStray_take inside).mp stray) (clear place inside)

end

/-! ## Tokens that are written again -/

section
variable {blank : Char → Bool} {ts : List Token}

/-- Tokens that are written with a space between them are found again. -/
theorem contents_scanBy_intercalate (separates : Separates blank) (scanned : ∀ t ∈ ts, t.IsScanned)
    (p : Nat) : contents (scanBy blank p ([' '].intercalate (ts.map fun t => t.text.toList))) =
      some (ts.map fun t => (t.kind, t.text)) := by
  induction ts generalizing p with
  | nil => rw [List.map_nil, List.intercalate_nil, scanBy_nil, contents_ok, List.map_nil]
  | cons t ts ih =>
      obtain ⟨first, others⟩ := List.forall_mem_cons.mp scanned
      cases ts with
      | nil =>
          have ends : t.kind = .name → ∀ c ∈ ([] : List Char).head?, isNameChar c = false := by simp
          have alone := contents_scanBy_token separates first ends p
          rw [List.append_nil, scanBy_nil] at alone
          rw [List.map_singleton, List.intercalate_singleton, alone]
          rfl
      | cons u us =>
          have plain : isNameChar ' ' = false := by decide
          have space : ∀ text, ∀ c ∈ (' ' :: text : List Char).head?, isNameChar c = false := by
            rintro _ _ ⟨⟩
            exact plain
          have later := ih others (p + t.text.toList.length + 1)
          rw [List.map_cons] at later
          rw [List.map_cons, List.map_cons, List.intercalate_cons_cons, List.append_assoc,
            List.singleton_append, contents_scanBy_token separates first fun _ => space _,
            scanBy_blank separates.space, later]
          rfl

end

end CoverageLemmas

/-! ## The scan of a text -/

open CoverageLemmas in
/-- Whatever the blanks are, the tokens that are found in a text make it up together with blanks, and
they are found again when they are written with a space between them. A scan fails if and only if some
character is neither a blank nor a symbol nor part of a name. It tells the first such character and
where it stands, and the text before it is scanned without an error. With the blanks of formula text
this is `tokenize`. -/
theorem tokens_cover_text {blank : Char → Bool} (separates : Text.Separates blank) (text : String) :
    let scanned := tokenizeBy blank text
    (blank = Text.isBlank → scanned = tokenize text) ∧
    (∀ ts, scanned = .ok ts → Token.Covers blank 0 text.toList ts ∧
      Token.contents (tokenizeBy blank (" ".intercalate (ts.map Token.text))) =
        some (ts.map fun t => (t.kind, t.text))) ∧
    ((∃ e, scanned = .error e) ↔ ∃ place, Text.IsStray blank text.toList place) ∧
    ∀ e, scanned = .error e → e.IsFirstStray blank text.toList ∧
      ∃ ts, tokenizeBy blank (String.ofList (text.toList.take e.position)) = .ok ts := by
  intro scanned
  refine ⟨?same, ?found, exists_error_iff separates, ?failed⟩
  case same =>
    rintro rfl
    rfl
  case found =>
    intro ts found
    have covers := covers_scanBy separates found
    refine ⟨covers, ?_⟩
    rw [tokenizeBy, String.toList_intercalate, List.map_map]
    exact contents_scanBy_intercalate separates covers.scanned 0
  case failed =>
    intro e failed
    obtain ⟨c, place, rfl, first⟩ := isFirstStray_scanBy separates failed
    rw [Nat.zero_add]
    refine ⟨first, ?_⟩
    rw [tokenizeBy, String.toList_ofList]
    exact exists_ok_take separates first.first

/-- Digits are characters of names, but the `2` stands in no name. Before it there is one. -/
theorem tokens_cover_text_digit :
    Text.Separates Text.isBlank ∧ tokenize "P1 2x" = .error ⟨'2', 3⟩ ∧
      LexError.IsFirstStray Text.isBlank "P1 2x".toList ⟨'2', 3⟩ ∧
      ∃ ts, tokenizeBy Text.isBlank "P1 " = .ok ts ∧
        Token.Covers Text.isBlank 0 "P1 ".toList ts := by
  have separates := ScanLemmas.separates_isBlank
  have error : tokenize "P1 2x" = .error ⟨'2', 3⟩ := by decide +kernel
  obtain ⟨same, -, -, failed⟩ := tokens_cover_text separates "P1 2x"
  obtain ⟨first, ts, found⟩ := failed _ ((same rfl).trans error)
  have before : String.ofList ("P1 2x".toList.take 3) = "P1 " := by decide
  rw [before] at found
  obtain ⟨-, covers, -⟩ := tokens_cover_text separates "P1 "
  exact ⟨separates, error, first, ts, found, (covers ts found).1⟩

end Clausal
