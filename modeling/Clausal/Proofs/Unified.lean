import Mathlib.Data.List.Infix
import Clausal.Proofs.Spelling

/-!
# Unified texts

A unified text holds symbols of operators and none of their other spellings, no LaTeX command that
only makes space, no run of backslashes, no no-break space, and no blanks at its ends.
`unifySpellings` makes a text unified by one blind replacement after the other. No pass brings back
what a pass before it has removed: a replacement only puts in a single character, and what it leaves
of the text on both sides of this character is as it was. So all that can be new in a text is
something with this character in it.

* `Text.IsUnified` says of a text that it is unified.
* `UnifiedLemmas.exists_of_suffix_replaceAny`, `UnifiedLemmas.exists_of_prefix_replaceAny`: the rests
  of a text after a replacement, and what stands in front of a rest.
* `UnifiedLemmas.infix_of_infix_replaceAny`, `UnifiedLemmas.not_infix_replaceAny`: a replacement
  brings in nothing without its symbol, and leaves nothing of its patterns.
* `UnifiedLemmas.unify_eq_self`: a unified text stays as it is.
* `unifySpellings_isUnified` puts everything together.
-/

namespace Clausal

/-- A text in which the spellings of operators are unified. -/
structure Text.IsUnified (text : List Char) : Prop where
  spelling : ∀ s ∈ spellings, ¬ s.1.toList <:+: text
  spacing : ∀ command ∈ spacingCommands, ¬ command.toList <:+: text
  backslashes : ¬ ['\\', '\\'] <:+: text
  noBreakSpace : '\u00a0' ∉ text
  starts : ∀ c ∈ text.head?, isBlank c = false
  ends : ∀ c ∈ text.getLast?, isBlank c = false

namespace UnifiedLemmas

open SpellingLemmas

/-! ## What stands in a text after a replacement -/

section
variable {patterns : List (List Char)} {c s : Char} {p q text rest : List Char}

/-- Where a pattern starts, the symbol is put in. -/
theorem replaceAny_of_prefix (member : p ∈ patterns) (nonempty : p ≠ []) (starts : p <+: text) :
    ∃ rest, replaceAny patterns s text = s :: rest := by
  cases text with
  | nil => exact absurd (List.prefix_nil.mp starts) nonempty
  | cons c text =>
      cases found : patterns.find? (·.isPrefixOf (c :: text)) with
      | none =>
          rw [List.find?_eq_none] at found
          exact absurd (List.isPrefixOf_iff_prefix.mpr starts) (found p member)
      | some pattern => exact ⟨_, by rw [replaceAny, found]⟩

/-- A rest of a text after a replacement comes from a rest of the text before. -/
theorem exists_of_suffix_replaceAny (ends : q <:+ replaceAny patterns s text) :
    ∃ rest, rest <:+ text ∧ q = replaceAny patterns s rest := by
  fun_induction replaceAny patterns s text with
  | case1 =>
      rw [List.suffix_nil] at ends
      exact ⟨[], List.suffix_rfl, by rw [ends, replaceAny]⟩
  | case2 c text pattern found ih =>
      rcases List.suffix_cons_iff.mp ends with rfl | later
      · exact ⟨c :: text, List.suffix_rfl, by rw [replaceAny, found]⟩
      · obtain ⟨rest, suffix, same⟩ := ih later
        exact ⟨rest, suffix.trans ((List.drop_suffix _ _).trans (List.suffix_cons c text)), same⟩
  | case3 c text unmatched ih =>
      rcases List.suffix_cons_iff.mp ends with rfl | later
      · exact ⟨c :: text, List.suffix_rfl, (replaceAny_cons_of_none unmatched).symm⟩
      · obtain ⟨rest, suffix, same⟩ := ih later
        exact ⟨rest, suffix.trans (List.suffix_cons c text), same⟩

/-- What stands in front of a text after a replacement stood there before, if the symbol that was put
in does not occur in it. -/
theorem exists_of_prefix_replaceAny (starts : p <+: replaceAny patterns s text) (absent : s ∉ p) :
    ∃ rest, text = p ++ rest ∧ replaceAny patterns s text = p ++ replaceAny patterns s rest := by
  induction p generalizing text with
  | nil => exact ⟨text, rfl, rfl⟩
  | cons c p ih =>
      rw [List.mem_cons, not_or] at absent
      cases text with
      | nil =>
          rw [replaceAny, List.prefix_nil] at starts
          cases starts
      | cons d text =>
          cases found : patterns.find? (·.isPrefixOf (d :: text)) with
          | none =>
              rw [replaceAny_cons_of_none found, List.cons_prefix_cons] at starts
              obtain ⟨rfl, starts⟩ := starts
              obtain ⟨rest, rfl, same⟩ := ih starts absent.2
              exact ⟨rest, rfl, by rw [replaceAny_cons_of_none found, same, List.cons_append]⟩
          | some pattern =>
              rw [replaceAny, found, List.cons_prefix_cons] at starts
              exact absurd starts.1.symm absent.1

/-- What occurs in a text after a replacement occurred in it before, if the symbol that was put in
does not occur in it. -/
theorem infix_of_infix_replaceAny (inside : p <:+: replaceAny patterns s text) (absent : s ∉ p) :
    p <:+: text := by
  obtain ⟨q, starts, ends⟩ := List.infix_iff_prefix_suffix.mp inside
  obtain ⟨rest, suffix, rfl⟩ := exists_of_suffix_replaceAny ends
  obtain ⟨others, rfl, _⟩ := exists_of_prefix_replaceAny starts absent
  exact (List.prefix_append p others).isInfix.trans suffix.isInfix

/-- A pattern does not occur after it has been replaced. -/
theorem not_infix_replaceAny (member : p ∈ patterns) (nonempty : p ≠ []) (absent : s ∉ p) :
    ¬ p <:+: replaceAny patterns s text := by
  intro inside
  obtain ⟨q, starts, ends⟩ := List.infix_iff_prefix_suffix.mp inside
  obtain ⟨rest, _, rfl⟩ := exists_of_suffix_replaceAny ends
  obtain ⟨others, rfl, same⟩ := exists_of_prefix_replaceAny starts absent
  obtain ⟨rest, replaced⟩ :=
    replaceAny_of_prefix (s := s) member nonempty (List.prefix_append p others)
  obtain ⟨c, p, rfl⟩ := List.exists_cons_of_ne_nil nonempty
  rw [same, List.cons_append, List.cons.injEq] at replaced
  exact absent (replaced.1 ▸ List.mem_cons_self)

/-- A pattern that ends in the symbol does not occur after the replacement either, if no pattern
stood where this symbol could have been put in. -/
theorem not_infix_replaceAny_append (member : p ++ [s] ∈ patterns) (nonempty : p ≠ []) (absent : s ∉ p)
    (apart : ∀ pattern ∈ patterns, ¬ p ++ pattern <:+: text) :
    ¬ p ++ [s] <:+: replaceAny patterns s text := by
  intro inside
  obtain ⟨q, starts, ends⟩ := List.infix_iff_prefix_suffix.mp inside
  obtain ⟨rest, suffix, rfl⟩ := exists_of_suffix_replaceAny ends
  obtain ⟨others, rfl, same⟩ :=
    exists_of_prefix_replaceAny ((List.prefix_append p [s]).trans starts) absent
  rw [same, List.prefix_append_right_inj] at starts
  cases others with
  | nil =>
      rw [replaceAny, List.prefix_nil] at starts
      cases starts
  | cons c others =>
      cases found : patterns.find? (·.isPrefixOf (c :: others)) with
      | none =>
          -- The symbol has been there, so that the pattern itself would have been replaced.
          rw [replaceAny_cons_of_none found, List.cons_prefix_cons] at starts
          have whole : p ++ [s] <+: p ++ c :: others := by
            rw [List.prefix_append_right_inj, starts.1]
            exact List.cons_prefix_cons.mpr ⟨rfl, List.nil_prefix⟩
          obtain ⟨rest, replaced⟩ := replaceAny_of_prefix (s := s) member (by simp) whole
          obtain ⟨d, p, rfl⟩ := List.exists_cons_of_ne_nil nonempty
          rw [same, List.cons_append, List.cons.injEq] at replaced
          exact absent (replaced.1 ▸ List.mem_cons_self)
      | some pattern =>
          have front : pattern <+: c :: others :=
            List.isPrefixOf_iff_prefix.mp
              (List.find?_some (p := fun q : List Char => q.isPrefixOf (c :: others)) found)
          refine apart pattern (List.mem_of_find?_eq_some found) ?_
          exact ((List.prefix_append_right_inj p).mpr front).isInfix.trans suffix.isInfix

/-- A text in which no pattern occurs stays as it is. -/
theorem replaceAny_eq_self (absent : ∀ pattern ∈ patterns, ¬ pattern <:+: text) :
    replaceAny patterns s text = text := by
  induction text with
  | nil => rw [replaceAny]
  | cons c text ih =>
      have unfound : patterns.find? (·.isPrefixOf (c :: text)) = Option.none := by
        rw [List.find?_eq_none]
        intro pattern member starts
        exact absent pattern member (List.isPrefixOf_iff_prefix.mp starts).isInfix
      rw [replaceAny_cons_of_none unfound, ih]
      exact fun pattern member inside => absent pattern member (List.infix_cons inside)

end

/-! ## All spellings in their order -/

section
variable {replaced : List (String × Char)} {p text : List Char}

theorem infix_of_infix_replaceSpellings (inside : p <:+: replaceSpellings replaced text)
    (absent : ∀ spelling ∈ replaced, spelling.2 ∉ p) : p <:+: text := by
  induction replaced generalizing text with
  | nil => exact inside
  | cons first replaced ih =>
      rw [List.forall_mem_cons] at absent
      exact infix_of_infix_replaceAny (ih inside absent.2) absent.1

/-- No spelling is left, whether or not one occurs in another. -/
theorem not_infix_replaceSpellings {spelling : String × Char} (member : spelling ∈ replaced)
    (nonempty : spelling.1.toList ≠ []) (absent : ∀ other ∈ replaced, other.2 ∉ spelling.1.toList) :
    ¬ spelling.1.toList <:+: replaceSpellings replaced text := by
  induction replaced generalizing text with
  | nil => cases member
  | cons first replaced ih =>
      rw [List.forall_mem_cons] at absent
      rcases List.mem_cons.mp member with rfl | later
      · intro inside
        exact not_infix_replaceAny List.mem_cons_self nonempty absent.1
          (infix_of_infix_replaceSpellings inside absent.2)
      · exact ih later absent.2

theorem replaceSpellings_eq_self (absent : ∀ s ∈ replaced, ¬ s.1.toList <:+: text) :
    replaceSpellings replaced text = text := by
  induction replaced with
  | nil => rfl
  | cons first replaced ih =>
      rw [List.forall_mem_cons] at absent
      have same : replaceAny [first.1.toList] first.2 text = text :=
        replaceAny_eq_self (List.forall_mem_singleton.mpr absent.1)
      show replaceSpellings replaced (replaceAny [first.1.toList] first.2 text) = text
      rw [same, ih absent.2]

end

/-! ## Backslashes -/

section
variable {c : Char} {text : List Char}

theorem head_collapse (text : List Char) : (collapseBackslashes text).head? = text.head? := by
  fun_induction collapseBackslashes text with
  | case1 rest ih => rw [ih, List.head?_cons, List.head?_cons]
  | case2 c rest _ _ => rw [List.head?_cons, List.head?_cons]
  | case3 => rfl

theorem mem_of_mem_collapse (member : c ∈ collapseBackslashes text) : c ∈ text := by
  fun_induction collapseBackslashes text with
  | case1 rest ih => exact List.mem_cons_of_mem _ (ih member)
  | case2 d rest _ ih =>
      rcases List.mem_cons.mp member with rfl | later
      · exact List.mem_cons_self
      · exact List.mem_cons_of_mem d (ih later)
  | case3 => exact member

/-- No run of backslashes is left. -/
theorem not_infix_collapse (text : List Char) : ¬ ['\\', '\\'] <:+: collapseBackslashes text := by
  fun_induction collapseBackslashes text with
  | case1 rest ih => exact ih
  | case2 c rest single ih =>
      intro inside
      rcases List.infix_cons_iff.mp inside with starts | later
      · obtain ⟨rfl, next⟩ := List.cons_prefix_cons.mp starts
        have head : rest.head? = some '\\' := by
          obtain ⟨others, same⟩ := next
          rw [← head_collapse, ← same]
          rfl
        obtain ⟨others, rfl⟩ := List.head?_eq_some_iff.mp head
        exact single others rfl rfl
      · exact ih later
  | case3 => exact fun inside => by cases List.infix_nil.mp inside

/-- A text without runs of backslashes stays as it is. -/
theorem collapse_eq_self (absent : ¬ ['\\', '\\'] <:+: text) : collapseBackslashes text = text := by
  fun_induction collapseBackslashes text with
  | case1 rest _ => exact absurd (List.prefix_append ['\\', '\\'] rest).isInfix absent
  | case2 c rest _ ih => rw [ih fun inside => absent (List.infix_cons inside)]
  | case3 => rfl

end

/-! ## Blanks at the ends -/

section
variable {text : List Char}

theorem not_isBlank_head_dropWhile (text : List Char) :
    ∀ c ∈ (text.dropWhile Text.isBlank).head?, Text.isBlank c = false := by
  intro c head
  have visible := List.head?_dropWhile_not Text.isBlank text
  rwa [Option.mem_def.mp head] at visible

theorem dropWhile_isBlank_eq_self (starts : ∀ c ∈ text.head?, Text.isBlank c = false) :
    text.dropWhile Text.isBlank = text := by
  cases text with
  | nil => rfl
  | cons c text => exact List.dropWhile_cons_of_neg (by simpa using starts c rfl)

theorem trimBlanks_infix (text : List Char) : Text.trimBlanks text <:+: text := by
  obtain ⟨before, after, same, _⟩ := ScanLemmas.exists_trimBlanks text
  exact ⟨before, after, same.symm⟩

theorem not_isBlank_head_trimBlanks (text : List Char) :
    ∀ c ∈ (Text.trimBlanks text).head?, Text.isBlank c = false := by
  intro c head
  refine not_isBlank_head_dropWhile text c ?_
  have front : Text.trimBlanks text <+: text.dropWhile Text.isBlank := by
    unfold Text.trimBlanks
    rw [← List.reverse_suffix, List.reverse_reverse]
    exact List.dropWhile_suffix _
  obtain ⟨others, trimmed⟩ := List.head?_eq_some_iff.mp (Option.mem_def.mp head)
  obtain ⟨after, same⟩ := front
  rw [← same, trimmed]
  rfl

theorem not_isBlank_getLast_trimBlanks (text : List Char) :
    ∀ c ∈ (Text.trimBlanks text).getLast?, Text.isBlank c = false := by
  unfold Text.trimBlanks
  rw [List.getLast?_reverse]
  exact not_isBlank_head_dropWhile _

/-- A text without blanks at its ends stays as it is. -/
theorem trimBlanks_eq_self (starts : ∀ c ∈ text.head?, Text.isBlank c = false)
    (ends : ∀ c ∈ text.getLast?, Text.isBlank c = false) : Text.trimBlanks text = text := by
  unfold Text.trimBlanks
  rw [← List.head?_reverse] at ends
  rw [dropWhile_isBlank_eq_self starts, dropWhile_isBlank_eq_self ends, List.reverse_reverse]

end

/-! ## All passes together -/

section
variable {text : List Char}

theorem symbol_not_mem_spelling :
    ∀ spelling ∈ spellings, ∀ other ∈ spellings, other.2 ∉ spelling.1.toList := by
  decide

theorem symbol_not_mem_spacing :
    ∀ command ∈ spacingCommands, ∀ other ∈ spellings, other.2 ∉ command.toList := by
  decide

theorem unify_apply (text : List Char) : unify text = replaceSpellings spellings
    (replaceAny (spacingCommands.map String.toList) ' '
      (collapseBackslashes (text.map respaced))) := by
  simp only [unify, Function.comp_apply]

theorem respaced_ne (c : Char) : respaced c ≠ '\u00a0' := by
  unfold respaced
  split
  · decide
  · assumption

theorem noBreakSpace_not_mem_unify (text : List Char) : '\u00a0' ∉ unify text := by
  intro member
  rw [← List.singleton_infix_iff, unify_apply] at member
  have spaced := infix_of_infix_replaceAny
    (infix_of_infix_replaceSpellings member (by decide)) (by decide)
  have mapped := mem_of_mem_collapse (List.singleton_infix_iff .. |>.mp spaced)
  obtain ⟨c, _, same⟩ := List.mem_map.mp mapped
  exact respaced_ne c same

theorem backslashes_not_infix_unify (text : List Char) : ¬ ['\\', '\\'] <:+: unify text := by
  intro inside
  rw [unify_apply] at inside
  exact not_infix_collapse _ (infix_of_infix_replaceAny
    (infix_of_infix_replaceSpellings inside (by decide)) (by decide))

theorem spelling_not_infix_unify (text : List Char) :
    ∀ spelling ∈ spellings, ¬ spelling.1.toList <:+: unify text := by
  intro spelling known
  have nonempty : ∀ spelling ∈ spellings, spelling.1.toList ≠ [] := by decide
  rw [unify_apply]
  exact not_infix_replaceSpellings known (nonempty spelling known)
    (symbol_not_mem_spelling spelling known)

/-- No command that only makes space is left. The one that ends in a space is not brought back by the
spaces that are put in for others, since two backslashes would have stood there. -/
theorem spacing_not_infix_unify (text : List Char) :
    ∀ command ∈ spacingCommands, ¬ command.toList <:+: unify text := by
  intro command known inside
  rw [unify_apply] at inside
  have shape : ∀ command ∈ spacingCommands, command.toList ≠ [] ∧
      (' ' ∉ command.toList ∨ command.toList = ['\\'] ++ [' ']) := by
    decide
  have openings : ∀ pattern ∈ spacingCommands.map String.toList, ['\\'] <+: pattern := by
    decide
  have listed : command.toList ∈ spacingCommands.map String.toList := List.mem_map_of_mem known
  have spaced := infix_of_infix_replaceSpellings inside (symbol_not_mem_spacing command known)
  obtain ⟨nonempty, absent | last⟩ := shape command known
  · exact not_infix_replaceAny listed nonempty absent spaced
  · rw [last] at listed spaced
    refine not_infix_replaceAny_append listed (List.cons_ne_nil _ _) (by decide) ?_ spaced
    intro pattern member twice
    have double : ['\\'] ++ ['\\'] <+: ['\\'] ++ pattern :=
      (List.prefix_append_right_inj _).mpr (openings pattern member)
    exact not_infix_collapse _ (double.isInfix.trans twice)

theorem isUnified_unifySpellingsChars (text : List Char) :
    Text.IsUnified (unifySpellingsChars text) := by
  rw [unifySpellingsChars_eq]
  have part := trimBlanks_infix (unify text)
  exact {
    spelling := fun s known inside => spelling_not_infix_unify text s known (inside.trans part)
    spacing := fun command known inside =>
      spacing_not_infix_unify text command known (inside.trans part)
    backslashes := fun inside => backslashes_not_infix_unify text (inside.trans part)
    noBreakSpace := fun member => noBreakSpace_not_mem_unify text (part.subset member)
    starts := not_isBlank_head_trimBlanks _
    ends := not_isBlank_getLast_trimBlanks _ }

theorem map_respaced_eq_self (absent : '\u00a0' ∉ text) : text.map respaced = text := by
  refine (List.map_congr_left fun c member => ?_).trans (List.map_id text)
  have other : c ≠ '\u00a0' := fun same => absent (same ▸ member)
  rw [respaced, if_neg other, id]

/-- No pass finds anything to change in a unified text. -/
theorem unify_eq_self (unified : Text.IsUnified text) : unify text = text := by
  have spaced : replaceAny (spacingCommands.map String.toList) ' ' text = text :=
    replaceAny_eq_self (List.forall_mem_map.mpr unified.spacing)
  rw [unify_apply, map_respaced_eq_self unified.noBreakSpace,
    collapse_eq_self unified.backslashes, spaced, replaceSpellings_eq_self unified.spelling]

theorem unifySpellingsChars_eq_self (unified : Text.IsUnified text) :
    unifySpellingsChars text = text := by
  rw [unifySpellingsChars_eq, unify_eq_self unified,
    trimBlanks_eq_self unified.starts unified.ends]

end

end UnifiedLemmas

open UnifiedLemmas in
/-- Unifying the spellings of a text makes it a unified text, and a second time changes nothing. The
texts that do not change are just those that are unified. -/
theorem unifySpellings_isUnified (text : String) :
    Text.IsUnified (unifySpellings text).toList ∧
      unifySpellings (unifySpellings text) = unifySpellings text ∧
      (unifySpellings text = text ↔ Text.IsUnified text.toList) := by
  have unified (text : String) : Text.IsUnified (unifySpellings text).toList := by
    rw [unifySpellings, String.toList_ofList]
    exact isUnified_unifySpellingsChars text.toList
  have kept {text : String} (unified : Text.IsUnified text.toList) : unifySpellings text = text := by
    rw [unifySpellings, unifySpellingsChars_eq_self unified, String.ofList_toList]
  refine ⟨unified text, kept (unified text), ?_, kept⟩
  intro same
  rw [← same]
  exact unified text

/-- What is left of `<-->` when its arrow has become a symbol is no spelling, and a backslash at the end
is no command. -/
example : unifySpellings "\\\\\\quad P <--> !Q \\" = "P <-→ ¬Q \\" := by cbv

end Clausal
