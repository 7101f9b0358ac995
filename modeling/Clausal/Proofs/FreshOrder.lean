import Mathlib.Data.Finset.Card
import Mathlib.Data.Finset.Filter
import Mathlib.Data.Finset.Dedup
import Clausal.Proofs.Stepwise

/-!
# Fresh names in their order

A search for a new name looks at one candidate after the other: at a name that it starts from, and then
at the base with one number after the other. Nothing in it counts down. It ends because the numbered
candidates differ from one another, so that each of the finitely many names in use is met once.

The searches of a whole formula share their number. Together they list the candidates that are no names
of the formula, from the base on and without a gap.

* `NameSearch.run` goes on until a name is not in use; `NameSearch.pending` falls with each candidate.
* `FreshOrderLemmas.run_spec`: where the search stops, and after how many candidates.
* `FreshOrderLemmas.fresh_eq_run`: a name supply takes what the search finds.
* `unusedCandidates`: the candidates less the names in use.
* `freshNames_in_order`: searches end, and the variables of a formula that is renamed apart are the
  first unused candidates.
-/

namespace Clausal

/-! ## Searching -/

/-- A search for a new name: the name to look at, and the number of the candidate after it. -/
structure NameSearch where
  name : String
  counter : Int
  deriving Repr, DecidableEq

namespace NameSearch

/-- Goes on to the next candidate. -/
def advance (base : String) (s : NameSearch) : NameSearch :=
  ⟨base ++ toString s.counter, s.counter + 1⟩

open Classical in
/-- The names in use that the candidates from number `n` on will meet. -/
noncomputable def ahead (base : String) (used : Finset String) (n : Int) : Finset String :=
  used.filter fun x => ∃ k, n ≤ k ∧ base ++ toString k = x

/-- A bound on the number of candidates that a search will still go on to. -/
noncomputable def pending (base : String) (used : Finset String) (s : NameSearch) : Nat :=
  if s.name ∈ used then (ahead base used s.counter).card + 1 else 0

section
variable {base : String} {used : Finset String} {s : NameSearch} {n : Int}

theorem mem_ahead {x : String} :
    x ∈ ahead base used n ↔ x ∈ used ∧ ∃ k, n ≤ k ∧ base ++ toString k = x := by
  simp only [ahead, Finset.mem_filter]

theorem toString_ne_signed (m n : Nat) : toString m ≠ "-" ++ toString n := by
  intro same
  have sign : '-' ∈ (toString m).toList := same ▸ by simp
  rw [Nat.toString_eq_ofList_toDigits, String.toList_ofList] at sign
  exact absurd (Nat.isDigit_of_mem_toDigits (by decide) (by decide) sign) (by decide)

/-- Numbers below zero differ from the others by their sign, and from one another as the others do. -/
theorem toString_injective {m n : Int} (same : toString m = toString n) : m = n := by
  cases m with
  | ofNat m =>
      cases n with
      | ofNat n => rw [FreshNameLemmas.numbered_injective (congrArg ("" ++ ·) same)]
      | negSucc n => exact absurd same (toString_ne_signed m (n + 1))
  | negSucc m =>
      cases n with
      | ofNat n => exact absurd same.symm (toString_ne_signed n (m + 1))
      | negSucc n =>
          have next : "-" ++ toString (m + 1) = "-" ++ toString (n + 1) := same
          rw [Nat.succ.inj (FreshNameLemmas.numbered_injective next)]

/-- A candidate is not met again at a later number. -/
theorem card_ahead_lt (met : base ++ toString n ∈ used) :
    (ahead base used (n + 1)).card < (ahead base used n).card := by
  refine Finset.card_lt_card ⟨fun x found => ?_, fun all => ?_⟩
  · obtain ⟨member, k, later, same⟩ := mem_ahead.mp found
    exact mem_ahead.mpr ⟨member, k, by omega, same⟩
  · obtain ⟨_, k, later, same⟩ := mem_ahead.mp (all (mem_ahead.mpr ⟨met, n, le_rfl, rfl⟩))
    have := toString_injective ((String.append_right_inj base).mp same)
    omega

theorem pending_advance_lt (met : s.name ∈ used) :
    (s.advance base).pending base used < s.pending base used := by
  rw [pending, pending, if_pos met]
  split
  case isTrue again => exact Nat.succ_lt_succ (card_ahead_lt again)
  case isFalse => exact Nat.succ_pos _

theorem pending_le (base : String) (used : Finset String) (s : NameSearch) :
    s.pending base used ≤ used.card + 1 := by
  rw [pending]
  split
  · exact Nat.succ_le_succ (Finset.card_le_card fun x found => (mem_ahead.mp found).1)
  · exact Nat.zero_le _

end

/-- Goes on until a name is not in use. -/
def run (base : String) (used : Finset String) (s : NameSearch) : NameSearch :=
  if s.name ∈ used then run base used (s.advance base) else s
termination_by s.pending base used
decreasing_by exact pending_advance_lt ‹_›

/-- The search from `s` stops at `e` after `n` further candidates: `e` is the first at which the name is
not in use. -/
structure StopsAfter (base : String) (used : Finset String) (s : NameSearch) (n : Nat)
    (e : NameSearch) : Prop where
  reached : (advance base)^[n] s = e
  passed : ∀ m < n, ((advance base)^[m] s).name ∈ used
  unused : e.name ∉ used

end NameSearch

/-- The candidates with `count` numbers from `n` on, without those that are in use. -/
def unusedCandidates (base : String) (used : List String) (n count : Nat) : List String :=
  ((List.range' n count).map (candidate base)).filter (· ∉ used)

namespace FreshOrderLemmas

open NameSearch

/-! ## The end of a search -/

/-- A search stops, after no more candidates than are pending. -/
theorem run_spec (base : String) (used : Finset String) (s : NameSearch) :
    ∃ n ≤ s.pending base used, s.StopsAfter base used n (s.run base used) := by
  induction s using NameSearch.run.induct base used with
  | case1 s met ih =>
      obtain ⟨n, within, reached, passed, unused⟩ := ih
      rw [NameSearch.run, if_pos met]
      -- One candidate more than from there on, and at least one more was pending.
      refine ⟨n + 1, (Nat.succ_le_succ within).trans (pending_advance_lt met), reached, ?_, unused⟩
      rintro (_ | m) before
      · exact met
      · exact passed m (Nat.lt_of_succ_lt_succ before)
  | case2 s unused =>
      rw [NameSearch.run, if_neg unused]
      exact ⟨0, Nat.zero_le _, rfl, nofun, unused⟩

/-! ## Searches of a supply -/

theorem advance_candidate (base : String) (n : Nat) :
    advance base ⟨candidate base n, (n : Int) + 1⟩ =
      ⟨candidate base (n + 1), ((n + 1 : Nat) : Int) + 1⟩ :=
  rfl

/-- A search that looks at a candidate stops at the first one from there on that is not in use. -/
theorem run_candidate (base : String) (used : List String) (n : Nat) :
    NameSearch.run base used.toFinset ⟨candidate base n, (n : Int) + 1⟩ =
      ⟨candidate base (firstUnused base used n), (firstUnused base used n : Int) + 1⟩ := by
  obtain ⟨further, unused, between⟩ := FreshNameLemmas.firstUnused_spec base used n
  generalize firstUnused base used n = p at further unused between ⊢
  obtain ⟨d, rfl⟩ := Nat.exists_eq_add_of_le further
  induction d generalizing n with
  | zero =>
      rw [Nat.add_zero] at unused ⊢
      rw [NameSearch.run, if_neg (mt List.mem_toFinset.mp unused)]
  | succ d ih =>
      have inUse := between n le_rfl (by omega)
      rw [NameSearch.run, if_pos (List.mem_toFinset.mpr inUse), advance_candidate]
      have shifted : n + 1 + d = n + (d + 1) := by omega
      have found := ih (n + 1) (by omega) (shifted ▸ unused)
        fun k above below => between k (by omega) (by omega)
      rwa [shifted] at found

/-- A supply whose numbers start from 1 takes the name that a search from the base finds, and goes on
from the number where the search has stopped. -/
theorem fresh_eq_run {s : NameSupply} (positive : 1 ≤ s.counter) (base x : String) :
    s.fresh base x =
      let e := NameSearch.run base s.used.toFinset ⟨base, s.counter⟩
      (e.name,
        { used := e.name :: s.used
          counter := e.counter.toNat
          renames := s.renames ++ [(x, e.name)] }) := by
  obtain ⟨before, same⟩ := Nat.exists_eq_add_of_le' positive
  rw [NameSearch.run]
  split
  case isTrue inUse =>
    -- The number 0 stands for the base, so that only candidates from 1 on are numbered.
    have numbered : advance base ⟨base, s.counter⟩ =
        ⟨candidate base s.counter, (s.counter : Int) + 1⟩ := by
      rw [same]
      rfl
    rw [numbered, run_candidate]
    rw [List.mem_toFinset] at inUse
    simp only [NameSupply.fresh, NameSupply.next, if_pos inUse]
    rfl
  case isFalse unused =>
    rw [List.mem_toFinset] at unused
    simp only [NameSupply.fresh, NameSupply.next, if_neg unused]
    rfl

theorem counter_fresh_pos {s : NameSupply} (positive : 1 ≤ s.counter) (base x : String) :
    1 ≤ (s.fresh base x).2.counter := by
  simp only [NameSupply.fresh]
  split
  · exact Nat.le_add_left 1 _
  · exact positive

/-! ## The list of fresh names -/

section
variable {base : String} {used : List String} {n m count : Nat}

theorem unusedCandidates_succ_of_mem (inUse : candidate base n ∈ used) :
    unusedCandidates base used n (m + 1) = unusedCandidates base used (n + 1) m := by
  rw [unusedCandidates, List.range'_succ, List.map_cons, List.filter_cons_of_neg (by simpa using inUse)]
  rfl

theorem unusedCandidates_succ_of_not_mem (unused : candidate base n ∉ used) :
    unusedCandidates base used n (m + 1) =
      candidate base n :: unusedCandidates base used (n + 1) m := by
  rw [unusedCandidates, List.range'_succ, List.map_cons, List.filter_cons_of_pos (by simpa using unused)]
  rfl

theorem firstUnused_of_mem (inUse : candidate base n ∈ used) :
    firstUnused base used n = firstUnused base used (n + 1) := by
  obtain ⟨further, unused, between⟩ := FreshNameLemmas.firstUnused_spec base used (n + 1)
  refine StepwiseLemmas.firstUnused_eq (Nat.le_of_succ_le further) unused fun k above below => ?_
  rcases Nat.eq_or_lt_of_le above with same | later
  · exact same ▸ inUse
  · exact between k later below

theorem firstUnused_of_not_mem (unused : candidate base n ∉ used) : firstUnused base used n = n := by
  rw [firstUnused, if_neg unused]

/-- The fresh names from a number on are the first unused candidates from there on. -/
theorem freshNames_eq_take (enough : count ≤ (unusedCandidates base used n m).length) :
    freshNames base used n count = (unusedCandidates base used n m).take count := by
  induction m generalizing n count with
  | zero =>
      obtain rfl : count = 0 := Nat.eq_zero_of_le_zero enough
      rfl
  | succ m ih =>
      cases count with
      | zero => rfl
      | succ count =>
          by_cases inUse : candidate base n ∈ used
          · rw [unusedCandidates_succ_of_mem inUse] at enough ⊢
            rw [← ih enough, freshNames, freshNames, firstUnused_of_mem inUse]
          · rw [unusedCandidates_succ_of_not_mem inUse] at enough ⊢
            rw [List.take_succ_cons, ← ih (Nat.le_of_succ_le_succ enough), freshNames,
              firstUnused_of_not_mem inUse]

/-- A list without repetitions has no more entries in use than there are names in use. -/
theorem length_le_of_nodup {names : List String} (distinct : names.Nodup) (used : List String) :
    names.length ≤ used.length + (names.filter (· ∉ used)).length := by
  have met : (names.filter (· ∈ used)).length ≤ used.length :=
    ((distinct.filter _).subperm fun x found => of_decide_eq_true (List.mem_filter.mp found).2).length_le
  rw [List.length_eq_length_filter_add (· ∈ used)]
  simp only [decide_not]
  exact Nat.add_le_add_right met _

theorem le_length_unusedCandidates (base : String) (used : List String) (n m : Nat) :
    m ≤ used.length + (unusedCandidates base used n m).length := by
  have distinct : ((List.range' n m).map (candidate base)).Nodup :=
    (List.nodup_range' 1).map (FreshNameLemmas.candidate_injective base)
  have bound := length_le_of_nodup distinct used
  rwa [List.length_map, List.length_range'] at bound

end

end FreshOrderLemmas

/-! ## Main result -/

open FreshOrderLemmas in
/-- Fresh names come in their canonical order, and the search for them ends. From every base and number,
whatever names are in use, a search stops at a name that is not in use, after at most one more candidate
than there are names in use. A supply takes the name at which the search from the base stops, and goes on
from the number where it stopped. When a formula is renamed apart, the variables of its quantifiers, in
their order, are the first candidates that are no names of the formula: as many as there are quantifiers,
out of every long enough list of candidates. -/
theorem freshNames_in_order (base : String) :
    (∀ (used : Finset String) (counter : Int), ∃ n ≤ used.card + 1,
      NameSearch.StopsAfter base used ⟨base, counter⟩ n (NameSearch.run base used ⟨base, counter⟩)) ∧
    (∀ (s : NameSupply) (x : String), 1 ≤ s.counter →
      let e := NameSearch.run base s.used.toFinset ⟨base, s.counter⟩
      s.fresh base x = (e.name,
        { used := e.name :: s.used
          counter := e.counter.toNat
          renames := s.renames ++ [(x, e.name)] }) ∧
      1 ≤ (s.fresh base x).2.counter) ∧
    ∀ f : Formula, base ≠ "" → ∃ r, Value.renameApart (.formula f) (.text base) = .ok r ∧
      r = f.renameStepwise base ∧ r.formula.quantified.length = f.quantifiers ∧
      ∀ count, f.variableNames.length + f.quantifiers ≤ count → r.formula.quantified =
        (unusedCandidates base f.variableNames 0 count).take f.quantifiers := by
  refine ⟨fun used counter => ?_, fun s x positive => ?_, fun f named => ?_⟩
  · obtain ⟨n, within, stops⟩ := run_spec base used ⟨base, counter⟩
    exact ⟨n, within.trans (NameSearch.pending_le base used _), stops⟩
  · exact ⟨fresh_eq_run positive base x, counter_fresh_pos positive base x⟩
  · refine ⟨f.renameApart base, ApartLemmas.renameApart_text named f,
      (StepwiseLemmas.renameStepwise_eq base f).symm, ?_, fun count long => ?_⟩
    · rw [ApartLemmas.quantified_renameApart, FreshNameLemmas.length_freshNames]
    · rw [ApartLemmas.quantified_renameApart]
      have := le_length_unusedCandidates base f.variableNames 0 count
      exact freshNames_eq_take (by omega)

/-- In `∀y P(y, x1) ∨ ∀y Q(y)` the name `x1` is passed over. -/
theorem freshNames_in_order_numbered :
    let f : Formula := .disj (.quant .all "y" (.atom ⟨"P", [.var "y", .var "x1"]⟩))
      (.quant .all "y" (.atom ⟨"Q", [.var "y"]⟩))
    let s : NameSupply := { used := ["x", "x1", "y"] }
    ("x" ≠ "" ∧ ∃ r, Value.renameApart (.formula f) (.text "x") = .ok r ∧
      r.formula.quantified = ["x", "x2"]) ∧
    1 ≤ s.counter ∧ s.fresh "x" "y" =
      ("x2", { used := ["x2", "x", "x1", "y"], counter := 3, renames := [("y", "x2")] }) := by
  intro f s
  obtain ⟨_, supplies, whole⟩ := freshNames_in_order "x"
  have named : "x" ≠ "" := by decide
  have positive : 1 ≤ s.counter := by decide
  obtain ⟨r, renamed, _, _, first⟩ := whole f named
  have names : f.variableNames = ["y", "y", "x1", "y", "y"] := by
    simp [f, Formula.disj, Formula.variableNames, Atom.variableNames, Term.variableNames]
  have two : f.quantifiers = 2 := by simp [f, Formula.disj, Formula.quantifiers]
  rw [names, two] at first
  have found : NameSearch.run "x" s.used.toFinset ⟨"x", s.counter⟩ = ⟨"x2", 3⟩ := by
    rw [NameSearch.run, if_pos (by decide), NameSearch.run, if_pos (by decide), NameSearch.run,
      if_neg (by decide)]
    decide
  refine ⟨⟨named, r, renamed, (first 7 (by decide)).trans (by decide)⟩, positive, ?_⟩
  rw [(supplies s "y" positive).1, found]
  rfl

end Clausal
