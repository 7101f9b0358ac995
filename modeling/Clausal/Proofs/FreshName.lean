import Mathlib.Data.List.Nodup
import Clausal.Formula.FreshName

/-!
# Fresh names are fresh

The candidates for a new name differ from one another, so that the search may forget a candidate that
it met in use. It finds the first candidate that is not in use; names that are taken one after the
other differ from those in use and from one another.

* `FreshNameLemmas.firstUnused_spec` says what the search finds.
* `FreshNameLemmas.not_mem_used_of_mem_freshNames`, `FreshNameLemmas.nodup_freshNames`: new names.
-/

namespace Clausal.FreshNameLemmas

/-- A stem with a number tells the number. -/
theorem numbered_injective {stem : String} {m n : Nat}
    (same : stem ++ toString m = stem ++ toString n) : m = n := by
  rw [String.append_right_inj, Nat.toString_eq_ofList_toDigits, Nat.toString_eq_ofList_toDigits,
    String.ofList_inj] at same
  rw [← Nat.ofDigitChars_ten_toDigits (n := m), same, Nat.ofDigitChars_ten_toDigits]

theorem candidate_succ_ne {base : String} {n : Nat} : candidate base (n + 1) ≠ base := by
  intro same
  rw [candidate, String.append_eq_left_iff, Nat.toString_eq_ofList_toDigits] at same
  exact Nat.toDigits_ne_nil (String.ofList_inj.mp same)

/-- The candidates differ from one another. -/
theorem candidate_injective (base : String) : Function.Injective (candidate base) := by
  intro m n same
  match m, n with
  | 0, 0 => rfl
  | 0, n + 1 => exact absurd same.symm candidate_succ_ne
  | m + 1, 0 => exact absurd same candidate_succ_ne
  | m + 1, n + 1 => exact numbered_injective same

/-! ## The search -/

/-- The search finds the first candidate from number `n` on that is not in use. -/
theorem firstUnused_spec (base : String) (used : List String) (n : Nat) :
    n ≤ firstUnused base used n ∧ candidate base (firstUnused base used n) ∉ used ∧
      ∀ k, n ≤ k → k < firstUnused base used n → candidate base k ∈ used := by
  induction used, n using firstUnused.induct base with
  | case1 used n taken ih =>
      obtain ⟨further, unused, between⟩ := ih
      rw [firstUnused, if_pos taken]
      refine ⟨Nat.le_of_succ_le further, fun inside => unused ?_, fun k above below => ?_⟩
      · -- The candidate that was forgotten is a different one.
        refine (List.mem_erase_of_ne fun same => ?_).mpr inside
        have := candidate_injective base same
        omega
      · rcases Nat.eq_or_lt_of_le above with same | more
        · exact same ▸ taken
        · exact List.mem_of_mem_erase (between k more below)
  | case2 used n unused =>
      rw [firstUnused, if_neg unused]
      exact ⟨Nat.le_refl n, unused, fun k above below => absurd above (Nat.not_le_of_lt below)⟩

/-! ## Several new names -/

theorem length_freshNames (base : String) (used : List String) (n count : Nat) :
    (freshNames base used n count).length = count := by
  induction count generalizing n with
  | zero => rfl
  | succ count ih => rw [freshNames, List.length_cons, ih]

/-- A new name is a candidate from number `n` on that is not in use. -/
theorem candidate_of_mem_freshNames {base : String} {used : List String} {n count : Nat}
    {x : String} (member : x ∈ freshNames base used n count) :
    ∃ k, n ≤ k ∧ x = candidate base k ∧ x ∉ used := by
  induction count generalizing n with
  | zero => exact absurd member List.not_mem_nil
  | succ count ih =>
      obtain ⟨further, unused, _⟩ := firstUnused_spec base used n
      rw [freshNames, List.mem_cons] at member
      rcases member with rfl | member
      · exact ⟨_, further, rfl, unused⟩
      · obtain ⟨k, above, named, unused⟩ := ih member
        exact ⟨k, by omega, named, unused⟩

theorem not_mem_used_of_mem_freshNames {base : String} {used : List String} {n count : Nat}
    {x : String} (member : x ∈ freshNames base used n count) : x ∉ used := by
  obtain ⟨_, _, _, unused⟩ := candidate_of_mem_freshNames member
  exact unused

/-- New names differ from one another. -/
theorem nodup_freshNames (base : String) (used : List String) (n count : Nat) :
    (freshNames base used n count).Nodup := by
  induction count generalizing n with
  | zero => exact List.nodup_nil
  | succ count ih =>
      rw [freshNames]
      refine List.nodup_cons.mpr ⟨fun again => ?_, ih _⟩
      obtain ⟨k, above, same, _⟩ := candidate_of_mem_freshNames again
      have := candidate_injective base same
      omega

end Clausal.FreshNameLemmas
