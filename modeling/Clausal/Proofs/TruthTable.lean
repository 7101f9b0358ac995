import Mathlib.Algebra.Group.Nat.Defs
import Clausal.Formula.Semantics
import Clausal.Formula.TruthTable
import Clausal.Proofs.Members

/-!
# Truth tables and meaning

A formula without quantifiers holds if it is true for the truth of its atoms. Its truth table has a row
for each way in which the written forms of its atoms may be true or false, so that an interpretation in
which atoms of one written form are alike finds the truth of the formula in one of the rows.

* `TruthTableLemmas.evaluate_iff_holds`: the truth value for the truth of the atoms.
* `TruthTableLemmas.mem_truthRows`: the rows are all lists of their length.
* `truthTable_tabulates`: which formulas have a truth table, and what it says of their truth.
-/

namespace Clausal

namespace TruthTableLemmas

open Formula

variable {D : Type u} {I : Interpretation D} {s : String → D} {f : Formula}

/-! ## Truth values -/

/-- The truth value of a junction is true if what the junction says of its members is. -/
theorem truth_eq_true_iff {op : Junctor} {fs : List Formula} {truth : Atom → Bool}
    (each : ∀ f ∈ fs, f.evaluate truth = true ↔ f.Holds I s) :
    op.truth (fs.map (evaluate truth)) = true ↔ op.Joins (fs.map (Holds I s)) := by
  rw [SemanticsLemmas.joins_map]
  cases op with
  | conj =>
      simp only [Junctor.truth, List.all_map, List.all_eq_true, Function.comp_apply, id]
      exact forall₂_congr each
  | disj =>
      simp only [Junctor.truth, List.any_map, List.any_eq_true, Function.comp_apply, id]
      exact exists_congr fun f => and_congr_right (each f)

/-- Without quantifiers, the truth of the atoms decides. -/
theorem evaluate_iff_holds {truth : Atom → Bool} (quantifierFree : f.IsQuantifierFree)
    (agrees : ∀ p ∈ f.atoms, truth p = true ↔ p.Holds I s) :
    f.evaluate truth = true ↔ f.Holds I s := by
  induction f using Formula.rec_memberList with
  | atom p =>
      rw [evaluate, Holds]
      exact agrees p (by simp [atoms])
  | neg f ih =>
      rw [IsQuantifierFree] at quantifierFree
      rw [atoms] at agrees
      rw [evaluate, Holds, Bool.not_eq_true', ← Bool.not_eq_true, ih quantifierFree agrees]
  | junction op a b rest ih =>
      rw [isQuantifierFree_junction] at quantifierFree
      rw [atoms_junction] at agrees
      rw [evaluate, Holds]
      exact truth_eq_true_iff fun f member => ih f member (quantifierFree f member)
        fun p inside => agrees p (List.mem_flatMap.mpr ⟨f, member, inside⟩)
  | imp a b iha ihb =>
      rw [IsQuantifierFree] at quantifierFree
      rw [atoms, List.forall_mem_append] at agrees
      rw [evaluate, Holds, ← iha quantifierFree.1 agrees.1, ← ihb quantifierFree.2 agrees.2]
      cases a.evaluate truth <;> simp
  | iff a b iha ihb =>
      rw [IsQuantifierFree] at quantifierFree
      rw [atoms, List.forall_mem_append] at agrees
      rw [evaluate, Holds, ← iha quantifierFree.1 agrees.1, ← ihb quantifierFree.2 agrees.2]
      cases a.evaluate truth <;> simp
  | quant q x f _ => simp [IsQuantifierFree] at quantifierFree

/-- All quantifiers are listed. -/
theorem quantifierSymbols_eq_nil_iff (f : Formula) :
    f.quantifierSymbols = [] ↔ f.IsQuantifierFree := by
  induction f using Formula.rec_members with
  | atom p => simp [quantifierSymbols, IsQuantifierFree]
  | neg f ih => rw [quantifierSymbols, IsQuantifierFree, ih]
  | junction op a b rest iha ihb ihrest =>
      rw [quantifierSymbols, IsQuantifierFree, List.append_eq_nil_iff, List.append_eq_nil_iff,
        List.flatMap_eq_nil_iff, iha, ihb, and_assoc]
      exact and_congr_right' (and_congr_right' (forall₂_congr ihrest))
  | imp a b iha ihb | iff a b iha ihb =>
      rw [quantifierSymbols, IsQuantifierFree, List.append_eq_nil_iff, iha, ihb]
  | quant q x f _ => simp [quantifierSymbols, IsQuantifierFree]

/-! ## Rows -/

theorem length_truthRows (n : Nat) : (truthRows n).length = 2 ^ n := by
  induction n with
  | zero => rfl
  | succ n ih =>
      rw [truthRows, List.length_append, List.length_map, List.length_map, ih, Nat.pow_succ,
        Nat.mul_two]

/-- The rows are all lists of their length. -/
theorem mem_truthRows {row : List Bool} {n : Nat} : row ∈ truthRows n ↔ row.length = n := by
  induction n generalizing row with
  | zero => simp [truthRows, List.length_eq_zero_iff]
  | succ n ih =>
      rw [truthRows, List.mem_append, List.mem_map, List.mem_map]
      constructor
      · rintro (⟨others, member, rfl⟩ | ⟨others, member, rfl⟩) <;>
          rw [List.length_cons, ih.mp member]
      · intro long
        cases row with
        | nil => cases long
        | cons b others =>
            have member : others ∈ truthRows n := ih.mpr (Nat.succ.inj long)
            cases b with
            | false => exact .inl ⟨others, member, rfl⟩
            | true => exact .inr ⟨others, member, rfl⟩

/-- In a row, an atom has the truth value of its written form. -/
theorem lookup_zip_map {truth : String → Bool} {texts : List String} {text : String}
    (member : text ∈ texts) :
    (texts.zip (texts.map truth)).lookup text = some (truth text) := by
  induction texts with
  | nil => cases member
  | cons first others ih =>
      rw [List.map_cons, List.zip_cons_cons, List.lookup_cons]
      by_cases same : text = first
      · rw [beq_iff_eq.mpr same, same]
      · rw [beq_eq_false_iff_ne.mpr same]
        exact ih ((List.mem_cons.mp member).resolve_left same)

theorem render_mem_tableAtoms {p : Atom} (member : p ∈ f.atoms) :
    p.render ∈ (f.atoms.map Atom.render).eraseDups.mergeSort (· ≤ ·) := by
  rw [List.mem_mergeSort, List.mem_eraseDups]
  exact List.mem_map_of_mem member

end TruthTableLemmas

open TruthTableLemmas in
/-- Just the formulas without quantifiers have a truth table. It has a row for each choice of truth
values. Where atoms are as true as their written forms, the row of these truth values tells whether the
formula holds. -/
theorem truthTable_tabulates (f : Formula) :
    ((∃ table, f.truthTable = .ok table) ↔ f.IsQuantifierFree) ∧
      ∀ table, f.truthTable = .ok table →
        table.values.length = 2 ^ table.atoms.length ∧
        ∀ {D : Type u} (I : Interpretation D) (s : String → D) (truth : String → Bool),
          (∀ p ∈ f.atoms, truth p.render = true ↔ p.Holds I s) →
          ∃ i : Nat, (truthRows table.atoms.length)[i]? = some (table.atoms.map truth) ∧
            (table.values[i]? = some true ↔ f.Holds I s) := by
  unfold Formula.truthTable
  cases symbols : f.quantifierSymbols with
  | cons q others => simp [← quantifierSymbols_eq_nil_iff, symbols]
  | nil =>
      have quantifierFree := (quantifierSymbols_eq_nil_iff f).mp symbols
      refine ⟨by simp [quantifierFree], ?_⟩
      rintro _ ⟨⟩
      refine ⟨by rw [List.length_map, length_truthRows], fun I s truth agrees => ?_⟩
      generalize texts : (f.atoms.map Atom.render).eraseDups.mergeSort (· ≤ ·) = atoms
      obtain ⟨i, row⟩ := List.getElem?_of_mem
        (mem_truthRows.mpr (List.length_map truth : (atoms.map truth).length = atoms.length))
      refine ⟨i, row, ?_⟩
      rw [List.getElem?_map, row, Option.map_some, Option.some_inj]
      refine evaluate_iff_holds quantifierFree fun p member => ?_
      rw [lookup_zip_map (texts ▸ render_mem_tableAtoms member), Option.getD_some]
      exact agrees p member

end Clausal
