/-!
# Fresh names

New names are made from a base: the base itself, then the base followed by 1, 2, 3 and so on. Names
that are in use are passed over.

* `firstUnused` finds the next candidate that is not in use. Candidates differ from one another, so a
  name that was met in use need not be compared again; the list of used names shrinks at each step,
  and the search ends.
* `freshNames` lists as many new names as are asked for, in the order of the candidates.
-/

namespace Clausal

/-- The candidates for a new name. -/
def candidate (base : String) : Nat → String
  | 0 => base
  | n + 1 => base ++ toString (n + 1)

/-- The first number from `n` on whose candidate is not among `used`. -/
def firstUnused (base : String) (used : List String) (n : Nat) : Nat :=
  if candidate base n ∈ used then firstUnused base (used.erase (candidate base n)) (n + 1) else n
termination_by used.length
decreasing_by
  rename_i taken
  have := List.length_pos_of_mem taken
  rw [List.length_erase_of_mem taken]
  omega

/-- The first `count` candidates from number `n` on that are not in use. -/
def freshNames (base : String) (used : List String) (n : Nat) : (count : Nat) → List String
  | 0 => []
  | count + 1 =>
      let next := firstUnused base used n
      candidate base next :: freshNames base used (next + 1) count

end Clausal
