import Clausal.Value.Basic

/-!
# Equality of values

Values of different kinds are different, with two exceptions. Numbers and truth values are equal if
they count the same. Tuples, clauses, clause sets and prefixes are all finite sequences and are equal if
their elements are; a list is equal to lists only. Since only prefixes have bindings as elements, a
prefix is equal to another sequence only if both are empty.

* `Value.same` decides equality.
-/

namespace Clausal.Value

/-- Equality of numbers and truth values. -/
def sameNumber : Value → Value → Bool
  | .real x, .real y => x == y
  | .real x, v => v.integer?.any (isWhole x)
  | v, .real y => v.integer?.any (isWhole y)
  | v, w => v.integer?.isSome && v.integer? == w.integer?

/-- Whether sequences of two kinds can be equal. -/
def comparable (k l : SequenceKind) : Bool :=
  (k == .list) == (l == .list)

mutual
/-- Whether two values are equal. -/
def same : Value → Value → Bool
  | .absent, .absent => true
  | .text s, .text t => s == t
  | .sequence k vs, .sequence l ws => comparable k l && sameEach vs ws
  | .mapping vs, .mapping ws => vs.length == ws.length && sameEntries vs ws
  | .operator k, .operator l => k == l
  | .term s, .term t => s == t
  | .formula f, .formula g => f == g
  | .literal a v, .literal b w => a == b && same v w
  | .token s, .token t => s == t
  | .bindings p, .bindings q => p == q
  | .bindings p, .sequence k ws => k != .list && p.isEmpty && ws.isEmpty
  | .sequence k vs, .bindings q => k != .list && vs.isEmpty && q.isEmpty
  | .prenexForm p, .prenexForm q => p == q
  | .renamed p, .renamed q => p == q
  | .skolemForm p, .skolemForm q => p == q
  | .conversion c, .conversion d => c == d
  | v, w => sameNumber v w

/-- Equality of the elements of two sequences. -/
def sameEach : List Value → List Value → Bool
  | [], [] => true
  | v :: vs, w :: ws => same v w && sameEach vs ws
  | _, _ => false

/-- Whether each entry has a counterpart of the same key, in whatever order. -/
def sameEntries : List (String × Value) → List (String × Value) → Bool
  | [], _ => true
  | (key, v) :: vs, ws =>
      (match ws.lookup key with
      | some w => same v w
      | none => false) && sameEntries vs ws
end

end Clausal.Value
