/-!
# Decimal text of floating-point numbers

A number in binary floating point is written with the fewest decimal digits that are read as this
number. Of several decimals with so many digits the nearest is taken, of two equally near the one with
an even last digit.

* `Binary` is a finite number without its sign, `m * 2 ^ q`; `Binary.ofBits` takes it from the bits.
* `Binary.readsBack` tells the decimals that are read as a number: those between the midpoints to its
  two neighbours, midpoints included if `m` is even.
* `Binary.shortest` searches the grids of one, two, and up to seventeen digits.
* `BinaryLemmas.readsBack_trim_shortest`: what is written is read as the number.
* `Decimal.text` writes numbers from `0.0001` to below `10 ^ 16` without an exponent.
-/

namespace Clausal

/-- The number `digits * 10 ^ exponent`. -/
structure Decimal where
  digits : Nat
  exponent : Int
  deriving Repr, DecidableEq

/-- The number `m * 2 ^ q` in binary floating point. -/
structure Binary where
  m : Nat
  q : Int
  /-- The neighbour below is half as far away as the one above. -/
  narrowBelow : Bool
  deriving Repr, DecidableEq

namespace Binary

/-- The number of given bits, without its sign. The bits are those of a finite number. -/
def ofBits (bits : UInt64) : Binary :=
  let exponent := ((bits >>> 52) &&& 0x7FF).toNat
  let fraction := (bits &&& 0xFFFFFFFFFFFFF).toNat
  if exponent = 0 then ⟨fraction, -1074, false⟩
  else ⟨Nat.pow 2 52 + fraction, exponent - 1075, fraction = 0 ∧ exponent > 1⟩

/-- Compares `a * 10 ^ i` with `n * 2 ^ j`. -/
def compareScaled (a : Nat) (i : Int) (n : Nat) (j : Int) : Ordering :=
  compare (a * Nat.pow 10 i.toNat * Nat.pow 2 (-j).toNat)
    (n * Nat.pow 2 j.toNat * Nat.pow 10 (-i).toNat)

/-- Whether a decimal is read as the number. -/
def readsBack (b : Binary) (d : Decimal) : Bool :=
  let below := compareScaled d.digits d.exponent (4 * b.m - if b.narrowBelow then 1 else 2) (b.q - 2)
  let above := compareScaled d.digits d.exponent (4 * b.m + 2) (b.q - 2)
  let ends := b.m % 2 = 0
  (below = .gt ∨ ends ∧ below = .eq) ∧ (above = .lt ∨ ends ∧ above = .eq)

/-- The number in units of `10 ^ exponent`, rounded down. -/
def floorAt (b : Binary) (exponent : Int) : Nat :=
  b.m * Nat.pow 2 b.q.toNat * Nat.pow 10 (-exponent).toNat /
    (Nat.pow 2 (-b.q).toNat * Nat.pow 10 exponent.toNat)

/-- The least `k` such that the number is below `10 ^ k`. No positive number is below `10 ^ (-400)`. -/
def scale (b : Binary) : Int :=
  (Nat.toDigits 10 (b.floorAt (-400))).length - 400

/-- The nearer to the number of two decimals with the same exponent, the lower one not above and the
higher one not below it, as far as they are read as the number. -/
def choose? (b : Binary) (low high : Decimal) : Option Decimal :=
  match b.readsBack low, b.readsBack high with
  | false, false => none
  | true, false => some low
  | false, true => some high
  | true, true =>
      match compareScaled (low.digits + high.digits) low.exponent b.m (b.q + 1) with
      | .gt => some low
      | .lt => some high
      | .eq => if low.digits % 2 = 0 then some low else some high

/-- The decimal that is nearest to the number among those with the given number of digits, if it is
read as the number. -/
def nearest? (b : Binary) (count : Nat) : Option Decimal :=
  let exponent := b.scale - count
  let digits := b.floorAt exponent
  b.choose? ⟨digits, exponent⟩ ⟨digits + 1, exponent⟩

/-- The number as a decimal without rounding. -/
def exact (b : Binary) : Decimal :=
  ⟨b.m * Nat.pow 2 b.q.toNat * Nat.pow 5 (-b.q).toNat, -(-b.q).toNat⟩

/-- The decimal that a number is written as. -/
def shortest (b : Binary) : Decimal :=
  ((List.range' 1 17).findSome? b.nearest?).getD b.exact

end Binary

namespace Decimal

/-- The same number without zeros at the end of the digits. -/
def trim (d : Decimal) : Decimal :=
  if positive : 0 < d.digits then
    if d.digits % 10 = 0 then trim ⟨d.digits / 10, d.exponent + 1⟩ else d
  else d
termination_by d.digits
decreasing_by exact Nat.div_lt_self positive (by decide)

/-- Zeros to fill up with. -/
def zeros (count : Int) : String :=
  "".pushn '0' count.toNat

/-- A sign and at least two digits. -/
def exponentText (n : Int) : String :=
  let digits := toString n.natAbs
  (if n < 0 then "-" else "+") ++ zeros (2 - digits.length) ++ digits

/-- The text of a decimal whose digits do not end in zero: `12.0`, `0.05`, `1.5e-07`, `1e+16`. -/
def text (d : Decimal) : String :=
  let digits := (toString d.digits).toList
  let leading := d.exponent + digits.length - 1
  if leading < -4 ∨ 16 ≤ leading then
    let fraction := digits.drop 1
    String.ofList (digits.take 1) ++ (if fraction.isEmpty then "" else "." ++ String.ofList fraction)
      ++ "e" ++ exponentText leading
  else if 0 ≤ d.exponent then String.ofList digits ++ zeros d.exponent ++ ".0"
  else if 0 ≤ leading then
    String.ofList (digits.take (leading + 1).toNat) ++ "." ++
      String.ofList (digits.drop (leading + 1).toNat)
  else "0." ++ zeros (-leading - 1) ++ String.ofList digits

end Decimal

/-! ## Reading back -/

namespace BinaryLemmas

open Binary

variable {b : Binary} {d : Decimal}

theorem compareScaled_eq_lt {a n : Nat} {i j : Int} :
    compareScaled a i n j = .lt ↔
      a * Nat.pow 10 i.toNat * Nat.pow 2 (-j).toNat <
        n * (Nat.pow 2 j.toNat * Nat.pow 10 (-i).toNat) := by
  rw [← Nat.mul_assoc]
  exact Nat.compare_eq_lt

theorem compareScaled_eq_gt {a n : Nat} {i j : Int} :
    compareScaled a i n j = .gt ↔
      n * (Nat.pow 2 j.toNat * Nat.pow 10 (-i).toNat) <
        a * Nat.pow 10 i.toNat * Nat.pow 2 (-j).toNat := by
  rw [← Nat.mul_assoc]
  exact Nat.compare_eq_gt

/-- Without rounding a decimal is the number, here in quarters of its last binary digit. -/
theorem exact_scaled (b : Binary) :
    b.exact.digits * Nat.pow 10 b.exact.exponent.toNat * Nat.pow 2 (-(b.q - 2)).toNat =
      4 * b.m * (Nat.pow 2 (b.q - 2).toNat * Nat.pow 10 (-b.exact.exponent).toNat) := by
  obtain ⟨m, q, narrow⟩ := b
  have noTens : (-((-q).toNat : Int)).toNat = 0 := by omega
  have tens : (- -((-q).toNat : Int)).toNat = (-q).toNat := by omega
  change m * Nat.pow 2 q.toNat * Nat.pow 5 (-q).toNat * Nat.pow 10 (-((-q).toNat : Int)).toNat *
    Nat.pow 2 (-(q - 2)).toNat =
      4 * m * (Nat.pow 2 (q - 2).toNat * Nat.pow 10 (- -((-q).toNat : Int)).toNat)
  rw [noTens, tens]
  have splitTwos : ∀ k, Nat.pow 2 (k + 2) = Nat.pow 2 k * 4 := fun k => Nat.pow_add 2 k 2
  have splitTens : ∀ k, Nat.pow 10 k = Nat.pow 5 k * Nat.pow 2 k := fun k => Nat.mul_pow 5 2 k
  rcases Int.lt_or_le q 0 with negative | whole
  · -- The digits take in all of the factors of two that are missing.
    have up : (-(q - 2)).toNat = (-q).toNat + 2 := by omega
    have low : q.toNat = 0 := by omega
    have down : (q - 2).toNat = 0 := by omega
    rw [up, low, down, splitTwos, splitTens (-q).toNat]
    generalize Nat.pow 2 (-q).toNat = twos
    generalize Nat.pow 5 (-q).toNat = fives
    simp [Nat.mul_comm, Nat.mul_left_comm, Nat.mul_assoc]
  · rcases Int.lt_or_le q 2 with small | large
    · obtain rfl | rfl : q = 0 ∨ q = 1 := by omega
      · simp [Nat.mul_comm]
      · simp
        omega
    · have up : (-(q - 2)).toNat = 0 := by omega
      have low : (-q).toNat = 0 := by omega
      have down : q.toNat = (q - 2).toNat + 2 := by omega
      rw [up, low, down, splitTwos]
      simp [Nat.mul_comm, Nat.mul_left_comm]

/-- The number lies between the midpoints to its neighbours. -/
theorem readsBack_exact (positive : 0 < b.m) : b.readsBack b.exact = true := by
  have unit : 0 < Nat.pow 2 (b.q - 2).toNat * Nat.pow 10 (-b.exact.exponent).toNat :=
    Nat.mul_pos (Nat.pow_pos (by decide)) (Nat.pow_pos (by decide))
  have above : compareScaled b.exact.digits b.exact.exponent (4 * b.m + 2) (b.q - 2) = .lt := by
    rw [compareScaled_eq_lt, exact_scaled]
    exact Nat.mul_lt_mul_of_pos_right (by omega) unit
  have below : compareScaled b.exact.digits b.exact.exponent
      (4 * b.m - if b.narrowBelow then 1 else 2) (b.q - 2) = .gt := by
    rw [compareScaled_eq_gt, exact_scaled]
    refine Nat.mul_lt_mul_of_pos_right ?_ unit
    split <;> omega
  simp [readsBack, above, below]

theorem readsBack_of_choose? {low high : Decimal} (chosen : b.choose? low high = some d) :
    b.readsBack d = true := by
  unfold choose? at chosen
  split at chosen
  case h_1 => cases chosen
  case h_2 below _ => exact Option.some_inj.mp chosen ▸ below
  case h_3 _ above => exact Option.some_inj.mp chosen ▸ above
  case h_4 below above =>
    split at chosen
    case h_1 => exact Option.some_inj.mp chosen ▸ below
    case h_2 => exact Option.some_inj.mp chosen ▸ above
    case h_3 =>
      split at chosen
      · exact Option.some_inj.mp chosen ▸ below
      · exact Option.some_inj.mp chosen ▸ above

/-- The decimal that a positive number is written as is read as this number. -/
theorem readsBack_shortest (positive : 0 < b.m) : b.readsBack b.shortest = true := by
  unfold shortest
  cases found : (List.range' 1 17).findSome? b.nearest? with
  | none => exact readsBack_exact positive
  | some d =>
      obtain ⟨count, -, nearest⟩ := List.exists_of_findSome?_eq_some found
      exact readsBack_of_choose? nearest

/-- A zero at the end of the digits counts as much as one more in the exponent. -/
theorem compareScaled_tenfold (a n : Nat) (i j : Int) :
    compareScaled (a * 10) i n j = compareScaled a (i + 1) n j := by
  have splitTens : ∀ k, Nat.pow 10 (k + 1) = Nat.pow 10 k * 10 := fun k => rfl
  unfold compareScaled
  rcases Int.lt_or_le i 0 with negative | whole
  · have up : i.toNat = 0 := by omega
    have up' : (i + 1).toNat = 0 := by omega
    have down : (-i).toNat = (-(i + 1)).toNat + 1 := by omega
    have scaled : ∀ x y : Nat, compare (x * 10) (y * 10) = compare x y := by
      intro x y
      simp only [Nat.compare_eq_ite_lt, Nat.mul_lt_mul_right (by decide : 0 < 10)]
    rw [up, up', down, splitTens (-(i + 1)).toNat,
      ← scaled (a * Nat.pow 10 0 * Nat.pow 2 (-j).toNat), Nat.mul_assoc (n * Nat.pow 2 j.toNat)]
    simp only [Nat.mul_assoc, Nat.mul_comm, Nat.mul_left_comm]
  · have down : (-i).toNat = 0 := by omega
    have down' : (-(i + 1)).toNat = 0 := by omega
    have up : (i + 1).toNat = i.toNat + 1 := by omega
    rw [down, down', up, splitTens]
    simp only [Nat.mul_assoc, Nat.mul_comm, Nat.mul_left_comm]

theorem readsBack_trim (b : Binary) (d : Decimal) : b.readsBack d.trim = b.readsBack d := by
  fun_induction Decimal.trim d with
  | case1 d positive ends ih =>
      have digits : d.digits / 10 * 10 = d.digits := Nat.div_mul_cancel (Nat.dvd_of_mod_eq_zero ends)
      rw [ih, readsBack, readsBack]
      simp only [← compareScaled_tenfold, digits]
  | case2 | case3 => rfl

/-- What is written of a positive number is read as this number. -/
theorem readsBack_trim_shortest {b : Binary} (positive : 0 < b.m) :
    b.readsBack b.shortest.trim = true := by
  rw [readsBack_trim, readsBack_shortest positive]

end BinaryLemmas

/-! ## Floating-point numbers with their sign -/

/-- The bit of the sign is set. -/
def isSigned (x : Float) : Bool :=
  x.toBits >>> 63 = 1

/-- The decimal text of a number. -/
def realText (x : Float) : String :=
  if x.isNaN then "nan"
  else
    (if isSigned x then "-" else "") ++
      if x.isInf then "inf"
      else
        let b := Binary.ofBits x.toBits
        if b.m = 0 then "0.0" else b.shortest.trim.text

/-- Whether a number is a given whole number, exactly. -/
def isWhole (x : Float) (n : Int) : Bool :=
  let b := Binary.ofBits x.toBits
  x.isFinite ∧
    (if isSigned x then -1 else 1) * (b.m * Nat.pow 2 b.q.toNat : Int) = n * Nat.pow 2 (-b.q).toNat

end Clausal
