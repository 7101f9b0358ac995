import Mathlib.Algebra.Group.Nat.Defs
import Clausal.Log.Elapsed

/-!
# Elapsed times read back

The short text of a time difference is its full text without the last three characters. If there is
a fraction of a second, these are its last three digits, and what is left tells the whole
milliseconds. If there is none, the seconds themselves are cut off with the colon before them.

* `Elapsed.milliseconds?` reads `[D day[s], ]H:MM:SS.mmm`.
* `ElapsedLemmas.toList_padded`: padded numbers are their last digits.
* `ElapsedLemmas.short_of_whole`, `short_of_fraction`: what is left of the full text.
* `ElapsedLemmas.milliseconds?_dayText`: reading a text with or without days.
* `short_reads_back`: which short texts tell the milliseconds.
-/

namespace Clausal

/-! ## Reading -/

namespace Elapsed

/-- The number that some decimal digits write. -/
def number? (digits : List Char) : Option Nat :=
  if digits ≠ [] ∧ digits.all Char.isDigit then some (Nat.ofDigitChars 10 digits 0) else none

/-- The number that as many digits write as there must be. -/
def fixedNumber? (width : Nat) (digits : List Char) : Option Nat :=
  if digits.length = width then number? digits else none

/-- The number that digits write, with a sign if it is negative. -/
def integer? (text : List Char) : Option Int :=
  if text.head? = some '-' then (number? text.tail).map fun n : Nat => -(n : Int)
  else (number? text).map fun n : Nat => (n : Int)

/-- The milliseconds of `H:MM:SS.mmm`. -/
def clock? (text : List Char) : Option Nat :=
  match text.splitOn ':' with
  | [hours, minutes, rest] =>
      match rest.splitOn '.' with
      | [seconds, thousandths] => do
          let h ← number? hours
          let m ← fixedNumber? 2 minutes
          let s ← fixedNumber? 2 seconds
          let ms ← fixedNumber? 3 thousandths
          return ((h * 60 + m) * 60 + s) * 1000 + ms
      | _ => none
  | _ => none

/-- The milliseconds of `[D day[s], ]H:MM:SS.mmm`. -/
def milliseconds? (text : String) : Option Int :=
  match text.toList.splitOn ' ' with
  | [clock] => (clock? clock).map fun ms : Nat => (ms : Int)
  | [days, word, clock] =>
      if word = "day,".toList ∨ word = "days,".toList then do
        let d ← integer? days
        let ms ← clock? clock
        return d * 86400000 + ms
      else none
  | _ => none

/-- The hours and minutes of a time of day, `H:MM`. -/
def minuteText (seconds : Nat) : String :=
  toString (seconds / 3600) ++ ":" ++ padded 2 (seconds / 60 % 60)

/-- The last decimal digits of a number, as many as `width` says. -/
def lastDigits : (width n : Nat) → List Char
  | 0, _ => []
  | width + 1, n => lastDigits width (n / 10) ++ [Nat.digitChar (n % 10)]

end Elapsed

namespace ElapsedLemmas

open Elapsed

/-! ## Digits -/

section
variable {w n d : Nat} {c : Char}

theorem digitChar_of_lt (small : d < 10) :
    (Nat.digitChar d).isDigit = true ∧ (Nat.digitChar d).toNat - '0'.toNat = d := by
  revert d
  decide

theorem toList_pushn (text : String) (c : Char) (n : Nat) :
    (text.pushn c n).toList = text.toList ++ List.replicate n c := by
  induction n with
  | zero => simp [String.pushn, Nat.repeat]
  | succ n ih =>
      have step : text.pushn c (n + 1) = (text.pushn c n).push c := rfl
      rw [step, String.toList_push, ih, List.replicate_succ', List.append_assoc]

theorem length_lastDigits (w n : Nat) : (lastDigits w n).length = w := by
  induction w generalizing n with
  | zero => rfl
  | succ w ih => rw [lastDigits, List.length_append, ih, List.length_singleton]

theorem isDigit_of_mem_lastDigits (member : c ∈ lastDigits w n) : c.isDigit = true := by
  induction w generalizing n with
  | zero => cases member
  | succ w ih =>
      rcases List.mem_append.mp member with before | last
      · exact ih before
      · rw [List.mem_singleton.mp last]
        exact (digitChar_of_lt (Nat.mod_lt n (by decide))).1

theorem lastDigits_zero (w : Nat) : lastDigits w 0 = List.replicate w '0' := by
  induction w with
  | zero => rfl
  | succ w ih =>
      rw [lastDigits, Nat.zero_div, ih, List.replicate_succ']
      rfl

/-- The last digits of a number are its remainder by a power of ten. -/
theorem ofDigitChars_lastDigits (w n : Nat) :
    Nat.ofDigitChars 10 (lastDigits w n) 0 = n % 10 ^ w := by
  induction w generalizing n with
  | zero => rw [Nat.pow_zero, Nat.mod_one]; rfl
  | succ w ih =>
      have last := (digitChar_of_lt (Nat.mod_lt n (by decide : 10 > 0))).2
      rw [lastDigits, Nat.ofDigitChars_append, ih, Nat.ofDigitChars_cons, last, Nat.pow_succ',
        Nat.mod_mul, Nat.add_comm]
      rfl

/-- Zeros in front of the digits of a number make it as wide as its last digits. -/
theorem replicate_append_toDigits (small : n < 10 ^ (w + 1)) :
    List.replicate (w + 1 - (Nat.toDigits 10 n).length) '0' ++ Nat.toDigits 10 n =
      lastDigits (w + 1) n := by
  induction w generalizing n with
  | zero =>
      have single : n < 10 := small
      rw [Nat.toDigits_of_lt_base single, lastDigits, Nat.mod_eq_of_lt single]
      rfl
  | succ w ih =>
      by_cases single : n < 10
      · rw [Nat.toDigits_of_lt_base single, lastDigits, Nat.div_eq_of_lt single, lastDigits_zero,
          Nat.mod_eq_of_lt single]
        rfl
      · have fewer : n / 10 < 10 ^ (w + 1) := Nat.div_lt_of_lt_mul (by rwa [← Nat.pow_succ'])
        rw [Nat.toDigits_of_base_le (by decide) (Nat.le_of_not_lt single), List.length_append,
          List.length_singleton, Nat.add_sub_add_right, ← List.append_assoc, ih fewer]
        rfl

theorem toList_padded (small : n < 10 ^ (w + 1)) :
    (padded (w + 1) n).toList = lastDigits (w + 1) n := by
  rw [← replicate_append_toDigits small, padded, String.toList_append, toList_pushn,
    Nat.toString_eq_repr, Nat.toList_repr, ← String.length_toList, Nat.toList_repr]
  rfl

/-! ## Numbers -/

theorem number?_toDigits (n : Nat) : number? (Nat.toDigits 10 n) = some n := by
  have digits : (Nat.toDigits 10 n).all Char.isDigit = true :=
    List.all_eq_true.mpr fun c member =>
      Nat.isDigit_of_mem_toDigits (by decide) (Nat.le_refl _) member
  rw [number?, if_pos ⟨Nat.toDigits_ne_nil, digits⟩,
    Nat.ofDigitChars_toDigits (by decide) (Nat.le_refl _)]

theorem fixedNumber?_lastDigits (small : n < 10 ^ (w + 1)) :
    fixedNumber? (w + 1) (lastDigits (w + 1) n) = some n := by
  have digits : (lastDigits (w + 1) n).all Char.isDigit = true :=
    List.all_eq_true.mpr fun c member => isDigit_of_mem_lastDigits member
  have nonempty : lastDigits (w + 1) n ≠ [] := by simp [lastDigits]
  rw [fixedNumber?, if_pos (length_lastDigits _ _), number?, if_pos ⟨nonempty, digits⟩,
    ofDigitChars_lastDigits, Nat.mod_eq_of_lt small]

theorem toList_toString (d : Int) :
    (toString d).toList =
      if d < 0 then '-' :: Nat.toDigits 10 d.natAbs else Nat.toDigits 10 d.natAbs := by
  cases d with
  | ofNat n =>
      have unsigned : ¬ Int.ofNat n < 0 := by simp
      rw [if_neg unsigned]
      exact Nat.toList_repr
  | negSucc n =>
      have text : (toString (Int.negSucc n)).toList = ("-" ++ (n + 1).repr).toList := rfl
      rw [if_pos (Int.negSucc_lt_zero n), text, String.toList_append, Nat.toList_repr]
      rfl

theorem notMem_toDigits (other : c.isDigit = false) : c ∉ Nat.toDigits 10 n := by
  intro member
  have digit := Nat.isDigit_of_mem_toDigits (by decide) (Nat.le_refl _) member
  rw [other] at digit
  cases digit

theorem notMem_lastDigits (other : c.isDigit = false) : c ∉ lastDigits w n := by
  intro member
  have digit := isDigit_of_mem_lastDigits member
  rw [other] at digit
  cases digit

theorem notMem_toString (other : c.isDigit = false) (unsigned : c ≠ '-') (d : Int) :
    c ∉ (toString d).toList := by
  rw [toList_toString]
  split
  case isTrue => exact List.not_mem_cons_of_ne_of_not_mem unsigned (notMem_toDigits other)
  case isFalse => exact notMem_toDigits other

theorem integer?_toString (d : Int) : integer? (toString d).toList = some d := by
  rw [toList_toString]
  split
  case isTrue negative =>
    have value : -(d.natAbs : Int) = d := by omega
    rw [integer?, List.head?_cons, if_pos rfl, List.tail_cons, number?_toDigits, Option.map_some,
      value]
  case isFalse positive =>
    have value : (d.natAbs : Int) = d := by omega
    have unsigned : (Nat.toDigits 10 d.natAbs).head? ≠ some '-' := fun signed =>
      notMem_toDigits (by decide) (List.mem_of_head? signed)
    rw [integer?, if_neg unsigned, number?_toDigits, Option.map_some, value]

end

/-! ## The three characters that are cut -/

section
variable {n : Elapsed}

theorem lastDigits_add (w v n : Nat) :
    lastDigits (w + v) n = lastDigits w (n / 10 ^ v) ++ lastDigits v n := by
  induction v generalizing n with
  | zero => rw [Nat.add_zero, Nat.pow_zero, Nat.div_one, lastDigits, List.append_nil]
  | succ v ih =>
      rw [← Nat.add_assoc, lastDigits, ih, Nat.div_div_eq_div_mul, ← Nat.pow_succ', lastDigits,
        List.append_assoc]

theorem short_of_full (kept cut : String) (text : n.full = kept ++ cut)
    (three : cut.toList.length = 3) : n.short = kept := by
  have length : (kept.toList ++ cut.toList).length - 3 = kept.toList.length := by
    rw [List.length_append, three, Nat.add_sub_cancel]
  rw [short, text, String.toList_append, length, List.take_left, String.ofList_toList]

/-- Without a fraction, the seconds are cut off. -/
theorem short_of_whole (whole : n.withinDay % perSecond = 0) :
    n.short = dayText n.days ++ minuteText (n.withinDay / perSecond) := by
  apply short_of_full _ (":" ++ padded 2 (n.withinDay / perSecond % 60))
  · simp only [full, whole, if_true, clockText, minuteText, String.append_assoc, String.append_empty]
  · have small : n.withinDay / perSecond % 60 < 10 ^ (1 + 1) := by omega
    rw [String.toList_append, toList_padded small, List.length_append, length_lastDigits]
    rfl

/-- With a fraction, the digits after the milliseconds are cut off. -/
theorem short_of_fraction (part : n.withinDay % perSecond ≠ 0) :
    n.short = dayText n.days ++ (clockText (n.withinDay / perSecond) ++ "." ++
      padded 3 (n.withinDay % perSecond / 1000)) := by
  have small : n.withinDay % perSecond < 10 ^ (5 + 1) := Nat.mod_lt _ (by decide)
  have digits : padded 6 (n.withinDay % perSecond) =
      padded 3 (n.withinDay % perSecond / 1000) ++
        String.ofList (lastDigits 3 (n.withinDay % perSecond)) := by
    have milli : n.withinDay % perSecond / 1000 < 10 ^ (2 + 1) := by omega
    rw [← String.toList_inj, String.toList_append, String.toList_ofList, toList_padded small,
      toList_padded milli]
    exact lastDigits_add 3 3 _
  apply short_of_full _ (String.ofList (lastDigits 3 (n.withinDay % perSecond)))
  · simp only [full, if_neg part, digits, String.append_assoc]
  · rw [String.toList_ofList, length_lastDigits]

end

/-! ## Reading a clock -/

section
variable {ms : Nat}

theorem toList_minuteText (s : Nat) :
    (minuteText s).toList = Nat.toDigits 10 (s / 3600) ++ ':' :: lastDigits 2 (s / 60 % 60) := by
  have small : s / 60 % 60 < 10 ^ (1 + 1) := by omega
  have hours : (toString (s / 3600)).toList = Nat.toDigits 10 (s / 3600) := Nat.toList_repr
  rw [minuteText, String.toList_append, String.toList_append, hours, toList_padded small,
    List.append_assoc]
  rfl

theorem toList_clockText (s : Nat) :
    (clockText s).toList = (minuteText s).toList ++ ':' :: lastDigits 2 (s % 60) := by
  have small : s % 60 < 10 ^ (1 + 1) := by omega
  have parts : clockText s = minuteText s ++ ":" ++ padded 2 (s % 60) := rfl
  rw [parts, String.toList_append, String.toList_append, toList_padded small, List.append_assoc]
  rfl

theorem notMem_minuteText (s : Nat) : ' ' ∉ (minuteText s).toList := by
  rw [toList_minuteText, List.mem_append, List.mem_cons, not_or, not_or]
  exact ⟨notMem_toDigits (by decide), by decide, notMem_lastDigits (by decide)⟩

/-- Hours and minutes alone are no clock. -/
theorem clock?_minuteText (s : Nat) : clock? (minuteText s).toList = none := by
  have pieces : (minuteText s).toList.splitOn ':' =
      [Nat.toDigits 10 (s / 3600), lastDigits 2 (s / 60 % 60)] := by
    rw [toList_minuteText, List.splitOn_append_cons_self_of_not_mem (notMem_toDigits (by decide)),
      List.splitOn_eq_singleton (notMem_lastDigits (by decide))]
  rw [clock?, pieces]

theorem toList_thousandths (s : Nat) (small : ms < 1000) :
    (clockText s ++ "." ++ padded 3 ms).toList =
      Nat.toDigits 10 (s / 3600) ++ ':' :: (lastDigits 2 (s / 60 % 60) ++ ':' ::
        (lastDigits 2 (s % 60) ++ '.' :: lastDigits 3 ms)) := by
  have three : (padded 3 ms).toList = lastDigits 3 ms := toList_padded small
  simp only [String.toList_append, toList_clockText, toList_minuteText, three, List.append_assoc,
    List.cons_append]
  rfl

theorem notMem_clockText (s : Nat) (small : ms < 1000) :
    ' ' ∉ (clockText s ++ "." ++ padded 3 ms).toList := by
  simp only [toList_thousandths s small, List.mem_append, List.mem_cons, not_or]
  exact ⟨notMem_toDigits (by decide), by decide, notMem_lastDigits (by decide), by decide,
    notMem_lastDigits (by decide), by decide, notMem_lastDigits (by decide)⟩

/-- A clock with thousandths tells its seconds and its milliseconds. -/
theorem clock?_clockText (s : Nat) (small : ms < 1000) :
    clock? (clockText s ++ "." ++ padded 3 ms).toList = some (s * 1000 + ms) := by
  have colons : (clockText s ++ "." ++ padded 3 ms).toList.splitOn ':' =
      [Nat.toDigits 10 (s / 3600), lastDigits 2 (s / 60 % 60),
        lastDigits 2 (s % 60) ++ '.' :: lastDigits 3 ms] := by
    have no : ':' ∉ lastDigits 2 (s % 60) ++ '.' :: lastDigits 3 ms := by
      rw [List.mem_append, List.mem_cons, not_or, not_or]
      exact ⟨notMem_lastDigits (by decide), by decide, notMem_lastDigits (by decide)⟩
    rw [toList_thousandths s small,
      List.splitOn_append_cons_self_of_not_mem (notMem_toDigits (by decide)),
      List.splitOn_append_cons_self_of_not_mem (notMem_lastDigits (by decide)),
      List.splitOn_eq_singleton no]
  have point : (lastDigits 2 (s % 60) ++ '.' :: lastDigits 3 ms).splitOn '.' =
      [lastDigits 2 (s % 60), lastDigits 3 ms] := by
    rw [List.splitOn_append_cons_self_of_not_mem (notMem_lastDigits (by decide)),
      List.splitOn_eq_singleton (notMem_lastDigits (by decide))]
  have minutes : fixedNumber? 2 (lastDigits 2 (s / 60 % 60)) = some (s / 60 % 60) :=
    fixedNumber?_lastDigits (by omega)
  have seconds : fixedNumber? 2 (lastDigits 2 (s % 60)) = some (s % 60) :=
    fixedNumber?_lastDigits (by omega)
  have thousandths : fixedNumber? 3 (lastDigits 3 ms) = some ms := fixedNumber?_lastDigits small
  have total : ((s / 3600 * 60 + s / 60 % 60) * 60 + s % 60) * 1000 + ms = s * 1000 + ms := by omega
  simp only [clock?, colons, point, number?_toDigits, minutes, seconds, thousandths]
  exact congrArg some total

end

/-! ## Reading the days -/

section
variable {days : Int} {clock : String}

theorem milliseconds?_clock (one : ' ' ∉ clock.toList) :
    milliseconds? clock = (clock? clock.toList).map fun ms : Nat => (ms : Int) := by
  rw [milliseconds?, List.splitOn_eq_singleton one]

theorem milliseconds?_days (word : String) (isDay : word = "day," ∨ word = "days,")
    (one : ' ' ∉ clock.toList) :
    milliseconds? (toString days ++ " " ++ word ++ " " ++ clock) =
      (clock? clock.toList).map fun ms : Nat => days * 86400000 + (ms : Int) := by
  have text : (toString days ++ " " ++ word ++ " " ++ clock).toList =
      (toString days).toList ++ ' ' :: (word.toList ++ ' ' :: clock.toList) := by
    simp only [String.toList_append, List.append_assoc]
    rfl
  have unspaced : ' ' ∉ word.toList := by
    rcases isDay with rfl | rfl <;> decide
  have known : word.toList = "day,".toList ∨ word.toList = "days,".toList :=
    isDay.imp (congrArg _) (congrArg _)
  have pieces : (toString days ++ " " ++ word ++ " " ++ clock).toList.splitOn ' ' =
      [(toString days).toList, word.toList, clock.toList] := by
    rw [text, List.splitOn_append_cons_self_of_not_mem (notMem_toString (by decide) (by decide) _),
      List.splitOn_append_cons_self_of_not_mem unspaced, List.splitOn_eq_singleton one]
  simp only [milliseconds?, pieces, if_pos known, integer?_toString]
  cases clock? clock.toList <;> rfl

/-- Days before a clock count for as many milliseconds as they have. -/
theorem milliseconds?_dayText (one : ' ' ∉ clock.toList) :
    milliseconds? (dayText days ++ clock) =
      (clock? clock.toList).map fun ms : Nat => days * 86400000 + (ms : Int) := by
  unfold dayText
  split
  case isTrue sameDay =>
    rw [String.empty_append, milliseconds?_clock one, sameDay]
    simp only [Int.zero_mul, Int.zero_add]
  case isFalse =>
    split
    case isTrue =>
      have words : toString days ++ " day, " = toString days ++ " " ++ "day," ++ " " := by
        simp only [String.append_assoc]
        rfl
      rw [words, milliseconds?_days "day," (.inl rfl) one]
    case isFalse =>
      have words : toString days ++ " days, " = toString days ++ " " ++ "days," ++ " " := by
        simp only [String.append_assoc]
        rfl
      rw [words, milliseconds?_days "days," (.inr rfl) one]

end

/-! ## Whole milliseconds -/

theorem days_withinDay (n : Int) :
    n = days n * 86400000000 + withinDay n ∧ withinDay n < 86400000000 := by
  have whole : Int.fdiv n 86400000000 = n / 86400000000 := Int.fdiv_eq_ediv_of_nonneg _ (by decide)
  have rest : Int.fmod n 86400000000 = n % 86400000000 := Int.fmod_eq_emod_of_nonneg _ (by decide)
  change n = Int.fdiv n 86400000000 * 86400000000 + (Int.fmod n 86400000000).toNat ∧
    (Int.fmod n 86400000000).toNat < 86400000000
  omega

theorem perSecond_dvd_iff (n : Int) : (perSecond : Int) ∣ n ↔ withinDay n % perSecond = 0 := by
  obtain ⟨parts, -⟩ := days_withinDay n
  simp only [perSecond]
  omega

/-- The milliseconds of the days and of the time of day are those of the difference. -/
theorem fdiv_thousand (n : Int) :
    Int.fdiv n 1000 = days n * 86400000 +
      ((withinDay n / perSecond * 1000 + withinDay n % perSecond / 1000 : Nat) : Int) := by
  obtain ⟨parts, -⟩ := days_withinDay n
  rw [Int.fdiv_eq_ediv_of_nonneg _ (by decide)]
  simp only [perSecond]
  omega

end ElapsedLemmas

open ElapsedLemmas Elapsed in
/-- The short text of a difference has its days, if there are any, and its time of day. If there is a
fraction of a second, it reads back as the whole milliseconds, rounded down. If there is none, the
seconds are missing, and it does not read back at all. -/
theorem short_reads_back (n : Elapsed) :
    n.short = dayText n.days ++
        (if (perSecond : Int) ∣ n then minuteText (n.withinDay / perSecond)
          else clockText (n.withinDay / perSecond) ++ "." ++
            padded 3 (n.withinDay % perSecond / 1000)) ∧
      milliseconds? n.short =
        if (perSecond : Int) ∣ n then none else some (Int.fdiv n 1000) := by
  by_cases whole : (perSecond : Int) ∣ n
  case pos =>
    have text := short_of_whole ((perSecond_dvd_iff n).mp whole)
    refine ⟨by rw [if_pos whole, text], ?_⟩
    rw [if_pos whole, text, milliseconds?_dayText (notMem_minuteText _), clock?_minuteText,
      Option.map_none]
  case neg =>
    have text := short_of_fraction (mt (perSecond_dvd_iff n).mpr whole)
    have milli : n.withinDay % perSecond / 1000 < 1000 := by
      simp only [perSecond]
      omega
    refine ⟨by rw [if_neg whole, text], ?_⟩
    rw [if_neg whole, text, milliseconds?_dayText (notMem_clockText _ milli),
      clock?_clockText _ milli, Option.map_some, fdiv_thousand]

/-- A difference of one second does not tell its seconds. -/
theorem short_one_second :
    Elapsed.short 1000000 = "0:00" ∧ Elapsed.milliseconds? (Elapsed.short 1000000) ≠ some 1000 := by
  decide +kernel

end Clausal
