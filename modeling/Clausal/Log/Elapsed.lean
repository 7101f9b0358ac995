import Clausal.Log.Level

/-!
# Elapsed time in log lines

A log line shows the time that has passed since a reference time, as days, hours, minutes, seconds
and milliseconds.

* `Elapsed.full` writes a number of microseconds: `[D day[s], ]H:MM:SS[.ffffff]`. Days may be
  negative, the rest is not. The fraction is left out if it is zero.
* `Elapsed.short` is the full text without its last three characters.
* `Elapsed.inSeconds` writes a number of thousandths of a second in seconds.
* `Elapsed.ofSeconds` rounds to whole microseconds, a half to the even neighbour.
-/

namespace Clausal

/-- A time difference in microseconds. -/
abbrev Elapsed := Int

namespace Elapsed

/-- Microseconds in a second. -/
def perSecond : Nat := 1000000

/-- Microseconds in a day. -/
def perDay : Nat := 86400 * perSecond

/-- Decimal digits, with zeros in front up to `width`. -/
def padded (width n : Nat) : String :=
  let digits := toString n
  "".pushn '0' (width - digits.length) ++ digits

/-- A number of thousandths of a second, in seconds with three digits after the point. -/
def inSeconds (thousandths : Int) : String :=
  (if thousandths < 0 then "-" else "") ++ toString (thousandths.natAbs / 1000) ++ "." ++
    padded 3 (thousandths.natAbs % 1000)

/-- The whole days, if there are any: `1 day, `, `-2 days, `. -/
def dayText (days : Int) : String :=
  if days = 0 then ""
  else toString days ++ (if days.natAbs = 1 then " day, " else " days, ")

/-- The time of day, `H:MM:SS`. -/
def clockText (seconds : Nat) : String :=
  toString (seconds / 3600) ++ ":" ++ padded 2 (seconds / 60 % 60) ++ ":" ++ padded 2 (seconds % 60)

/-- The whole days of a difference, rounded down. -/
def days (n : Elapsed) : Int :=
  Int.fdiv n perDay

/-- The microseconds after the whole days. -/
def withinDay (n : Elapsed) : Nat :=
  (Int.fmod n perDay).toNat

/-- The text of a difference, with six digits after the seconds unless they are all zero. -/
def full (n : Elapsed) : String :=
  let fraction := n.withinDay % perSecond
  dayText n.days ++ clockText (n.withinDay / perSecond) ++
    (if fraction = 0 then "" else "." ++ padded 6 fraction)

/-- The text of a difference without its last three characters. -/
def short (n : Elapsed) : String :=
  let text := n.full.toList
  String.ofList (text.take (text.length - 3))

/-- The whole number nearest to `n + part`, for a `part` between -1 and 1; a half goes to the even
neighbour. -/
def nearestEven (n : Int) (part : Float) : Int :=
  let next := if part < 0 then n - 1 else n + 1
  if part.abs < 0.5 then n
  else if part.abs > 0.5 then next
  else if n % 2 = 0 then n else next

/-- The microseconds in a number of seconds. The whole seconds are exact; only the fraction of a
second is scaled in floating point. -/
def ofSeconds (seconds : Float) : Elapsed :=
  let whole := seconds.toInt64.toInt
  let scaled := (seconds - Float.ofInt whole) * 1000000
  let part := scaled.toInt64.toInt
  nearestEven (whole * perSecond + part) (scaled - Float.ofInt part)

end Elapsed

/-! ## Log lines -/

/-- What is logged: a message of a level, by a source of a name. -/
structure LogRecord where
  name : String
  level : LogLevel
  message : String
  deriving Repr, DecidableEq

/-- A line of the log. The name of the level takes at least five places. -/
def LogRecord.line (r : LogRecord) (elapsed : Elapsed) : String :=
  let level := r.level.name
  r.name ++ " - " ++ level.pushn ' ' (5 - level.length) ++ " - " ++ elapsed.short ++ ": " ++
    r.message

/-- The time that has passed at `milliseconds` after the start of the log, since a reference time in
seconds after the start. -/
def Elapsed.since (reference milliseconds : Float) : Elapsed :=
  Elapsed.ofSeconds (milliseconds / 1000 - reference)

end Clausal
