/-!
# Time stamps

A moment is shown as its date and time of day in universal time, to the microsecond.  The date of a
day is found from the number of days since the first of March of the year zero, in whose reckoning
the leap day comes last: four hundred years, a hundred, four and one are taken off in turn.
-/

namespace JsonReport.Timestamp

structure Date where
  year : Nat
  month : Nat
  day : Nat
deriving DecidableEq, Repr

/-- The date of a day counted from the first of January 1970. -/
def dateOf (days : Nat) : Date :=
  let count := days + 719468
  let era := count / 146097
  let dayOfEra := count % 146097
  let yearOfEra := (dayOfEra - dayOfEra / 1460 + dayOfEra / 36524 - dayOfEra / 146096) / 365
  let dayOfYear := dayOfEra - (365 * yearOfEra + yearOfEra / 4 - yearOfEra / 100)
  let shifted := (5 * dayOfYear + 2) / 153
  let month := if shifted < 10 then shifted + 3 else shifted - 9
  ⟨era * 400 + yearOfEra + (if month ≤ 2 then 1 else 0), month,
    dayOfYear - (153 * shifted + 2) / 5 + 1⟩

/-- A number with zeros in front of it, up to a width. -/
def padded (width n : Nat) : String :=
  let digits := Nat.toDigits 10 n
  String.ofList (List.replicate (width - digits.length) '0' ++ digits)

/-- The stamp of a moment, in seconds and nanoseconds since the first of January 1970. -/
def text (seconds nanos : Nat) : String :=
  let date := dateOf (seconds / 86400)
  let time := seconds % 86400
  padded 4 date.year ++ "-" ++ padded 2 date.month ++ "-" ++ padded 2 date.day ++ "T" ++
    padded 2 (time / 3600) ++ ":" ++ padded 2 (time / 60 % 60) ++ ":" ++ padded 2 (time % 60) ++
    "." ++ padded 6 (nanos / 1000) ++ "Z"

end JsonReport.Timestamp
