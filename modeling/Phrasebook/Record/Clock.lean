/-!
Points in time as they are written in a log: date and time of day in universal time, to the
millisecond.
-/

namespace Phrasebook.Record

structure Date where
  year : Nat
  month : Nat
  day : Nat
deriving DecidableEq, Repr

/-- The date that lies the given number of days after the first of January 1970. The count goes from
the first of March, so that a leap day is the last day of its year. -/
def Date.ofDays (days : Nat) : Date :=
  let days := days + 719468
  let era := days / 146097
  let ofEra := days % 146097
  let year := (ofEra - ofEra / 1460 + ofEra / 36524 - ofEra / 146096) / 365
  let ofYear := ofEra - (365 * year + year / 4 - year / 100)
  let month := (5 * ofYear + 2) / 153
  let day := ofYear - (153 * month + 2) / 5 + 1
  if month < 10 then ⟨era * 400 + year, month + 3, day⟩
  else ⟨era * 400 + year + 1, month - 9, day⟩

def padded (width n : Nat) : String :=
  let digits := Nat.toDigits 10 n
  String.ofList (List.replicate (width - digits.length) '0' ++ digits)

def timeText (milliseconds : Nat) : String :=
  let seconds := milliseconds / 1000
  let date := Date.ofDays (seconds / 86400)
  let day := "-".intercalate [padded 4 date.year, padded 2 date.month, padded 2 date.day]
  let time := ":".intercalate
    [padded 2 (seconds / 3600 % 24), padded 2 (seconds / 60 % 60), padded 2 (seconds % 60)]
  s!"{day}T{time}.{padded 3 (milliseconds % 1000)}Z"

end Phrasebook.Record
