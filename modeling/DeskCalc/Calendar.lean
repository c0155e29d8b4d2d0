/-!
# Calendar

The date and time of a timestamp, in the calendar of today extended in both directions.

The calendar repeats every 400 years. Counting those years from the first of March puts the
leap day at the end of a year, where it disturbs no other date, and makes the length of the
months before it follow one linear formula.

## Main definitions

* `Calendar.Date`: A year, a month and a day.
* `Calendar.dateOfDay`: The date of a day, counted from the start of 1970.
* `Calendar.dateTime`: The date and time of a timestamp, as text.
* `Calendar.ofWord`: The same for a timestamp in a column, where it may be missing.
* `Calendar.words?`: Timestamps as the words of a column.
-/

namespace DeskCalc

namespace Calendar

/-- A date. -/
structure Date where
  /-- The year, with a year zero before the first. -/
  year : Int
  /-- The month, from one. -/
  month : Nat
  /-- The day of the month, from one. -/
  day : Nat
  deriving DecidableEq, Repr

/-- The days from the first of March of year zero to the start of 1970. -/
def marchToEpoch : Int := 719468

/-- The days in 400 years. -/
def daysPerEra : Int := 146097

/-- The date of a day, counted from the start of 1970. -/
def dateOfDay (day : Int) : Date :=
  let z := day + marchToEpoch
  let era := z / daysPerEra
  let dayOfEra := (z % daysPerEra).toNat
  let yearOfEra := (dayOfEra - dayOfEra / 1460 + dayOfEra / 36524 - dayOfEra / 146096) / 365
  let dayOfYear := dayOfEra - (365 * yearOfEra + yearOfEra / 4 - yearOfEra / 100)
  let monthFromMarch := (5 * dayOfYear + 2) / 153
  let month := if monthFromMarch < 10 then monthFromMarch + 3 else monthFromMarch - 9
  { year := era * 400 + yearOfEra + (if month ≤ 2 then 1 else 0)
    month := month
    day := dayOfYear - (153 * monthFromMarch + 2) / 5 + 1 }

/-- The number with at least the given number of digits. -/
def padded (width n : Nat) : String :=
  let ds := Nat.toDigits 10 n
  String.ofList (List.replicate (width - ds.length) '0' ++ ds)

/-- The year in at least four characters, of which a minus sign is one. -/
def yearText (year : Int) : String :=
  if year < 0 then "-" ++ padded 3 year.natAbs else padded 4 year.natAbs

/-- The date and time of a timestamp in milliseconds. -/
def dateTime (ms : Int) : String :=
  let date := dateOfDay (ms / 86400000)
  let rest := (ms % 86400000).toNat
  yearText date.year ++ "-" ++ padded 2 date.month ++ "-" ++ padded 2 date.day ++ "T" ++
    padded 2 (rest / 3600000) ++ ":" ++ padded 2 (rest / 60000 % 60) ++ ":" ++
    padded 2 (rest / 1000 % 60) ++ "." ++ padded 3 (rest % 1000)

/-- The first number that a signed word of 64 bits cannot hold. -/
def signedBound : Int := 9223372036854775808

/-- The first number that an unsigned word of 64 bits cannot hold. -/
def unsignedBound : Int := 18446744073709551616

/-- Timestamps as the signed words of a column. Timestamps that fit unsigned words are held in
    these, whose upper half is read as negative. If neither fits them all, they cannot stand in
    one column. -/
def words? (timestamps : List Int) : Option (List Int) :=
  if timestamps.all fun t => -signedBound ≤ t && t < signedBound then some timestamps
  else if timestamps.all fun t => 0 ≤ t && t < unsignedBound then
    some (timestamps.map fun t => if t < signedBound then t else t - unsignedBound)
  else none

/-- The date and time in a column. Its least word stands for a time that is missing. -/
def ofWord (word : Int) : String := if word = -signedBound then "NaT" else dateTime word

end Calendar

end DeskCalc
