/-!
# The calendar

The days are numbered from the first of January 1970.  A date is found by its place in the Gregorian
cycle of 400 years, whose years are counted from the first of March so that a leap day comes last.
-/

namespace ReflectedSchema.Logging

/-- A date of the Gregorian calendar. -/
structure Date where
  year : Int
  month : Nat
  day : Nat
  deriving DecidableEq, Repr, Inhabited

namespace Date

/-- The date of a day. -/
def ofDay (day : Int) : Date :=
  -- the cycle begins on the first of March of the year 0
  let shifted := day + 719468
  let cycle := shifted.fdiv 146097
  let dayOfCycle := (shifted - cycle * 146097).toNat
  let yearOfCycle :=
    (dayOfCycle - dayOfCycle / 1460 + dayOfCycle / 36524 - dayOfCycle / 146096) / 365
  let dayOfYear := dayOfCycle - (365 * yearOfCycle + yearOfCycle / 4 - yearOfCycle / 100)
  let march := (5 * dayOfYear + 2) / 153
  let month := if march < 10 then march + 3 else march - 9
  { year := cycle * 400 + yearOfCycle + (if month ≤ 2 then 1 else 0)
    month
    day := dayOfYear - (153 * march + 2) / 5 + 1 }

example : ofDay 0 = ⟨1970, 1, 1⟩ ∧ ofDay 11016 = ⟨2000, 2, 29⟩ ∧ ofDay (-1) = ⟨1969, 12, 31⟩ := by decide

end Date

/-- A number with at least two digits. -/
def twoDigits (n : Nat) : String :=
  if n < 10 then "0" ++ toString n else toString n

/-- A second in words, down to the second. -/
def clockText (second : Int) : String :=
  let day := second.fdiv 86400
  let rest := (second - day * 86400).toNat
  let date := Date.ofDay day
  toString date.year ++ "-" ++ twoDigits date.month ++ "-" ++ twoDigits date.day ++ " " ++
    twoDigits (rest / 3600) ++ ":" ++ twoDigits (rest / 60 % 60) ++ ":" ++ twoDigits (rest % 60)

example : clockText 1700000000 = "2023-11-14 22:13:20" := by decide +kernel

end ReflectedSchema.Logging
