/-!
# Dates of the proleptic Gregorian calendar

A `Date` is a year, a month and a day, checked by `Date.Exists`. Days are numbered from 1 January 1970, which is day
0. Years are counted from March here, so that the leap day is the last of its year: four hundred years have 146097
days, a century 36524, four years 1461.
-/

namespace DurableAggregates.Calendar

structure Date where
  year : Int
  month : Nat
  day : Nat
  deriving DecidableEq, Repr

def isLeap (year : Int) : Bool := year % 4 == 0 && (year % 100 != 0 || year % 400 == 0)

/-- The number of days of a month; zero for a number that is no month. -/
def monthLength (year : Int) : Nat → Nat
  | 1 | 3 | 5 | 7 | 8 | 10 | 12 => 31
  | 4 | 6 | 9 | 11 => 30
  | 2 => if isLeap year then 29 else 28
  | _ => 0

namespace Date

def Exists (d : Date) : Prop := 1 ≤ d.day ∧ d.day ≤ monthLength d.year d.month

instance (d : Date) : Decidable d.Exists := inferInstanceAs (Decidable (_ ∧ _))

/-- The number of the day, 1 January 1970 being day 0. -/
def dayNumber (d : Date) : Int :=
  let year := if d.month ≤ 2 then d.year - 1 else d.year
  let monthFromMarch := (d.month + 9) % 12
  let dayOfYear := (153 * monthFromMarch + 2) / 5 + d.day - 1
  365 * year + year / 4 - year / 100 + year / 400 + (dayOfYear : Int) - 719468

/-- The date of a day number. -/
def ofDayNumber (n : Int) : Date :=
  let shifted := n + 719468
  let era := shifted / 146097
  let dayOfEra := (shifted % 146097).toNat
  let century := min 3 (dayOfEra / 36524)
  let dayOfCentury := dayOfEra - 36524 * century
  let cycle := dayOfCentury / 1461
  let dayOfCycle := dayOfCentury % 1461
  let yearOfCycle := min 3 (dayOfCycle / 365)
  let dayOfYear := dayOfCycle - 365 * yearOfCycle
  let monthFromMarch := (5 * dayOfYear + 2) / 153
  let day := dayOfYear - (153 * monthFromMarch + 2) / 5 + 1
  let month := if monthFromMarch < 10 then monthFromMarch + 3 else monthFromMarch - 9
  let year := 400 * era + 100 * century + 4 * cycle + yearOfCycle
  ⟨if month ≤ 2 then year + 1 else year, month, day⟩

example : dayNumber ⟨1970, 1, 1⟩ = 0 := by decide

example : dayNumber ⟨2024, 2, 29⟩ = 19782 ∧ ofDayNumber 19782 = ⟨2024, 2, 29⟩ := by decide

end Date

end DurableAggregates.Calendar
