import DurableAggregates.Calendar.Date

/-!
# Points in time

An `Instant` counts seconds from the beginning of 1970 in UTC and nanoseconds within that second. From 1 January of
the year -262143 to 31 December of the year 262142 every second has its instants. Nanoseconds from 10⁹ on lie in a
leap second, which can follow any second. It is regular if it follows the last second of a minute
(`Instant.Regular`), and only such leap seconds can be told from other seconds when they are written.
-/

namespace DurableAggregates.Calendar

/-- The first year in which an instant can lie. -/
def firstYear : Int := -262143

/-- The last year in which an instant can lie. -/
def lastYear : Int := 262142

def firstSecond : Int := 86400 * Date.dayNumber ⟨firstYear, 1, 1⟩

def lastSecond : Int := 86400 * Date.dayNumber ⟨lastYear, 12, 31⟩ + 86399

structure Instant where
  seconds : Int
  nanos : Nat
  firstSecond_le : firstSecond ≤ seconds
  le_lastSecond : seconds ≤ lastSecond
  nanos_lt : nanos < 2_000_000_000
  deriving DecidableEq

namespace Instant

/-- No leap second, or one that ends a minute. -/
def Regular (t : Instant) : Prop := 1_000_000_000 ≤ t.nanos → t.seconds % 60 = 59

instance (t : Instant) : Decidable t.Regular := inferInstanceAs (Decidable (_ → _))

/-- The regular instant with these seconds and nanoseconds, if there is one. -/
def ofParts? (seconds : Int) (nanos : Nat) : Option Instant :=
  if h : firstSecond ≤ seconds ∧ seconds ≤ lastSecond ∧ nanos < 2_000_000_000 ∧
      (1_000_000_000 ≤ nanos → seconds % 60 = 59) then
    some ⟨seconds, nanos, h.1, h.2.1, h.2.2.1⟩
  else none

/-- The beginning of 1970. -/
def epoch : Instant := ⟨0, 0, by decide, by decide, by decide⟩

/-- The beginning of 2025. -/
def year2025 : Instant := ⟨1735689600, 0, by decide, by decide, by decide⟩

instance : Inhabited Instant := ⟨epoch⟩

/-- The date of the day the instant lies in. -/
def date (t : Instant) : Date := .ofDayNumber (t.seconds / 86400)

def secondOfDay (t : Instant) : Nat := (t.seconds % 86400).toNat

def isLeapSecond (t : Instant) : Bool := 1_000_000_000 ≤ t.nanos

/-- After a leap second within a minute there is another second. -/
theorem succ_le_lastSecond (t : Instant) (h : ¬t.Regular) : t.seconds + 1 ≤ lastSecond := by
  have hle := t.le_lastSecond
  unfold Regular at h
  unfold lastSecond at *
  omega

@[ext] theorem ext {a b : Instant} (hs : a.seconds = b.seconds) (hn : a.nanos = b.nanos) : a = b := by
  cases a; cases b; simp_all

theorem ofParts?_eq_some {s : Int} {n : Nat} {t : Instant} :
    ofParts? s n = some t ↔ t.seconds = s ∧ t.nanos = n ∧ t.Regular := by
  unfold ofParts?
  constructor
  · intro h
    split at h
    · next hparts =>
      cases h
      exact ⟨rfl, rfl, hparts.2.2.2⟩
    · cases h
  · rintro ⟨rfl, rfl, hr⟩
    rw [dif_pos ⟨t.firstSecond_le, t.le_lastSecond, t.nanos_lt, hr⟩]

end Instant

end DurableAggregates.Calendar
