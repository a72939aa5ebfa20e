import DurableAggregates.Calendar.Instant
import DurableAggregates.Text.Decimal

/-!
# Instants as text: writing

An instant is written as `YYYY-MM-DDTHH:MM:SS[.fraction]Z`. The fraction has 0, 3, 6 or 9 digits, the fewest that are
exact. A year outside 0 to 9999 has a sign and at least four digits. A leap second has the number after that of the
second that it follows: it is second 60 if it ends a minute, and cannot be told from the next second otherwise. So a
text names the instant it was written for, or one in the next second (`Instant.asWritten`).
-/

namespace DurableAggregates.Calendar

open Text.Decimal

/-- The digits of a year beyond its sign: four, or all if there are more. -/
def yearDigits (n : Nat) : List Char :=
  if n < 10_000 then fixed 4 n else if n < 100_000 then fixed 5 n else fixed 6 n

def yearText (year : Int) : List Char :=
  if year < 0 then '-' :: yearDigits year.natAbs
  else if year < 10000 then yearDigits year.natAbs
  else '+' :: yearDigits year.natAbs

def Date.text (d : Date) : List Char :=
  yearText d.year ++ '-' :: fixed 2 d.month ++ '-' :: fixed 2 d.day

/-- The fraction of a second, with its point; nothing for a whole second. -/
def fractionText (nanos : Nat) : List Char :=
  if nanos = 0 then []
  else if nanos % 1_000_000 = 0 then '.' :: fixed 3 (nanos / 1_000_000)
  else if nanos % 1_000 = 0 then '.' :: fixed 6 (nanos / 1_000)
  else '.' :: fixed 9 nanos

namespace Instant

def text (t : Instant) : List Char :=
  let second := if t.isLeapSecond then t.secondOfDay % 60 + 1 else t.secondOfDay % 60
  t.date.text ++ 'T' :: fixed 2 (t.secondOfDay / 3600) ++ ':' :: fixed 2 (t.secondOfDay / 60 % 60) ++
    ':' :: fixed 2 second ++ fractionText (t.nanos % 1_000_000_000) ++ ['Z']

/-- The instant that the text names: a leap second within a minute becomes the second after it. -/
def asWritten (t : Instant) : Instant :=
  if h : t.Regular then t
  else {
    seconds := t.seconds + 1
    nanos := t.nanos - 1_000_000_000
    firstSecond_le := Int.le_add_one t.firstSecond_le
    le_lastSecond := t.succ_le_lastSecond h
    nanos_lt := Nat.lt_of_le_of_lt (Nat.sub_le ..) t.nanos_lt }

theorem asWritten_of_regular {t : Instant} (h : t.Regular) : t.asWritten = t := dif_pos h

/-- What becomes of a leap second within a minute. -/
theorem asWritten_of_not_regular {t : Instant} (h : ¬t.Regular) :
    t.asWritten.seconds = t.seconds + 1 ∧ t.asWritten.nanos + 1_000_000_000 = t.nanos ∧ t.seconds % 60 ≠ 59 := by
  obtain ⟨hleap, hminute⟩ := Classical.not_imp.1 h
  rw [asWritten, dif_neg h]
  exact ⟨rfl, Nat.sub_add_cancel hleap, hminute⟩

theorem regular_asWritten (t : Instant) : t.asWritten.Regular := by
  by_cases h : t.Regular
  · rw [asWritten_of_regular h]
    exact h
  · obtain ⟨-, hn, -⟩ := asWritten_of_not_regular h
    have hlt := t.nanos_lt
    intro hleap
    omega

theorem asWritten_eq_self_iff {t : Instant} : t.asWritten = t ↔ t.Regular :=
  ⟨fun h => h ▸ t.regular_asWritten, asWritten_of_regular⟩

/-- The next second lies in the same minute. -/
theorem secondOfDay_asWritten {t : Instant} (h : ¬t.Regular) :
    t.asWritten.date = t.date ∧ t.asWritten.secondOfDay = t.secondOfDay + 1 ∧ t.secondOfDay % 60 ≠ 59 := by
  obtain ⟨hs, -, hminute⟩ := asWritten_of_not_regular h
  refine ⟨?_, ?_, ?_⟩
  · unfold date
    congr 1
    omega
  · unfold secondOfDay
    omega
  · unfold secondOfDay
    omega

/-- An instant and the one that its text names have the same text. -/
theorem text_asWritten (t : Instant) : t.asWritten.text = t.text := by
  by_cases h : t.Regular
  · rw [asWritten_of_regular h]
  · obtain ⟨-, hn, -⟩ := asWritten_of_not_regular h
    obtain ⟨hdate, hday, hlast⟩ := secondOfDay_asWritten h
    have hlt := t.nanos_lt
    have hhour : (t.secondOfDay + 1) / 3600 = t.secondOfDay / 3600 := by omega
    have hmin : (t.secondOfDay + 1) / 60 % 60 = t.secondOfDay / 60 % 60 := by omega
    have hsec : (t.secondOfDay + 1) % 60 = t.secondOfDay % 60 + 1 := by omega
    have hfraction : t.asWritten.nanos % 1_000_000_000 = t.nanos % 1_000_000_000 := by omega
    have hold : t.isLeapSecond = true := decide_eq_true (by omega)
    have hnew : ¬t.asWritten.isLeapSecond = true := fun hleap => by
      have := of_decide_eq_true hleap
      omega
    simp only [text, hdate, hday, hhour, hmin, hsec, hfraction, if_pos hold, if_neg hnew]

end Instant

example : Instant.year2025.text = "2025-01-01T00:00:00Z".toList := by decide +kernel

example : yearText (-1) = "-0001".toList ∧ yearText 10000 = "+10000".toList := by decide +kernel

end DurableAggregates.Calendar
