import DurableAggregates.Calendar.Instant

/-!
# The dates of day numbers

`Date.ofDayNumber` gives every day number a date that exists (`exists_ofDayNumber`), and the number of that date is
the one it came from (`dayNumber_ofDayNumber`). The date of an instant lies in the years that instants have
(`Instant.year_date`).
-/

namespace DurableAggregates.Calendar

namespace Date

/--
A day number splits into eras, centuries, cycles of four years, years and days, counted from March. A year has 366
days only if it ends a cycle, and a cycle that ends a century only if that century ends an era.
-/
theorem ofDayNumber_parts (n : Int) :
    ∃ (e : Int) (c q r d : Nat), c ≤ 3 ∧ q ≤ 24 ∧ r ≤ 3 ∧ d ≤ 365 ∧ (d = 365 → r = 3 ∧ (q < 24 ∨ c = 3)) ∧
      n + 719468 = 146097 * e + 36524 * c + 1461 * q + 365 * r + d ∧
      ofDayNumber n =
        let m := (5 * d + 2) / 153
        let month := if m < 10 then m + 3 else m - 9
        let year := 400 * e + 100 * c + 4 * q + r
        ⟨if month ≤ 2 then year + 1 else year, month, d - (153 * m + 2) / 5 + 1⟩ := by
  have h0 : 0 ≤ (n + 719468) % 146097 := Int.emod_nonneg _ (by decide)
  have h1 : (n + 719468) % 146097 < 146097 := Int.emod_lt_of_pos _ (by decide)
  have h2 := Int.mul_ediv_add_emod (n + 719468) 146097
  obtain ⟨o, ho⟩ := Int.eq_ofNat_of_zero_le h0
  let c := min 3 (o / 36524)
  let inCentury := o - 36524 * c
  let q := inCentury / 1461
  let inCycle := inCentury % 1461
  let r := min 3 (inCycle / 365)
  refine ⟨(n + 719468) / 146097, c, q, r, inCycle - 365 * r, ?_, ?_, ?_, ?_, ?_, ?_, ?_⟩
  · omega
  · omega
  · omega
  · omega
  · omega
  · omega
  · simp only [ofDayNumber, ho, Int.toNat_natCast]
    rfl

theorem exists_ofDayNumber (n : Int) : (ofDayNumber n).Exists := by
  obtain ⟨e, c, q, r, d, hc, hq, hr, hd, hleap, -, h⟩ := ofDayNumber_parts n
  rw [h]
  have hm : (5 * d + 2) / 153 ≤ 11 := by omega
  generalize hm' : (5 * d + 2) / 153 = m at hm
  refine ⟨Nat.le_add_left .., ?_⟩
  dsimp only
  -- Only February, the last month, needs to know about leap years.
  have hcases : m = 0 ∨ m = 1 ∨ m = 2 ∨ m = 3 ∨ m = 4 ∨ m = 5 ∨ m = 6 ∨ m = 7 ∨ m = 8 ∨ m = 9 ∨ m = 10 ∨ m = 11 := by
    omega
  rcases hcases with rfl | rfl | rfl | rfl | rfl | rfl | rfl | rfl | rfl | rfl | rfl | rfl <;>
    simp [monthLength, isLeap] <;> try omega
  split <;> omega

theorem dayNumber_ofDayNumber (n : Int) : (ofDayNumber n).dayNumber = n := by
  obtain ⟨e, c, q, r, d, hc, hq, hr, hd, -, hn, h⟩ := ofDayNumber_parts n
  rw [h]
  generalize hm : (5 * d + 2) / 153 = m
  have hm' : m ≤ 11 := by omega
  have hle : (153 * m + 2) / 5 ≤ d := by omega
  have hmonth : ((if m < 10 then m + 3 else m - 9) + 9) % 12 = m := by split <;> omega
  simp only [dayNumber, hmonth]
  split <;> omega

theorem month_le_of_exists {d : Date} (h : d.Exists) : 1 ≤ d.month ∧ d.month ≤ 12 := by
  obtain ⟨h1, h2⟩ := h
  unfold monthLength at h2
  split at h2 <;> omega

end Date

theorem monthLength_le (year : Int) (month : Nat) : monthLength year month ≤ 31 := by
  unfold monthLength
  split <;> first | decide | (split <;> decide)

theorem Date.day_le_of_exists {d : Date} (h : d.Exists) : 1 ≤ d.day ∧ d.day ≤ 31 :=
  ⟨h.1, Nat.le_trans h.2 (monthLength_le ..)⟩

/-! ## The dates of instants -/

namespace Instant

theorem firstSecond_eq : firstSecond = 86400 * (-96465292) := rfl

theorem lastSecond_eq : lastSecond = 86400 * 95026236 + 86399 := rfl

theorem exists_date (t : Instant) : t.date.Exists := Date.exists_ofDayNumber _

theorem dayNumber_date (t : Instant) : t.date.dayNumber = t.seconds / 86400 := Date.dayNumber_ofDayNumber _

theorem year_date (t : Instant) : firstYear ≤ t.date.year ∧ t.date.year ≤ lastYear := by
  have h1 := t.firstSecond_le
  have h2 := t.le_lastSecond
  rw [firstSecond_eq] at h1
  rw [lastSecond_eq] at h2
  obtain ⟨e, c, q, r, d, hc, hq, hr, hd, -, hn, h⟩ := Date.ofDayNumber_parts (t.seconds / 86400)
  rw [date, h, firstYear, lastYear]
  generalize hm : (5 * d + 2) / 153 = m at h
  have hmonth : (if m < 10 then m + 3 else m - 9) ≤ 2 ↔ 10 ≤ m := by split <;> omega
  simp only [hmonth]
  constructor
  · split <;> omega
  · -- The last year lies in the last era, where the century decides.
    rcases (by omega : e < 655 ∨ e = 655) with he | rfl
    · split <;> omega
    · obtain rfl | rfl | rfl | rfl : c = 0 ∨ c = 1 ∨ c = 2 ∨ c = 3 := by omega
      all_goals split <;> omega

theorem secondOfDay_lt (t : Instant) : t.secondOfDay < 86400 := by
  unfold secondOfDay
  omega

end Instant

end DurableAggregates.Calendar
