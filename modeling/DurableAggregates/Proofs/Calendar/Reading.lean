import DurableAggregates.Calendar.Reading
import DurableAggregates.Proofs.Calendar.Dates

/-!
# Reading undoes writing

The text of a regular instant names that instant, and other instants have the text of a regular one
(`Instant.read_text`). Only regular instants are read (`Instant.regular_of_read`). A reader that meets the text it
expects takes just that text from the front, so the statements here are about a text followed by any rest; where a
number has no fixed number of digits the rest begins with another character.
-/

namespace DurableAggregates

/-- A step that succeeds is followed by the rest. -/
theorem bind_of_eq_ok {σ ε α β : Type} {x : StateT σ (Except ε) α} {f : α → StateT σ (Except ε) β} {s t : σ} {a : α}
    (h : x s = .ok (a, t)) : (x >>= f) s = f a t := by
  show (x s >>= fun p => f p.1 p.2) = _
  rw [h]
  rfl

theorem get_bind_apply {σ ε β : Type} (f : σ → StateT σ (Except ε) β) (s : σ) : (get >>= f) s = f s s := rfl

theorem set_bind_apply {σ ε β : Type} (t : σ) (f : PUnit → StateT σ (Except ε) β) (s : σ) :
    (set t >>= f) s = f ⟨⟩ t := rfl

theorem modify_bind_apply {σ ε β : Type} (g : σ → σ) (f : PUnit → StateT σ (Except ε) β) (s : σ) :
    (modify g >>= f) s = f ⟨⟩ (g s) := rfl

namespace Text.Decimal

theorem isDigit_digit (n : Nat) : (digit n).isDigit = true := by
  have h := digit_cases n
  simp only [List.mem_cons, List.not_mem_nil, or_false] at h
  rcases h with h | h | h | h | h | h | h | h | h | h <;> rw [h] <;> rfl

theorem isDigit_of_mem_fixed {w n : Nat} {c : Char} (h : c ∈ fixed w n) : c.isDigit = true := by
  induction w generalizing n with
  | zero => cases h
  | succ w ih =>
    rcases List.mem_append.1 h with h | h
    · exact ih h
    · rw [List.mem_singleton.1 h]
      exact isDigit_digit n

theorem fixed_ne_nil {w : Nat} (hw : 0 < w) (n : Nat) : fixed w n ≠ [] :=
  List.ne_nil_of_length_pos (by rw [length_fixed]; exact hw)

theorem fixed_eq_cons (w n : Nat) : ∃ c ds, fixed (w + 1) n = c :: ds ∧ c.isDigit = true := by
  cases h : fixed (w + 1) n with
  | nil => simpa [h] using length_fixed (w + 1) n
  | cons c ds => exact ⟨c, ds, rfl, isDigit_of_mem_fixed (by rw [h]; exact List.mem_cons_self)⟩

end Text.Decimal

theorem Text.isBlank_of_isDigit {c : Char} (h : c.isDigit = true) : isBlank c = false := by
  have hd : 48 ≤ c.toNat ∧ c.toNat ≤ 57 := by
    simp only [Char.isDigit, Bool.and_eq_true, decide_eq_true_eq, ge_iff_le, UInt32.le_iff_toNat_le] at h
    exact h
  simp only [isBlank, Bool.or_eq_false_iff, Bool.and_eq_false_iff, decide_eq_false_iff_not, beq_eq_false_iff_ne]
  omega

namespace Calendar.Reading

open Text.Decimal

theorem number_of_digits {width : Nat} {ds t : List Char} (hne : ds ≠ [])
    (h : ((ds ++ t).take width).takeWhile Char.isDigit = ds) : number width (ds ++ t) = .ok (value ds, t) := by
  show (if (((ds ++ t).take width).takeWhile Char.isDigit).isEmpty = true then _ else _ : Scan Nat) (ds ++ t) = _
  rw [h, if_neg (by simpa using hne)]
  show Except.ok (value ds, (ds ++ t).drop ds.length) = _
  rw [List.drop_left]

/-- A number that is written in full width is read back. -/
theorem number_fixed {w n : Nat} (hw : 0 < w) (h : n < Nat.pow 10 w) (t : List Char) :
    number w (fixed w n ++ t) = .ok (n, t) := by
  have ht : ((fixed w n ++ t).take w).takeWhile Char.isDigit = fixed w n := by
    rw [List.take_left' (length_fixed w n)]
    simpa using @List.takeWhile_append_of_pos _ Char.isDigit (fixed w n) [] fun c hc => isDigit_of_mem_fixed hc
  rw [number_of_digits (fixed_ne_nil hw n) ht, value_fixed h]

/-- A number that may have more digits ends before the first other character. -/
theorem number_fixed_cons {w width n : Nat} (hw : 0 < w) (hle : w ≤ width) (h : n < Nat.pow 10 w) {c : Char}
    (hc : c.isDigit = false) (t : List Char) : number width (fixed w n ++ c :: t) = .ok (n, c :: t) := by
  have ht : ((fixed w n ++ c :: t).take width).takeWhile Char.isDigit = fixed w n := by
    rw [List.take_append, length_fixed, List.take_of_length_le (by rw [length_fixed]; exact hle),
      List.takeWhile_append_of_pos fun c hc => isDigit_of_mem_fixed hc]
    cases hk : width - w with
    | zero => simp
    | succ k => rw [List.take_succ_cons, List.takeWhile_cons_of_neg (by simp [hc]), List.append_nil]
  rw [number_of_digits (fixed_ne_nil hw n) ht, value_fixed h]

theorem longNumber_fixed {w n : Nat} (hw : 0 < w) (h : n < Nat.pow 10 w) {c : Char} (hc : c.isDigit = false)
    (t : List Char) : longNumber (fixed w n ++ c :: t) = .ok (n, c :: t) :=
  number_fixed_cons hw (by simp) h hc t

theorem skipBlank_cons {c : Char} (h : Text.isBlank c = false) (t : List Char) :
    skipBlank (c :: t) = .ok ((), c :: t) := by
  show Except.ok ((), List.dropWhile Text.isBlank (c :: t)) = _
  rw [List.dropWhile_cons_of_neg (by simp [h])]

theorem skipBlank_fixed (w n : Nat) (t : List Char) :
    skipBlank (fixed (w + 1) n ++ t) = .ok ((), fixed (w + 1) n ++ t) := by
  obtain ⟨c, ds, h, hc⟩ := fixed_eq_cons w n
  rw [h]
  exact skipBlank_cons (Text.isBlank_of_isDigit hc) _

theorem mark_cons (c : Char) (t : List Char) : mark c (c :: t) = .ok ((), t) := by
  show (if c = c then _ else _ : Scan Unit) (c :: t) = _
  rw [if_pos rfl]
  rfl

theorem field_fixed {low high n : Nat} (h : low ≤ n ∧ n ≤ high) (hh : high < 100) (t : List Char) :
    field low high (fixed 2 n ++ t) = .ok (n, t) := by
  show (skipBlank >>= fun _ => _) _ = _
  rw [bind_of_eq_ok (skipBlank_fixed 1 n t)]
  show (number 2 >>= fun _ => _) _ = _
  rw [bind_of_eq_ok (number_fixed (by decide) (show n < 100 by omega) t)]
  dsimp only
  rw [if_neg (by simp; omega)]
  rfl

/-- A year has at most six digits. -/
theorem longNumber_yearDigits {n : Nat} (h : n < 1_000_000) {c : Char} (hc : c.isDigit = false) (t : List Char) :
    longNumber (yearDigits n ++ c :: t) = .ok (n, c :: t) := by
  unfold yearDigits
  split
  · exact longNumber_fixed (by decide) ‹_› hc t
  split
  · exact longNumber_fixed (by decide) ‹_› hc t
  · exact longNumber_fixed (by decide) h hc t

theorem year_yearText {y : Int} (h : y.natAbs < 1_000_000) (t : List Char) :
    year (yearText y ++ '-' :: t) = .ok (y, '-' :: t) := by
  unfold year yearText
  split
  · rw [List.cons_append, bind_of_eq_ok (skipBlank_cons (by decide) _)]
    simp only [get_bind_apply, set_bind_apply]
    rw [bind_of_eq_ok (longNumber_yearDigits h (by decide) t), if_neg (by omega)]
    show Except.ok (-(y.natAbs : Int), _) = _
    rw [show -(y.natAbs : Int) = y by omega]
  split
  · have hn : y.natAbs < 10_000 := by omega
    rw [yearDigits, if_pos hn, bind_of_eq_ok (skipBlank_fixed 3 _ _)]
    simp only [get_bind_apply]
    obtain ⟨c, ds, hd, hc⟩ := fixed_eq_cons 3 y.natAbs
    have hr := number_fixed (w := 4) (by decide) hn ('-' :: t)
    rw [hd, List.cons_append] at hr ⊢
    have hm : c ≠ '-' := by rintro rfl; cases hc
    have hp : c ≠ '+' := by rintro rfl; cases hc
    simp only [List.cons.injEq, hm, hp, false_and, imp_self, implies_true]
    rw [bind_of_eq_ok hr]
    show Except.ok ((y.natAbs : Int), _) = _
    rw [show (y.natAbs : Int) = y by omega]
  · rw [List.cons_append, bind_of_eq_ok (skipBlank_cons (by decide) _)]
    simp only [get_bind_apply, set_bind_apply]
    rw [bind_of_eq_ok (longNumber_yearDigits h (by decide) t), if_neg (by omega)]
    show Except.ok ((y.natAbs : Int), _) = _
    rw [show (y.natAbs : Int) = y by omega]

theorem date_text {d : Date} (hy : d.year.natAbs < 1_000_000) (he : d.Exists) (t : List Char) :
    date (d.text ++ t) = .ok (d, t) := by
  have hm := Date.month_le_of_exists he
  have hd := Date.day_le_of_exists he
  unfold date Date.text
  simp only [List.append_assoc, List.cons_append]
  rw [bind_of_eq_ok (year_yearText hy _), bind_of_eq_ok (skipBlank_cons (by decide) _), bind_of_eq_ok (mark_cons ..),
    bind_of_eq_ok (field_fixed hm (by decide) _), bind_of_eq_ok (skipBlank_cons (by decide) _),
    bind_of_eq_ok (mark_cons ..), bind_of_eq_ok (field_fixed hd (by decide) _)]
  rfl

theorem divider_cons (t : List Char) : divider ('T' :: t) = .ok ((), t) := by
  unfold divider
  rw [get_bind_apply]
  rfl

/-- The digits of a fraction after its point, where a multiple of a power of ten has that many digits fewer. -/
theorem fractionDigits_fixed {w m : Nat} (hw : 0 < w) (hle : w ≤ 9) (h : m < Nat.pow 10 w) {c : Char}
    (hc : c.isDigit = false) (t : List Char) :
    fractionDigits (fixed w m ++ c :: t) = .ok (m * Nat.pow 10 (9 - w), c :: t) := by
  unfold fractionDigits
  rw [get_bind_apply]
  dsimp only
  rw [bind_of_eq_ok (number_fixed_cons hw hle h hc t)]
  simp only [get_bind_apply, modify_bind_apply]
  rw [List.dropWhile_cons_of_neg (by simp [hc])]
  show Except.ok (_, _) = _
  simp

/-- A fraction of nanoseconds is read back from its shortest form. -/
theorem fraction_fractionText {n : Nat} (h : n < 1_000_000_000) {c : Char} (hc : c.isDigit = false) (hp : c ≠ '.')
    (t : List Char) : fraction (fractionText n ++ c :: t) = .ok (n, c :: t) := by
  unfold fraction fractionText
  rw [get_bind_apply]
  split
  · next hn =>
    rw [List.nil_append]
    simp only [List.cons.injEq, hp, false_and, imp_self, implies_true]
    rw [hn]
    rfl
  split
  · simp only [List.cons_append, set_bind_apply]
    rw [fractionDigits_fixed (by decide) (by decide) (show n / 1_000_000 < 1_000 by omega) hc t]
    show Except.ok (n / 1_000_000 * 1_000_000, c :: t) = _
    rw [Nat.div_mul_cancel (Nat.dvd_of_mod_eq_zero ‹_›)]
  split
  · simp only [List.cons_append, set_bind_apply]
    rw [fractionDigits_fixed (by decide) (by decide) (show n / 1_000 < 1_000_000 by omega) hc t]
    show Except.ok (n / 1_000 * 1_000, c :: t) = _
    rw [Nat.div_mul_cancel (Nat.dvd_of_mod_eq_zero ‹_›)]
  · simp only [List.cons_append, set_bind_apply]
    rw [fractionDigits_fixed (by decide) (by decide) h hc t]
    show Except.ok (n * 1, c :: t) = _
    rw [Nat.mul_one]

/-- The parts that the text of an instant names. -/
def partsOf (t : Instant) : Parts where
  date := t.date
  hour := t.secondOfDay / 3600
  minute := t.secondOfDay / 60 % 60
  second := if t.isLeapSecond then t.secondOfDay % 60 + 1 else t.secondOfDay % 60
  nanos := t.nanos % 1_000_000_000
  offset := 0

theorem parts_text (t : Instant) : parts t.text = .ok (partsOf t, []) := by
  have hy := t.year_date
  have hs := t.secondOfDay_lt
  have hsec : (if t.isLeapSecond then t.secondOfDay % 60 + 1 else t.secondOfDay % 60) ≤ 60 := by split <;> omega
  unfold parts Instant.text
  simp only [List.append_assoc, List.cons_append]
  rw [bind_of_eq_ok (date_text (by unfold firstYear lastYear at hy; omega) t.exists_date _)]
  show (divider >>= _) _ = _
  rw [bind_of_eq_ok (divider_cons _), bind_of_eq_ok (field_fixed ⟨Nat.zero_le _, by omega⟩ (by decide) _),
    bind_of_eq_ok (skipBlank_cons (by decide) _), bind_of_eq_ok (mark_cons ..),
    bind_of_eq_ok (field_fixed ⟨Nat.zero_le _, by omega⟩ (by decide) _),
    bind_of_eq_ok (skipBlank_cons (by decide) _), bind_of_eq_ok (mark_cons ..),
    bind_of_eq_ok (field_fixed ⟨Nat.zero_le _, hsec⟩ (by decide) _),
    bind_of_eq_ok (fraction_fractionText (Nat.mod_lt _ (by decide)) (by decide) (by decide) _),
    bind_of_eq_ok (skipBlank_cons (by decide) _)]
  rfl

section Regular

variable {t : Instant}

theorem second_partsOf (h : t.Regular) : (partsOf t).second = 60 ↔ t.isLeapSecond = true := by
  have hleap : t.isLeapSecond = true ↔ 1_000_000_000 ≤ t.nanos := decide_eq_true_iff
  show (if t.isLeapSecond = true then t.secondOfDay % 60 + 1 else t.secondOfDay % 60) = 60 ↔ _
  split
  · have := h (hleap.1 ‹_›)
    have hday : t.secondOfDay % 60 = 59 := by
      unfold Instant.secondOfDay
      omega
    exact ⟨fun _ => ‹_›, fun _ => by omega⟩
  · exact ⟨fun _ => by omega, fun _ => by contradiction⟩

/-- The seconds of an instant come back from its parts: a leap second is counted as the second before it. -/
theorem seconds_partsOf (h : t.Regular) :
    86400 * (partsOf t).date.dayNumber + 3600 * (partsOf t).hour + 60 * (partsOf t).minute +
      min (partsOf t).second 59 - (partsOf t).offset = t.seconds := by
  have hleap : t.isLeapSecond = true ↔ 1_000_000_000 ≤ t.nanos := decide_eq_true_iff
  simp only [partsOf, Instant.dayNumber_date, Instant.secondOfDay]
  by_cases hs : t.isLeapSecond = true
  · have := h (hleap.1 hs)
    rw [if_pos hs]
    omega
  · rw [if_neg hs]
    omega

theorem nanos_partsOf (h : t.Regular) :
    (if (partsOf t).second = 60 then (partsOf t).nanos + 1_000_000_000 else (partsOf t).nanos) = t.nanos := by
  have hn := t.nanos_lt
  have hleap : t.isLeapSecond = true ↔ 1_000_000_000 ≤ t.nanos := decide_eq_true_iff
  have hp : (partsOf t).nanos = t.nanos % 1_000_000_000 := rfl
  split
  · have := hleap.1 ((second_partsOf h).1 ‹_›)
    omega
  · have := mt hleap.2 (mt (second_partsOf h).2 ‹_›)
    omega

theorem instant_partsOf (h : t.Regular) : (partsOf t).instant = .ok t := by
  have hy1 := Int.not_lt.2 t.year_date.1
  have hy2 := Int.not_lt.2 t.year_date.2
  unfold Parts.instant
  rw [if_neg (by simp [partsOf, t.exists_date, hy1, hy2])]
  simp only
  rw [seconds_partsOf h, nanos_partsOf h, Instant.ofParts?_eq_some.2 ⟨rfl, rfl, h⟩]

end Regular

theorem Parts.regular_of_instant {p : Parts} {t : Instant} (h : p.instant = .ok t) : t.Regular := by
  unfold Parts.instant at h
  split at h
  · cases h
  · dsimp only at h
    split at h
    · next hparts =>
      cases h
      exact (Instant.ofParts?_eq_some.1 hparts).2.2
    · cases h

end Calendar.Reading

namespace Calendar.Instant

/-- The text of a regular instant names it. -/
theorem read_text_of_regular {t : Instant} (h : t.Regular) : read t.text = .ok t := by
  show (Reading.parts t.text >>= fun x => x.1.instant) = _
  rw [Reading.parts_text]
  exact Reading.instant_partsOf h

theorem read_text (t : Instant) : read t.text = .ok t.asWritten := by
  rw [← text_asWritten, read_text_of_regular t.regular_asWritten]

theorem regular_of_read {text : List Char} {t : Instant} (h : read text = .ok t) : t.Regular := by
  replace h : (Reading.parts text >>= fun x => x.1.instant) = .ok t := h
  cases hp : Reading.parts text with
  | error fault =>
    rw [hp] at h
    cases h
  | ok x =>
    rw [hp] at h
    exact Reading.Parts.regular_of_instant h

end Calendar.Instant

end DurableAggregates
