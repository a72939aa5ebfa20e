/-!
# Decimal digits

`fixed w n` writes the last `w` decimal digits of `n`, with leading zeros; `value` reads digits back. The main
statement is `value_fixed`: reading undoes writing for the numbers that have `w` digits.
-/

namespace DurableAggregates.Text.Decimal

def digit (n : Nat) : Char := Char.ofNat (48 + n % 10)

def fixed : Nat → Nat → List Char
  | 0, _ => []
  | w + 1, n => fixed w (n / 10) ++ [digit n]

def digitValue (c : Char) : Nat := c.toNat - 48

def value (ds : List Char) : Nat := ds.foldl (fun n c => 10 * n + digitValue c) 0

/-- The digits of `n`, without leading zeros but for zero itself. -/
def natural (n : Nat) : List Char := (Nat.repr n).toList

theorem digit_cases (n : Nat) : digit n ∈ ['0', '1', '2', '3', '4', '5', '6', '7', '8', '9'] := by
  have h : n % 10 < 10 := Nat.mod_lt _ (by decide)
  unfold digit
  generalize n % 10 = k at h
  match k, h with
  | 0, _ | 1, _ | 2, _ | 3, _ | 4, _ | 5, _ | 6, _ | 7, _ | 8, _ | 9, _ => decide

theorem digitValue_digit (n : Nat) : digitValue (digit n) = n % 10 := by
  have h : n % 10 < 10 := Nat.mod_lt _ (by decide)
  unfold digit
  generalize n % 10 = k at h ⊢
  match k, h with
  | 0, _ | 1, _ | 2, _ | 3, _ | 4, _ | 5, _ | 6, _ | 7, _ | 8, _ | 9, _ => decide

@[simp] theorem length_fixed (w n : Nat) : (fixed w n).length = w := by
  induction w generalizing n with
  | zero => rfl
  | succ w ih => simp [fixed, ih]

theorem value_append_singleton (ds : List Char) (c : Char) :
    value (ds ++ [c]) = 10 * value ds + digitValue c := by
  simp [value]

theorem value_fixed {w n : Nat} (h : n < Nat.pow 10 w) : value (fixed w n) = n := by
  induction w generalizing n with
  | zero =>
    have h : n < 1 := h
    simp [fixed, value]
    omega
  | succ w ih =>
    have h : n < Nat.pow 10 w * 10 := h
    rw [fixed, value_append_singleton, digitValue_digit, ih (by omega)]
    omega

end DurableAggregates.Text.Decimal
