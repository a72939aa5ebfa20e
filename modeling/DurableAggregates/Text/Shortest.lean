import DurableAggregates.Text.Decimal

/-!
# Shortest decimals of whole numbers

A whole number that is kept as a binary number of 53 significant bits is rounded first, to the nearest such number and
at a tie to the even one (`toBinary`). It is then written with the fewest significant decimal digits that round to the
same binary number, the others being zero; of two such decimals the nearer counts.
-/

namespace DurableAggregates.Text.Shortest

/-- A binary number `significand * 2 ^ exponent` whose significand has at most 53 bits. -/
structure Binary where
  significand : Nat
  exponent : Nat
  deriving DecidableEq, Repr

def Binary.value (b : Binary) : Nat := b.significand * Nat.pow 2 b.exponent

/-- The nearest binary number of 53 significant bits, at a tie the even one. -/
def toBinary (n : Nat) : Binary :=
  let exponent := n.log2 + 1 - 53
  let unit := Nat.pow 2 exponent
  let low := n / unit
  let twice := 2 * (n % unit)
  if twice < unit ∨ (twice = unit ∧ low % 2 = 0) then ⟨low, exponent⟩ else ⟨low + 1, exponent⟩

/-- Whether a number rounds to the given one; doubled, so that half a unit is whole. -/
def Binary.rounds (b : Binary) (n : Nat) : Bool :=
  let distance := 2 * (max n b.value - min n b.value)
  distance < Nat.pow 2 b.exponent || (distance == Nat.pow 2 b.exponent && b.significand % 2 == 0)

/-- The multiple of a unit that is nearest to a number, the even multiple at a tie. -/
def nearestMultiple (n unit : Nat) : Nat :=
  let low := n / unit
  let twice := 2 * (n % unit)
  if twice < unit ∨ (twice = unit ∧ low % 2 = 0) then low * unit else (low + 1) * unit

/-- The first multiple of a power of ten, of at most `10 ^ e`, that rounds to the number. -/
def shortestFrom (b : Binary) : Nat → Nat
  | 0 => b.value
  | e + 1 =>
    let candidate := nearestMultiple b.value (Nat.pow 10 (e + 1))
    if b.rounds candidate then candidate else shortestFrom b e

/-- The decimal text of a whole number kept in binary. -/
def text (n : Nat) : String :=
  let b := toBinary n
  Nat.repr (shortestFrom b (Nat.repr b.value).length)

example : text 1000 = "1000" ∧ text (2 ^ 53 + 1) = "9007199254740992" ∧
    text (2 ^ 64 - 1) = "18446744073709552000" := by
  decide +kernel

end DurableAggregates.Text.Shortest
