/-!
# Binary floating point numbers as bit patterns

A `Binary64` is the 64-bit pattern of an IEEE 754 number. Equality `=` compares patterns, so payloads of NaNs and
signs of zeros count; `Binary64.equals` is the comparison of the standard: a NaN equals nothing (`equals_self_iff`),
the two zeros equal each other, and all other numbers equal themselves only (`eq_of_equals`).
-/

namespace DurableAggregates

structure Binary64 where
  bits : UInt64
  deriving DecidableEq, Repr, Inhabited

namespace Binary64

/-- The pattern without its sign bit. -/
def magnitude (x : Binary64) : UInt64 := x.bits &&& 0x7fffffffffffffff

def isNaN (x : Binary64) : Bool := 0x7ff0000000000000 < x.magnitude

def isZero (x : Binary64) : Bool := x.magnitude == 0

/-- The comparison of IEEE 754. -/
def equals (x y : Binary64) : Bool :=
  !x.isNaN && !y.isNaN && (x == y || (x.isZero && y.isZero))

theorem equals_self_iff (x : Binary64) : x.equals x = true ↔ x.isNaN = false := by
  simp [equals]

theorem eq_of_equals {x y : Binary64} (h : x.equals y = true) (hz : x.isZero = false) : x = y := by
  simp_all [equals]

end Binary64

end DurableAggregates
