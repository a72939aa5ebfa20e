import DurableAggregates.Calendar.Instant
import DurableAggregates.CorrelationKey

/-!
# Redelivery records

A record counts the recovery passes that found a key outstanding. The count stops at `Record.limit` and never goes
back, so a record above its budget stays above it (`Record.isExhausted_observe`). The state of a key follows from its
record.
-/

namespace DurableAggregates

open Calendar (Instant)

inductive RecoveryState where
  /-- Stored and not yet seen by a pass. -/
  | inFlight
  /-- Stored and handed back `n` times. -/
  | pending (n : Nat)
  /-- Gone after successful processing. -/
  | confirmed
  /-- Gone after the budget was spent. -/
  | deadLettered
  deriving DecidableEq, Repr

namespace RecoveryState

/-- Whether the key has left the store. -/
def isTerminal : RecoveryState → Bool
  | .confirmed | .deadLettered => true
  | _ => false

def text : RecoveryState → String
  | .inFlight => "in-flight"
  | .pending n => s!"pending-redelivery({n})"
  | .confirmed => "confirmed"
  | .deadLettered => "dead-lettered"

end RecoveryState

/-- The largest number of attempts that is counted. -/
def Record.limit : Nat := 0xffff_ffff

structure Record where
  key : CorrelationKey
  attempts : Nat
  lastSeen : Instant
  attempts_le : attempts ≤ Record.limit := by decide
  deriving DecidableEq

namespace Record

/-- The record of a key that no pass has seen yet. -/
def new (key : CorrelationKey) (now : Instant) : Record :=
  { key, attempts := 0, lastSeen := now, attempts_le := Nat.zero_le _ }

/-- One more pass has seen the key. -/
def observe (r : Record) (now : Instant) : Record :=
  { r with attempts := min (r.attempts + 1) limit, lastSeen := now, attempts_le := Nat.min_le_right .. }

/-- Whether the budget is spent. -/
def isExhausted (r : Record) (maximum : Nat) : Bool := maximum < r.attempts

def state (r : Record) : RecoveryState := if r.attempts = 0 then .inFlight else .pending r.attempts

@[simp] theorem attempts_observe (r : Record) (now : Instant) :
    (r.observe now).attempts = min (r.attempts + 1) limit := rfl

theorem attempts_le_observe (r : Record) (now : Instant) : r.attempts ≤ (r.observe now).attempts := by
  have := r.attempts_le
  rw [attempts_observe]
  omega

theorem isExhausted_observe {r : Record} {maximum : Nat} (now : Instant) (h : r.isExhausted maximum = true) :
    (r.observe now).isExhausted maximum = true := by
  have := r.attempts_le_observe now
  simp only [isExhausted, decide_eq_true_eq] at h ⊢
  omega

end Record

end DurableAggregates
