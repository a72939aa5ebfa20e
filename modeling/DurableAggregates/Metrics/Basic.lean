import DurableAggregates.Config.Basic

/-!
# Metrics

Eight counters tell what happened to aggregates, a histogram how long recovery passes took, and a gauge how many
redeliveries are outstanding. A `Tally` holds the counters; `Metrics` holds all three.
-/

namespace DurableAggregates

inductive Counter where
  | adds
  | removes
  | confirms
  | passes
  | redeliveries
  | failures
  | deadLetters
  | discards
  deriving DecidableEq, Repr

def Counter.all : List Counter :=
  [.adds, .removes, .confirms, .passes, .redeliveries, .failures, .deadLetters, .discards]

theorem Counter.mem_all (c : Counter) : c ∈ all := by cases c <;> decide

/-- How often each counter was counted. -/
structure Tally where
  adds : Nat := 0
  removes : Nat := 0
  confirms : Nat := 0
  passes : Nat := 0
  redeliveries : Nat := 0
  failures : Nat := 0
  deadLetters : Nat := 0
  discards : Nat := 0
  deriving DecidableEq, Repr, Inhabited

namespace Tally

def get (t : Tally) : Counter → Nat
  | .adds => t.adds
  | .removes => t.removes
  | .confirms => t.confirms
  | .passes => t.passes
  | .redeliveries => t.redeliveries
  | .failures => t.failures
  | .deadLetters => t.deadLetters
  | .discards => t.discards

def count (t : Tally) : Counter → Tally
  | .adds => { t with adds := t.adds + 1 }
  | .removes => { t with removes := t.removes + 1 }
  | .confirms => { t with confirms := t.confirms + 1 }
  | .passes => { t with passes := t.passes + 1 }
  | .redeliveries => { t with redeliveries := t.redeliveries + 1 }
  | .failures => { t with failures := t.failures + 1 }
  | .deadLetters => { t with deadLetters := t.deadLetters + 1 }
  | .discards => { t with discards := t.discards + 1 }

def add (t u : Tally) : Tally where
  adds := t.adds + u.adds
  removes := t.removes + u.removes
  confirms := t.confirms + u.confirms
  passes := t.passes + u.passes
  redeliveries := t.redeliveries + u.redeliveries
  failures := t.failures + u.failures
  deadLetters := t.deadLetters + u.deadLetters
  discards := t.discards + u.discards

instance : Add Tally := ⟨add⟩

@[simp] theorem get_add (t u : Tally) (c : Counter) : (t + u).get c = t.get c + u.get c := by
  cases c <;> rfl

@[simp] theorem get_count (t : Tally) (c d : Counter) :
    (t.count c).get d = t.get d + if c = d then 1 else 0 := by
  cases c <;> cases d <;> rfl

end Tally

/-- One thing to measure. -/
inductive Measurement where
  | count (c : Counter)
  /-- A completed pass and how long it took. -/
  | pass (d : Duration)
  /-- The number of outstanding redeliveries. -/
  | inFlight (n : Nat)
  deriving DecidableEq, Repr

structure Metrics where
  tally : Tally := {}
  /-- The lengths of the passes, the last first. -/
  passes : List Duration := []
  inFlight : Option Nat := none
  deriving DecidableEq, Repr, Inhabited

namespace Metrics

def record (m : Metrics) : Measurement → Metrics
  | .count c => { m with tally := m.tally.count c }
  | .pass d => { m with tally := m.tally.count .passes, passes := d :: m.passes }
  | .inFlight n => { m with inFlight := some n }

/-- The number of passes that took at most the given time. -/
def passesWithin (m : Metrics) (bound : Duration) : Nat :=
  m.passes.countP fun d => d.nanoseconds ≤ bound.nanoseconds

theorem passesWithin_record_pass (m : Metrics) (d bound : Duration) :
    (m.record (.pass d)).passesWithin bound =
      m.passesWithin bound + if d.nanoseconds ≤ bound.nanoseconds then 1 else 0 := by
  simp [record, passesWithin, List.countP_cons]

end Metrics

end DurableAggregates
