import DurableAggregates.CorrelationKey

/-!
# Reports of recovery passes

A recovery pass gives every scanned key one outcome or a failure. Its report lists the keys by what happened to them,
in the order in which the pass met them; keys that were gone are only counted.
-/

namespace DurableAggregates

/-- What a pass did to one key. -/
inductive Outcome where
  /-- Handed back as the redelivery with this number. -/
  | redelivered (attempt : Nat)
  /-- Forwarded to the sink. -/
  | deadLettered
  /-- Removed without being forwarded. -/
  | discarded
  /-- Gone or replaced. -/
  | skipped
  deriving DecidableEq, Repr

structure Report where
  /-- The number of keys that were listed. -/
  scanned : Nat := 0
  redelivered : List CorrelationKey := []
  deadLettered : List CorrelationKey := []
  discarded : List CorrelationKey := []
  failed : List CorrelationKey := []
  skipped : Nat := 0
  deriving DecidableEq, Repr

namespace Report

/-- The report with the outcome of one more key. -/
def record (r : Report) (key : CorrelationKey) : Outcome → Report
  | .redelivered _ => { r with redelivered := r.redelivered ++ [key] }
  | .deadLettered => { r with deadLettered := r.deadLettered ++ [key] }
  | .discarded => { r with discarded := r.discarded ++ [key] }
  | .skipped => { r with skipped := r.skipped + 1 }

/-- The report with one more key whose recovery failed. -/
def recordFailure (r : Report) (key : CorrelationKey) : Report := { r with failed := r.failed ++ [key] }

/-- The number of keys that have an outcome or a failure. -/
def accounted (r : Report) : Nat :=
  r.redelivered.length + r.deadLettered.length + r.discarded.length + r.failed.length + r.skipped

@[simp] theorem accounted_record (r : Report) (key : CorrelationKey) (o : Outcome) :
    (r.record key o).accounted = r.accounted + 1 := by
  cases o <;> simp [record, accounted] <;> omega

@[simp] theorem accounted_recordFailure (r : Report) (key : CorrelationKey) :
    (r.recordFailure key).accounted = r.accounted + 1 := by
  simp [recordFailure, accounted]
  omega

end Report

end DurableAggregates
