import DurableAggregates.Lifecycle
import DurableAggregates.Metrics.Basic
import DurableAggregates.Redelivery
import DurableAggregates.Repository.Index

/-!
# Repositories

A repository puts aggregates into a store and follows them until they are confirmed or their redelivery budget is
spent. Beside the store it keeps bookkeeping of its own: a record for every key that a recovery pass has seen, the
exchange index, and how many redeliveries are outstanding. `Setup` is what a repository is built from and never
changes; `Repository` is what changes. A running repository has the policy it follows; a stopped one has none.
-/

namespace DurableAggregates

open Calendar (Instant)

/-- An exchange whose budget is spent, as it goes to the sink. -/
structure DeadLetter where
  uri : String
  key : CorrelationKey
  exchange : Exchange
  attempts : Nat
  escalatedAt : Instant

structure Setup where
  config : Config := {}
  /-- The time that recovery passes see. -/
  clock : Instant := .year2025
  /-- Whether there is a routing engine that takes exchanges back. -/
  hasEngine : Bool := false
  /-- Whether there is a sink that takes dead letters. -/
  hasSink : Bool := false

/-- The policy of a repository that can start: with recovery on, a dead letter address needs a sink. -/
def Setup.policy? (s : Setup) : Except ConfigError Policy :=
  match s.config.policy? with
  | .error e => .error e
  | .ok p =>
    match p.deadLetterUri with
    | some uri => if p.useRecovery && !s.hasSink then .error (.missingDeadLetterForwarder uri) else .ok p
    | none => .ok p

structure Repository where
  /-- The policy of a running repository. -/
  active : Option Policy := none
  records : KeyMap Record := ∅
  index : ExchangeIndex := {}
  /-- How many letters the sink has accepted. -/
  deadLettered : Nat := 0
  /-- The last lifecycle error since the last start. -/
  lastError : Option RouteError := none
  /-- How many redeliveries have begun and not ended. -/
  inFlight : Nat := 0
  tally : Tally := {}

namespace Repository

instance : Inhabited Repository := ⟨{}⟩

def isRunning (r : Repository) : Bool := r.active.isSome

def count (r : Repository) (c : Counter) : Repository := { r with tally := r.tally.count c }

/-- The key has left the store: its record goes, and its exchange is completed. -/
def forget (r : Repository) (key : CorrelationKey) : Repository :=
  { r with records := r.records.erase key, index := r.index.forget key }

theorem records_forget (r : Repository) (key k : CorrelationKey) :
    (r.forget key).records[k]? = if key = k then none else r.records[k]? := by
  simp [forget, Std.ExtTreeMap.getElem?_erase]

theorem records_forget_of_ne {r : Repository} {key k : CorrelationKey} (hk : k ≠ key) :
    (r.forget key).records[k]? = r.records[k]? := by
  rw [records_forget, if_neg hk.symm]

/-- The key holds another exchange than the one with this id: the record goes, and the id is no longer indexed. -/
def supersede (r : Repository) (key : CorrelationKey) (id : String) : Repository :=
  { r with records := r.records.erase key, index := r.index.forgetId id }

/-- Drops the bookkeeping of all keys that are not stored. -/
def retain (r : Repository) (stored : KeySet) : Repository :=
  { r with records := r.records.filter fun key _ => stored.contains key, index := r.index.retainKeys stored }

/-- The record of a key, made now if there is none. -/
def recordOf (r : Repository) (key : CorrelationKey) (now : Instant) : Record :=
  r.records[key]?.getD (.new key now)

/-- A pass has seen the key. -/
def observe (r : Repository) (key : CorrelationKey) (now : Instant) : Repository :=
  { r with records := r.records.insert key ((r.recordOf key now).observe now) }

/-- The state of a key that is stored. -/
def stateOf (r : Repository) (key : CorrelationKey) : RecoveryState :=
  match r.records[key]? with
  | some record => record.state
  | none => .inFlight

/-- One more redelivery has begun. -/
def beginRedelivery (r : Repository) : Repository := { r with inFlight := r.inFlight + 1 }

/-- A redelivery has ended. -/
def endRedelivery (r : Repository) : Repository := { r with inFlight := r.inFlight - 1 }

/-- The number of keys whose budget is spent. -/
def exhausted (r : Repository) (maximum : Nat) : Nat :=
  r.records.toList.countP fun entry => entry.2.isExhausted maximum

/--
The health of a repository: unhealthy after a failed start, degraded while exhausted keys wait for the sink or while
it is not running.
-/
def health (r : Repository) (s : Setup) : HealthCheck :=
  let name := s.config.cacheName
  let waiting := match s.policy? with
    | .ok p => r.exhausted p.maximumRedeliveries
    | .error _ => 0
  let failure := r.lastError.filter (·.unhealthy)
  let check : HealthCheck := match failure with
    | some e => .unhealthy name e.message
    | none =>
      if 0 < waiting then .degraded name s!"{waiting} exhausted aggregates awaiting dead letter forwarding"
      else if !r.isRunning then .degraded name "not running"
      else .healthy name
  ((check.withMetadata "cache_name" name).withMetadata "tracked_keys" (toString r.records.size)).withMetadata
    "dead_lettered" (toString r.deadLettered)

end Repository

end DurableAggregates
