import DurableAggregates.Repository.Procedure
import DurableAggregates.Snapshot.Capture

/-!
# Operations on aggregates

A running repository adds, reads and removes aggregates by key and confirms exchanges by id. The id of a confirmed
exchange is located in three ways, and the first that answers counts: the index, whose hint is checked against the
store; the id read as a key; a search of all stored exchanges. An id that is completed and not indexed is taken as
gone without asking the store.
-/

namespace DurableAggregates.Repository

open Procedure (call)
open Operation (ofStore)

/-- The policy of a running repository. -/
def runningPolicy : Operation Policy := do
  match (← getThe Repository).active with
  | some policy => return policy
  | none => throw .notRunning

/-- The snapshot stored under a key. -/
def fetch (key : CorrelationKey) : Operation (Option Snapshot) := do ofStore (← call (.get key))

/-- The keys that the store lists. -/
def listed : Operation (List CorrelationKey) := do ofStore (← call .keys)

/-- Removes a key from the store. -/
def erase (key : CorrelationKey) : Operation Unit := do ofStore (← call (.remove key))

/-- Stores an exchange under a key and answers the one it replaced. -/
def add (key : CorrelationKey) (e : Exchange) : Operation (Option Exchange) := do
  let policy ← runningPolicy
  match e.capture policy.allowSerializedHeaders with
  | .error fault => throw (.serialization fault)
  | .ok snapshot =>
    let previous ← ofStore (← call (.put key snapshot))
    modifyThe Repository fun r => { r with index := r.index.insert key e.id }.count .adds
    return previous.map Snapshot.restore

/-- The exchange stored under a key. -/
def get? (key : CorrelationKey) : Operation (Option Exchange) := do
  let _ ← runningPolicy
  return (← fetch key).map Snapshot.restore

/-- Removes whatever is stored under a key. -/
def remove (key : CorrelationKey) : Operation Unit := do
  let _ ← runningPolicy
  erase key
  modifyThe Repository fun r => (r.forget key).count .removes

/-- The keys of all aggregates. -/
def keys : Operation (List CorrelationKey) := do
  let _ ← runningPolicy
  listed

/-- The keys that a recovery pass considers. -/
def scan : Operation (List CorrelationKey) := keys

/-! ## Recovering one key -/

/-- The exchange to recover under a key: none where recovery is off. -/
def recoverable (s : Setup) (key : CorrelationKey) : Operation (Option Exchange) := do
  if s.config.useRecovery then return (← fetch key).map Snapshot.restore
  else return none

def recover (s : Setup) (key : CorrelationKey) : Operation (Option Exchange) := do
  let _ ← runningPolicy
  recoverable s key

/-- The state of a key, if it is stored. -/
def recoveryState? (key : CorrelationKey) : Operation (Option RecoveryState) := do
  let _ ← runningPolicy
  match ← fetch key with
  | some _ => return some ((← getThe Repository).stateOf key)
  | none => return none

/-! ## Confirming -/

/-- The first of the keys that holds the exchange with the id. -/
def search (id : String) : List CorrelationKey → Operation (Option CorrelationKey)
  | [] => return none
  | key :: rest => do
    match ← fetch key with
    | some snapshot => if snapshot.id = id then return some key else search id rest
    | none => search id rest

/-- The id as a key, if something is stored under it, or else the key that holds the exchange with the id. -/
def locateStored (id : String) : Operation (Option CorrelationKey) := do
  match ← fetch ⟨id⟩ with
  | some _ => return some ⟨id⟩
  | none => search id (← listed)

/-- The key to remove when an id is confirmed. -/
def locate (id : String) : Operation (Option CorrelationKey) := do
  let index := (← getThe Repository).index
  match index.keyFor? id with
  | some key =>
    match ← fetch key with
    | some snapshot =>
      if snapshot.id = id then return some key
      else
        modifyThe Repository fun r => { r with index := r.index.forgetId id }
        locateStored id
    | none =>
      modifyThe Repository fun r => r.forget key
      return none
  | none => if index.isCompleted id then return none else locateStored id

/-- Acknowledges the exchange with an id; one that is not stored needs no acknowledgement. -/
def confirm (id : String) : Operation Unit := do
  let _ ← runningPolicy
  match ← locate id with
  | none => return
  | some key =>
    erase key
    modifyThe Repository fun r => (r.forget key).count .confirms

end DurableAggregates.Repository
