import DurableAggregates.Repository.Operations
import DurableAggregates.Repository.Report

/-!
# Recovery passes

A pass lists the stored keys, drops the bookkeeping of all others, and takes one key after another. Every key is
observed first. If its budget is not spent its exchange is tagged and handed back; otherwise the exchange goes to the
sink, or is dropped where there is none, and the key is removed if it still holds that exchange. A failure concerns
its key only. Passes of one repository never overlap. Handing back is a procedure of its own
(`Repository.redelivery`), so a pass does not wait for the routing engine.
-/

namespace DurableAggregates.Repository

open Procedure (ask)

/-- Hands an exchange back, if there is an engine to take it. -/
def handBack (s : Setup) (key : CorrelationKey) (e : Exchange) : Procedure Unit := do
  if s.hasEngine then
    modifyThe Repository beginRedelivery
    ask (.dispatch key e)

/-- The redelivery of an exchange, from the engine's answer to the end. -/
def redelivery (key : CorrelationKey) (e : Exchange) : Procedure Unit := do
  let answer : Except RedeliveryError Unit ← ask (.deliver key e)
  match answer with
  | .ok () => pure ()
  | .error _ => modifyThe Repository fun r => r.count .failures
  modifyThe Repository endRedelivery

/-- The engine is asked exactly once, and nobody else is asked. -/
theorem redelivery_asksOnce (key : CorrelationKey) (e : Exchange) :
    (redelivery key e).AsksOnce (.deliver key e) := by
  intro r
  refine ⟨fun answer t => ((), match answer with
    | .ok () => t.endRedelivery
    | .error _ => (t.count .failures).endRedelivery), ?_⟩
  show Run.asking (.deliver key e) r _ = _
  congr
  funext answer t
  cases answer <;> rfl

/-- Removes a key if it holds the exchange with the id. A key that holds another, or none, has a fresh budget. -/
def eraseIfCurrent (key : CorrelationKey) (id : String) : Operation Bool := do
  let current ← fetch key
  if current.any (·.id = id) then
    erase key
    return true
  else
    modifyThe Repository fun r => r.supersede key id
    return false

/-- Gives a letter to the sink. -/
def forward (letter : DeadLetter) : Operation Unit := do
  let answer : Except DeadLetterError Unit ← ask (.forward letter)
  match answer with
  | .ok () => pure ()
  | .error e => throw (.deadLetter e)

/-- The address of the sink that exhausted exchanges go to, if there is one. -/
def sinkAddress? (s : Setup) (policy : Policy) : Option String :=
  if s.hasSink then policy.deadLetterUri else none

/-- Moves an exchange whose budget is spent out of the store. -/
def escalate (s : Setup) (policy : Policy) (key : CorrelationKey) (e : Exchange) (attempts : Nat) :
    Operation Outcome := do
  match sinkAddress? s policy with
  | some uri =>
    forward { uri, key, exchange := e, attempts, escalatedAt := s.clock }
    if ← eraseIfCurrent key e.id then
      modifyThe Repository fun r => r.forget key
    modifyThe Repository fun r => { r with deadLettered := r.deadLettered + 1 }.count .deadLetters
    return .deadLettered
  | none =>
    if ← eraseIfCurrent key e.id then
      modifyThe Repository fun r => (r.forget key).count .discards
      return .discarded
    else
      return .skipped

/-- What a pass does with one key. -/
def recoverKey (s : Setup) (policy : Policy) (key : CorrelationKey) : Operation Outcome := do
  modifyThe Repository fun r => r.observe key s.clock
  let attempts := ((← getThe Repository).recordOf key s.clock).attempts
  match ← recoverable s key with
  | none =>
    modifyThe Repository fun r => r.forget key
    return .skipped
  | some e =>
    if policy.maximumRedeliveries < attempts then
      escalate s policy key e attempts
    else
      handBack s key (e.tagRedelivery key attempts policy.maximumRedeliveries)
      modifyThe Repository fun r => r.count .redeliveries
      return .redelivered attempts

/-- Takes one more key into the report. -/
def recoverNext (s : Setup) (policy : Policy) (report : Report) (key : CorrelationKey) : Procedure Report := do
  match ← (recoverKey s policy key).run with
  | .ok outcome => return report.record key outcome
  | .error _ =>
    modifyThe Repository fun r => r.count .failures
    return report.recordFailure key

/-- A pass over the keys that the store lists. -/
def passOver (s : Setup) (policy : Policy) : Operation Report := do
  let stored ← listed
  let empty : Report := { scanned := stored.length }
  if policy.useRecovery then
    modifyThe Repository fun r => r.retain (.ofList stored compare)
    let report ← (stored.foldlM (recoverNext s policy) empty : Procedure Report)
    modifyThe Repository fun r => r.count .passes
    return report
  else
    return empty

/-- One recovery pass, after any pass that is running. -/
def pass (s : Setup) : Operation Report := do
  let policy ← runningPolicy
  Operation.holding .pass (passOver s policy)

/-- One round of the scheduler: a tick and a pass, whose result nobody awaits. False if the scheduler is to end. -/
def scheduledRound (s : Setup) : Procedure Bool := do
  let goes : Bool ← ask .tick
  if goes then
    let _ ← (pass s).run
  return goes

end DurableAggregates.Repository
