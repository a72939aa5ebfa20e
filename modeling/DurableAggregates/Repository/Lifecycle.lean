import DurableAggregates.Repository.Operations

/-!
# Starting and stopping

A start checks the configuration, sets the policy and launches the scheduler if passes are scheduled. A stop ends the
scheduler, letting a running pass finish, and then waits for the outstanding redeliveries: it looks at once and then
every `pollInterval` until none is left or the timeout of the policy has passed. Starting a running repository and
stopping a stopped one do nothing.
-/

namespace DurableAggregates.Repository

open Procedure (ask report)

/-- Begins to accept operations. -/
def start (s : Setup) : Operation Unit := Operation.holding .lifecycle do
  if (← getThe Repository).isRunning then return
  match s.policy? with
  | .error e =>
    report { phase := .start, failure := .repository (.config e), unhealthy := true }
    throw (.config e)
  | .ok policy =>
    modifyThe Repository fun r => { r with active := some policy, lastError := none }
    if policy.schedulesPasses then
      ask (.launch policy.interval)

/-- A failure of a stop, which leaves the repository healthy. -/
def stopFailure (e : RepositoryError) : RouteError := { phase := .stop, failure := .repository e, unhealthy := false }

/-- How a scheduler was ended. -/
structure Halted where
  /-- The policy that was followed. -/
  policy : Policy
  /-- How the scheduler had crashed, if it had. -/
  crash : Option String

/-- Ends a running repository and its scheduler; nothing for a stopped one. -/
def halt : Operation (Option Halted) := do
  match (← getThe Repository).active with
  | none => return none
  | some policy =>
    modifyThe Repository fun r => { r with active := none }
    let joined : Except String Unit ← ask .halt
    match joined with
    | .ok () => return some { policy, crash := none }
    | .error detail =>
      report (stopFailure (.schedulerJoin detail))
      return some { policy, crash := some detail }

/-- Milliseconds between two looks at the outstanding redeliveries. -/
def pollInterval : Nat := 10

/-- How often a stop looks again before a time in milliseconds has passed. -/
def polls (timeout : Nat) : Nat := (timeout + pollInterval - 1) / pollInterval

/-- Waits until no redelivery is outstanding, looking again at most `n` times. -/
def drain : Nat → Operation Unit
  | 0 => do
    let running := (← getThe Repository).inFlight
    if running = 0 then return
    report (stopFailure (.shutdownTimeout running))
    throw (.shutdownTimeout running)
  | n + 1 => do
    if (← getThe Repository).inFlight = 0 then return
    ask (.sleep pollInterval)
    drain n

/-- Ceases to accept operations. A timeout counts before a crash of the scheduler. -/
def stop : Operation Unit := do
  match ← Operation.holding .lifecycle halt with
  | none => return
  | some halted =>
    drain (polls halted.policy.shutdownTimeout)
    match halted.crash with
    | none => return
    | some detail => throw (.schedulerJoin detail)

end DurableAggregates.Repository
