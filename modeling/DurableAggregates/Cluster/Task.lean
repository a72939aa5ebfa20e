import DurableAggregates.Repository.Lifecycle
import DurableAggregates.Repository.Recovery

/-!
# Tasks

A task is a procedure under way on one node: what is left of it, and what it is for. Tasks wait for each other at
locks, which are given in the order in which they were asked for.
-/

namespace DurableAggregates.Cluster

/-- How much the collaborators of a node were given. What a missing one was given is not counted. -/
structure Counts where
  delivered : Option Nat
  /-- The deliveries of one key. -/
  ofKey : Option Nat
  letters : Option Nat
  deriving DecidableEq, Repr

/-- What an operation on a node or its store returns. -/
inductive Answer where
  | done
  | flag (b : Bool)
  | number (n : Nat)
  | exchange (e : Option Exchange)
  | snapshot (s : Option Snapshot)
  | keys (ks : List CorrelationKey)
  | state (s : Option RecoveryState)
  | report (r : Report)
  | health (h : HealthCheck)
  | config (c : Config) (stored : Nat)
  | counts (c : Counts)
  | bytes (b : Option (List UInt8))
  | calls (c : Store.Calls)

/-- How a task ended. -/
inductive Result where
  | answered (a : Answer)
  | failed (e : RepositoryError)
  | crashed

def Result.ofExcept : Except RepositoryError Answer → Result
  | .ok a => .answered a
  | .error e => .failed e

/-- What a task is for. -/
inductive Role where
  /-- Somebody waits for its result. -/
  | awaited
  /-- It redelivers an exchange. -/
  | redelivery
  /-- It is the scheduler of its node. -/
  | scheduler
  deriving DecidableEq, Repr

/-- What a task waits for, if it waits for time to pass. -/
inductive Pause where
  | nothing
  /-- The delay before its next request is answered. -/
  | delay
  /-- The next tick. -/
  | tick
  deriving DecidableEq, Repr

structure Task where
  id : Nat
  node : Nat
  role : Role
  body : Operation Answer
  pause : Pause := .nothing

/-- A lock with the task that holds it and those that wait for it, the first first. -/
structure LockState where
  holder : Option Nat := none
  waiting : List Task := []

end DurableAggregates.Cluster
