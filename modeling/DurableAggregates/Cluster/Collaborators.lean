import DurableAggregates.Repository.Operations

/-!
# Routing engines and sinks

The two collaborators of a repository, made to order: both note what they are given. An engine may take its time, may
reject everything, and may react to a delivery by confirming the exchange or removing its key. A sink may refuse the
letters of some keys, may be told to fail a number of times, and may react to a letter by writing to the store. A
reaction that fails makes the collaborator fail.
-/

namespace DurableAggregates.Cluster

open Procedure (call)
open Operation (ofStore)

inductive Engine.Reaction where
  /-- Confirms the exchange. -/
  | confirm
  /-- Removes the key. -/
  | remove
  deriving DecidableEq, Repr

structure Engine where
  /-- How long a delivery takes, in milliseconds. -/
  delay : Nat := 0
  rejects : Bool := false
  reaction : Option Engine.Reaction := none

/-- The answer to an exchange that was noted. -/
def Engine.react (g : Engine) (key : CorrelationKey) (e : Exchange) : Procedure (Except RedeliveryError Unit) := do
  if g.rejects then return .error (.rejected "recording redeliverer rejects")
  match g.reaction with
  | none => return .ok ()
  | some .confirm => return (← (Repository.confirm e.id).run).mapError fun f => .rejected f.message
  | some .remove => return (← (Repository.remove key).run).mapError fun f => .rejected f.message

inductive Sink.Reaction where
  /-- Adds an exchange under the key of the letter. -/
  | add (e : Exchange)
  /-- Stores an exchange under the key of the letter, past the repository. -/
  | put (e : Exchange)
  /-- Removes the key of the letter from the store, past the repository. -/
  | remove

structure Sink where
  /-- The keys whose letters are refused. -/
  refused : List CorrelationKey := []
  reaction : Option Sink.Reaction := none

/-- Stores an exchange, with all its headers and properties, past the repository. -/
def putDirectly (key : CorrelationKey) (e : Exchange) : Operation (Option Snapshot) := do
  match e.capture true with
  | .error fault => throw (.serialization fault)
  | .ok snapshot => ofStore (← call (.put key snapshot))

/-- The answer to a letter that was noted. -/
def Sink.react (k : Sink) (letter : DeadLetter) : Procedure (Except DeadLetterError Unit) := do
  let reaction : Operation Unit := match k.reaction with
    | none => pure ()
    | some (.add e) => do let _ ← Repository.add letter.key e
    | some (.put e) => do let _ ← putDirectly letter.key e
    | some .remove => Repository.erase letter.key
  return (← reaction.run).mapError fun f => .rejected f.message

end DurableAggregates.Cluster
