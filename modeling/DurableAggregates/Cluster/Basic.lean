import DurableAggregates.Cluster.Collaborators
import DurableAggregates.Cluster.Task
import DurableAggregates.Schedule.Ticker

/-!
# Clusters

A cluster is a number of nodes that share one store, on a clock that counts milliseconds. A node is a repository with
its collaborators, its locks and its scheduler; the collaborators' notes are kept with the last first. Tasks that can
go on queue up, the first at the head; tasks that wait for time to pass are ordered by the time at which they wake,
and among equals by the order in which they began to wait.
-/

namespace DurableAggregates.Cluster

open Calendar (Instant)
open Schedule (Ticker)

inductive SchedulerPhase where
  | alive
  | ended
  /-- A pass crashed with this text. -/
  | crashed (detail : String)
  deriving DecidableEq, Repr

structure SchedulerState where
  ticker : Ticker
  phase : SchedulerPhase := .alive
  /-- Whether no further pass may begin. -/
  closing : Bool := false
  /-- The task that waits until the scheduler has ended. -/
  waiting : Option Task := none

structure Node where
  config : Config := {}
  clock : Instant := .year2025
  engine : Option Engine := none
  sink : Option Sink := none
  /-- Whether lifecycle errors are noted. -/
  monitored : Bool := false
  repository : Repository := {}
  delivered : List (CorrelationKey × Exchange) := []
  letters : List DeadLetter := []
  reports : List RouteError := []
  /-- How many letters the sink still fails to reach anybody with. -/
  failures : Nat := 0
  lifecycle : LockState := {}
  pass : LockState := {}
  scheduler : Option SchedulerState := none

namespace Node

def setup (n : Node) : Setup where
  config := n.config
  clock := n.clock
  hasEngine := n.engine.isSome
  hasSink := n.sink.isSome

def lock (n : Node) : Lock → LockState
  | .lifecycle => n.lifecycle
  | .pass => n.pass

def setLock (n : Node) (l : Lock) (s : LockState) : Node :=
  match l with
  | .lifecycle => { n with lifecycle := s }
  | .pass => { n with pass := s }

end Node

/-- How long each kind of store call takes, in milliseconds. -/
structure Delays where
  put : Nat := 0
  get : Nat := 0
  remove : Nat := 0
  keys : Nat := 0
  deriving DecidableEq, Repr

def Delays.of (d : Delays) : Store.Call → Nat
  | .put _ _ => d.put
  | .get _ => d.get
  | .remove _ => d.remove
  | .keys => d.keys

end Cluster

open Cluster in
structure Cluster where
  now : Nat := 0
  store : Store := {}
  delays : Delays := {}
  /-- Whether listing the keys of the store crashes the task that does it. -/
  crashing : Bool := false
  nodes : List Node := []
  ready : List Task := []
  sleeping : List (Nat × Task) := []
  /-- The number of the next task. -/
  next : Nat := 0
  /-- The results of the tasks that were awaited and have ended. -/
  results : List (Nat × Result) := []
  /-- The tasks that were begun in the background, the last first. -/
  background : List Nat := []

namespace Cluster

def modifyNode (c : Cluster) (n : Nat) (f : Node → Node) : Cluster := { c with nodes := c.nodes.modify n f }

def node (c : Cluster) (n : Nat) : Node := c.nodes[n]?.getD {}

def setRepository (c : Cluster) (n : Nat) (r : Repository) : Cluster := c.modifyNode n ({ · with repository := r })

def setScheduler (c : Cluster) (n : Nat) (s : Option SchedulerState) : Cluster :=
  c.modifyNode n ({ · with scheduler := s })

def result? (c : Cluster) (id : Nat) : Option Result := c.results.lookup id

/-! ## Queues -/

/-- The task goes on before all others. -/
def resume (c : Cluster) (t : Task) (body : Operation Answer) : Cluster :=
  { c with ready := { t with body, pause := .nothing } :: c.ready }

/-- The task goes on after all others. -/
def enqueue (c : Cluster) (t : Task) : Cluster := { c with ready := c.ready ++ [t] }

/-- Begins a task, after all others. -/
def spawn (c : Cluster) (node : Nat) (role : Role) (body : Operation Answer) : Cluster :=
  { c with next := c.next + 1 }.enqueue { id := c.next, node, role, body }

/-- The task waits until a time. -/
def sleepUntil (c : Cluster) (time : Nat) (t : Task) : Cluster :=
  { c with sleeping := c.sleeping.takeWhile (·.1 ≤ time) ++ (time, t) :: c.sleeping.dropWhile (·.1 ≤ time) }

/-- Lets time pass until the first task wakes, together with all that wake then. -/
def wakeNext (c : Cluster) : Cluster :=
  match c.sleeping with
  | [] => c
  | (time, _) :: _ =>
    { c with
      now := max c.now time
      ready := c.ready ++ (c.sleeping.takeWhile (·.1 ≤ time)).map (·.2)
      sleeping := c.sleeping.dropWhile (·.1 ≤ time) }

/-- Whether the task is the scheduler of the node and waits for its next tick. -/
def Task.awaitsTick (t : Task) (n : Nat) : Bool := t.node == n && t.pause == .tick

/-- Wakes the scheduler of a node if it waits for its next tick. -/
def wakeScheduler (c : Cluster) (n : Nat) : Cluster :=
  { c with
    ready := c.ready ++ (c.sleeping.map (·.2)).filter (·.awaitsTick n)
    sleeping := c.sleeping.filter fun sleeper => !sleeper.2.awaitsTick n }

/-! ## Locks -/

/-- A task gets a lock, or waits for it with what it does then. -/
def acquire (c : Cluster) (t : Task) (l : Lock) (body : Operation Answer) : Cluster :=
  let s := (c.node t.node).lock l
  match s.holder with
  | none => (c.modifyNode t.node (·.setLock l { s with holder := some t.id })).resume t body
  | some _ => c.modifyNode t.node (·.setLock l { s with waiting := s.waiting ++ [{ t with body }] })

/-- A lock goes to the first task that waits for it. -/
def release (c : Cluster) (n : Nat) (l : Lock) : Cluster :=
  let s := (c.node n).lock l
  match s.waiting with
  | [] => c.modifyNode n (·.setLock l { s with holder := none })
  | t :: rest => (c.modifyNode n (·.setLock l { holder := some t.id, waiting := rest })).enqueue t

/-- A task gives back a lock if it holds it. -/
def surrender (c : Cluster) (t : Task) (l : Lock) : Cluster :=
  if ((c.node t.node).lock l).holder = some t.id then c.release t.node l else c

end Cluster

end DurableAggregates
