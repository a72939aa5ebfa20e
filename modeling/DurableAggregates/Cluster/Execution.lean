import DurableAggregates.Cluster.Basic

/-!
# Execution

The task at the head of the queue goes on until it has to wait: for a lock, for a scheduler to end, or for time to
pass. Its requests are answered one at a time by `answer`; a store call is made after its delay. Time passes only when
no task can go on. `Cluster.await` goes on until a task has a result.
-/

namespace DurableAggregates.Cluster

open Schedule (Ticker)

/-- What a task does that makes a request again and goes on with the answer. -/
def asking (q : Request) (next : q.Answer → Operation Answer) : Operation Answer := do
  next (← Procedure.ask q)

/-- What the task of a scheduler does for one round. -/
def round (s : Setup) : Operation Answer := do
  return .flag (← Repository.scheduledRound s)

/-- What the task of a redelivery does. -/
def redelivery (key : CorrelationKey) (e : Exchange) : Operation Answer := do
  Repository.redelivery key e
  return .done

theorem redelivery_asksOnce (key : CorrelationKey) (e : Exchange) :
    Procedure.AsksOnce (redelivery key e).run (.deliver key e) := by
  intro r
  obtain ⟨next, h⟩ := Repository.redelivery_asksOnce key e r
  refine ⟨fun answer t => (.ok .done, (next answer t).2), ?_⟩
  show ((Repository.redelivery key e r).bind _).bind _ = _
  rw [h]
  rfl

/-- A scheduler ends, and the task that waits for its end goes on. -/
def endScheduler (c : Cluster) (n : Nat) (phase : SchedulerPhase) : Cluster :=
  match (c.node n).scheduler with
  | none => c
  | some s =>
    let ended := c.setScheduler n (some { s with phase, waiting := none })
    match s.waiting with
    | some t => ended.enqueue t
    | none => ended

/-- A task has finished. A scheduler whose round was not the last goes on with another. -/
def finish (c : Cluster) (t : Task) (result : Except RepositoryError Answer) : Cluster :=
  match t.role, result with
  | .awaited, result => { c with results := (t.id, .ofExcept result) :: c.results }
  | .redelivery, _ => c
  | .scheduler, .ok (.flag true) => c.resume t (round (c.node t.node).setup)
  | .scheduler, _ => c.endScheduler t.node .ended

/-- The text of a crash. -/
def crashText : String := "scan crashed"

/-- A task crashes: it gives back its locks, and what it was for is over. -/
def crash (c : Cluster) (t : Task) : Cluster :=
  let c := (c.surrender t .pass).surrender t .lifecycle
  match t.role with
  | .awaited => { c with results := (t.id, .crashed) :: c.results }
  | .redelivery => c.setRepository t.node (c.node t.node).repository.endRedelivery
  | .scheduler => c.endScheduler t.node (.crashed s!"task N panicked with message \"{crashText}\"")

/-! ## Answers to requests -/

def answerStore (c : Cluster) (t : Task) (call : Store.Call) (next : call.Result → Operation Answer) : Cluster :=
  if t.pause ≠ .delay ∧ 0 < c.delays.of call then
    c.sleepUntil (c.now + c.delays.of call) { t with body := asking (.store call) next, pause := .delay }
  else
    match call, next with
    | .keys, next =>
      if c.crashing then c.crash t
      else
        let (result, store) := c.store.perform .keys
        { c with store }.resume t (next result)
    | call, next =>
      let (result, store) := c.store.perform call
      { c with store }.resume t (next result)

def answerForward (c : Cluster) (t : Task) (letter : DeadLetter)
    (next : Except DeadLetterError Unit → Operation Answer) : Cluster :=
  let n := c.node t.node
  match n.sink with
  | none => c.resume t (next (.error (.unreachable letter.uri "no sink")))
  | some sink =>
    if sink.refused.contains letter.key then
      c.resume t (next (.error (.rejected s!"no thanks to {letter.key.text}")))
    else if 0 < n.failures then
      (c.modifyNode t.node ({ · with failures := n.failures - 1 })).resume t
        (next (.error (.unreachable letter.uri "injected failure")))
    else
      (c.modifyNode t.node ({ · with letters := letter :: n.letters })).resume t do
        next (← sink.react letter)

def answerDeliver (c : Cluster) (t : Task) (key : CorrelationKey) (e : Exchange)
    (next : Except RedeliveryError Unit → Operation Answer) : Cluster :=
  let n := c.node t.node
  match n.engine with
  | none => c.resume t (next (.error (.unavailable "no engine")))
  | some engine =>
    if t.pause ≠ .delay ∧ 0 < engine.delay then
      c.sleepUntil (c.now + engine.delay) { t with body := asking (.deliver key e) next, pause := .delay }
    else
      (c.modifyNode t.node ({ · with delivered := (key, e) :: n.delivered })).resume t do
        next (← engine.react key e)

def answerReport (c : Cluster) (n : Nat) (e : RouteError) : Cluster :=
  c.modifyNode n fun node => if node.monitored then { node with reports := e :: node.reports } else node

def answerLaunch (c : Cluster) (n : Nat) (interval : Nat) : Cluster :=
  (c.setScheduler n (some { ticker := .starting c.now interval })).spawn n .scheduler (round (c.node n).setup)

def answerHalt (c : Cluster) (t : Task) (next : Except String Unit → Operation Answer) : Cluster :=
  match (c.node t.node).scheduler with
  | none => c.resume t (next (.ok ()))
  | some s =>
    match s.phase with
    | .ended => (c.setScheduler t.node none).resume t (next (.ok ()))
    | .crashed detail => (c.setScheduler t.node none).resume t (next (.error detail))
    | .alive =>
      let waiting := { t with body := asking .halt next, pause := .nothing }
      (c.setScheduler t.node (some { s with closing := true, waiting := some waiting })).wakeScheduler t.node

def answerTick (c : Cluster) (t : Task) (next : Bool → Operation Answer) : Cluster :=
  match (c.node t.node).scheduler with
  | none => c.resume t (next false)
  | some s =>
    if s.closing then c.resume t (next false)
    else if s.ticker.isDue c.now then
      (c.setScheduler t.node (some { s with ticker := s.ticker.serve c.now })).resume t (next true)
    else c.sleepUntil s.ticker.due { t with body := asking .tick next, pause := .tick }

/-- Answers the request of a task, or lets it wait. -/
def answer (c : Cluster) (t : Task) : (q : Request) → (q.Answer → Operation Answer) → Cluster
  | .store call, next => c.answerStore t call next
  | .forward letter, next => c.answerForward t letter next
  | .deliver key e, next => c.answerDeliver t key e next
  | .dispatch key e, next => (c.spawn t.node .redelivery (redelivery key e)).resume t (next ())
  | .report e, next => (c.answerReport t.node e).resume t (next ())
  | .acquire l, next => c.acquire t l (next ())
  | .release l, next => (c.release t.node l).resume t (next ())
  | .launch interval, next => (c.answerLaunch t.node interval).resume t (next ())
  | .halt, next => c.answerHalt t next
  | .tick, next => c.answerTick t next
  | .sleep time, next =>
    if time = 0 then c.resume t (next ())
    else c.sleepUntil (c.now + time) { t with body := next (), pause := .nothing }

/-! ## Runs -/

/-- The task at the head of the queue goes on to its next request. -/
def step (c : Cluster) : Cluster :=
  match c.ready with
  | [] => c
  | t :: rest =>
    let c := { c with ready := rest }
    match t.body.run (c.node t.node).repository with
    | .finished result r => (c.setRepository t.node r).finish t result
    | .asking q r next => (c.setRepository t.node r).answer t q fun a => ExceptT.mk (next a)

/-- At most `n` steps, until no task can go on. -/
def steps : Nat → Cluster → Cluster
  | 0, c => c
  | n + 1, c => if c.ready.isEmpty then c else steps n c.step

/-- More steps than a script ever takes. -/
def patience : Nat := 0x4000_0000_0000_0000

/-- Goes on until all tasks wait. -/
def settle (c : Cluster) : Cluster := steps patience c

/-- Goes on, at most `n` times letting time pass, until a task has a result. -/
def awaitWithin (id : Nat) : Nat → Cluster → Cluster
  | 0, c => c.settle
  | n + 1, c =>
    let c := c.settle
    if (c.result? id).isSome || c.sleeping.isEmpty then c else awaitWithin id n c.wakeNext

/-- Goes on until a task has a result, and all that can be done at that time is done. -/
def await (c : Cluster) (id : Nat) : Cluster := awaitWithin id patience c

end DurableAggregates.Cluster
