import DurableAggregates.Schedule.Ticker

/-!
# Schedulers on a clock

A scheduler runs numbered passes one after another, each when its ticker is due. A pass takes the time that the plan
gives it, and the plan may let one pass crash at its end, which ends the scheduler. Stopping a scheduler, or dropping
it, lets a running pass finish and begins no other. An interval of zero is a fault that ends the scheduler at once.
-/

namespace DurableAggregates.Schedule

/-- How long each pass takes, in milliseconds, and which one crashes. -/
structure Plan where
  lengths : List Nat := []
  crashing : Option Nat := none
  deriving DecidableEq, Repr

def Plan.length (p : Plan) (number : Nat) : Nat := p.lengths.getD number 0

inductive Event where
  | start (pass time : Nat)
  | finish (pass time : Nat)
  deriving DecidableEq, Repr

inductive Phase where
  /-- Waiting for the ticker. -/
  | waiting
  /-- In a pass that ends at the given time. -/
  | passing (finish : Nat)
  | ended
  | crashed
  deriving DecidableEq, Repr

structure Scheduler where
  plan : Plan
  ticker : Ticker
  phase : Phase
  /-- The number of the pass that runs or begins next. -/
  pass : Nat := 0
  now : Nat := 0
  /-- Whether no further pass may begin. -/
  closing : Bool := false
  deriving DecidableEq, Repr

namespace Scheduler

def spawn (interval : Nat) (plan : Plan) : Scheduler where
  plan := plan
  ticker := .starting 0 interval
  phase := if interval = 0 then .crashed else .waiting

/-- The next thing that happens no later than `limit`, with the events it makes; nothing if all waits longer. -/
def step? (s : Scheduler) (limit : Nat) : Option (Scheduler × List Event) :=
  match s.phase with
  | .waiting =>
    if s.closing then some ({ s with phase := .ended }, [])
    else
      let time := max s.ticker.due s.now
      if time ≤ limit then
        some ({ s with now := time, ticker := s.ticker.serve time, phase := .passing (time + s.plan.length s.pass) },
          [.start s.pass time])
      else none
  | .passing finish =>
    if finish ≤ limit then
      if s.plan.crashing = some s.pass then some ({ s with now := finish, phase := .crashed }, [])
      else some ({ s with now := finish, phase := .waiting, pass := s.pass + 1 }, [.finish s.pass finish])
    else none
  | .ended | .crashed => none

/-- At most `n` steps up to a time. -/
def steps : Nat → Scheduler → Nat → Scheduler × List Event
  | 0, s, _ => (s, [])
  | n + 1, s, limit =>
    match s.step? limit with
    | none => (s, [])
    | some (t, events) =>
      let (u, more) := steps n t limit
      (u, events ++ more)

/-- Everything that happens up to a time. Two steps serve one tick, and each tick makes the ticker due later. -/
def runTo (s : Scheduler) (limit : Nat) : Scheduler × List Event :=
  let (t, events) := steps (2 * (limit + 1 - s.ticker.due) + 4) s limit
  ({ t with now := max t.now limit }, events)

def advance (s : Scheduler) (span : Nat) : Scheduler × List Event := s.runTo (s.now + span)

/-- Lets no further pass begin. -/
def close (s : Scheduler) : Scheduler × List Event := { s with closing := true }.runTo s.now

/-- Stops the scheduler and waits for the running pass; false if a pass crashed. -/
def stop (s : Scheduler) : Bool × Scheduler × List Event :=
  let limit := match s.phase with
    | .passing finish => max finish s.now
    | _ => s.now
  let (t, events) := { s with closing := true }.runTo limit
  (t.phase != .crashed, t, events)

end Scheduler

end DurableAggregates.Schedule
