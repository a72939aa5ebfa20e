import DurableAggregates.Failure

/-!
# Lifecycle errors and health

A `RouteError` records a failure met while a component changes its lifecycle. A `HealthCheck` is the state of a
component as a monitor sees it; metadata are kept in the order they were added, and the first of several with one name
counts.
-/

namespace DurableAggregates

inductive Phase where
  | start
  | stop
  | suspend
  | resume
  | shutdown
  | remove
  deriving DecidableEq, Repr

def Phase.text : Phase → String
  | .start => "start"
  | .stop => "stop"
  | .suspend => "suspend"
  | .resume => "resume"
  | .shutdown => "shutdown"
  | .remove => "remove"

structure RouteError where
  phase : Phase
  failure : Failure
  /-- Whether the component counts as unhealthy. -/
  unhealthy : Bool
  deriving DecidableEq, Repr

def RouteError.message (e : RouteError) : String := s!"{e.phase.text} failed: {e.failure.message}"

inductive HealthStatus where
  | healthy
  | degraded
  | unhealthy
  deriving DecidableEq, Repr

namespace HealthStatus

def text : HealthStatus → String
  | .healthy => "healthy"
  | .degraded => "degraded"
  | .unhealthy => "unhealthy"

/-- How bad a status is. -/
def rank : HealthStatus → Nat
  | .healthy => 0
  | .degraded => 1
  | .unhealthy => 2

instance : Ord HealthStatus := ⟨fun a b => compare a.rank b.rank⟩

end HealthStatus

structure HealthCheck where
  component : String
  status : HealthStatus
  message : Option String := none
  metadata : List (String × String) := []
  deriving DecidableEq, Repr

namespace HealthCheck

def healthy (component : String) : HealthCheck := { component, status := .healthy }

def degraded (component message : String) : HealthCheck := { component, status := .degraded, message := some message }

def unhealthy (component message : String) : HealthCheck :=
  { component, status := .unhealthy, message := some message }

def withMetadata (h : HealthCheck) (name value : String) : HealthCheck :=
  { h with metadata := h.metadata ++ [(name, value)] }

def metadata? (h : HealthCheck) (name : String) : Option String := h.metadata.lookup name

end HealthCheck

end DurableAggregates
