import DurableAggregates.Config.Basic
import DurableAggregates.Snapshot.Basic

/-!
# Failures

The ways in which the store, the dead letter sink, the routing engine and the repository itself fail, each with its
text. A failure of a part is passed on with its own text: only a snapshot error met by the store is wrapped.
-/

namespace DurableAggregates

inductive StoreError where
  | unavailable (detail : String)
  | backend (detail : String)
  | serialization (detail : String)
  deriving DecidableEq, Repr

namespace StoreError

def message : StoreError → String
  | .unavailable detail => s!"Store unavailable: {detail}"
  | .backend detail => s!"Store backend error: {detail}"
  | .serialization detail => s!"Store serialization error: {detail}"

/-- A snapshot error met by the store. -/
def ofSnapshotError (e : SnapshotError) : StoreError := .serialization e.message

end StoreError

/-- Why a sink did not accept a letter. -/
inductive DeadLetterError where
  | unreachable (uri reason : String)
  | rejected (detail : String)
  deriving DecidableEq, Repr

def DeadLetterError.message : DeadLetterError → String
  | .unreachable uri reason => s!"Dead letter sink {uri} unreachable: {reason}"
  | .rejected detail => s!"Dead letter rejected: {detail}"

/-- Why a routing engine did not take an exchange back. -/
inductive RedeliveryError where
  | rejected (detail : String)
  | unavailable (detail : String)
  deriving DecidableEq, Repr

def RedeliveryError.message : RedeliveryError → String
  | .rejected detail => s!"Redelivery rejected: {detail}"
  | .unavailable detail => s!"Routing engine unavailable: {detail}"

inductive RepositoryError where
  | config (e : ConfigError)
  | store (e : StoreError)
  | serialization (e : SnapshotError)
  | deadLetter (e : DeadLetterError)
  | notRunning
  | shutdownTimeout (running : Nat)
  | schedulerJoin (detail : String)
  deriving DecidableEq, Repr

def RepositoryError.message : RepositoryError → String
  | .config e => e.message
  | .store e => e.message
  | .serialization e => e.message
  | .deadLetter e => e.message
  | .notRunning => "Aggregation repository is not running"
  | .shutdownTimeout running => s!"Shutdown timed out with {running} redeliveries still running"
  | .schedulerJoin detail => s!"Recovery scheduler failed: {detail}"

/-- Anything that can be reported. -/
inductive Failure where
  | repository (e : RepositoryError)
  | redelivery (e : RedeliveryError)
  deriving DecidableEq, Repr

def Failure.message : Failure → String
  | .repository e => e.message
  | .redelivery e => e.message

end DurableAggregates
