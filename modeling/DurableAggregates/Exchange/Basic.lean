import DurableAggregates.CorrelationKey
import DurableAggregates.Exchange.Value

/-!
# Exchanges

An exchange is a message on its way through an aggregation: an id, headers and properties by name, a body, and the
text of an exception if one was caught. Names are ordered by code points. `Exchange.tagRedelivery` marks an exchange
that a recovery pass hands back; it changes three headers and one property and nothing else.
-/

namespace DurableAggregates

/-- Named entries. -/
abbrev Entries (α : Type) := Std.ExtTreeMap String α compare

structure Exchange where
  id : String := ""
  headers : Entries Value := ∅
  properties : Entries Value := ∅
  body : Value := .null
  exception : Option String := none
  deriving Inhabited

/-- Whether two lists of entries have the same names and agreeing values, in order. -/
def entriesAgree : List (String × Value) → List (String × Value) → Bool
  | [], [] => true
  | (m, v) :: r, (n, w) :: s => m == n && v.agrees w && entriesAgree r s
  | _, _ => false

namespace Exchange

def header? (e : Exchange) (name : String) : Option Value := e.headers[name]?

def property? (e : Exchange) (name : String) : Option Value := e.properties[name]?

def setHeader (e : Exchange) (name : String) (v : Value) : Exchange :=
  { e with headers := e.headers.insert name v }

def setProperty (e : Exchange) (name : String) (v : Value) : Exchange :=
  { e with properties := e.properties.insert name v }

def setBody (e : Exchange) (v : Value) : Exchange := { e with body := v }

def setException (e : Exchange) (text : String) : Exchange := { e with exception := some text }

/-- The comparison of exchanges: ids and exceptions are equal, entries and bodies agree. -/
def agrees (a b : Exchange) : Bool :=
  a.id == b.id && entriesAgree a.headers.toList b.headers.toList &&
    entriesAgree a.properties.toList b.properties.toList && a.body.agrees b.body && a.exception == b.exception

/-- The header that is true on every redelivered exchange. -/
def redeliveredHeader : String := "AggregationRedelivered"

/-- The header with the number of the attempt, counted from one. -/
def counterHeader : String := "AggregationRedeliveryCounter"

/-- The header with the number of attempts allowed. -/
def maxCounterHeader : String := "AggregationRedeliveryMaxCounter"

/-- The property with the key the exchange was recovered from. -/
def keyProperty : String := "AggregationCorrelationKey"

/-- The exchange as the redelivery of its key with the given number. -/
def tagRedelivery (e : Exchange) (key : CorrelationKey) (attempt maximum : Nat) : Exchange :=
  (((e.setHeader redeliveredHeader (.bool true)).setHeader counterHeader (.int (.ofNat attempt))).setHeader
    maxCounterHeader (.int (.ofNat maximum))).setProperty keyProperty (.text key.text)

/-- A partly aggregated exchange with a text body. -/
def aggregate (id body : String) : Exchange :=
  (({ id } : Exchange).setHeader "aggregated" (.bool true)).setBody (.text body)

end Exchange

end DurableAggregates
