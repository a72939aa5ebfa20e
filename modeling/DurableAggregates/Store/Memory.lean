import DurableAggregates.Failure
import DurableAggregates.Snapshot.Decoding

/-!
# The store in memory

A `Store` keeps the binary form of a snapshot under each key, as a distributed cache would: a put encodes and a get
decodes. Faults can be injected: an operation can be made to fail for a key, the whole store can be made unavailable,
and keys can be listed that are not stored. Calls are counted, failed ones included. A put replaces the old entry
before it decodes it, so it can fail with the new entry in place; the other calls fail without an effect.
-/

namespace DurableAggregates

namespace Store

/-- A call that can be made to fail for a key. -/
inductive KeyedCall where
  | put
  | get
  | remove
  deriving DecidableEq, Repr

def KeyedCall.text : KeyedCall → String
  | .put => "Put"
  | .get => "Get"
  | .remove => "Remove"

structure Faults where
  /-- The calls that fail, with their keys. -/
  failing : List (KeyedCall × CorrelationKey) := []
  unavailable : Bool := false
  /-- Keys that are listed and not stored. -/
  phantoms : KeySet := ∅

/-- How many calls were made. -/
structure Calls where
  puts : Nat := 0
  gets : Nat := 0
  removes : Nat := 0
  keys : Nat := 0
  deriving DecidableEq, Repr

def Calls.total (c : Calls) : Nat := c.puts + c.gets + c.removes + c.keys

end Store

structure Store where
  data : KeyMap (List UInt8) := ∅
  faults : Store.Faults := {}
  calls : Store.Calls := {}

namespace Store

/-- The error that a call meets before it does anything. -/
def fault? (s : Store) (call : KeyedCall) (key : CorrelationKey) : Option StoreError :=
  if s.faults.unavailable then some (.unavailable "in-memory store offline")
  else if s.faults.failing.contains (call, key) then
    some (.backend s!"injected {call.text} failure for {key.text}")
  else none

/-- A stored entry in decoded form. -/
def decodeEntry : Option (List UInt8) → Except StoreError (Option Snapshot)
  | none => .ok none
  | some bytes =>
    match Snapshot.decode bytes with
    | .ok s => .ok (some s)
    | .error e => .error (.ofSnapshotError e)

/-- Stores a snapshot and answers the one it replaced. -/
def put (s : Store) (key : CorrelationKey) (v : Snapshot) : Except StoreError (Option Snapshot) × Store :=
  let s := { s with calls := { s.calls with puts := s.calls.puts + 1 } }
  match s.fault? .put key with
  | some e => (.error e, s)
  | none => (decodeEntry s.data[key]?, { s with data := s.data.insert key v.encode })

def get (s : Store) (key : CorrelationKey) : Except StoreError (Option Snapshot) × Store :=
  let s := { s with calls := { s.calls with gets := s.calls.gets + 1 } }
  match s.fault? .get key with
  | some e => (.error e, s)
  | none => (decodeEntry s.data[key]?, s)

/-- Removes what is stored under a key; an absent key is no error. -/
def remove (s : Store) (key : CorrelationKey) : Except StoreError Unit × Store :=
  let s := { s with calls := { s.calls with removes := s.calls.removes + 1 } }
  match s.fault? .remove key with
  | some e => (.error e, s)
  | none => (.ok (), { s with data := s.data.erase key })

/-- The keys that the store lists, in order. -/
def listed (s : Store) : List CorrelationKey := (s.faults.phantoms.insertMany s.data.keys).toList

def keys (s : Store) : Except StoreError (List CorrelationKey) × Store :=
  let s := { s with calls := { s.calls with keys := s.calls.keys + 1 } }
  if s.faults.unavailable then (.error (.unavailable "in-memory store offline"), s) else (.ok s.listed, s)

/-! ## Calls as requests -/

/-- A call of the store. -/
inductive Call where
  | put (key : CorrelationKey) (v : Snapshot)
  | get (key : CorrelationKey)
  | remove (key : CorrelationKey)
  | keys

/-- What a call returns. -/
abbrev Call.Result : Call → Type
  | .put _ _ => Except StoreError (Option Snapshot)
  | .get _ => Except StoreError (Option Snapshot)
  | .remove _ => Except StoreError Unit
  | .keys => Except StoreError (List CorrelationKey)

/-- The result of a call and the store after it. -/
def perform (s : Store) : (c : Call) → c.Result × Store
  | .put key v => s.put key v
  | .get key => s.get key
  | .remove key => s.remove key
  | .keys => s.keys

/-! ## Inspection and faults -/

def size (s : Store) : Nat := s.data.size

def contains (s : Store) (key : CorrelationKey) : Bool := s.data.contains key

def raw? (s : Store) (key : CorrelationKey) : Option (List UInt8) := s.data[key]?

/-- Stores bytes as they are. -/
def insertRaw (s : Store) (key : CorrelationKey) (bytes : List UInt8) : Store :=
  { s with data := s.data.insert key bytes }

def failOn (s : Store) (call : KeyedCall) (key : CorrelationKey) : Store :=
  { s with faults := { s.faults with failing := (call, key) :: s.faults.failing } }

def setUnavailable (s : Store) (unavailable : Bool) : Store :=
  { s with faults := { s.faults with unavailable } }

def addPhantom (s : Store) (key : CorrelationKey) : Store :=
  { s with faults := { s.faults with phantoms := s.faults.phantoms.insert key } }

/-- Drops all faults. -/
def heal (s : Store) : Store := { s with faults := {} }

/-- Drops all entries and faults. -/
def clear (s : Store) : Store := { s with data := ∅, faults := {} }

def resetCalls (s : Store) : Store := { s with calls := {} }

end Store

end DurableAggregates
