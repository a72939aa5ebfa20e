import DurableAggregates.Exchange.Basic

/-!
# Snapshots

A snapshot is the storable form of an exchange: the same five parts without live objects. `Snapshot.restore` makes an
exchange of it again. A snapshot error says which part of an exchange could not be serialized and why, or what is
wrong with a stored form.
-/

namespace DurableAggregates

open Calendar (Instant)

inductive SnapshotValue where
  | null
  | bool (b : Bool)
  | int (n : Int64)
  | float (x : Binary64)
  | text (s : String)
  | bytes (b : List UInt8)
  | timestamp (t : Instant)
  | sealed (v : SealedValue)
  deriving DecidableEq, Inhabited

def SnapshotValue.toValue : SnapshotValue → Value
  | .null => .null
  | .bool b => .bool b
  | .int n => .int n
  | .float x => .float x
  | .text s => .text s
  | .bytes b => .bytes b
  | .timestamp t => .timestamp t
  | .sealed v => .sealed v

structure Snapshot where
  id : String
  headers : Entries SnapshotValue := ∅
  properties : Entries SnapshotValue := ∅
  body : SnapshotValue := .null
  exception : Option String := none
  deriving Inhabited

/-- The exchange a snapshot stands for. -/
def Snapshot.restore (s : Snapshot) : Exchange where
  id := s.id
  headers := s.headers.map fun _ v => v.toValue
  properties := s.properties.map fun _ v => v.toValue
  body := s.body.toValue
  exception := s.exception

/-- Whether two snapshots are equal up to the comparison of their numbers. -/
def Snapshot.agrees (s t : Snapshot) : Bool := s.restore.agrees t.restore

/-- A part of an exchange that holds values. -/
inductive Section where
  | header
  | property
  | body
  deriving DecidableEq, Repr

def Section.text : Section → String
  | .header => "header"
  | .property => "property"
  | .body => "body"

inductive SnapshotError where
  | notSerializable (part : Section) (name typeName reason : String)
  | codec (detail : String)
  deriving DecidableEq, Repr

def SnapshotError.message : SnapshotError → String
  | .notSerializable part name typeName reason =>
    s!"Cannot serialize {part.text} '{name}' of type {typeName}: {reason}"
  | .codec detail => s!"Snapshot codec error: {detail}"

end DurableAggregates
