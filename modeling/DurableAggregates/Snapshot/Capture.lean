import DurableAggregates.Snapshot.Basic

/-!
# Capturing an exchange

`Exchange.capture` turns an exchange into a snapshot. Primitive values are always kept. A header or property that is
no primitive is dropped, or kept in sealed form where the policy allows it; a live object that has no serialized form
is then an error. The body is never dropped. Of several errors the first counts: headers in the order of their names,
then properties, then the body.
-/

namespace DurableAggregates

/-- The value in storable form, or the type name and the reason of an object that has none. -/
def Value.seal : Value → Except (String × String) SnapshotValue
  | .null => .ok .null
  | .bool b => .ok (.bool b)
  | .int n => .ok (.int n)
  | .float x => .ok (.float x)
  | .text s => .ok (.text s)
  | .bytes b => .ok (.bytes b)
  | .timestamp t => .ok (.timestamp t)
  | .sealed v => .ok (.sealed v)
  | .live o =>
    match o.serialized with
    | .ok form => .ok (.sealed ⟨o.typeName, form⟩)
    | .error reason => .error (o.typeName, reason)

/-- Whether a header or property with this value is kept. -/
def Value.isKept (allow : Bool) (v : Value) : Bool := v.isPrimitive || allow

/-- The storable form of a header or property, if it is kept and has one. -/
def Value.kept? (allow : Bool) (v : Value) : Option SnapshotValue :=
  if v.isKept allow then v.seal.toOption else none

/-- The error of a header or property that is to be kept and has no storable form. -/
def Value.captureError? (part : Section) (allow : Bool) (name : String) (v : Value) : Option SnapshotError :=
  if v.isKept allow then
    match v.seal with
    | .ok _ => none
    | .error (typeName, reason) => some (.notSerializable part name typeName reason)
  else none

/-- The storable headers or properties; the first that cannot be stored, in the order of names, is an error. -/
def captureEntries (part : Section) (allow : Bool) (entries : Entries Value) :
    Except SnapshotError (Entries SnapshotValue) :=
  match entries.toList.findSome? fun (name, v) => v.captureError? part allow name with
  | some e => .error e
  | none => .ok (entries.filterMap fun _ v => v.kept? allow)

def Value.captureBody (v : Value) : Except SnapshotError SnapshotValue :=
  match v.seal with
  | .ok body => .ok body
  | .error (typeName, reason) => .error (.notSerializable .body "body" typeName reason)

/-- The snapshot of an exchange; `allow` says whether headers and properties that are no primitives are kept. -/
def Exchange.capture (e : Exchange) (allow : Bool) : Except SnapshotError Snapshot := do
  let headers ← captureEntries .header allow e.headers
  let properties ← captureEntries .property allow e.properties
  let body ← e.body.captureBody
  return { id := e.id, headers, properties, body, exception := e.exception }

end DurableAggregates
