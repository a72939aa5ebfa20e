import DurableAggregates.Binary64
import DurableAggregates.Calendar.Instant

/-!
# Values of headers, properties and bodies

A value is a primitive, a sealed value (a type name and bytes, as a store keeps objects), or a live object of the
running process, which can only be kept by serializing it. `Value.agrees` is the comparison between values: sealed
values compare by content, live objects by identity, numbers as IEEE 754 says, and values of different kinds never
agree. It therefore fails on a value and itself exactly for a NaN (`Value.agrees_self_iff`).
-/

namespace DurableAggregates

open Calendar (Instant)

/-- An object of the running process: which one it is, its type, and its serialized form or why it has none. -/
structure LiveObject where
  ident : Nat
  typeName : String
  serialized : Except String (List UInt8)

/-- An object in serialized form. -/
structure SealedValue where
  typeName : String
  bytes : List UInt8
  deriving DecidableEq, Repr, Inhabited

inductive Value where
  | null
  | bool (b : Bool)
  | int (n : Int64)
  | float (x : Binary64)
  | text (s : String)
  | bytes (b : List UInt8)
  | timestamp (t : Instant)
  | sealed (v : SealedValue)
  | live (o : LiveObject)
  deriving Inhabited

namespace Value

/-- Whether a capture always keeps the value. -/
def isPrimitive : Value → Bool
  | .sealed _ | .live _ => false
  | _ => true

def isNull : Value → Bool
  | .null => true
  | _ => false

def text? : Value → Option String
  | .text s => some s
  | _ => none

def int? : Value → Option Int64
  | .int n => some n
  | _ => none

def bool? : Value → Option Bool
  | .bool b => some b
  | _ => none

/-- The comparison of values. -/
def agrees : Value → Value → Bool
  | .null, .null => true
  | .bool a, .bool b => a == b
  | .int a, .int b => a == b
  | .float a, .float b => a.equals b
  | .text a, .text b => a == b
  | .bytes a, .bytes b => a == b
  | .timestamp a, .timestamp b => a == b
  | .sealed a, .sealed b => a == b
  | .live a, .live b => a.ident == b.ident
  | _, _ => false

def isNaN : Value → Bool
  | .float x => x.isNaN
  | _ => false

theorem agrees_self_iff (v : Value) : v.agrees v = true ↔ v.isNaN = false := by
  cases v <;> simp [agrees, isNaN, Binary64.equals_self_iff]

end Value

/-- What converts into a value. -/
class ToValue (α : Type) where
  toValue : α → Value

export ToValue (toValue)

instance : ToValue Bool := ⟨.bool⟩
instance : ToValue Int64 := ⟨.int⟩
instance : ToValue Int32 := ⟨fun n => .int n.toInt64⟩
instance : ToValue UInt32 := ⟨fun n => .int (.ofNat n.toNat)⟩
instance : ToValue Binary64 := ⟨.float⟩
instance : ToValue String := ⟨.text⟩
instance : ToValue (List UInt8) := ⟨.bytes⟩
instance : ToValue Instant := ⟨.timestamp⟩
instance : ToValue LiveObject := ⟨.live⟩

end DurableAggregates
