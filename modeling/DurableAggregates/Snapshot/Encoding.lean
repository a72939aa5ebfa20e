import DurableAggregates.Calendar.Written
import DurableAggregates.Snapshot.Basic
import DurableAggregates.Text.Utf8

/-!
# The binary form of a snapshot

Numbers are little-endian and of fixed width. A text is its number of bytes in eight bytes and its UTF-8 form; a map
is its number of entries and the entries in the order of their names; an optional text is a byte 0, or a byte 1 and
the text; a value is a tag of four bytes and its content. A snapshot is its id, headers, properties, body and
exception.
-/

namespace DurableAggregates

namespace Snapshot

/-- The last `width` bytes of a number, the lowest first. -/
def littleEndian : Nat → Nat → List UInt8
  | 0, _ => []
  | w + 1, n => .ofNat n :: littleEndian w (n / 256)

/-- The number with these bytes. -/
def ofLittleEndian : List UInt8 → Nat
  | [] => 0
  | b :: r => b.toNat + 256 * ofLittleEndian r

def encodeText (s : String) : List UInt8 :=
  let bytes := Text.Utf8.encode s
  littleEndian 8 bytes.length ++ bytes

def encodeBytes (bytes : List UInt8) : List UInt8 := littleEndian 8 bytes.length ++ bytes

def encodeBool (b : Bool) : List UInt8 := [if b then 1 else 0]

def encodeValue : SnapshotValue → List UInt8
  | .null => littleEndian 4 0
  | .bool b => littleEndian 4 1 ++ encodeBool b
  | .int n => littleEndian 4 2 ++ littleEndian 8 n.toUInt64.toNat
  | .float x => littleEndian 4 3 ++ littleEndian 8 x.bits.toNat
  | .text s => littleEndian 4 4 ++ encodeText s
  | .bytes b => littleEndian 4 5 ++ encodeBytes b
  | .timestamp t => littleEndian 4 6 ++ encodeText (.ofList t.text)
  | .sealed v => littleEndian 4 7 ++ encodeText v.typeName ++ encodeBytes v.bytes

def encodeEntry (entry : String × SnapshotValue) : List UInt8 := encodeText entry.1 ++ encodeValue entry.2

def encodeEntries (entries : Entries SnapshotValue) : List UInt8 :=
  littleEndian 8 entries.toList.length ++ entries.toList.flatMap encodeEntry

def encodeOption : Option String → List UInt8
  | none => [0]
  | some s => 1 :: encodeText s

/-- The binary form. -/
def encode (s : Snapshot) : List UInt8 :=
  encodeText s.id ++ encodeEntries s.headers ++ encodeEntries s.properties ++ encodeValue s.body ++
    encodeOption s.exception

end Snapshot

end DurableAggregates
