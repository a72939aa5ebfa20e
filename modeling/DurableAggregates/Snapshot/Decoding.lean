import DurableAggregates.Calendar.Reading
import DurableAggregates.Snapshot.Encoding

/-!
# Reading the binary form of a snapshot

`Snapshot.decode` reads the binary form from the front of a byte string and ignores what follows. It is more lenient
than the writer in two places: the entries of a map may come in any order, of entries with one name the last counts,
and a timestamp may be spelled in any way that `Calendar.Instant.read` accepts.
-/

namespace DurableAggregates

open Calendar (Instant ReadFault)

/-- What is wrong with a byte string that is no binary form of a snapshot. -/
inductive CodecFault where
  /-- A number or a single byte is missing. -/
  | endOfInput
  /-- Fewer bytes are left than a text should have. -/
  | shortText
  | notUtf8 (fault : Text.Utf8.Fault)
  | badBool (found : Nat)
  | badOption (found : Nat)
  | unknownTag (found : Nat)
  | badTimestamp (fault : ReadFault)
  deriving DecidableEq, Repr

def CodecFault.message : CodecFault → String
  | .endOfInput => "io error: unexpected end of file"
  | .shortText => "io error: "
  | .notUtf8 fault => s!"string is not valid utf8: {fault.message}"
  | .badBool found => s!"invalid u8 while decoding bool, expected 0 or 1, found {found}"
  | .badOption found => s!"tag for enum is not valid, found {found}"
  | .unknownTag found => s!"invalid value: integer `{found}`, expected variant index 0 <= i < 8"
  | .badTimestamp fault => fault.message

namespace Snapshot

/-- A step of decoding: takes bytes from the front of the rest. -/
abbrev Decoder := StateT (List UInt8) (Except CodecFault)

def failWith {α : Type} (fault : CodecFault) : Decoder α := fun _ => .error fault

/-- The next `n` bytes. -/
def take (n : Nat) (fault : CodecFault) : Decoder (List UInt8) := fun rest =>
  if rest.length < n then .error fault else .ok (rest.take n, rest.drop n)

def decodeNat (width : Nat) : Decoder Nat := ofLittleEndian <$> take width .endOfInput

def decodeText : Decoder String := do
  let length ← decodeNat 8
  let bytes ← take length .shortText
  match Text.Utf8.decode bytes with
  | .ok s => return s
  | .error fault => failWith (.notUtf8 fault)

def decodeBytes : Decoder (List UInt8) := do
  let length ← decodeNat 8
  take length .endOfInput

def decodeBool : Decoder Bool := do
  match ← decodeNat 1 with
  | 0 => return false
  | 1 => return true
  | b => failWith (.badBool b)

def decodeInstant : Decoder Instant := do
  let text ← decodeText
  match Instant.read text.toList with
  | .ok t => return t
  | .error fault => failWith (.badTimestamp fault)

def decodeValue : Decoder SnapshotValue := do
  match ← decodeNat 4 with
  | 0 => return .null
  | 1 => return .bool (← decodeBool)
  | 2 => return .int (UInt64.ofNat (← decodeNat 8)).toInt64
  | 3 => return .float ⟨.ofNat (← decodeNat 8)⟩
  | 4 => return .text (← decodeText)
  | 5 => return .bytes (← decodeBytes)
  | 6 => return .timestamp (← decodeInstant)
  | 7 =>
    let typeName ← decodeText
    let bytes ← decodeBytes
    return .sealed ⟨typeName, bytes⟩
  | tag => failWith (.unknownTag tag)

/-- Puts the next `n` entries into a map. -/
def decodeEntriesInto : Nat → Entries SnapshotValue → Decoder (Entries SnapshotValue)
  | 0, entries => return entries
  | n + 1, entries => do
    let name ← decodeText
    let v ← decodeValue
    decodeEntriesInto n (entries.insert name v)

def decodeEntries : Decoder (Entries SnapshotValue) := do
  let count ← decodeNat 8
  decodeEntriesInto count ∅

def decodeOption : Decoder (Option String) := do
  match ← decodeNat 1 with
  | 0 => return none
  | 1 => return some (← decodeText)
  | b => failWith (.badOption b)

def decodeSnapshot : Decoder Snapshot := do
  let id ← decodeText
  let headers ← decodeEntries
  let properties ← decodeEntries
  let body ← decodeValue
  let exception ← decodeOption
  return { id, headers, properties, body, exception }

/-- The snapshot at the front of a byte string and the bytes after it. -/
def decodeWithRest (bytes : List UInt8) : Except CodecFault (Snapshot × List UInt8) := decodeSnapshot.run bytes

/-- The snapshot at the front of a byte string. -/
def decode (bytes : List UInt8) : Except SnapshotError Snapshot :=
  match decodeWithRest bytes with
  | .ok (s, _) => .ok s
  | .error fault => .error (.codec fault.message)

end Snapshot

end DurableAggregates
