/-!
# Faults of byte strings that should be UTF-8

A byte string that is no UTF-8 text fails at its first ill-formed sequence. `firstFault` finds the place and says what
is wrong there: a number of bytes that cannot begin or continue a character, or an end inside a character that was
well formed so far. The ranges of second bytes exclude overlong forms, surrogates and numbers above U+10FFFF.
-/

namespace DurableAggregates.Text.Utf8

structure Fault where
  index : Nat
  /-- How many bytes are wrong; none where the text ends inside a character. -/
  invalid : Option Nat
  deriving DecidableEq, Repr

def Fault.message (f : Fault) : String :=
  match f.invalid with
  | some n => s!"invalid utf-8 sequence of {n} bytes from index {f.index}"
  | none => s!"incomplete utf-8 byte sequence from index {f.index}"

/-- What a first byte announces: the number of bytes that follow and the range of the second. -/
inductive Lead where
  | one
  | two
  | three (low high : UInt8)
  | four (low high : UInt8)
  | invalid
  deriving DecidableEq, Repr

def lead (b : UInt8) : Lead :=
  if b < 0x80 then .one
  else if b < 0xc2 then .invalid
  else if b < 0xe0 then .two
  else if b == 0xe0 then .three 0xa0 0xbf
  else if b == 0xed then .three 0x80 0x9f
  else if b < 0xf0 then .three 0x80 0xbf
  else if b == 0xf0 then .four 0x90 0xbf
  else if b < 0xf4 then .four 0x80 0xbf
  else if b == 0xf4 then .four 0x80 0x8f
  else .invalid

def within (low high b : UInt8) : Bool := low ≤ b && b ≤ high

def continues (b : UInt8) : Bool := within 0x80 0xbf b

/-- The first fault of the bytes, whose first byte has the given index in the whole text. -/
def faultFrom (i : Nat) : List UInt8 → Option Fault
  | [] => none
  | a :: t =>
    match lead a with
    | .one => faultFrom (i + 1) t
    | .invalid => some ⟨i, some 1⟩
    | .two =>
      match t with
      | [] => some ⟨i, none⟩
      | b :: t => if continues b then faultFrom (i + 2) t else some ⟨i, some 1⟩
    | .three low high =>
      match t with
      | [] => some ⟨i, none⟩
      | b :: t =>
        if within low high b then
          match t with
          | [] => some ⟨i, none⟩
          | c :: t => if continues c then faultFrom (i + 3) t else some ⟨i, some 2⟩
        else some ⟨i, some 1⟩
    | .four low high =>
      match t with
      | [] => some ⟨i, none⟩
      | b :: t =>
        if within low high b then
          match t with
          | [] => some ⟨i, none⟩
          | c :: t =>
            if continues c then
              match t with
              | [] => some ⟨i, none⟩
              | d :: t => if continues d then faultFrom (i + 4) t else some ⟨i, some 3⟩
            else some ⟨i, some 2⟩
        else some ⟨i, some 1⟩

def firstFault (bytes : List UInt8) : Option Fault := faultFrom 0 bytes

/-- The text whose UTF-8 form the bytes are, or their first fault. -/
def decode (bytes : List UInt8) : Except Fault String :=
  match String.fromUTF8? ⟨bytes.toArray⟩ with
  | some s => .ok s
  | none => .error ((firstFault bytes).getD ⟨bytes.length, none⟩)

/-- The UTF-8 form of a text. -/
def encode (s : String) : List UInt8 := s.toByteArray.data.toList

@[simp] theorem length_encode (s : String) : (encode s).length = s.utf8ByteSize := by
  rw [encode, Array.length_toList]; rfl

/-- Decoding undoes encoding. -/
theorem decode_encode (s : String) : decode (encode s) = .ok s := by
  have h : (⟨(encode s).toArray⟩ : ByteArray) = s.toByteArray := by simp [encode]
  simp [decode, h, String.fromUTF8?, s.isValidUTF8, String.fromUTF8]

/-- A byte string that decodes is the encoding of the text. -/
theorem encode_of_decode {bytes : List UInt8} {s : String} (h : decode bytes = .ok s) : encode s = bytes := by
  unfold decode at h
  split at h
  · next t ht =>
    cases h
    simp only [String.fromUTF8?] at ht
    split at ht
    · cases ht; simp [encode, String.fromUTF8]
    · cases ht
  · cases h

end DurableAggregates.Text.Utf8
